/-
Module: Snert.Proofs.UriTokens
Purpose: When the search for URIs in a message stays in its buffer. The buffer never overflows; what
  goes wrong is the trimming of a token of which nothing is left, and of one that is a name, an
  equals sign and a quote.
Trusted boundary: none
Main exports: uriMime_bounded_iff
-/
import Snert.CModel.Events
import Snert.Proofs.HtmlEntityDecode
import Snert.Util.UriMime

namespace Snert

open CModel CModel.Run

/-! ### What is asked for -/

/-- The length given to `uriParse2` is what is left of the token, and not negative. -/
def UriToken.Whole (token : UriToken) : Prop :=
  0 ≤ token.length ∧ token.start + token.length = token.tokenLength

/-- All that has been handed to `uriParse2` was what was left of a token. -/
def UriMime.Sound (hold : UriMime) : Prop :=
  ∀ token ∈ hold.parsed, token.Whole

/-- The token without a closing bracket. -/
def unbracketed (token : List Octet) : List Octet :=
  if token.getLast? = some (ch ')') ∨ token.getLast? = some (ch '\'') then token.dropLast else token

/-- The token is empty, or it has an octet other than an underscore in front of a closing bracket
and is not just a name, an equals sign and a single quote. -/
def WellTrimmed (token : List Octet) : Prop :=
  token = [] ∨ (∃ c ∈ unbracketed token, c ≠ ch '_') ∧
    ∀ name, (∀ c ∈ name, isalnum c) → token ≠ name ++ ascii "='"

/-- What is held when the hook looks at an octet: nothing of a full buffer. -/
def UriMime.held (hold : UriMime) : Nat :=
  if URI_MIME_BUFFER_SIZE ≤ hold.length then 0 else hold.length

/-- The token that an octet ends: the octet is a delimiter, or the semicolon of a no-break space. -/
def UriMime.token (hold : UriMime) (c : Octet) : Option (List Octet) :=
  if hold.headersAndBody = false ∧ hold.isBody ∧ hold.isTextPart = false ∨ c = ch '\r' then none
  else if isCharURI c = false then some (hold.buffer.octets.take hold.held)
  else
    let offset := strlrcspn hold.buffer.octets (ascii "&") hold.held
    let text := (hold.buffer.splice hold.held [c]).octets.drop (offset - 1)
    if 0 < offset ∧ c = ch ';' ∧ entityOctet text = HTML_ENTITY_NBSP then
      some (hold.buffer.octets.take (offset - 1))
    else none

/-- A token that the event ends can be trimmed. -/
def UriMime.Meets (hold : UriMime) : UriEvent → Prop
  | .octet c => ∀ token, hold.token c = some token → WellTrimmed token
  | _ => True

/-! ### Trimming -/

section Buffer

variable {buffer : Buffer URI_MIME_BUFFER_SIZE}

theorem spanAt_ends (test : Octet → Bool) {i q : Nat} (hi : i ≤ q)
    (hq : q < URI_MIME_BUFFER_SIZE) (htest : test (buffer.get q) = false) :
    (UriMime.spanAt buffer i test).Ends fun span => i + span ≤ q := by
  have hlength : ((buffer.octets.drop i).takeWhile test).length ≤ q - i := by
    have hdrop := drop_octets_eq_cons buffer hq
    rw [← List.take_append_drop (q - i) (buffer.octets.drop i), List.drop_drop,
      Nat.add_sub_cancel' hi, hdrop, takeWhile_append_delimiter htest]
    exact Nat.le_trans (List.takeWhile_sublist _).length_le
      (by rw [List.length_take]; exact Nat.min_le_left _ _)
  refine ⟨(inBounds_load _ _).mpr (Access.inBounds_iff_le.mpr (by omega)), _, rfl, ?_⟩
  omega

theorem trimUnderscores_ends {length : Nat} (hlength : length ≤ URI_MIME_BUFFER_SIZE)
    (h : ∃ j < length, buffer.get j ≠ ch '_') :
    (UriMime.trimUnderscores buffer length).Ends fun r => 0 < r.1 ∧ r.1 ≤ length ∧
      (∀ j, r.1 ≤ j → j < length → buffer.get j = ch '_') ∧
      (r.1 < length → r.2.get r.1 = 0) ∧ ∀ j, length ≤ j → r.2.get j = buffer.get j := by
  induction length generalizing buffer with
  | zero => exact absurd h (by simp)
  | succ length ih =>
      rw [UriMime.trimUnderscores, (buffer.yields_read hlength).bind_ends_iff]
      by_cases hc : buffer.get length = ch '_'
      · have hroom : length + [(0 : Octet)].length ≤ URI_MIME_BUFFER_SIZE := hlength
        have hfront : ∀ j < length, (buffer.splice length [0]).get j = buffer.get j :=
          fun j hj => Buffer.get_eq_of_take_eq (buffer.take_splice (Nat.le_refl _) hroom) hj
        have hbehind : ∀ j, length + 1 ≤ j → (buffer.splice length [0]).get j = buffer.get j :=
          fun j hj => Buffer.get_eq_of_drop_eq (buffer.drop_splice (Nat.le_refl _) hroom) hj
        obtain ⟨j, hj, hne⟩ := h
        have hjlt : j < length := by
          rcases Nat.lt_succ_iff_lt_or_eq.mp hj with hlt | rfl
          · exact hlt
          · exact absurd hc hne
        rw [if_pos hc, (buffer.yields_write [0] hroom).bind_ends_iff]
        refine (ih (Nat.le_of_succ_le hlength) ⟨j, hjlt, by rwa [hfront j hjlt]⟩).mono ?_
        rintro ⟨l, b⟩ ⟨hpos, hle, hunder, hnul, hkeep⟩
        dsimp only at hpos hle hunder hnul hkeep ⊢
        refine ⟨hpos, Nat.le_succ_of_le hle, fun j hlow hhigh => ?_, fun _ => ?_, fun j hj => ?_⟩
        · rcases Nat.lt_succ_iff_lt_or_eq.mp hhigh with hlt | rfl
          · rw [← hfront j hlt]
            exact hunder j hlow hlt
          · exact hc
        · rcases Nat.lt_or_eq_of_le hle with hlt | rfl
          · exact hnul hlt
          · rw [hkeep _ (Nat.le_refl _)]
            exact Buffer.get_splice_self _ hlength
        · rw [hkeep j (by omega), hbehind j hj]
      · rw [if_neg hc]
        refine ends_pure.mpr ⟨Nat.succ_pos _, Nat.le_refl _, fun j hlow hhigh => ?_,
          fun h => absurd h (Nat.lt_irrefl _), fun _ _ => rfl⟩
        dsimp only at hlow
        omega

theorem trimUnderscores_strays {length : Nat} (hlength : length ≤ URI_MIME_BUFFER_SIZE)
    (h : ∀ j < length, buffer.get j = ch '_') {Q : Nat × Buffer URI_MIME_BUFFER_SIZE → Prop} :
    ¬ (UriMime.trimUnderscores buffer length).Ends Q := by
  induction length generalizing buffer with
  | zero => exact not_ends_overrun
  | succ length ih =>
      have hroom : length + [(0 : Octet)].length ≤ URI_MIME_BUFFER_SIZE := hlength
      rw [UriMime.trimUnderscores, (buffer.yields_read hlength).bind_ends_iff,
        if_pos (h length (Nat.lt_succ_self _)), (buffer.yields_write [0] hroom).bind_ends_iff]
      refine ih (Nat.le_of_succ_le hlength) fun j hj => ?_
      rw [Buffer.get_eq_of_take_eq (buffer.take_splice (Nat.le_refl _) hroom) hj]
      exact h j (Nat.lt_succ_of_lt hj)

end Buffer

/-! ### The end of a token -/

/-- Where a token begins behind a name and an equals sign. -/
def behindName (token : List Octet) : Nat :=
  let span := (token.takeWhile isalnum).length
  if token.getD span 0 = ch '=' then span + 1 else 0

/-- Where a token begins behind an opening bracket too. -/
def tokenStart (token : List Octet) : Nat :=
  let bracket := token.getD (behindName token) 0
  if bracket = ch '(' ∨ bracket = ch '\'' then behindName token + 1 else behindName token

theorem getD_eq_of_lt {token : List Octet} {i : Nat} {c : Octet} (h : token.getD i 0 = c)
    (hc : c ≠ 0) : i < token.length := by
  by_contra hle
  rw [List.getD_eq_getElem?_getD, List.getElem?_eq_none (Nat.not_lt.mp hle)] at h
  exact hc h.symm

theorem behindName_le (token : List Octet) : behindName token ≤ token.length := by
  unfold behindName
  dsimp only
  split
  next h => exact getD_eq_of_lt h (by decide)
  next => exact Nat.zero_le _

theorem tokenStart_le (token : List Octet) : tokenStart token ≤ token.length := by
  unfold tokenStart
  dsimp only
  split
  next h =>
    rcases h with h | h
    · exact getD_eq_of_lt h (by decide)
    · exact getD_eq_of_lt h (by decide)
  next => exact behindName_le token

section Delimiter

variable {hold : UriMime} {token : List Octet} {buffer : Buffer URI_MIME_BUFFER_SIZE}

theorem get_of_terminated (h : ∃ rest, buffer.octets = token ++ 0 :: rest) {i : Nat}
    (hi : i ≤ token.length) : buffer.get i = token.getD i 0 := by
  obtain ⟨rest, h⟩ := h
  rw [Buffer.get, h, List.getD_eq_getElem?_getD, List.getD_eq_getElem?_getD]
  rcases Nat.lt_or_eq_of_le hi with hlt | rfl
  · rw [List.getElem?_append_left hlt]
  · simp

theorem room_of_terminated (h : ∃ rest, buffer.octets = token ++ 0 :: rest) :
    token.length < URI_MIME_BUFFER_SIZE := by
  obtain ⟨rest, h⟩ := h
  have hn := buffer.length_octets
  rw [h, List.length_append, List.length_cons] at hn
  omega

theorem spanAt_name (h : ∃ rest, buffer.octets = token ++ 0 :: rest) :
    (UriMime.spanAt buffer 0 isalnum).Yields (token.takeWhile isalnum).length := by
  have hroom := room_of_terminated h
  obtain ⟨rest, h⟩ := h
  have hspan : ((buffer.octets.drop 0).takeWhile isalnum) = token.takeWhile isalnum := by
    rw [List.drop_zero, h, takeWhile_append_delimiter (by decide)]
  have hle : (token.takeWhile isalnum).length ≤ token.length :=
    (List.takeWhile_sublist _).length_le
  rw [UriMime.spanAt, hspan]
  exact ⟨(inBounds_load _ _).mpr (Access.inBounds_iff_le.mpr (by omega)), _, rfl, rfl⟩

theorem length_unbracketed (token : List Octet) : (unbracketed token).length =
    if token.getD (token.length - 1) 0 = ch ')' ∨ token.getD (token.length - 1) 0 = ch '\'' then
      token.length - 1
    else token.length := by
  have hlast : ∀ c, c ≠ 0 → (token.getLast? = some c ↔ token.getD (token.length - 1) 0 = c) := by
    intro c hc
    rw [List.getLast?_eq_getElem?, List.getD_eq_getElem?_getD]
    cases token[token.length - 1]? with
    | none => simp [Ne.symm hc]
    | some d => simp
  have hiff := or_congr (hlast (ch ')') (by decide)) (hlast (ch '\'') (by decide))
  unfold unbracketed
  by_cases h : token.getLast? = some (ch ')') ∨ token.getLast? = some (ch '\'')
  · rw [if_pos h, if_pos (hiff.mp h), List.length_dropLast]
  · rw [if_neg h, if_neg fun h' => h (hiff.mpr h')]

theorem delimiter_ends_iff (htoken : token ≠ []) (hlength : hold.length = token.length)
    (hbuffer : (hold.buffer.splice token.length [0]) = buffer)
    (h : ∃ rest, buffer.octets = token ++ 0 :: rest) {Q : UriMime → Prop} :
    hold.delimiter.Ends Q ↔
      (UriMime.trimUnderscores buffer (unbracketed token).length >>= fun (length, buffer) =>
        UriMime.spanAt buffer (tokenStart token) (· = ch '_') >>= fun span =>
          let value := tokenStart token + span
          pure { hold with
            length := 0
            buffer := buffer
            parsed := hold.parsed ++ [⟨value, length, toInt32 (sizeT (length - value))⟩] }).Ends
        Q := by
  have hroom := room_of_terminated h
  have hpos : 0 < token.length := List.length_pos_of_ne_nil htoken
  have hwrite := hold.buffer.yields_write [0] (i := token.length) hroom
  rw [hbuffer] at hwrite
  have hread : ∀ i, i ≤ token.length → (buffer.read (i : Nat)).Yields (token.getD i 0) := by
    intro i hi
    rw [← get_of_terminated h hi]
    exact buffer.yields_read (Nat.lt_of_le_of_lt hi hroom)
  have hlast : ((token.length : Int) - 1) = ((token.length - 1 : Nat) : Int) := by omega
  have hspan : (token.takeWhile isalnum).length ≤ token.length :=
    (List.takeWhile_sublist _).length_le
  rw [UriMime.delimiter, if_neg (by omega), hlength, hwrite.bind_ends_iff,
    (spanAt_name h).bind_ends_iff, (hread _ hspan).bind_ends_iff, hlast]
  refine (hread _ (behindName_le token)).bind_ends_iff.trans ?_
  refine (hread _ (Nat.sub_le _ _)).bind_ends_iff.trans ?_
  rw [length_unbracketed]
  exact Iff.rfl

theorem prefix_unbracketed (token : List Octet) : unbracketed token <+: token := by
  unfold unbracketed
  split
  · exact List.dropLast_prefix _
  · exact List.prefix_refl _

theorem exists_unbracketed_iff (token : List Octet) : (∃ c ∈ unbracketed token, c ≠ ch '_') ↔
    ∃ j < (unbracketed token).length, token.getD j 0 ≠ ch '_' := by
  have hget : ∀ j, (hj : j < (unbracketed token).length) →
      token.getD j 0 = (unbracketed token)[j] := by
    intro j hj
    have hlt := Nat.lt_of_lt_of_le hj (prefix_unbracketed token).length_le
    rw [List.getD_eq_getElem?_getD, List.getElem?_eq_getElem hlt,
      (prefix_unbracketed token).getElem hj]
    rfl
  constructor
  · rintro ⟨c, hc, hne⟩
    obtain ⟨j, hj, rfl⟩ := List.getElem_of_mem hc
    exact ⟨j, hj, by rwa [hget j hj]⟩
  · rintro ⟨j, hj, hne⟩
    exact ⟨_, List.getElem_mem hj, by rwa [← hget j hj]⟩

theorem tokenStart_quoted {name : List Octet} (h : ∀ c ∈ name, isalnum c) :
    tokenStart (name ++ ascii "='") = name.length + 2 ∧
      (unbracketed (name ++ ascii "='")).length = name.length + 1 := by
  have hspan : ((name ++ ascii "='").takeWhile isalnum) = name := by
    rw [List.takeWhile_append_of_pos h]
    exact List.append_nil _
  have hequals : (name ++ ascii "='").getD name.length 0 = ch '=' := by simp [ascii]
  have hquote : (name ++ ascii "='").getD (name.length + 1) 0 = ch '\'' := by simp [ascii]
  have hlength : (name ++ ascii "='").length = name.length + 2 := List.length_append
  have hbehind : behindName (name ++ ascii "='") = name.length + 1 := by
    rw [behindName, hspan]
    exact if_pos hequals
  constructor
  · rw [tokenStart, hbehind]
    exact if_pos (.inr hquote)
  · rw [length_unbracketed, hlength]
    exact if_pos (.inr hquote)

theorem closing_of_getD {l i : Nat} {c : Octet}
    (hunder : ∀ j, l ≤ j → j < (unbracketed token).length → token.getD j 0 = ch '_')
    (hl : l ≤ i) (hi : token.getD i 0 = c) (hnul : c ≠ 0) (hc : c ≠ ch '_') :
    i + 1 = token.length ∧ (c = ch ')' ∨ c = ch '\'') := by
  have hlt := getD_eq_of_lt hi hnul
  have hge : (unbracketed token).length ≤ i := by
    by_contra hlt'
    exact hc (hi.symm.trans (hunder i hl (Nat.not_le.mp hlt')))
  rw [length_unbracketed] at hge
  split at hge
  next hclosing =>
    have hindex : i = token.length - 1 := by omega
    rw [← hindex, hi] at hclosing
    exact ⟨by omega, hclosing⟩
  next => omega

theorem quoted_of_tokenStart {l : Nat} (hpos : 0 < l)
    (hunder : ∀ j, l ≤ j → j < (unbracketed token).length → token.getD j 0 = ch '_')
    (h : l < tokenStart token) :
    ∃ name, (∀ c ∈ name, isalnum c) ∧ token = name ++ ascii "='" := by
  have hname : 0 < behindName token → behindName token = (token.takeWhile isalnum).length + 1 ∧
      token.getD (token.takeWhile isalnum).length 0 = ch '=' := by
    intro h
    unfold behindName at h ⊢
    dsimp only at h ⊢
    split
    next hequals => exact ⟨rfl, hequals⟩
    next hequals =>
      rw [if_neg hequals] at h
      exact absurd h (Nat.lt_irrefl 0)
  unfold tokenStart at h
  dsimp only at h
  split at h
  next hbracket =>
    obtain ⟨hbehind, hequals⟩ := hname (by omega)
    obtain ⟨hend, hquote⟩ := closing_of_getD (i := behindName token) hunder (by omega) rfl
      (by rcases hbracket with h | h <;> rw [h] <;> decide)
      (by rcases hbracket with h | h <;> rw [h] <;> decide)
    have hquote : token.getD (behindName token) 0 = ch '\'' := by
      rcases hbracket with h | h
      · rw [h] at hquote
        exact absurd hquote (by decide)
      · exact h
    rw [hbehind] at hend hquote
    have halnum : ∀ c ∈ token.takeWhile isalnum, isalnum c :=
      List.all_eq_true.mp List.all_takeWhile
    have hsplit := List.takeWhile_append_dropWhile (p := isalnum) (l := token)
    generalize token.takeWhile isalnum = name at hsplit hequals hquote hend halnum
    generalize token.dropWhile isalnum = rest at hsplit
    subst hsplit
    rw [List.length_append] at hend
    obtain ⟨c, d, rfl⟩ := List.length_eq_two.mp (show rest.length = 2 by omega)
    refine ⟨name, halnum, ?_⟩
    simp only [List.getD_eq_getElem?_getD, List.getElem?_append_right (Nat.le_refl _),
      List.getElem?_append_right (Nat.le_succ _), Nat.sub_self] at hequals hquote
    have hone : name.length + 1 - name.length = 1 := by omega
    rw [hone] at hquote
    obtain rfl : c = ch '=' := hequals
    obtain rfl : d = ch '\'' := hquote
    rfl
  next =>
    obtain ⟨hbehind, hequals⟩ := hname (by omega)
    obtain ⟨-, hclosing⟩ := closing_of_getD hunder (by omega) hequals (by decide) (by decide)
    exact absurd hclosing (by decide)

theorem toInt32_sizeT {x : Int} (h : 0 ≤ x) (hlt : x ≤ URI_MIME_BUFFER_SIZE) :
    toInt32 (sizeT x) = x := by
  have hx : x ≤ 1024 := hlt
  rw [sizeT_of_nonneg h (by omega), Int.toNat_of_nonneg h, toInt32,
    Int.bmod_eq_of_le (by omega) (by omega)]

theorem delimiter_ends (htoken : token ≠ []) (hlength : hold.length = token.length)
    (hbuffer : (hold.buffer.splice token.length [0]) = buffer)
    (h : ∃ rest, buffer.octets = token ++ 0 :: rest)
    (hleft : ∃ c ∈ unbracketed token, c ≠ ch '_') :
    hold.delimiter.Ends fun hold' => hold'.length = 0 ∧ ∃ t, hold'.parsed = hold.parsed ++ [t] ∧
      (t.Whole ↔ ∀ name, (∀ c ∈ name, isalnum c) → token ≠ name ++ ascii "='") := by
  have hroom := room_of_terminated h
  have hunbracketed := (prefix_unbracketed token).length_le
  obtain ⟨j, hj, hne⟩ := (exists_unbracketed_iff token).mp hleft
  have hget : ∀ {i}, i < (unbracketed token).length → buffer.get i = token.getD i 0 :=
    fun hi => get_of_terminated h (by omega)
  rw [delimiter_ends_iff htoken hlength hbuffer h, ends_bind]
  refine (trimUnderscores_ends (by omega) ⟨j, hj, by rwa [hget hj]⟩).mono ?_
  rintro ⟨l, b⟩ ⟨hpos, hle, hunder, hnul, hkeep⟩
  dsimp only at hpos hle hunder hnul hkeep ⊢
  have hunder' : ∀ j, l ≤ j → j < (unbracketed token).length → token.getD j 0 = ch '_' :=
    fun j hlow hhigh => (hget hhigh).symm.trans (hunder j hlow hhigh)
  by_cases hstart : tokenStart token ≤ l
  · -- The octet behind what is left is no underscore.
    have hstop : b.get l ≠ ch '_' := by
      rcases Nat.lt_or_eq_of_le hle with hlt | heq
      · rw [hnul hlt]
        decide
      · rw [hkeep l (Nat.le_of_eq heq.symm), get_of_terminated h (by omega)]
        have hclosing := length_unbracketed token
        split at hclosing
        next hbracket =>
          rw [heq, hclosing]
          rcases hbracket with h | h <;> rw [h] <;> decide
        next =>
          rw [heq, hclosing, List.getD_eq_getElem?_getD, List.getElem?_eq_none (Nat.le_refl _)]
          decide
    rw [ends_bind]
    refine (spanAt_ends (· = ch '_') hstart (by omega) (decide_eq_false hstop)).mono ?_
    intro span hspan
    refine ends_pure.mpr ⟨rfl, _, rfl, ?_⟩
    have hleft : (0 : Int) ≤ l - (tokenStart token + span : Nat) := by omega
    have hint := toInt32_sizeT hleft (by omega)
    constructor
    · rintro - name hname rfl
      obtain ⟨hbehind, hshort⟩ := tokenStart_quoted hname
      omega
    · intro _
      refine ⟨?_, ?_⟩
      · dsimp only
        rw [hint]
        exact hleft
      · dsimp only
        rw [hint]
        omega
  · have hend : b.get token.length = 0 := by
      rw [hkeep _ hunbracketed, get_of_terminated h (Nat.le_refl _), List.getD_eq_getElem?_getD,
        List.getElem?_eq_none (Nat.le_refl _)]
      rfl
    rw [ends_bind]
    refine (spanAt_ends (· = ch '_') (tokenStart_le token) hroom
      (by rw [hend]; decide)).mono ?_
    intro span hspan
    refine ends_pure.mpr ⟨rfl, _, rfl, ?_⟩
    obtain ⟨name, hname, htoken⟩ := quoted_of_tokenStart hpos hunder' (Nat.not_le.mp hstart)
    constructor
    · rintro ⟨hnonneg, hsum⟩
      dsimp only at hnonneg hsum
      omega
    · intro hall
      exact absurd htoken (hall name hname)

theorem delimiter_strays (htoken : token ≠ []) (hlength : hold.length = token.length)
    (hbuffer : (hold.buffer.splice token.length [0]) = buffer)
    (h : ∃ rest, buffer.octets = token ++ 0 :: rest)
    (hleft : ¬ ∃ c ∈ unbracketed token, c ≠ ch '_') {Q : UriMime → Prop} :
    ¬ hold.delimiter.Ends Q := by
  have hroom := room_of_terminated h
  have hunbracketed := (prefix_unbracketed token).length_le
  rw [delimiter_ends_iff htoken hlength hbuffer h, ends_bind]
  refine trimUnderscores_strays (by omega) fun j hj => ?_
  rw [get_of_terminated h (by omega)]
  by_contra hne
  exact hleft ((exists_unbracketed_iff token).mpr ⟨j, hj, hne⟩)

end Delimiter

theorem delimiter_sound (hold : UriMime) (hlength : hold.length < URI_MIME_BUFFER_SIZE)
    (hsound : hold.Sound) {token : List Octet}
    (htoken : hold.buffer.octets.take hold.length = token) :
    (WellTrimmed token → hold.delimiter.Ends fun hold' =>
      hold'.length ≤ URI_MIME_BUFFER_SIZE ∧ hold'.Sound) ∧
    (¬ WellTrimmed token → ¬ hold.delimiter.Ends UriMime.Sound) := by
  have hn := hold.buffer.length_octets
  have hlen : token.length = hold.length := by
    rw [← htoken, List.length_take]
    omega
  by_cases hnil : token = []
  · have hzero : hold.length = 0 := by rw [← hlen, hnil, List.length_nil]
    refine ⟨fun _ => ?_, fun h => absurd (.inl hnil) h⟩
    rw [UriMime.delimiter, if_pos hzero]
    exact ends_pure.mpr ⟨Nat.le_of_lt hlength, hsound⟩
  · have hterminated : ∃ rest, (hold.buffer.splice token.length [0]).octets =
        token ++ 0 :: rest := by
      refine ⟨hold.buffer.octets.drop (token.length + 1), ?_⟩
      rw [Buffer.octets_splice _ (by rw [hlen]; exact hlength), ← htoken, List.length_take_of_le
        (by omega), List.append_assoc]
      rfl
    by_cases hleft : ∃ c ∈ unbracketed token, c ≠ ch '_'
    · have hends := delimiter_ends hnil hlen.symm rfl hterminated hleft
      constructor
      · intro htrimmed
        refine hends.mono ?_
        rintro hold' ⟨hzero, t, hparsed, hwhole⟩
        refine ⟨by omega, fun t' ht' => ?_⟩
        rw [hparsed, List.mem_append, List.mem_singleton] at ht'
        rcases ht' with ht' | rfl
        · exact hsound t' ht'
        · exact hwhole.mpr (htrimmed.resolve_left hnil).2
      · rintro htrimmed ⟨-, hold', hdone, hsound'⟩
        obtain ⟨-, hold'', hdone', -, t, hparsed, hwhole⟩ := hends
        rw [hdone] at hdone'
        cases hdone'
        refine htrimmed (.inr ⟨hleft, hwhole.mp (hsound' t ?_)⟩)
        rw [hparsed]
        exact List.mem_append_right _ (List.mem_singleton_self t)
    · refine ⟨fun htrimmed => absurd (htrimmed.resolve_left hnil).1 hleft, fun _ => ?_⟩
      exact delimiter_strays hnil hlen.symm rfl hterminated hleft

/-! ### An octet -/

theorem getD_of_strlrcspn {string delims : List Octet} {offset k : Nat}
    (h : strlrcspn string delims offset = k + 1) :
    string.getD k 0 ∈ delims ∧ k < offset := by
  induction offset with
  | zero => exact nomatch h
  | succ offset ih =>
      rw [strlrcspn] at h
      split at h
      next hmem =>
        cases h
        exact ⟨hmem, Nat.lt_succ_self _⟩
      next => exact ⟨(ih h).1, Nat.lt_succ_of_lt (ih h).2⟩

section Octet

variable {hold : UriMime}

theorem yields_strlrcspn (hlength : hold.length < URI_MIME_BUFFER_SIZE) {offset : Nat}
    (h : offset ≤ hold.length) :
    (load ⟨(offset - 1 : Nat), hold.length - (offset - 1), URI_MIME_BUFFER_SIZE⟩
      hold.buffer).Yields hold.buffer :=
  ⟨(inBounds_load _ _).mpr (Access.inBounds_iff_le.mpr (by omega)), _, rfl, rfl⟩

theorem semicolon_sound (hold : UriMime) (hlength : hold.length < URI_MIME_BUFFER_SIZE)
    (hsound : hold.Sound) {offset : Nat} (hoffset : strlrcspn hold.buffer.octets (ascii "&") hold.length = offset)
    {ends : Prop} (hends : ends ↔ 0 < offset ∧ entityOctet
      ((hold.buffer.splice hold.length [ch ';']).octets.drop (offset - 1)) = HTML_ENTITY_NBSP) :
    ((ends → WellTrimmed (hold.buffer.octets.take (offset - 1))) →
      hold.semicolon.Ends fun hold' => hold'.length ≤ URI_MIME_BUFFER_SIZE ∧ hold'.Sound) ∧
    (ends ∧ ¬ WellTrimmed (hold.buffer.octets.take (offset - 1)) →
      ¬ hold.semicolon.Ends UriMime.Sound) := by
  have hwrite := hold.buffer.yields_write [ch ';'] (i := hold.length) hlength
  cases offset with
  | zero =>
      refine ⟨fun _ => ?_, fun h => absurd (hends.mp h.1).1 (Nat.lt_irrefl 0)⟩
      rw [UriMime.semicolon, hoffset, (yields_strlrcspn hlength (Nat.zero_le _)).bind_ends_iff,
        hwrite.bind_ends_iff, if_pos rfl]
      exact ends_pure.mpr ⟨hlength, hsound⟩
  | succ k =>
      obtain ⟨hamp, hk⟩ := getD_of_strlrcspn hoffset
      have hlast : (hold.buffer.splice hold.length [ch ';']).get hold.length = ch ';' :=
        Buffer.get_splice_self _ hlength
      have htake : (hold.buffer.splice hold.length [ch ';']).octets.take k =
          hold.buffer.octets.take k := hold.buffer.take_splice (Nat.le_of_lt hk) hlength
      have hamp' : (hold.buffer.splice hold.length [ch ';']).get k = ch '&' := by
        have htake' : (hold.buffer.splice hold.length [ch ';']).octets.take (k + 1) =
            hold.buffer.octets.take (k + 1) :=
          hold.buffer.take_splice (Nat.succ_le_of_lt hk) hlength
        rw [Buffer.get_eq_of_take_eq htake' (Nat.lt_succ_self k)]
        exact List.mem_singleton.mp hamp
      obtain ⟨hin, ⟨buffer, count⟩, hdone, hpos, hfits, hfront, hfirst⟩ :=
        htmlEntityDecode_ends hlast hlength hamp' (Nat.le_of_lt hk)
      have hdecode : (htmlEntityDecode (hold.buffer.splice hold.length [ch ';']) k
          (hold.length + 1 - k) k (hold.length + 1 - k)).Yields (buffer, count) :=
        ⟨hin, _, hdone, rfl⟩
      dsimp only at hpos hfits hfront hfirst
      rw [Nat.succ_sub_one] at hends ⊢
      have hread := buffer.yields_read (i := k) (by omega)
      have hrun : ∀ {Q : UriMime → Prop}, hold.semicolon.Ends Q ↔
          (if buffer.get k = HTML_ENTITY_NBSP then
            UriMime.delimiter { hold with buffer := buffer, length := k }
          else
            let length := if buffer.get k = HTML_ENTITY_SHY then 0 else count
            pure { hold with buffer := buffer, length := k + length }).Ends Q := by
        intro Q
        rw [UriMime.semicolon, hoffset, (yields_strlrcspn hlength hk).bind_ends_iff,
          hwrite.bind_ends_iff]
        dsimp only
        rw [if_neg (Nat.succ_ne_zero k), Nat.succ_sub_one, hdecode.bind_ends_iff,
          hread.bind_ends_iff]
      rw [hrun, hrun, hfirst]
      by_cases hnbsp : entityOctet
          ((hold.buffer.splice hold.length [ch ';']).octets.drop k) = HTML_ENTITY_NBSP
      · have hyes : ends := hends.mpr ⟨Nat.succ_pos k, hnbsp⟩
        have hdelimiter := delimiter_sound { hold with buffer := buffer, length := k }
          (Nat.lt_trans hk hlength) hsound (hfront.trans htake)
        rw [if_pos hnbsp]
        exact ⟨fun h => hdelimiter.1 (h hyes), fun h => hdelimiter.2 h.2⟩
      · rw [if_neg hnbsp]
        refine ⟨fun _ => ends_pure.mpr ⟨?_, hsound⟩, fun h => absurd (hends.mp h.1).2 hnbsp⟩
        dsimp only
        split <;> omega

theorem accumulate_plain (hold : UriMime) (hlength : hold.length < URI_MIME_BUFFER_SIZE)
    (hsound : hold.Sound) {c : Octet} (hc : ¬ (0 < hold.length ∧ c = ch ';')) :
    (hold.accumulate c).Ends fun hold' =>
      hold'.length ≤ URI_MIME_BUFFER_SIZE ∧ hold'.Sound := by
  have hkeep := hold.buffer.yields_write [c] (i := hold.length) hlength
  rw [UriMime.accumulate, if_neg hc, ends_bind]
  have hdot : 0 < hold.length → (hold.buffer.write ((hold.length : Int) - 1) [ch '.']).Yields
      (hold.buffer.splice (hold.length - 1) [ch '.']) := by
    intro hpos
    rw [show (hold.length : Int) - 1 = ((hold.length - 1 : Nat) : Int) by omega]
    exact hold.buffer.yields_write _ (by rw [List.length_singleton]; omega)
  have hend : (hold.endsBig5Dot c).Ends fun big5 => big5 = true → 0 < hold.length := by
    unfold UriMime.endsBig5Dot
    split
    next hpos =>
      rw [show (hold.length : Int) - 1 = ((hold.length - 1 : Nat) : Int) by omega,
        (hold.buffer.yields_read (by omega)).bind_ends_iff]
      exact ends_pure.mpr fun _ => hpos.1
    next => exact ends_pure.mpr nofun
  refine hend.mono fun big5 hbig5 => ?_
  split
  next hyes =>
    rw [(hdot (hbig5 hyes)).bind_ends_iff]
    exact ends_pure.mpr ⟨Nat.le_of_lt hlength, hsound⟩
  next =>
    rw [hkeep.bind_ends_iff]
    exact ends_pure.mpr ⟨hlength, hsound⟩

theorem octet_sound (hlength : hold.length ≤ URI_MIME_BUFFER_SIZE) (hsound : hold.Sound)
    (c : Octet) :
    (hold.Meets (.octet c) → (hold.uri_mime_decoded_octet c).Ends fun hold' =>
      hold'.length ≤ URI_MIME_BUFFER_SIZE ∧ hold'.Sound) ∧
    (¬ hold.Meets (.octet c) → ¬ (hold.uri_mime_decoded_octet c).Ends UriMime.Sound) := by
  have hmeets : hold.Meets (.octet c) ↔ ∀ token, hold.token c = some token → WellTrimmed token :=
    Iff.rfl
  rw [hmeets]
  by_cases hskip : hold.headersAndBody = false ∧ hold.isBody ∧ hold.isTextPart = false
  · have htoken : hold.token c = none := if_pos (.inl hskip)
    rw [UriMime.uri_mime_decoded_octet, if_pos hskip, htoken]
    exact ⟨fun _ => ends_pure.mpr ⟨hlength, hsound⟩, fun h => absurd nofun h⟩
  · by_cases hcr : c = ch '\r'
    · have htoken : hold.token c = none := if_pos (.inr hcr)
      rw [UriMime.uri_mime_decoded_octet, if_neg hskip, if_pos hcr, htoken]
      exact ⟨fun _ => ends_pure.mpr ⟨hlength, hsound⟩, fun h => absurd nofun h⟩
    · have hheld : hold.held < URI_MIME_BUFFER_SIZE := by
        unfold UriMime.held
        split
        · decide
        · omega
      have hdump : (if URI_MIME_BUFFER_SIZE ≤ hold.length then { hold with length := 0 }
          else hold) = { hold with length := hold.held } := by
        unfold UriMime.held
        split <;> rfl
      have hskip' := not_or.mpr ⟨hskip, hcr⟩
      rw [UriMime.uri_mime_decoded_octet, if_neg hskip, if_neg hcr, hdump]
      dsimp only
      by_cases huri : isCharURI c
      · rw [if_pos huri]
        by_cases hsemicolon : 0 < hold.held ∧ c = ch ';'
        · obtain ⟨hpos, rfl⟩ := hsemicolon
          have hrun := semicolon_sound { hold with length := hold.held } hheld hsound rfl
            Iff.rfl
          dsimp only at hrun
          rw [UriMime.accumulate, if_pos ⟨hpos, rfl⟩]
          by_cases hends : 0 < strlrcspn hold.buffer.octets (ascii "&") hold.held ∧
              entityOctet ((hold.buffer.splice hold.held [ch ';']).octets.drop
                (strlrcspn hold.buffer.octets (ascii "&") hold.held - 1)) = HTML_ENTITY_NBSP
          · have htoken : hold.token (ch ';') = some (hold.buffer.octets.take
                (strlrcspn hold.buffer.octets (ascii "&") hold.held - 1)) := by
              rw [UriMime.token, if_neg hskip', if_neg (by rw [huri]; exact nofun)]
              exact if_pos ⟨hends.1, rfl, hends.2⟩
            rw [htoken]
            exact ⟨fun h => hrun.1 fun _ => h _ rfl, fun h => hrun.2 ⟨hends, fun htrimmed =>
              h fun token htoken => by cases htoken; exact htrimmed⟩⟩
          · have htoken : hold.token (ch ';') = none := by
              rw [UriMime.token, if_neg hskip', if_neg (by rw [huri]; exact nofun)]
              exact if_neg fun h => hends ⟨h.1, h.2.2⟩
            rw [htoken]
            exact ⟨fun _ => hrun.1 fun h => absurd h hends, fun h => absurd nofun h⟩
        · have htoken : hold.token c = none := by
            rw [UriMime.token, if_neg hskip', if_neg (by rw [huri]; exact nofun)]
            refine if_neg ?_
            rintro ⟨hoffset, rfl, -⟩
            refine hsemicolon ⟨?_, rfl⟩
            exact Nat.lt_of_lt_of_le hoffset (strlrcspn_le _ _ _)
          rw [htoken]
          exact ⟨fun _ => accumulate_plain { hold with length := hold.held } hheld hsound
            hsemicolon, fun h => absurd nofun h⟩
      · have htoken : hold.token c = some (hold.buffer.octets.take hold.held) := by
          rw [UriMime.token, if_neg hskip', if_pos (Bool.eq_false_iff.mpr huri)]
        have hrun := delimiter_sound { hold with length := hold.held } hheld hsound rfl
        rw [if_neg huri, htoken]
        exact ⟨fun h => hrun.1 (h _ rfl),
          fun h => hrun.2 fun htrimmed => h fun token htoken => by cases htoken; exact htrimmed⟩

end Octet

/-! ### Runs -/

theorem handle_meets {hold : UriMime} {event : UriEvent}
    (hlength : hold.length ≤ URI_MIME_BUFFER_SIZE) (hsound : hold.Sound)
    (hmeets : hold.Meets event) : (hold.handle event).Ends fun hold' =>
      hold'.length ≤ URI_MIME_BUFFER_SIZE ∧ hold'.Sound := by
  cases event with
  | octet c => exact (octet_sound hlength hsound c).1 hmeets
  | bodyStart hasContentType => exact ends_pure.mpr ⟨Nat.zero_le _, hsound⟩
  | bodyFinish => exact ends_pure.mpr ⟨Nat.zero_le _, hsound⟩
  | textPart => exact ends_pure.mpr ⟨hlength, hsound⟩

theorem handle_strays {hold : UriMime} {event : UriEvent}
    (hlength : hold.length ≤ URI_MIME_BUFFER_SIZE) (hsound : hold.Sound)
    (hmeets : ¬ hold.Meets event) : ¬ (hold.handle event).Ends UriMime.Sound := by
  cases event with
  | octet c => exact (octet_sound hlength hsound c).2 hmeets
  | bodyStart hasContentType => exact absurd trivial hmeets
  | bodyFinish => exact absurd trivial hmeets
  | textPart => exact absurd trivial hmeets

/-! What has been handed over stays on record. -/

theorem delimiter_parsed {hold hold' : UriMime} (h : hold.delimiter.outcome = .done hold') :
    hold.parsed <+: hold'.parsed := by
  rw [UriMime.delimiter] at h
  split at h
  · cases h
    exact List.prefix_refl _
  · obtain ⟨buffer, -, h⟩ := outcome_bind_eq_done.mp h
    obtain ⟨span, -, h⟩ := outcome_bind_eq_done.mp h
    obtain ⟨equals, -, h⟩ := outcome_bind_eq_done.mp h
    obtain ⟨bracket, -, h⟩ := outcome_bind_eq_done.mp h
    obtain ⟨bracket', -, h⟩ := outcome_bind_eq_done.mp h
    obtain ⟨trimmed, -, h⟩ := outcome_bind_eq_done.mp h
    obtain ⟨span', -, h⟩ := outcome_bind_eq_done.mp h
    cases h
    exact List.prefix_append _ _

theorem semicolon_parsed {hold hold' : UriMime} (h : hold.semicolon.outcome = .done hold') :
    hold.parsed <+: hold'.parsed := by
  obtain ⟨buffer, -, h⟩ := outcome_bind_eq_done.mp h
  obtain ⟨buffer', -, h⟩ := outcome_bind_eq_done.mp h
  dsimp only at h
  split at h
  · cases h
    exact List.prefix_refl _
  · obtain ⟨decoded, -, h⟩ := outcome_bind_eq_done.mp h
    obtain ⟨c, -, h⟩ := outcome_bind_eq_done.mp h
    split at h
    · have hparsed := delimiter_parsed h
      exact hparsed
    · cases h
      exact List.prefix_refl _

theorem accumulate_parsed {hold hold' : UriMime} {c : Octet}
    (h : (hold.accumulate c).outcome = .done hold') : hold.parsed <+: hold'.parsed := by
  rw [UriMime.accumulate] at h
  split at h
  · exact semicolon_parsed h
  · obtain ⟨big5, -, h⟩ := outcome_bind_eq_done.mp h
    split at h
    · obtain ⟨buffer, -, h⟩ := outcome_bind_eq_done.mp h
      cases h
      exact List.prefix_refl _
    · obtain ⟨buffer, -, h⟩ := outcome_bind_eq_done.mp h
      cases h
      exact List.prefix_refl _

theorem handle_parsed {hold hold' : UriMime} {event : UriEvent}
    (h : (hold.handle event).outcome = .done hold') : hold.parsed <+: hold'.parsed := by
  cases event with
  | octet c =>
      have hdump : hold.parsed = (if URI_MIME_BUFFER_SIZE ≤ hold.length then
          { hold with length := 0 } else hold).parsed := by
        split <;> rfl
      rw [UriMime.handle, UriMime.uri_mime_decoded_octet] at h
      split at h
      · cases h
        exact List.prefix_refl _
      · split at h
        · cases h
          exact List.prefix_refl _
        · rw [hdump]
          dsimp only at h
          by_cases huri : isCharURI c
          · rw [if_pos huri] at h
            exact accumulate_parsed h
          · rw [if_neg huri] at h
            exact delimiter_parsed h
  | bodyStart hasContentType =>
      cases h
      exact List.prefix_refl _
  | bodyFinish =>
      cases h
      exact List.prefix_refl _
  | textPart =>
      cases h
      exact List.prefix_refl _

/-- However octets and the starts and ends of bodies follow each other, the search stays in its
buffer and hands over what is left of its tokens, if and only if every token can be trimmed when an
octet ends it. -/
theorem uriMime_bounded_iff (all : Bool) (events : List UriEvent) :
    (deliver UriMime.handle (uriMimeInit all) events).Ends UriMime.Sound ↔
      ∀ before event after, events = before ++ event :: after →
        ∀ hold, (deliver UriMime.handle (uriMimeInit all) before).outcome = .done hold →
          hold.Meets event :=
  deliver_ends_iff (J := fun hold => hold.length ≤ URI_MIME_BUFFER_SIZE) (G := UriMime.Sound)
    (fun _ _ hlength hsound hmeets => handle_meets hlength hsound hmeets)
    (fun _ _ hlength hsound hmeets => handle_strays hlength hsound hmeets)
    (fun _ _ _ hsound hdone hsound' =>
      hsound fun token htoken => hsound' token ((handle_parsed hdone).subset htoken))
    (Nat.zero_le _) nofun

/-- A closing parenthesis on its own in a part of text. -/
def loneParenthesis : List UriEvent :=
  [.bodyStart false, .octet (ch ')'), .octet (ch ' ')]

/-- Nothing is left of it, and the octet in front of the buffer is looked at. -/
theorem loneParenthesis_crashes :
    ¬ (deliver UriMime.handle (uriMimeInit false) loneParenthesis).Ends UriMime.Sound := by
  have hcrash : (deliver UriMime.handle (uriMimeInit false) loneParenthesis).outcome = .crash := by
    decide
  rintro ⟨-, hold, hdone, -⟩
  rw [hcrash] at hdone
  cases hdone

/-- What `a='` hands over has a negative length. -/
example : (deliver UriMime.handle (uriMimeInit false)
    [.bodyStart false, .octet (ch 'a'), .octet (ch '='), .octet (ch '\''),
      .octet (ch ' ')]).result.map UriMime.parsed = some [⟨3, 2, -1⟩] := by
  decide

end Snert
