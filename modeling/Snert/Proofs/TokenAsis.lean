/-
Module: Snert.Proofs.TokenAsis
Purpose: When the tokens that `TOKEN_KEEP_ASIS` gives are the text itself. The backslash of an escape
  is copied, but what follows it is still translated, so that an escape for a control character is
  changed.
Trusted boundary: none
Main exports: tokenNextWith_verbatim_iff
-/
import Mathlib.Data.List.TakeWhile
import Snert.Proofs.TokenProgress

namespace Snert

open CModel

/-! ### What is asked of the tokens -/

/-- The delimiters that a call skips, its token and the delimiter behind that are the text it took. -/
def CallKeeps (delims : Option (List Octet)) (string : List Octet) : Prop :=
  ∀ token stop, tokenNextWith .keepAsis delims string = some (token, stop) →
    match stop with
    | none => string = string.takeWhile (· ∈ tokenDelims delims) ++ token
    | some stop => ∃ d ∈ tokenDelims delims,
        string = string.takeWhile (· ∈ tokenDelims delims) ++ token ++ d :: stop

/-- The tokens and the delimiters that were consumed give the string. -/
def KeptVerbatim (delims : Option (List Octet)) (string : List Octet) : Prop :=
  ∀ called, Relation.ReflTransGen (TokenCall .keepAsis delims) string called →
    CallKeeps delims called

/-- How many backslashes a string ends in. -/
def trailingBackslashes (string : List Octet) : Nat :=
  (string.reverse.takeWhile (· = ch '\\')).length

/-! ### Places in a string -/

/-- Where a reader is: at the start of a token, or in one, behind the backslash of an escape or not,
and behind a bare octet 0xff or not, which is taken for `EOF` and holds every delimiter back. -/
inductive AsisPlace where
  | start
  | inside (escaped held : Bool)
deriving DecidableEq, Repr

namespace AsisPlace

/-- In a token, when nothing is pending. -/
def behind (delims : List Octet) (held : Bool) (c : Octet) : AsisPlace :=
  if c = ch '\\' then .inside true held
  else if c ∈ delims ∧ held = false ∧ c ≠ 0xff then .start
  else .inside false (held || c = 0xff)

/-- The octet is behind the reader. -/
def next (delims : List Octet) : AsisPlace → Octet → AsisPlace
  | start, c => if c ∈ delims then .start else behind delims false c
  | inside true held, _ => .inside false held
  | inside false held, c => behind delims held c

/-- Behind the backslash of an escape. -/
def isEscaped : AsisPlace → Bool
  | start => false
  | inside escaped _ => escaped

end AsisPlace

/-- Each escape stands for the character behind the backslash. -/
def EscapesStand (delims : List Octet) : AsisPlace → List Octet → Prop
  | _, [] => True
  | place, c :: string =>
      (place.isEscaped = true → textBackslash c = c) ∧
        EscapesStand delims (place.next delims c) string

/-- The text up to the first delimiter that ends a token, and the rest from there on. -/
def asisSplit (delims : List Octet) : AsisPlace → List Octet → List Octet × List Octet
  | _, [] => ([], [])
  | place, c :: text =>
      if place.next delims c = .start then ([], c :: text)
      else (c :: (asisSplit delims (place.next delims c) text).1,
        (asisSplit delims (place.next delims c) text).2)

/-- The text with what follows a backslash translated. -/
def translated : Bool → List Octet → List Octet
  | _, [] => []
  | true, c :: text => textBackslash c :: translated false text
  | false, c :: text => c :: translated (c = ch '\\') text

section

variable {delims : List Octet}

/-! ### The scan -/

theorem asisSplit_append (delims : List Octet) (place : AsisPlace) (text : List Octet) :
    (asisSplit delims place text).1 ++ (asisSplit delims place text).2 = text := by
  induction text generalizing place with
  | nil => rfl
  | cons c text ih =>
      rw [asisSplit]
      by_cases hstart : place.next delims c = .start
      · rw [if_pos hstart, List.nil_append]
      · rw [if_neg hstart, List.cons_append, ih]

theorem inside_ne_start {escaped held : Bool} : AsisPlace.inside escaped held ≠ .start :=
  nofun

theorem next_escaped (held : Bool) (c : Octet) :
    (AsisPlace.inside true held).next delims c = .inside false held :=
  rfl

theorem next_plain (held : Bool) (c : Octet) :
    (AsisPlace.inside false held).next delims c = AsisPlace.behind delims held c :=
  rfl

theorem asisSplit_escaped (held : Bool) (c : Octet) (text : List Octet) :
    asisSplit delims (.inside true held) (c :: text) =
      (c :: (asisSplit delims (.inside false held) text).1,
        (asisSplit delims (.inside false held) text).2) := by
  rw [asisSplit, next_escaped, if_neg inside_ne_start]

theorem asisSplit_backslash (held : Bool) {c : Octet} (hc : c = ch '\\') (text : List Octet) :
    asisSplit delims (.inside false held) (c :: text) =
      (c :: (asisSplit delims (.inside true held) text).1,
        (asisSplit delims (.inside true held) text).2) := by
  have hnext : (AsisPlace.inside false held).next delims c = .inside true held := if_pos hc
  rw [asisSplit, hnext, if_neg inside_ne_start]

theorem behind_eq_start {held : Bool} {c : Octet} :
    AsisPlace.behind delims held c = .start ↔
      c ≠ ch '\\' ∧ c ∈ delims ∧ held = false ∧ c ≠ 0xff := by
  unfold AsisPlace.behind
  by_cases hbackslash : c = ch '\\'
  · rw [if_pos hbackslash]
    exact iff_of_false nofun fun h => h.1 hbackslash
  · rw [if_neg hbackslash]
    by_cases hends : c ∈ delims ∧ held = false ∧ c ≠ 0xff
    · rw [if_pos hends]
      exact iff_of_true rfl ⟨hbackslash, hends⟩
    · rw [if_neg hends]
      exact iff_of_false nofun fun h => hends h.2

theorem asisSplit_rest {escaped held : Bool} {text rest : List Octet} {d : Octet}
    (h : (asisSplit delims (.inside escaped held) text).2 = d :: rest) :
    d ∈ delims ∧ d ≠ ch '\\' := by
  induction text generalizing escaped held with
  | nil => cases h
  | cons c text ih =>
      rw [asisSplit] at h
      by_cases hstart : (AsisPlace.inside escaped held).next delims c = .start
      · rw [if_pos hstart] at h
        obtain ⟨rfl, rfl⟩ := List.cons.inj h
        cases escaped with
        | true => cases hstart
        | false =>
            obtain ⟨hbackslash, hmem, -⟩ := behind_eq_start.mp hstart
            exact ⟨hmem, hbackslash⟩
      · rw [if_neg hstart] at h
        cases hnext : (AsisPlace.inside escaped held).next delims c with
        | start => exact absurd hnext hstart
        | inside escaped' held' =>
            rw [hnext] at h
            exact ih h

theorem spanSwitch_asis (escaped : Bool) (n : Int) (c : Octet) :
    spanSwitch .keepAsis ⟨0, escaped, n⟩ c =
      if escaped then .goesOn [] ⟨0, false, n⟩
      else if c = ch '\\' then .goesOn [] ⟨0, true, n⟩ else .looks ⟨0, escaped, n⟩ := by
  unfold spanSwitch
  have hquote : ¬ (isQuote c = true ∧ ¬ TokenFlags.keepAsis.ignoreQuotes = true) := fun h => h.2 rfl
  rw [if_neg hquote]

theorem copySwitch_asis (escaped : Bool) (n : Int) (c : Octet) :
    copySwitch .keepAsis ⟨0, escaped, n⟩ c =
      if escaped then .goesOn [textBackslash c] ⟨0, false, n⟩
      else if c = ch '\\' then .goesOn [c] ⟨0, true, n⟩ else .looks ⟨0, escaped, n⟩ := by
  unfold copySwitch
  have hquote : ¬ (isQuote c = true ∧ ¬ TokenFlags.keepAsis.ignoreQuotes = true) := fun h => h.2 rfl
  rw [if_neg hquote]
  rfl

theorem count_eof (n : Int) (c : Octet) : BracketScan.count ⟨0, false, n⟩ (0xff, 0xff) c =
    ⟨0, false, if c = 0xff then n + 1 else n⟩ := by
  unfold BracketScan.count
  rw [if_neg (fun h => h rfl)]
  by_cases hff : c = 0xff
  · rw [if_pos hff, if_pos hff]
  · rw [if_neg hff, if_neg hff, if_neg hff]

theorem endsAt_looked {n : Int} (hn : 0 ≤ n) {c : Octet} (hc : c ≠ ch '\\') :
    BracketScan.endsAt ⟨0, false, if c = 0xff then n + 1 else n⟩ delims c = true ↔
      AsisPlace.behind delims (n ≠ 0) c = .start := by
  rw [endsAt_iff, behind_eq_start]
  by_cases hff : c = 0xff
  · rw [if_pos hff]
    exact iff_of_false (fun h => absurd h.2.1 (by dsimp only; omega)) fun h => h.2.2.2 hff
  · rw [if_neg hff]
    have hheld : decide (n ≠ 0) = false ↔ n = 0 := by simp
    rw [hheld]
    exact ⟨fun h => ⟨hc, h.2.2, h.2.1, hff⟩, fun h => ⟨rfl, h.2.2.1, h.2.1⟩⟩

theorem behind_looked {n : Int} (hn : 0 ≤ n) {c : Octet} (hc : c ≠ ch '\\')
    (hends : AsisPlace.behind delims (n ≠ 0) c ≠ .start) :
    AsisPlace.behind delims (n ≠ 0) c =
      .inside false ((if c = 0xff then n + 1 else n : Int) ≠ 0) := by
  rw [Ne, behind_eq_start] at hends
  unfold AsisPlace.behind
  rw [if_neg hc, if_neg fun h => hends ⟨hc, h⟩]
  by_cases hff : c = 0xff
  · rw [if_pos hff]
    have hpos : n + 1 ≠ 0 := by omega
    simp [hff, hpos]
  · rw [if_neg hff]
    simp [hff]

/-- Is a backslash pending at the end of a text? -/
def openBackslash : Bool → List Octet → Bool
  | escaped, [] => escaped
  | escaped, c :: text => openBackslash (!escaped && c = ch '\\') text

theorem tokenSpanWith_asis (text : List Octet) (escaped : Bool) {n : Int} (hn : 0 ≤ n) :
    ∃ m : Int, 0 ≤ m ∧
      tokenSpanWith .keepAsis (0xff, 0xff) delims text ⟨0, escaped, n⟩ =
        ((asisSplit delims (.inside escaped (n ≠ 0)) text).1.length,
          if (asisSplit delims (.inside escaped (n ≠ 0)) text).2 = [] then
            ⟨0, openBackslash escaped text, m⟩ else ⟨0, false, 0⟩) := by
  induction text generalizing escaped n with
  | nil => exact ⟨n, hn, rfl⟩
  | cons c text ih =>
      rw [tokenSpanWith, spanSwitch_asis]
      cases escaped with
      | true =>
          obtain ⟨m, hm, hspan⟩ := ih false hn
          refine ⟨m, hm, ?_⟩
          rw [if_pos rfl, asisSplit_escaped]
          dsimp only
          rw [hspan]
          rfl
      | false =>
          rw [if_neg Bool.false_ne_true]
          by_cases hbackslash : c = ch '\\'
          · obtain ⟨m, hm, hspan⟩ := ih true hn
            refine ⟨m, hm, ?_⟩
            rw [if_pos hbackslash, asisSplit_backslash _ hbackslash]
            dsimp only
            rw [hspan, openBackslash, hbackslash]
            rfl
          · rw [if_neg hbackslash, asisSplit, next_plain]
            dsimp only
            rw [count_eof]
            by_cases hstart : AsisPlace.behind delims (n ≠ 0) c = .start
            · have hends := (endsAt_looked hn hbackslash).mpr hstart
              have hff : c ≠ 0xff := (behind_eq_start.mp hstart).2.2.2
              have hzero : n = 0 := by simpa using (behind_eq_start.mp hstart).2.2.1
              rw [if_pos hends, if_pos hstart, if_neg hff, if_neg hff, hzero]
              exact ⟨0, by decide, rfl⟩
            · have hends := mt (endsAt_looked hn hbackslash).mp hstart
              have hcount : 0 ≤ if c = 0xff then n + 1 else n := by
                split_ifs <;> omega
              obtain ⟨m, hm, hspan⟩ := ih false hcount
              refine ⟨m, hm, ?_⟩
              rw [if_neg hends, if_neg hstart, behind_looked hn hbackslash hstart, hspan, openBackslash,
                decide_eq_false hbackslash]
              rfl

theorem tokenCopyWith_asis (text : List Octet) (escaped : Bool) {n : Int} (hn : 0 ≤ n)
    (hwhole : (asisSplit delims (.inside escaped (n ≠ 0)) text).2 = []) :
    tokenCopyWith .keepAsis (0xff, 0xff) delims text ⟨0, escaped, n⟩ =
      (translated escaped text, 0) := by
  induction text generalizing escaped n with
  | nil => cases escaped <;> rfl
  | cons c text ih =>
      rw [tokenCopyWith, copySwitch_asis]
      cases escaped with
      | true =>
          rw [asisSplit_escaped] at hwhole
          rw [if_pos rfl]
          dsimp only
          rw [ih false hn hwhole]
          rfl
      | false =>
          rw [if_neg Bool.false_ne_true, translated]
          by_cases hbackslash : c = ch '\\'
          · rw [asisSplit_backslash _ hbackslash] at hwhole
            rw [if_pos hbackslash, decide_eq_true hbackslash]
            dsimp only
            rw [ih true hn hwhole]
            rfl
          · rw [asisSplit, next_plain] at hwhole
            rw [if_neg hbackslash, decide_eq_false hbackslash]
            dsimp only
            rw [count_eof]
            by_cases hstart : AsisPlace.behind delims (n ≠ 0) c = .start
            · rw [if_pos hstart] at hwhole
              cases hwhole
            · have hends := mt (endsAt_looked hn hbackslash).mp hstart
              rw [if_neg hstart, behind_looked hn hbackslash hstart] at hwhole
              have hcount : 0 ≤ if c = 0xff then n + 1 else n := by
                split_ifs <;> omega
              rw [if_neg hends, ih false hcount hwhole]
              rfl

theorem asisSplit_held {escaped held : Bool} {text : List Octet}
    (h : (asisSplit delims (.inside escaped held) text).2 = []) :
    (asisSplit delims (.inside escaped true) text).2 = [] := by
  induction text generalizing escaped held with
  | nil => rfl
  | cons c text ih =>
      cases escaped with
      | true =>
          rw [asisSplit_escaped] at h ⊢
          exact ih h
      | false =>
          by_cases hbackslash : c = ch '\\'
          · rw [asisSplit_backslash _ hbackslash] at h ⊢
            exact ih h
          · rw [asisSplit, next_plain] at h ⊢
            by_cases hstart : AsisPlace.behind delims held c = .start
            · rw [if_pos hstart] at h
              cases h
            · have hheld : AsisPlace.behind delims true c ≠ .start := fun hstart' =>
                Bool.noConfusion (behind_eq_start.mp hstart').2.2.1
              rw [if_neg hstart] at h
              rw [if_neg hheld]
              have hplain : ∀ held', AsisPlace.behind delims held' c ≠ .start →
                  AsisPlace.behind delims held' c = .inside false (held' || c = 0xff) := by
                intro held' hne
                rw [Ne, behind_eq_start] at hne
                unfold AsisPlace.behind
                rw [if_neg hbackslash, if_neg fun hends => hne ⟨hbackslash, hends⟩]
              rw [hplain held hstart] at h
              rw [hplain true hheld]
              exact ih h

theorem asisSplit_front (place : AsisPlace) (text : List Octet) :
    (asisSplit delims place (asisSplit delims place text).1).2 = [] := by
  induction text generalizing place with
  | nil => rfl
  | cons c text ih =>
      rw [asisSplit]
      by_cases hstart : place.next delims c = .start
      · rw [if_pos hstart]
        rfl
      · rw [if_neg hstart, asisSplit, if_neg hstart]
        exact ih _

/-! ### One call -/

theorem tokenAtWith_asis {text : List Octet}
    (hpending : (asisSplit delims (.inside false false) text).2 = [] →
      openBackslash false text = false) :
    tokenAtWith .keepAsis delims text =
      (translated false (asisSplit delims (.inside false false) text).1,
        match (asisSplit delims (.inside false false) text).2 with
        | [] => none
        | _ :: stop => some stop) := by
  have htext := asisSplit_append delims (.inside false false) text
  have hfront := @asisSplit_front delims (.inside false false) text
  generalize hsplit : asisSplit delims (.inside false false) text = split at *
  obtain ⟨m, hm, hspan⟩ : ∃ m : Int, 0 ≤ m ∧
      tokenSpanWith .keepAsis (0xff, 0xff) delims text ⟨0, false, 0⟩ =
        (split.1.length, ⟨0, false, m⟩) := by
    obtain ⟨m, hm, hspan⟩ := @tokenSpanWith_asis delims text false 0 (Int.le_refl 0)
    have hplace : asisSplit delims (.inside false ((0 : Int) ≠ 0)) text = split := hsplit
    rw [hplace] at hspan
    by_cases hend : split.2 = []
    · rw [if_pos hend, hpending hend] at hspan
      exact ⟨m, hm, hspan⟩
    · rw [if_neg hend] at hspan
      exact ⟨0, Int.le_refl 0, hspan⟩
  have hwhole : (asisSplit delims (.inside false (m ≠ 0)) split.1).2 = [] := by
    by_cases hzero : m = 0
    · rw [hzero]
      exact hfront
    · rw [decide_eq_true hzero]
      exact asisSplit_held hfront
  have hpair : tokenPair .keepAsis delims text = (0xff, 0xff) := rfl
  have htake : text.take split.1.length = split.1 := by
    rw [← htext, List.take_left]
  have hdrop : text.drop split.1.length = split.2 := by
    rw [← htext, List.drop_left]
  unfold tokenAtWith
  dsimp only
  rw [hpair, hspan]
  dsimp only
  rw [htake, tokenCopyWith_asis split.1 false hm hwhole, Nat.sub_zero, hdrop]
  cases split.2 <;> rfl

theorem tokenStart_asis (string : List Octet) :
    tokenOpening .keepAsis delims string = string.dropWhile (· ∈ delims) := by
  unfold tokenOpening
  rw [if_neg (by decide)]
  dsimp only
  cases (string.takeWhile (· ∈ delims)).getLast? with
  | none => rfl
  | some c => exact if_neg fun h => Bool.false_ne_true h.1

/-! ### Escapes -/

theorem escapesStand_dropWhile (string : List Octet) :
    EscapesStand delims .start string ↔
      EscapesStand delims .start (string.dropWhile (· ∈ delims)) := by
  induction string with
  | nil => exact Iff.rfl
  | cons c string ih =>
      by_cases hc : c ∈ delims
      · have hnext : AsisPlace.start.next delims c = .start := if_pos hc
        rw [List.dropWhile_cons_of_pos (by simpa using hc), EscapesStand, hnext, ih]
        exact and_iff_right nofun
      · rw [List.dropWhile_cons_of_neg (by simpa using hc)]

theorem escapesStand_start {c : Octet} (hc : c ∉ delims) (text : List Octet) :
    EscapesStand delims .start (c :: text) ↔
      EscapesStand delims (.inside false false) (c :: text) := by
  have hnext : AsisPlace.start.next delims c = AsisPlace.behind delims false c := if_neg hc
  rw [EscapesStand, EscapesStand, hnext, next_plain]
  exact Iff.rfl

theorem escapesStand_inside (text : List Octet) (escaped held : Bool) :
    EscapesStand delims (.inside escaped held) text ↔
      translated escaped (asisSplit delims (.inside escaped held) text).1 =
          (asisSplit delims (.inside escaped held) text).1 ∧
        EscapesStand delims .start (asisSplit delims (.inside escaped held) text).2.tail := by
  induction text generalizing escaped held with
  | nil => cases escaped <;> simp [EscapesStand, asisSplit, translated]
  | cons c text ih =>
      rw [EscapesStand]
      cases escaped with
      | true =>
          rw [asisSplit_escaped, next_escaped, ih]
          simp [translated, AsisPlace.isEscaped, and_assoc]
      | false =>
          rw [next_plain]
          by_cases hbackslash : c = ch '\\'
          · have hnext : AsisPlace.behind delims held c = .inside true held := if_pos hbackslash
            rw [asisSplit_backslash _ hbackslash, hnext, ih]
            simp [translated, AsisPlace.isEscaped, hbackslash]
          · rw [asisSplit, next_plain]
            by_cases hstart : AsisPlace.behind delims held c = .start
            · rw [if_pos hstart, hstart]
              simp [translated, AsisPlace.isEscaped]
            · rw [if_neg hstart]
              have hplain : AsisPlace.behind delims held c = .inside false (held || c = 0xff) := by
                rw [behind_eq_start] at hstart
                unfold AsisPlace.behind
                rw [if_neg hbackslash, if_neg fun hends => hstart ⟨hbackslash, hends⟩]
              rw [hplain, ih]
              simp [translated, AsisPlace.isEscaped, hbackslash]

/-! ### Backslashes at the end -/

theorem openBackslash_snoc (escaped : Bool) (text : List Octet) (c : Octet) :
    openBackslash escaped (text ++ [c]) = (!openBackslash escaped text && c = ch '\\') := by
  induction text generalizing escaped with
  | nil => rfl
  | cons d text ih => exact ih _

theorem openBackslash_iff (text : List Octet) :
    openBackslash false text = true ↔ trailingBackslashes text % 2 = 1 := by
  induction text using List.reverseRecOn with
  | nil => exact iff_of_false Bool.false_ne_true (by decide)
  | append_singleton text c ih =>
      rw [openBackslash_snoc, trailingBackslashes, List.reverse_append, List.reverse_singleton,
        List.singleton_append]
      by_cases hc : c = ch '\\'
      · rw [List.takeWhile_cons_of_pos (by simpa using hc), List.length_cons,
          ← trailingBackslashes, Bool.and_eq_true, Bool.not_eq_true', decide_eq_true hc,
          ← Bool.not_eq_true, ih]
        simp only [and_true]
        omega
      · rw [List.takeWhile_cons_of_neg (by simpa using hc)]
        simp [hc]

theorem trailingBackslashes_append {front text : List Octet}
    (h : (∃ c ∈ text, c ≠ ch '\\') ∨ front.getLast? ≠ some (ch '\\')) :
    trailingBackslashes (front ++ text) = trailingBackslashes text := by
  unfold trailingBackslashes
  rw [List.reverse_append, List.takeWhile_append]
  by_cases hall : (text.reverse.takeWhile (· = ch '\\')).length = text.reverse.length
  · have hself : text.reverse.takeWhile (· = ch '\\') = text.reverse :=
      (List.takeWhile_prefix _).eq_of_length hall
    have hlast := h.resolve_left fun ⟨c, hc, hne⟩ =>
      hne (by simpa using List.takeWhile_eq_self_iff.mp hself c (List.mem_reverse.mpr hc))
    have hfront : front.reverse.takeWhile (· = ch '\\') = [] := by
      rw [← List.head?_reverse] at hlast
      cases hrev : front.reverse with
      | nil => rfl
      | cons c rest =>
          rw [hrev] at hlast
          exact List.takeWhile_cons_of_neg (by simpa using hlast)
    rw [if_pos hall, hfront, List.append_nil, hself]
  · rw [if_neg hall]

end

/-! ### The run -/

variable {delims : Option (List Octet)} {string : List Octet}

/-- A string ends in an even number of backslashes: no backslash is pending there. -/
def NoTrailingBackslash (string : List Octet) : Prop :=
  trailingBackslashes string % 2 = 0

instance (string : List Octet) : Decidable (NoTrailingBackslash string) :=
  inferInstanceAs (Decidable (_ = _))

theorem not_mem_of_dropWhile {ds rest : List Octet} {c : Octet}
    (hstart : string.dropWhile (· ∈ ds) = c :: rest) : c ∉ ds := by
  have hhead := List.head?_dropWhile_not (· ∈ ds) string
  rw [hstart] at hhead
  simpa using hhead

theorem tokenNextWith_asis (hstring : NoTrailingBackslash string) {ds : List Octet}
    (hds : tokenDelims delims = ds) {c : Octet} {rest : List Octet}
    (hstart : string.dropWhile (· ∈ ds) = c :: rest) :
    tokenNextWith .keepAsis delims string =
      some (translated false (asisSplit ds (.inside false false) (c :: rest)).1,
        match (asisSplit ds (.inside false false) (c :: rest)).2 with
        | [] => none
        | _ :: stop => some stop) := by
  have hskip := List.takeWhile_append_dropWhile (p := (· ∈ ds)) (l := string)
  have hc := not_mem_of_dropWhile hstart
  have hpending : openBackslash false (c :: rest) = false := by
    rw [← Bool.not_eq_true, openBackslash_iff]
    rw [NoTrailingBackslash, ← hskip, hstart, trailingBackslashes_append] at hstring
    · omega
    · by_cases hbackslash : c = ch '\\'
      · refine .inr fun hlast => hc ?_
        have hmem := List.mem_takeWhile_imp (List.mem_of_getLast? hlast)
        rw [hbackslash]
        simpa using hmem
      · exact .inl ⟨c, List.mem_cons_self, hbackslash⟩
  unfold tokenNextWith
  dsimp only
  rw [hds, tokenStart_asis, hstart, if_neg (fun h => List.cons_ne_nil c rest h.1),
    tokenAtWith_asis fun _ => hpending]

theorem tokenNextWith_asis_none {ds : List Octet} (hds : tokenDelims delims = ds)
    (hstart : string.dropWhile (· ∈ ds) = []) : tokenNextWith .keepAsis delims string = none := by
  unfold tokenNextWith
  dsimp only
  rw [hds, tokenStart_asis, hstart]
  exact if_pos ⟨rfl, by decide⟩

theorem keptVerbatim_iff :
    KeptVerbatim delims string ↔ CallKeeps delims string ∧
      ∀ stop, TokenCall .keepAsis delims string stop → KeptVerbatim delims stop := by
  constructor
  · intro h
    exact ⟨h string .refl, fun stop hcall called hcalled => h called (.head hcall hcalled)⟩
  · rintro ⟨hfirst, hrest⟩ called hcalled
    obtain rfl | ⟨stop, hcall, hcalled⟩ := hcalled.cases_head
    · exact hfirst
    · exact hrest stop hcall called hcalled

/-- `TOKEN_KEEP_ASIS` keeps the text of the tokens exactly when every escape in them is one that stands
for the character behind the backslash. -/
theorem tokenNextWith_verbatim_iff (delims : Option (List Octet)) (string : List Octet)
    (h : NoTrailingBackslash string) :
    KeptVerbatim delims string ↔ EscapesStand (tokenDelims delims) .start string := by
  induction hn : string.length using Nat.strongRecOn generalizing string with
  | ind n ih =>
      have hskip := List.takeWhile_append_dropWhile (p := (· ∈ tokenDelims delims)) (l := string)
      rw [keptVerbatim_iff, escapesStand_dropWhile]
      cases hstart : string.dropWhile (· ∈ tokenDelims delims) with
      | nil =>
          have hnone := tokenNextWith_asis_none rfl hstart
          refine iff_of_true ⟨fun token stop hnext => ?_, fun stop hcall => ?_⟩ trivial
          · rw [hnone] at hnext
            cases hnext
          · obtain ⟨token, hnext⟩ := hcall
            rw [hnone] at hnext
            cases hnext
      | cons c rest =>
          have hnext := tokenNextWith_asis h rfl hstart
          have htext := asisSplit_append (tokenDelims delims) (.inside false false) (c :: rest)
          have hrest := @asisSplit_rest (tokenDelims delims) false false (c :: rest)
          rw [escapesStand_start (not_mem_of_dropWhile hstart), escapesStand_inside]
          generalize asisSplit (tokenDelims delims) (.inside false false) (c :: rest) = split at *
          rw [hstart, ← htext] at hskip
          cases hbehind : split.2 with
          | nil =>
              rw [hbehind] at hnext hskip
              rw [List.append_nil] at hskip
              refine and_congr ⟨fun hkeeps => ?_, fun hsame token stop hcall => ?_⟩
                (iff_of_true (fun stop hcall => ?_) trivial)
              · have hwhole := hkeeps _ _ hnext
                exact List.append_cancel_left (hwhole.symm.trans hskip.symm)
              · rw [hnext] at hcall
                cases hcall
                dsimp only
                rw [hsame, hskip]
              · obtain ⟨token, hcall⟩ := hcall
                rw [hnext] at hcall
                cases hcall
          | cons d stop =>
              rw [hbehind] at hnext hskip
              obtain ⟨hd, hbackslash⟩ := hrest hbehind
              have hstop : NoTrailingBackslash stop := by
                have hsplit : string = (string.takeWhile (· ∈ tokenDelims delims) ++ split.1 ++ [d]) ++
                    stop := hskip.symm.trans (by simp)
                rw [NoTrailingBackslash, hsplit, trailingBackslashes_append] at h
                · exact h
                · right
                  simpa using hbackslash
              have hlt : stop.length < string.length := by
                have hlength := congrArg List.length hskip
                simp only [List.length_append, List.length_cons] at hlength
                omega
              refine and_congr ⟨fun hkeeps => ?_, fun hsame token stop' hcall => ?_⟩ ?_
              · obtain ⟨d', -, hwhole⟩ := hkeeps _ _ hnext
                rw [List.append_assoc] at hwhole
                have hsame := List.append_cancel_left (hwhole.symm.trans hskip.symm)
                exact (List.append_inj' hsame rfl).1
              · rw [hnext] at hcall
                cases hcall
                refine ⟨d, hd, ?_⟩
                rw [hsame, List.append_assoc, hskip]
              · have honly : ∀ stop', TokenCall .keepAsis delims string stop' ↔ stop' = stop := by
                  intro stop'
                  unfold TokenCall
                  rw [hnext]
                  simp [eq_comm]
                simp only [honly, forall_eq]
                exact ih stop.length (hn ▸ hlt) stop hstop rfl

/-- An escaped delimiter. -/
def escapedSlash : List Octet :=
  ascii "a\\/b/c"

theorem tokenNextWith_verbatim_slash :
    KeptVerbatim (some (ascii "/")) escapedSlash ↔
      EscapesStand (tokenDelims (some (ascii "/"))) .start escapedSlash :=
  tokenNextWith_verbatim_iff _ _ (by decide)

/-- An escape for a linefeed. -/
def escapedLinefeed : List Octet :=
  ascii "a\\nb"

theorem tokenNextWith_linefeed : ¬ KeptVerbatim (some (ascii "/")) escapedLinefeed := by
  intro hkept
  have hnext : tokenNextWith .keepAsis (some (ascii "/")) escapedLinefeed =
      some ([ch 'a', ch '\\', 0x0a, ch 'b'], none) := by
    decide
  have hsame := hkept escapedLinefeed .refl _ _ hnext
  revert hsame
  decide

end Snert
