/-
Module: Snert.Proofs.SmdbReduce
Purpose: One reduction of a key of the access map. The block holds the tag and what is left of the
  key, and behind its NUL the account; every reduction moves the tag up over what has been used,
  whatever the lengths of the two. A domain is used up label by label, where a label that begins
  with a bracket reaches to the closing one.
Trusted boundary: none
Main exports: Reduced, reduceDomain_reduced, reduceMail_reduced
-/
import Snert.Mail.Smdb
import Snert.Proofs.PathParts

namespace Snert

open CModel CModel.Run

/-! ### The block -/

section

variable {n : Nat} {block : Buffer n} {front tag text rest : List Octet}

theorem read_text (h : block.octets = front ++ (text ++ 0 :: rest)) {i : Nat}
    (hi : i ≤ text.length) :
    (block.read ((front.length + i : Nat) : Int)).Yields (peek (text.drop i)) := by
  have hn := block.length_octets
  rw [h, List.length_append, List.length_append, List.length_cons] at hn
  refine ⟨(inBounds_load _ _).mpr (Access.inBounds_iff_le.mpr (by omega)), _, rfl, ?_⟩
  rw [Int.toNat_natCast, get_of_octets h, getD_nul text rest hi, peek, List.headD_eq_head?_getD,
    List.head?_drop, List.getD_eq_getElem?_getD]

theorem scanTo_yields (h : block.octets = front ++ (text ++ 0 :: rest)) (htext : 0 ∉ text)
    (set : List Octet) :
    (scanTo block front.length set).Yields (text.takeWhile (· ∉ set)).length := by
  have hn := block.length_octets
  rw [h, List.length_append, List.length_append, List.length_cons] at hn
  have hscan : ((block.octets.drop front.length).takeWhile fun c => c ≠ 0 ∧ c ∉ set) =
      text.takeWhile (· ∉ set) := by
    rw [h, List.drop_left]
    clear h hn
    induction text with
    | nil => simp
    | cons c text ih =>
        rw [List.mem_cons, not_or] at htext
        rw [List.cons_append, List.takeWhile_cons, List.takeWhile_cons, ih htext.2]
        have hiff : (decide (c ≠ 0 ∧ c ∉ set)) = decide (c ∉ set) := by
          simp [Ne.symm htext.1]
        rw [hiff]
  have hle : (text.takeWhile (· ∉ set)).length ≤ text.length :=
    (List.takeWhile_prefix _).length_le
  rw [scanTo, hscan, h, List.drop_left,
    if_pos (by rw [List.length_append, List.length_cons]; omega)]
  exact ⟨(inBounds_load _ _).mpr (Access.inBounds_iff_le.mpr (by omega)), _, rfl, rfl⟩

theorem moveTag_ends {used : List Octet} (h : block.octets = front ++ (tag ++ (used ++ rest))) :
    (block.move ((front.length + used.length : Nat) : Int) (front.length : Nat) tag.length).Ends
      fun b => ∃ front', front'.length = front.length + used.length ∧
        b.octets = front' ++ (tag ++ rest) := by
  have hn := block.length_octets
  rw [h, List.length_append, List.length_append, List.length_append] at hn
  have hfront : (front ++ (tag ++ used).take used.length).length = front.length + used.length := by
    rw [List.length_append, List.length_take, List.length_append]
    omega
  have hoctets : block.octets = (front ++ (tag ++ used).take used.length) ++
      ((tag ++ used).drop used.length ++ rest) := by
    rw [h, List.append_assoc, ← List.append_assoc (List.take _ _), List.take_append_drop,
      List.append_assoc]
  have hmoved : (block.octets.drop front.length).take tag.length = tag := by
    rw [h, List.drop_left, List.take_left]
  have hdrop : ((tag ++ used).drop used.length).length = tag.length := by
    rw [List.length_drop, List.length_append]
    omega
  refine (block.yields_move (by omega) (by omega)).ends_iff.mpr ⟨_, hfront, ?_⟩
  rw [hmoved, ← hfront, Buffer.octets_splice_append hoctets
    (by rw [List.length_append, hdrop]; omega), List.append_assoc, List.drop_left' hdrop]

theorem textCopy_ends {middle : List Octet} (h : block.octets = front ++ (middle ++ rest))
    (text : List Octet)
    (hmiddle : middle.length = text.length + 1) :
    (textCopy block (front.length : Nat) (text.length + 1) text).Ends fun r =>
      r.1.octets = front ++ (text ++ 0 :: rest) := by
  have hn := block.length_octets
  rw [h, List.length_append, List.length_append] at hn
  refine (textCopy_yields block text (Nat.succ_pos _) (by omega)).ends_iff.mpr ?_
  dsimp only
  have hlength : (text ++ [0]).length = middle.length := by
    rw [List.length_append, hmiddle, List.length_singleton]
  rw [Nat.succ_sub_one, List.take_length, Buffer.octets_splice_append h
    (by rw [hlength, List.length_append]; omega), List.drop_left' hlength.symm]
  simp only [List.append_assoc, List.singleton_append]

theorem lowerText_ends {behind : List Octet} (h : block.octets = front ++ (text ++ behind))
    (htext : 0 ∉ text) :
    (lowerText block front.length text.length).Ends fun b =>
      b.octets = front ++ (text.map tolower ++ behind) := by
  have hstring : (stringAt block front.length).take text.length = text ∧
      ¬ (stringAt block front.length).length < text.length := by
    rw [stringAt, h, List.drop_left, List.takeWhile_append_of_pos fun c hc => by
      simp only [ne_eq, decide_not, Bool.not_eq_eq_eq_not, Bool.not_true, decide_eq_false_iff_not]
      rintro rfl
      exact htext hc]
    exact ⟨List.take_left, by rw [List.length_append]; omega⟩
  rw [lowerText, if_neg fun hlt => hstring.2 hlt.1, hstring.1]
  exact write_ends h (List.length_map tolower)

end

/-! ### Reductions -/

/-- The tag and the text behind it stand in the block, with a NUL and the rest behind them. -/
structure Keyed {n : Nat} (tag text rest : List Octet) (block : Buffer n) (key : KvmData) :
    Prop where
  size : key.size = (tag.length + text.length : Nat)
  octets : ∃ front, front.length = key.data ∧ block.octets = front ++ (tag ++ (text ++ 0 :: rest))

/-- What ends the first label of a domain. -/
def labelStop (text : List Octet) : List Octet :=
  if peek text = ch '[' then [ch ']'] else [ch '.']

/-- The domain behind its first label, and behind the octet that ends the label. -/
def afterLabel (text : List Octet) : List Octet :=
  text.drop ((text.takeWhile (· ∉ labelStop text)).length + 1)

theorem afterLabel_length (text : List Octet) :
    (afterLabel text).length = text.length - ((text.takeWhile (· ∉ labelStop text)).length + 1) :=
  List.length_drop

section

variable {n : Nat} {tag text rest : List Octet} {block : Buffer n} {key : KvmData}

theorem stop_octet (text : List Octet) (set : List Octet) (htext : 0 ∉ text) :
    (peek (text.drop (text.takeWhile (· ∉ set)).length) ≠ 0 ↔
      (text.takeWhile (· ∉ set)).length < text.length) := by
  have hle : (text.takeWhile (· ∉ set)).length ≤ text.length :=
    (List.takeWhile_prefix _).length_le
  constructor
  · intro hne
    by_contra hge
    refine hne ?_
    rw [List.drop_of_length_le (by omega)]
    rfl
  · intro hlt hzero
    obtain ⟨c, s, hdrop⟩ := List.exists_cons_of_ne_nil
      (List.ne_nil_of_length_pos (by rw [List.length_drop]; omega :
        0 < (text.drop (text.takeWhile (· ∉ set)).length).length))
    rw [hdrop] at hzero
    exact htext ((show c = 0 from hzero) ▸ List.mem_of_mem_drop (hdrop ▸ List.mem_cons_self))

/-- How many octets of a domain its first label takes, with the octet that ends it. -/
def labelOctets (text : List Octet) : Nat :=
  text.length - (afterLabel text).length

theorem drop_labelOctets (text : List Octet) : text.drop (labelOctets text) = afterLabel text := by
  have hle := afterLabel_length text
  rw [labelOctets, hle, afterLabel]
  rcases Nat.lt_or_ge (text.takeWhile (· ∉ labelStop text)).length text.length with hlt | hge
  · congr 1
    omega
  · rw [List.drop_of_length_le (by omega), List.drop_of_length_le (by omega)]

theorem take_labelOctets (text : List Octet) :
    text.take (labelOctets text) ++ afterLabel text = text := by
  rw [← drop_labelOctets, List.take_append_drop]

theorem reduceDomain_reads (h : Keyed tag text rest block key) (htext : 0 ∉ text)
    (hne : text ≠ []) {Q : Bool × Buffer n × KvmData → Prop} :
    (reduceDomain tag.length block key).Ends Q ↔
      ((block.move ((key.data + labelOctets text +
          (if afterLabel text = [] then 1 else 0) : Nat) : Int) key.data tag.length).bind fun b =>
        pure (decide ((tag.length : Int) < key.size - labelOctets text), b,
          ⟨key.data + labelOctets text + (if afterLabel text = [] then 1 else 0),
            key.size - labelOctets text⟩)).Ends Q := by
  obtain ⟨hsize, front, hfront, hoctets⟩ := h
  have hpos : 0 < text.length := List.length_pos_iff.mpr hne
  have hbase : block.octets = (front ++ tag) ++ (text ++ 0 :: rest) := by
    rw [hoctets, List.append_assoc]
  have hlength : (front ++ tag).length = key.data + tag.length := by
    rw [List.length_append, hfront]
  have hfirst := read_text hbase (Nat.zero_le text.length)
  have hscan := scanTo_yields hbase htext (labelStop text)
  have hle : (text.takeWhile (· ∉ labelStop text)).length ≤ text.length :=
    (List.takeWhile_prefix _).length_le
  have hstop := read_text hbase hle
  have hiff := stop_octet text (labelStop text) htext
  have hbehind := afterLabel_length text
  rw [hlength, Nat.add_zero, List.drop_zero] at hfirst
  rw [hlength] at hscan hstop
  rw [reduceDomain, if_pos (by rw [hsize]; omega)]
  rw [hfirst.bind_ends_iff, ← labelStop, hscan.bind_ends_iff, hstop.bind_ends_iff]
  have hlabel : labelOctets text = if peek (text.drop
      (text.takeWhile (· ∉ labelStop text)).length) ≠ 0 then
      (text.takeWhile (· ∉ labelStop text)).length + 1
      else (text.takeWhile (· ∉ labelStop text)).length := by
    rw [labelOctets, hbehind]
    by_cases hlt : (text.takeWhile (· ∉ labelStop text)).length < text.length
    · rw [if_pos (hiff.mpr hlt)]
      omega
    · rw [if_neg fun hnot => hlt (hiff.mp hnot)]
      omega
  dsimp only
  rw [← hlabel]
  have hused : labelOctets text ≤ text.length := Nat.sub_le _ _
  have hend := read_text hbase hused
  rw [hlength] at hend
  have hdrop := drop_labelOctets text
  have hzero : peek (afterLabel text) = 0 ↔ afterLabel text = [] := by
    constructor
    · intro hpeek
      by_contra hsome
      obtain ⟨c, s, hcons⟩ := List.exists_cons_of_ne_nil hsome
      rw [hcons, peek_cons] at hpeek
      refine htext (List.mem_of_mem_drop (i := labelOctets text) ?_)
      rw [hdrop, hcons, hpeek]
      exact List.mem_cons_self
    · intro hnil
      rw [hnil]
      rfl
  rw [hend.bind_ends_iff, hdrop]
  have hindex : ∀ eos : Nat, key.data + tag.length + labelOctets text + eos - tag.length =
      key.data + labelOctets text + eos := fun eos => by omega
  simp only [hzero, hindex]
  exact Iff.rfl

theorem reduceDomain_ends (h : Keyed tag text rest block key) (htext : 0 ∉ text)
    (hbehind : afterLabel text ≠ []) :
    (reduceDomain tag.length block key).Ends fun r =>
      r.1 = true ∧ Keyed tag (afterLabel text) rest r.2.1 r.2.2 ∧ key.data < r.2.2.data := by
  have hne : text ≠ [] := by
    rintro rfl
    exact hbehind rfl
  rw [reduceDomain_reads h htext hne, if_neg hbehind]
  obtain ⟨hsize, front, hfront, hoctets⟩ := h
  have hpos : 0 < text.length := List.length_pos_iff.mpr hne
  have hrest : 0 < (afterLabel text).length := List.length_pos_iff.mpr hbehind
  have hle := afterLabel_length text
  have htake : (text.take (labelOctets text)).length = labelOctets text := by
    rw [List.length_take, labelOctets]
    omega
  have hmove := moveTag_ends
    (by rw [hoctets, ← List.append_assoc (List.take _ _), take_labelOctets] :
      block.octets = front ++
        (tag ++ (text.take (labelOctets text) ++ (afterLabel text ++ 0 :: rest))))
  rw [htake, hfront] at hmove
  refine ends_bind.mpr (hmove.mono ?_)
  rintro b ⟨front', hfront', hb⟩
  have hlabel : labelOctets text = text.length - (afterLabel text).length := rfl
  refine ends_pure.mpr ⟨?_, ⟨?_, front', hfront', hb⟩, ?_⟩
  · exact decide_eq_true (by omega)
  · dsimp only
    omega
  · dsimp only
    omega

theorem reduceDomain_last (h : Keyed tag text rest block key) (htext : 0 ∉ text)
    (hne : text ≠ []) (hbehind : afterLabel text = []) :
    (reduceDomain tag.length block key).Ends fun r =>
      r.1 = false ∧ key.data < r.2.2.data ∧
        ∃ front, front.length = r.2.2.data ∧ r.2.1.octets = front ++ (tag ++ rest) := by
  rw [reduceDomain_reads h htext hne, if_pos hbehind]
  obtain ⟨hsize, front, hfront, hoctets⟩ := h
  have hlabel : labelOctets text = text.length := by
    rw [labelOctets, hbehind, List.length_nil, Nat.sub_zero]
  have hmove := moveTag_ends
    (by rw [hoctets]; simp only [List.append_assoc, List.singleton_append] :
      block.octets = front ++ (tag ++ (text ++ [0] ++ rest)))
  rw [List.length_append, List.length_singleton, hfront, ← Nat.add_assoc] at hmove
  rw [hlabel]
  refine ends_bind.mpr (hmove.mono ?_)
  rintro b ⟨front', hfront', hb⟩
  refine ends_pure.mpr ⟨decide_eq_false (by omega), ?_, front', hfront', hb⟩
  dsimp only
  omega

end

/-! ### The texts behind the tag -/

/-- The texts that `reduceDomain` leaves one after the other. -/
def domainTexts (text : List Octet) : List (List Octet) :=
  if _h : afterLabel text = [] then [text] else text :: domainTexts (afterLabel text)
termination_by text.length
decreasing_by
  have hpos := List.length_pos_iff.mpr _h
  have hle := afterLabel_length text
  omega

/-- The text behind its first at sign. -/
def afterAt (text : List Octet) : List Octet :=
  text.drop ((text.takeWhile (· ∉ [ch '@'])).length + 1)

theorem afterAt_length (text : List Octet) :
    (afterAt text).length = text.length - ((text.takeWhile (· ∉ [ch '@'])).length + 1) :=
  List.length_drop

/-- The key ends with an at sign. -/
def EndsAt (tag text : List Octet) : Prop :=
  (tag ++ text).getLast? = some (ch '@')

instance (tag text : List Octet) : Decidable (EndsAt tag text) :=
  inferInstanceAs (Decidable (_ = _))

/-- The texts that `reduceMail` leaves one after the other, with the account behind the block's
first NUL. -/
def mailTexts (tag account text : List Octet) : List (List Octet) :=
  if EndsAt tag text then [text]
  else if _h : ch '@' ∈ text then text :: mailTexts tag account (afterAt text)
  else if _h : afterLabel text = [] then if text = [] then [text] else [text, account]
  else text :: mailTexts tag account (afterLabel text)
termination_by text.length
decreasing_by
  · have hpos := List.length_pos_of_mem _h
    have hle := afterAt_length text
    omega
  · have hpos := List.length_pos_iff.mpr _h
    have hle := afterLabel_length text
    omega

/-- The texts that a reduction leaves. -/
def ReduceKey.texts (reduceKey : ReduceKey) (tag account text : List Octet) : List (List Octet) :=
  match reduceKey with
  | .domain => domainTexts text
  | .mail => mailTexts tag account text

/-- An account, with its at sign. -/
structure IsAccount (account : List Octet) : Prop where
  noNul : 0 ∉ account
  endsAt : account.getLast? = some (ch '@')

/-- The account stands behind the NUL, where `reduceMail` will come to it. -/
def AccountBehind (reduceKey : ReduceKey) (tag account text rest : List Octet) : Prop :=
  reduceKey = .mail → EndsAt tag text ∨ text = [] ∨ ∃ behind, rest = account ++ 0 :: behind

/-- What a reduction comes to: the key was the last one, or the next one stands in the block. -/
def Reduced {n : Nat} (reduceKey : ReduceKey) (tag account text : List Octet) (key : KvmData)
    (r : Bool × Buffer n × KvmData) : Prop :=
  (r.1 = false ∧ reduceKey.texts tag account text = [text]) ∨
    (r.1 = true ∧ key.data < r.2.2.data ∧ ∃ text' rest', Keyed tag text' rest' r.2.1 r.2.2 ∧
      0 ∉ text' ∧ AccountBehind reduceKey tag account text' rest' ∧
      reduceKey.texts tag account text = text :: reduceKey.texts tag account text')

section

variable {n : Nat} {tag account text rest : List Octet} {block : Buffer n} {key : KvmData}

theorem not_mem_afterLabel (htext : 0 ∉ text) : 0 ∉ afterLabel text :=
  fun hmem => htext (List.mem_of_mem_drop hmem)

theorem not_mem_afterAt (htext : 0 ∉ text) : 0 ∉ afterAt text :=
  fun hmem => htext (List.mem_of_mem_drop hmem)

theorem reduceDomain_empty (h : Keyed tag [] rest block key) :
    reduceDomain tag.length block key = pure (false, block, key) := by
  rw [reduceDomain, if_neg (by rw [h.size, List.length_nil]; omega)]

theorem reduceDomain_reduced (h : Keyed tag text rest block key) (htext : 0 ∉ text) :
    (reduceDomain tag.length block key).Ends (Reduced .domain tag account text key) := by
  by_cases hbehind : afterLabel text = []
  · have htexts : ReduceKey.domain.texts tag account text = [text] := by
      rw [ReduceKey.texts, domainTexts, dif_pos hbehind]
    by_cases hne : text = []
    · subst hne
      rw [reduceDomain_empty h]
      exact ends_pure.mpr (.inl ⟨rfl, htexts⟩)
    · exact (reduceDomain_last h htext hne hbehind).mono fun r hr => .inl ⟨hr.1, htexts⟩
  · refine (reduceDomain_ends h htext hbehind).mono fun r hr => .inr ⟨hr.1, hr.2.2, ?_⟩
    refine ⟨_, _, hr.2.1, not_mem_afterLabel htext, nofun, ?_⟩
    rw [ReduceKey.texts, domainTexts, dif_neg hbehind]
    rfl

theorem takeWhile_not_mem_nil (l : List Octet) : l.takeWhile (· ∉ ([] : List Octet)) = l :=
  List.takeWhile_eq_self_iff.mpr fun _ _ => decide_eq_true List.not_mem_nil

theorem peek_last {l : List Octet} (hne : l ≠ []) (c : Octet) :
    peek (l.drop (l.length - 1)) = c ↔ l.getLast? = some c := by
  rw [List.drop_length_sub_one hne, peek_cons, List.getLast?_eq_some_getLast hne, Option.some_inj]

theorem at_stop (text : List Octet) :
    peek (text.drop (text.takeWhile (· ∉ [ch '@'])).length) = ch '@' ↔ ch '@' ∈ text := by
  induction text with
  | nil => decide
  | cons c text ih =>
      rw [List.takeWhile_cons]
      refine Iff.trans ?_ List.mem_cons.symm
      by_cases hc : c = ch '@'
      · simp [hc]
      · have hnot : c ∉ [ch '@'] := fun hmem => hc (List.mem_singleton.mp hmem)
        rw [if_pos (decide_eq_true hnot), List.length_cons, List.drop_succ_cons, ih]
        exact ⟨.inr, fun h => h.resolve_left (Ne.symm hc)⟩

theorem moveAt_ends (h : Keyed tag text rest block key) (hat : ch '@' ∈ text) :
    ((block.move ((key.data + tag.length + ((text.takeWhile (· ∉ [ch '@'])).length + 1) -
        tag.length : Nat) : Int) key.data tag.length).bind fun b =>
      pure (true, b, (⟨key.data + tag.length + ((text.takeWhile (· ∉ [ch '@'])).length + 1) -
        tag.length, key.size - ((text.takeWhile (· ∉ [ch '@'])).length + 1 : Nat)⟩ : KvmData))).Ends
      fun r => r.1 = true ∧ Keyed tag (afterAt text) rest r.2.1 r.2.2 ∧
        key.data < r.2.2.data := by
  obtain ⟨hsize, front, hfront, hoctets⟩ := h
  have hspan : (text.takeWhile (· ∉ [ch '@'])).length < text.length := by
    have hle : (text.takeWhile (· ∉ [ch '@'])).length ≤ text.length :=
      (List.takeWhile_prefix _).length_le
    refine Nat.lt_of_le_of_ne hle fun heq => ?_
    have hall := List.takeWhile_eq_self_iff.mp ((List.takeWhile_prefix _).eq_of_length heq)
    exact absurd (hall _ hat) (by decide)
  have hbehind := afterAt_length text
  have hsplit : text.take ((text.takeWhile (· ∉ [ch '@'])).length + 1) ++ afterAt text = text :=
    List.take_append_drop _ _
  generalize (text.takeWhile (· ∉ [ch '@'])).length = span at hspan hbehind hsplit ⊢
  have htake : (text.take (span + 1)).length = span + 1 := by
    rw [List.length_take]
    omega
  have hmove := moveTag_ends
    (by rw [hoctets, ← List.append_assoc (List.take _ _), hsplit] :
      block.octets = front ++ (tag ++ (text.take (span + 1) ++ (afterAt text ++ 0 :: rest))))
  rw [htake, hfront] at hmove
  have hindex : key.data + tag.length + (span + 1) - tag.length = key.data + (span + 1) := by omega
  rw [hindex]
  refine ends_bind.mpr (hmove.mono ?_)
  rintro b ⟨front', hfront', hb⟩
  refine ends_pure.mpr ⟨rfl, ⟨?_, front', hfront', hb⟩, ?_⟩
  · dsimp only
    omega
  · dsimp only
    omega

theorem reduceMail_reads (h : Keyed tag text rest block key) (htag : tag ≠ []) (htext : 0 ∉ text)
    {Q : Bool × Buffer n × KvmData → Prop} :
    (reduceMail tag.length block key).Ends Q ↔
      (if EndsAt tag text then pure (false, block, key)
      else if ch '@' ∈ text then
        (block.move ((key.data + tag.length + ((text.takeWhile (· ∉ [ch '@'])).length + 1) -
            tag.length : Nat) : Int) key.data tag.length).bind fun b =>
          pure (true, b, ⟨key.data + tag.length + ((text.takeWhile (· ∉ [ch '@'])).length + 1) -
            tag.length, key.size - ((text.takeWhile (· ∉ [ch '@'])).length + 1 : Nat)⟩)
      else
        (reduceDomain tag.length block key).bind fun r =>
          if r.1 then pure (true, r.2.1, r.2.2)
          else (scanTo r.2.1 r.2.2.data []).bind fun size =>
            pure (decide ((tag.length : Int) < size), r.2.1, { r.2.2 with size := size })).Ends
        Q := by
  obtain ⟨hsize, front, hfront, hoctets⟩ := h
  have hpos : 0 < tag.length := List.length_pos_iff.mpr htag
  have hne : tag ++ text ≠ [] := fun hnil => htag (List.append_eq_nil_iff.mp hnil).1
  have hwhole : block.octets = front ++ ((tag ++ text) ++ 0 :: rest) := by
    rw [hoctets, List.append_assoc]
  have hbase : block.octets = (front ++ tag) ++ (text ++ 0 :: rest) := by
    rw [hoctets, List.append_assoc]
  have hlength : (front ++ tag).length = key.data + tag.length := by
    rw [List.length_append, hfront]
  have hlast := read_text hwhole (Nat.sub_le (tag ++ text).length 1)
  have hindex : ((front.length + ((tag ++ text).length - 1) : Nat) : Int) =
      key.data + key.size - 1 := by
    rw [hsize, List.length_append]
    omega
  rw [hindex] at hlast
  have hscan := scanTo_yields hbase htext [ch '@']
  have hle : (text.takeWhile (· ∉ [ch '@'])).length ≤ text.length :=
    (List.takeWhile_prefix _).length_le
  have hstop := read_text hbase hle
  rw [hlength] at hscan hstop
  rw [reduceMail, hlast.bind_ends_iff]
  by_cases hends : EndsAt tag text
  · rw [if_pos ((peek_last hne _).mpr hends), if_pos hends]
  · rw [if_neg fun hpeek => hends ((peek_last hne _).mp hpeek), if_neg hends]
    dsimp only
    rw [hscan.bind_ends_iff, hstop.bind_ends_iff]
    by_cases hat : ch '@' ∈ text
    · rw [if_pos ((at_stop text).mpr hat), if_pos hat]
      exact Iff.rfl
    · rw [if_neg fun hpeek => hat ((at_stop text).mp hpeek), if_neg hat]
      exact Iff.rfl

theorem reduceMail_reduced (h : Keyed tag text rest block key) (htag : tag ≠ [])
    (hnul : 0 ∉ tag) (haccount : IsAccount account) (htext : 0 ∉ text)
    (hrest : AccountBehind .mail tag account text rest) :
    (reduceMail tag.length block key).Ends (Reduced .mail tag account text key) := by
  rw [reduceMail_reads h htag htext]
  by_cases hends : EndsAt tag text
  · rw [if_pos hends]
    refine ends_pure.mpr (.inl ⟨rfl, ?_⟩)
    rw [ReduceKey.texts, mailTexts, if_pos hends]
  · rw [if_neg hends]
    by_cases hat : ch '@' ∈ text
    · have htexts : ReduceKey.mail.texts tag account text =
          text :: ReduceKey.mail.texts tag account (afterAt text) := by
        rw [ReduceKey.texts, mailTexts, if_neg hends, dif_pos hat]
        rfl
      have hne : text ≠ [] := List.ne_nil_of_mem hat
      have hfound := (hrest rfl).resolve_left hends |>.resolve_left hne
      rw [if_pos hat]
      exact (moveAt_ends h hat).mono fun r hr => .inr ⟨hr.1, hr.2.2, _, _, hr.2.1,
        not_mem_afterAt htext, fun _ => .inr (.inr hfound), htexts⟩
    · rw [if_neg hat]
      refine ends_bind.mpr ?_
      by_cases hbehind : afterLabel text = []
      · by_cases hne : text = []
        · subst hne
          obtain ⟨hsize, front, hfront, hoctets⟩ := h
          have hscan := scanTo_yields
            (show block.octets = front ++ (tag ++ 0 :: rest) from hoctets) hnul []
          rw [hfront, takeWhile_not_mem_nil] at hscan
          rw [reduceDomain_empty ⟨hsize, front, hfront, hoctets⟩, ends_pure,
            if_neg Bool.false_ne_true]
          refine hscan.bind_ends_iff.mpr (ends_pure.mpr (.inl ⟨?_, ?_⟩))
          · exact decide_eq_false (lt_irrefl _)
          · rw [ReduceKey.texts, mailTexts, if_neg hends, dif_neg hat, dif_pos hbehind, if_pos rfl]
        · obtain ⟨behind, rfl⟩ := (hrest rfl).resolve_left hends |>.resolve_left hne
          refine (reduceDomain_last h htext hne hbehind).mono ?_
          rintro r ⟨hmore, hdata, front, hfront, hoctets⟩
          have hstring : 0 ∉ tag ++ account := by
            rw [List.mem_append, not_or]
            exact ⟨hnul, haccount.noNul⟩
          have hscan := scanTo_yields (by rw [hoctets, List.append_assoc] :
            r.2.1.octets = front ++ ((tag ++ account) ++ 0 :: behind)) hstring []
          have hpos : 0 < account.length := by
            refine List.length_pos_iff.mpr ?_
            rintro rfl
            exact nomatch haccount.endsAt
          have hlast : EndsAt tag account := by
            rw [EndsAt, List.getLast?_append, haccount.endsAt]
            rfl
          rw [hfront, takeWhile_not_mem_nil, List.length_append] at hscan
          rw [hmore, if_neg Bool.false_ne_true]
          refine hscan.bind_ends_iff.mpr (ends_pure.mpr (.inr ⟨?_, hdata, account, behind, ?_⟩))
          · exact decide_eq_true (by omega)
          · refine ⟨⟨rfl, front, hfront, hoctets⟩, haccount.noNul, fun _ => .inl hlast, ?_⟩
            rw [ReduceKey.texts, mailTexts, if_neg hends, dif_neg hat, dif_pos hbehind, if_neg hne]
            rw [ReduceKey.texts, mailTexts, if_pos hlast]
      · have hne : text ≠ [] := by
          rintro rfl
          exact hbehind rfl
        have hfound := (hrest rfl).resolve_left hends |>.resolve_left hne
        refine (reduceDomain_ends h htext hbehind).mono fun r hr => ?_
        rw [hr.1, if_pos rfl]
        refine ends_pure.mpr (.inr ⟨rfl, hr.2.2, _, _, hr.2.1, not_mem_afterLabel htext,
          fun _ => .inr (.inr hfound), ?_⟩)
        rw [ReduceKey.texts, mailTexts, if_neg hends, dif_neg hat, dif_neg hbehind]
        rfl

end

end Snert
