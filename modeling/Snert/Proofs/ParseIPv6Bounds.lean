/-
Module: Snert.Proofs.ParseIPv6Bounds
Purpose: When `parseIPv6` stays inside its 16-octet buffer. Every round of the group loop reads one
  colon-terminated field of the text, so the state of the loop is described by the fields read so
  far. The only way out of the buffer is a dotted quad behind seven groups: twelve octets are left
  for the groups then, and fourteen are used.
Trusted boundary: none
Main exports: parseIPv6_inBounds_iff
-/
import Snert.Net.ParseIPv6

namespace Snert

open CModel CModel.Run

/-! ### The condition, in terms of the text -/

/-- The text is a hexadecimal number of at most 16 bits and nothing else. -/
def IsGroup (field : List Octet) : Prop :=
  field ≠ [] ∧ (strtol field 16).2 = [] ∧ 0 ≤ (strtol field 16).1 ∧ (strtol field 16).1 ≤ 0xffff

/-- Reading a number of at most 16 bits at the start of the text stops on a dot. -/
def StopsOnDot (text : List Octet) : Prop :=
  peek (strtol text 16).2 = ch '.' ∧ 0 ≤ (strtol text 16).1 ∧ (strtol text 16).1 ≤ 0xffff

instance (field : List Octet) : Decidable (IsGroup field) :=
  inferInstanceAs (Decidable (_ ∧ _))

instance (text : List Octet) : Decidable (StopsOnDot text) :=
  inferInstanceAs (Decidable (_ ∧ _))

/-- The text of a list of fields, each ended by a colon. -/
def fieldsText (fields : List (List Octet)) : List Octet :=
  fields.flatMap (· ++ [ch ':'])

/-- How many of the fields are not empty. -/
def groupCount (fields : List (List Octet)) : Nat :=
  fields.countP (· ≠ [])

/-- How many pairs of adjacent colons there are up to the end of the fields. A pair closes an empty
    field other than the first, and the fields may be followed by one more colon. -/
def colonPairs (fields : List (List Octet)) (rest : List Octet) : Nat :=
  fields.tail.count [] + if fields ≠ [] ∧ peek rest = ch ':' then 1 else 0

/-- The text starts with fields that each are empty or a hexadecimal group, seven of them groups, at
    most one pair of colons among them, and behind them comes a number that stops on a dot. -/
def SevenGroupsThenDot (text : List Octet) : Prop :=
  ∃ fields rest, text = fieldsText fields ++ rest ∧ (∀ f ∈ fields, f = [] ∨ IsGroup f) ∧
    groupCount fields = 7 ∧ fields.tail.count [] ≤ 1 ∧ StopsOnDot rest

/-! ### One round of the loop -/

/-- A group is counted when something was read and the scan did not stop on a dot. -/
def fieldCount (ip stop : List Octet) : Nat :=
  if stop.length < ip.length ∧ peek stop ≠ ch '.' then 1 else 0

/-- The state after a group: what was stored does not matter here, how much does. -/
def GroupScan.counted (s : GroupScan) (ipv6 : Ipv6) (n : Nat) : GroupScan :=
  { s with ipv6 := ipv6, offset := s.offset + 2 * n, groups := s.groups + n }

theorem GroupScan.store_outcome {s : GroupScan} (h : s.offset + 2 ≤ 16) (word : Int) :
    ∃ b, (s.store word).outcome = .done (s.counted b 1) := by
  have first : ((s.offset : Int) + 1 ≤ 16) := by omega
  have second : ((s.offset : Int) + 1 + 1 ≤ 16) := by omega
  rw [store, outcome_bind_of_done (Buffer.outcome_write _ (by omega) first),
    outcome_bind_of_done (Buffer.outcome_write _ (by omega) second)]
  exact ⟨_, rfl⟩

theorem GroupScan.store_inBounds {s : GroupScan} (h : s.offset + 2 ≤ 16) (word : Int) :
    (s.store word).InBounds := by
  rw [store, inBounds_bind, Buffer.inBounds_write]
  refine ⟨⟨by omega, by simp only [List.length_singleton]; omega⟩, fun b _ => ?_⟩
  rw [inBounds_bind, Buffer.inBounds_write]
  exact ⟨⟨by omega, by simp only [List.length_singleton]; omega⟩, fun _ _ => inBounds_pure _⟩

theorem GroupScan.storeGroup_outcome {s : GroupScan} (h : s.offset + 2 ≤ 16) (word : Int)
    (stop : List Octet) :
    ∃ b, (s.storeGroup word stop).outcome = .done (s.counted b (fieldCount s.ip stop)) := by
  unfold storeGroup fieldCount
  split
  · exact store_outcome h word
  · exact ⟨s.ipv6, rfl⟩

theorem groupStep_outcome {s : GroupScan} (hg : s.groups < 8) (ho : s.offset = 2 * s.groups) :
    ((strtol s.ip 16).1 < 0 ∨ 0xffff < (strtol s.ip 16).1) ∧
      (groupStep s).outcome = .done (.inr (.error s.ipv6)) ∨
    (0 ≤ (strtol s.ip 16).1 ∧ (strtol s.ip 16).1 ≤ 0xffff) ∧
      ∃ b, (groupStep s).outcome =
        .done ((s.counted b (fieldCount s.ip (strtol s.ip 16).2)).next (strtol s.ip 16).2) := by
  simp only [groupStep, if_pos hg]
  split
  · rename_i hw
    exact Or.inl ⟨hw, rfl⟩
  · rename_i hw
    refine Or.inr ⟨by omega, ?_⟩
    obtain ⟨b, hb⟩ := GroupScan.storeGroup_outcome (s := s) (by omega)
      (strtol s.ip 16).1 (strtol s.ip 16).2
    exact ⟨b, by rw [outcome_bind_of_done hb]; rfl⟩

theorem groupStep_outcome_full {s : GroupScan} (hg : ¬ s.groups < 8) :
    (groupStep s).outcome = .done (.inr (.ok s)) := by
  simp only [groupStep, if_neg hg]
  rfl

theorem groupStep_inBounds {s : GroupScan} (ho : s.offset = 2 * s.groups) :
    (groupStep s).InBounds := by
  unfold groupStep
  split
  · simp only
    split
    · exact inBounds_pure _
    · rw [inBounds_bind]
      refine ⟨?_, fun _ _ => inBounds_pure _⟩
      unfold GroupScan.storeGroup
      split
      · exact GroupScan.store_inBounds (by omega) _
      · exact inBounds_pure _
  · exact inBounds_pure _

/-! ### The fields read so far -/

theorem delimiter_colon : Delimiter (ch ':') := by
  decide

theorem strtol_field {f : List Octet} (hf : f = [] ∨ IsGroup f) (u : List Octet) :
    strtol (f ++ ch ':' :: u) 16 = ((strtol f 16).1, ch ':' :: u) ∧
      0 ≤ (strtol f 16).1 ∧ (strtol f 16).1 ≤ 0xffff := by
  rw [strtol_append_delimiter delimiter_colon]
  rcases hf with rfl | ⟨_, hstop, hlow, hhigh⟩
  · exact ⟨rfl, by decide⟩
  · exact ⟨by rw [hstop]; rfl, hlow, hhigh⟩

theorem peek_field {f : List Octet} (hf : f = [] ∨ IsGroup f) (u : List Octet) :
    peek (f ++ ch ':' :: u) = ch ':' ↔ f = [] := by
  constructor
  · intro h
    rcases hf with rfl | ⟨hne, hstop, _⟩
    · rfl
    · cases f with
      | nil => rfl
      | cons c f =>
          obtain rfl : c = ch ':' := h
          have := strtol_append_delimiter delimiter_colon 16 [] f
          rw [List.nil_append] at this
          rw [this] at hstop
          simp at hstop
  · rintro rfl
    rfl

theorem field_of_stop {ip : List Octet} (hstop : peek (strtol ip 16).2 = ch ':')
    (hrange : 0 ≤ (strtol ip 16).1 ∧ (strtol ip 16).1 ≤ 0xffff) :
    ∃ f, ip = f ++ ch ':' :: (strtol ip 16).2.tail ∧ (f = [] ∨ IsGroup f) ∧
      fieldCount ip (strtol ip 16).2 = if f = [] then 0 else 1 := by
  obtain ⟨f, hf⟩ := strtol_suffix ip 16
  have hcons : (strtol ip 16).2 = ch ':' :: (strtol ip 16).2.tail := by
    cases h : (strtol ip 16).2 with
    | nil =>
        rw [h] at hstop
        exact absurd hstop (by decide)
    | cons c u =>
        rw [h] at hstop
        rw [List.tail_cons, ← hstop]
        rfl
  have hip : ip = f ++ ch ':' :: (strtol ip 16).2.tail := by rw [← hcons, hf]
  have hread := strtol_append_delimiter delimiter_colon 16 f (strtol ip 16).2.tail
  rw [← hip] at hread
  have hend : (strtol f 16).2 = [] := by
    have := congrArg Prod.snd hread
    rw [hcons] at this
    simpa using this.symm
  have hvalue : (strtol f 16).1 = (strtol ip 16).1 := (congrArg Prod.fst hread).symm
  refine ⟨f, hip, ?_, ?_⟩
  · by_cases hne : f = []
    · exact Or.inl hne
    · exact Or.inr ⟨hne, hend, hvalue ▸ hrange.1, hvalue ▸ hrange.2⟩
  · have hlen := congrArg List.length hf
    rw [List.length_append] at hlen
    have hdot : ch ':' ≠ ch '.' := by decide
    unfold fieldCount
    rw [hstop]
    by_cases hne : f = []
    · simp [hne] at hlen
      simp [hne, hlen]
    · have := List.length_pos_of_ne_nil hne
      simp only [hne, if_false, hdot, ne_eq, not_false_eq_true, and_true]
      rw [if_pos (by omega)]

theorem colonPairs_concat (fields : List (List Octet)) {f : List Octet} (hf : f = [] ∨ IsGroup f)
    (u : List Octet) : colonPairs (fields ++ [f]) u =
      colonPairs fields (f ++ ch ':' :: u) + if peek u = ch ':' then 1 else 0 := by
  unfold colonPairs
  simp only [peek_field hf]
  cases fields with
  | nil => simp
  | cons g fields =>
      by_cases hne : f = [] <;> simp [hne, List.count_append]

theorem groupCount_concat (fields : List (List Octet)) (f : List Octet) :
    groupCount (fields ++ [f]) = groupCount fields + if f = [] then 0 else 1 := by
  by_cases h : f = [] <;> simp [groupCount, List.countP_append, h]

theorem fieldsText_concat (fields : List (List Octet)) (f : List Octet) :
    fieldsText (fields ++ [f]) = fieldsText fields ++ (f ++ [ch ':']) := by
  simp [fieldsText]

/-- The loop has read the fields and stands behind them. -/
structure Behind (text : List Octet) (fields : List (List Octet)) (s : GroupScan) : Prop where
  text_eq : text = fieldsText fields ++ s.ip
  fields_ok : ∀ f ∈ fields, f = [] ∨ IsGroup f
  groups_eq : s.groups = groupCount fields
  groups_le : s.groups ≤ 8
  offset_eq : s.offset = 2 * s.groups
  mark_le : s.mark ≤ s.offset
  pairs_eq : colonPairs fields s.ip = if s.compressed then 1 else 0
  stop_eq : fields ≠ [] → peek s.stop = ch ':'

theorem Behind.initial (text : List Octet) (ipv6 : Ipv6) :
    Behind text [] (GroupScan.initial text ipv6) where
  text_eq := rfl
  fields_ok := by simp
  groups_eq := rfl
  groups_le := Nat.zero_le 8
  offset_eq := rfl
  mark_le := Nat.le_refl 0
  pairs_eq := rfl
  stop_eq := fun h => absurd rfl h

theorem Behind.next {text : List Octet} {fields : List (List Octet)} {s s' : GroupScan}
    (h : Behind text fields s) (hn : Next groupStep s s') :
    ∃ f, Behind text (fields ++ [f]) s' := by
  have hg : s.groups < 8 := by
    by_contra hg
    rw [Next, groupStep_outcome_full hg] at hn
    cases hn
  rcases groupStep_outcome hg h.offset_eq with ⟨_, herr⟩ | ⟨hrange, b, hout⟩
  · rw [Next, herr] at hn
    cases hn
  · rw [Next, hout] at hn
    have hnext := Outcome.done.inj hn
    unfold GroupScan.next at hnext
    split at hnext
    · cases hnext
    · rename_i hcolon
      obtain ⟨f, hip, hf, hcount⟩ := field_of_stop (not_not.mp hcolon) hrange
      have hpairs := colonPairs_concat fields hf (strtol s.ip 16).2.tail
      rw [← hip, h.pairs_eq] at hpairs
      have hgc := groupCount_concat fields f
      rw [← h.groups_eq, ← hcount] at hgc
      have hle : fieldCount s.ip (strtol s.ip 16).2 ≤ 1 := by
        rw [hcount]
        split <;> omega
      have hofs := h.offset_eq
      have hmark := h.mark_le
      have htext : text = fieldsText (fields ++ [f]) ++ (strtol s.ip 16).2.tail := by
        rw [h.text_eq, fieldsText_concat, List.append_assoc, List.append_assoc,
          List.singleton_append, ← hip]
      have hfields : ∀ g ∈ fields ++ [f], g = [] ∨ IsGroup g := by
        intro g hg
        rcases List.mem_append.mp hg with hg | hg
        · exact h.fields_ok g hg
        · rw [List.mem_singleton.mp hg]
          exact hf
      refine ⟨f, ?_⟩
      split at hnext
      · rename_i hpair
        split at hnext
        · cases hnext
        · rename_i hcomp
          obtain rfl := Sum.inl.inj hnext
          exact {
            text_eq := htext
            fields_ok := hfields
            groups_eq := hgc.symm
            groups_le := by simp only [GroupScan.counted]; omega
            offset_eq := by simp only [GroupScan.counted]; omega
            mark_le := Nat.le_refl _
            pairs_eq := by rw [hpairs]; simp [hpair, GroupScan.counted] at hcomp ⊢; exact hcomp
            stop_eq := fun _ => not_not.mp hcolon }
      · rename_i hpair
        obtain rfl := Sum.inl.inj hnext
        exact {
          text_eq := htext
          fields_ok := hfields
          groups_eq := hgc.symm
          groups_le := by simp only [GroupScan.counted]; omega
          offset_eq := by simp only [GroupScan.counted]; omega
          mark_le := by simp only [GroupScan.counted]; omega
          pairs_eq := by rw [hpairs, if_neg hpair]; rfl
          stop_eq := fun _ => not_not.mp hcolon }

theorem Behind.of_reaches {text : List Octet} {ipv6 : Ipv6} {s : GroupScan}
    (h : Reaches groupStep (GroupScan.initial text ipv6) s) : ∃ fields, Behind text fields s := by
  induction h with
  | refl => exact ⟨[], Behind.initial text ipv6⟩
  | tail _ hn ih =>
      obtain ⟨fields, hb⟩ := ih
      obtain ⟨f, hb⟩ := hb.next hn
      exact ⟨fields ++ [f], hb⟩

theorem Behind.exists_next {text f u : List Octet} {fields : List (List Octet)} {s : GroupScan}
    (h : Behind text fields s) (hg : s.groups < 8) (hip : s.ip = f ++ ch ':' :: u)
    (hf : f = [] ∨ IsGroup f) (hpair : peek u = ch ':' → s.compressed = false) :
    ∃ s', Next groupStep s s' ∧ s'.ip = u := by
  obtain ⟨hread, hlow, hhigh⟩ := strtol_field hf u
  rw [← hip] at hread
  rcases groupStep_outcome hg h.offset_eq with ⟨hbad, _⟩ | ⟨_, b, hout⟩
  · rw [hread] at hbad
    simp only at hbad
    omega
  · simp only [hread, GroupScan.next, peek_cons, List.tail_cons] at hout
    by_cases hp : peek u = ch ':'
    · rw [if_neg (by simp), if_pos hp, if_neg (by simp [GroupScan.counted, hpair hp])] at hout
      exact ⟨_, hout, rfl⟩
    · rw [if_neg (by simp), if_neg hp] at hout
      exact ⟨_, hout, rfl⟩

theorem reaches_behind {text : List Octet} (ipv6 : Ipv6) {fields : List (List Octet)} :
    ∀ {rest : List Octet}, text = fieldsText fields ++ rest →
      (∀ f ∈ fields, f = [] ∨ IsGroup f) → groupCount fields ≤ 7 → colonPairs fields rest ≤ 1 →
      ∃ s, Reaches groupStep (GroupScan.initial text ipv6) s ∧ s.ip = rest ∧
        Behind text fields s := by
  induction fields using List.reverseRecOn with
  | nil =>
      intro rest htext _ _ _
      exact ⟨_, .refl, by simpa [fieldsText, GroupScan.initial] using htext,
        Behind.initial text ipv6⟩
  | append_singleton fields f ih =>
      intro rest htext hfields hcount hpairs
      have hf := hfields f (by simp)
      rw [fieldsText_concat, List.append_assoc, List.append_assoc, List.singleton_append] at htext
      rw [groupCount_concat] at hcount
      rw [colonPairs_concat _ hf] at hpairs
      obtain ⟨s, hreach, hip, hb⟩ := ih htext (fun g hg => hfields g (by simp [hg])) (by omega)
        (by omega)
      have hpair : peek rest = ch ':' → s.compressed = false := by
        intro hp
        have := hb.pairs_eq
        rw [hip] at this
        rw [if_pos hp] at hpairs
        by_contra hc
        rw [if_pos (by simpa using hc)] at this
        omega
      obtain ⟨s', hn, hip'⟩ := hb.exists_next (by have := hb.groups_eq; omega) hip hf hpair
      obtain ⟨g, hb'⟩ := hb.next hn
      refine ⟨s', hreach.tail hn, hip', ?_⟩
      have hsame : fieldsText fields ++ (f ++ ch ':' :: rest) =
          fieldsText fields ++ (g ++ ch ':' :: rest) := by
        have := hb'.text_eq
        rw [fieldsText_concat, hip', htext] at this
        simpa using this
      obtain rfl : f = g := List.append_cancel_right (List.append_cancel_left hsame)
      exact hb'

/-! ### The moves behind the loop -/

theorem GroupScan.quadSize_eq (s : GroupScan) :
    s.quadSize = 0 ∧ peek s.stop ≠ ch '.' ∨ s.quadSize = 4 ∧ peek s.stop = ch '.' := by
  unfold quadSize
  split
  · rename_i h
    exact Or.inr ⟨rfl, h⟩
  · rename_i h
    exact Or.inl ⟨rfl, h⟩

theorem shiftTail_inBounds {s : GroupScan} (hofs : s.offset ≤ 16) (hmark : s.mark ≤ s.offset) :
    (shiftTail s).InBounds ↔ (s.offset : Int) + s.quadSize ≤ 16 := by
  have hcount : sizeT ((s.offset : Int) - s.mark) = s.offset - s.mark := by
    rw [sizeT_of_nonneg (by omega) (by omega)]
    omega
  have hquad : s.quadSize = 0 ∨ s.quadSize = 4 := by
    rcases s.quadSize_eq with h | h
    · exact Or.inl h.1
    · exact Or.inr h.1
  rw [shiftTail, inBounds_bind, Buffer.inBounds_move, hcount]
  simp only [IPV6_BYTE_SIZE]
  constructor
  · rintro ⟨⟨_, hlow, hhigh⟩, hfill⟩
    have := hfill _ (Buffer.outcome_move _ _ hlow hhigh)
    rw [Buffer.inBounds_fill] at this
    -- A negative number of zeros would be an enormous count here.
    by_contra hover
    have := le_sizeT_of_neg (x := (16 : Nat) - s.quadSize - s.offset) (by omega) (by omega)
    omega
  · intro hfit
    refine ⟨⟨⟨by omega, by omega⟩, by omega, by omega⟩, fun _ _ => ?_⟩
    rw [Buffer.inBounds_fill, sizeT_of_nonneg (by omega) (by omega)]
    omega

theorem dottedQuad_length {ip rest quad : List Octet} (h : dottedQuad ip = some (quad, rest)) :
    quad.length = 4 := by
  unfold dottedQuad at h
  simp only [Option.bind_eq_bind, Option.bind_eq_some_iff, Option.some.injEq, Prod.mk.injEq] at h
  obtain ⟨_, _, _, _, _, _, _, _, rfl, _⟩ := h
  rfl

theorem finishAddress_inBounds {s : GroupScan} (start : List Octet) (hofs : s.offset ≤ 16)
    (hmark : s.mark ≤ s.offset) :
    (finishAddress start s).InBounds ↔ (s.offset : Int) + s.quadSize ≤ 16 := by
  rw [finishAddress, inBounds_bind, shiftTail_inBounds hofs hmark, and_iff_left_iff_imp]
  intro _ b _
  split
  · split
    · exact inBounds_pure _
    · split
      · exact inBounds_pure _
      · split
        · exact inBounds_pure _
        · rename_i quad ip hquad
          rw [inBounds_bind, Buffer.inBounds_write, dottedQuad_length hquad]
          exact ⟨by decide, fun _ _ => inBounds_pure _⟩
  · split
    · exact inBounds_pure _
    · split <;> exact inBounds_pure _

theorem Behind.stopped {text : List Octet} {fields : List (List Octet)} {s t : GroupScan}
    (h : Behind text fields s) (hend : (groupStep s).outcome = .done (.inr (.ok t))) :
    (s.groups = 8 ∧ t = s) ∨
      s.groups < 8 ∧ (0 ≤ (strtol s.ip 16).1 ∧ (strtol s.ip 16).1 ≤ 0xffff) ∧
        ∃ b, t = { s.counted b (fieldCount s.ip (strtol s.ip 16).2) with
          stop := (strtol s.ip 16).2 } := by
  by_cases hg : s.groups < 8
  · rcases groupStep_outcome hg h.offset_eq with ⟨_, herr⟩ | ⟨hrange, b, hout⟩
    · rw [hend] at herr
      cases herr
    · rw [hend] at hout
      have hnext := (Outcome.done.inj hout).symm
      unfold GroupScan.next at hnext
      split at hnext
      · cases hnext
        exact Or.inr ⟨hg, hrange, b, rfl⟩
      · split at hnext
        · split at hnext <;> cases hnext
        · cases hnext
  · rw [groupStep_outcome_full hg] at hend
    cases hend
    exact Or.inl ⟨by have := h.groups_le; omega, rfl⟩

theorem Behind.stopped_overflow {text : List Octet} {fields : List (List Octet)} {s t : GroupScan}
    (h : Behind text fields s) (hend : (groupStep s).outcome = .done (.inr (.ok t))) :
    t.offset ≤ 16 ∧ t.mark ≤ t.offset ∧
      (16 < (t.offset : Int) + t.quadSize ↔ groupCount fields = 7 ∧ StopsOnDot s.ip) := by
  have hofs := h.offset_eq
  have hmark := h.mark_le
  rw [← h.groups_eq]
  rcases h.stopped hend with ⟨hfull, rfl⟩ | ⟨hg, hrange, b, rfl⟩
  · have hstop : peek t.stop = ch ':' := by
      refine h.stop_eq ?_
      rintro rfl
      have := h.groups_eq
      rw [hfull] at this
      exact absurd this (by decide)
    have hzero : t.quadSize = 0 := by
      rw [GroupScan.quadSize, hstop, if_neg (by decide)]
    refine ⟨by omega, hmark, ?_⟩
    rw [hzero]
    constructor
    · omega
    · omega
  · have hle : fieldCount s.ip (strtol s.ip 16).2 ≤ 1 := by
      unfold fieldCount
      split <;> omega
    refine ⟨by simp only [GroupScan.counted]; omega, by simp only [GroupScan.counted]; omega, ?_⟩
    rcases GroupScan.quadSize_eq { s.counted b (fieldCount s.ip (strtol s.ip 16).2) with
      stop := (strtol s.ip 16).2 } with ⟨hq, hdot⟩ | ⟨hq, hdot⟩
    · rw [hq]
      simp only [GroupScan.counted] at hdot ⊢
      constructor
      · omega
      · rintro ⟨_, hs, _⟩
        exact absurd hs hdot
    · have hnone : fieldCount s.ip (strtol s.ip 16).2 = 0 := by
        unfold fieldCount
        rw [if_neg]
        rintro ⟨_, hne⟩
        exact hne hdot
      rw [hq]
      simp only [GroupScan.counted, hnone]
      constructor
      · intro _
        exact ⟨by omega, hdot, hrange⟩
      · omega

/-! ### The whole function -/

theorem groupStep_next_shorter (s s' : GroupScan) (h : Next groupStep s s') :
    s'.ip.length < s.ip.length := by
  rw [Next, groupStep] at h
  split at h
  · simp only at h
    split at h
    · cases h
    · obtain ⟨t, _, h⟩ := outcome_bind_eq_done.mp h
      have hnext := Outcome.done.inj h
      have hlen := (strtol_suffix s.ip 16).length_le
      unfold GroupScan.next at hnext
      split at hnext
      · cases hnext
      · rename_i hcolon
        have hpos : (strtol s.ip 16).2 ≠ [] := by
          intro hnil
          rw [hnil] at hcolon
          exact hcolon (by decide)
        have hpos := List.length_pos_of_ne_nil hpos
        split at hnext
        · split at hnext
          · cases hnext
          · obtain rfl := Sum.inl.inj hnext
            simp only [List.length_tail]
            omega
        · obtain rfl := Sum.inl.inj hnext
          simp only [List.length_tail]
          omega
  · cases h

theorem enoughRounds_groups (text : List Octet) (ipv6 : Ipv6) :
    EnoughRounds groupStep (GroupScan.initial text ipv6) (text.length + 1) :=
  enoughRounds_of_measure (fun s : GroupScan => s.ip.length) groupStep_next_shorter

theorem groupLoop_inBounds (text : List Octet) (ipv6 : Ipv6) :
    (loop groupStep (text.length + 1) (GroupScan.initial text ipv6)).InBounds := by
  rw [(enoughRounds_groups text ipv6).inBounds_iff]
  intro s hs
  obtain ⟨fields, hb⟩ := Behind.of_reaches hs
  exact groupStep_inBounds hb.offset_eq

/-- `parseIPv6` stays inside the 16 octets of its buffer exactly when the text of the address is not
    a dotted quad behind seven groups. -/
theorem parseIPv6_inBounds_iff (ip : List Octet) (ipv6 : Ipv6) :
    (parseIPv6 ip ipv6).InBounds ↔ ¬ SevenGroupsThenDot (addressText ip) := by
  have enough := enoughRounds_groups (addressText ip) ipv6
  simp only [parseIPv6, inBounds_bind, groupLoop_inBounds, true_and]
  constructor
  · rintro h ⟨fields, rest, htext, hfields, hcount, hpairs, hdot⟩
    have hcolon : peek rest ≠ ch ':' := by
      intro hp
      cases rest with
      | nil => exact absurd hp (by decide)
      | cons c rest =>
          obtain rfl : c = ch ':' := hp
          have := strtol_append_delimiter delimiter_colon 16 [] rest
          rw [List.nil_append] at this
          rw [StopsOnDot, this] at hdot
          exact absurd (show ch ':' = ch '.' from hdot.1) (by decide)
    obtain ⟨s, hreach, rfl, hb⟩ := reaches_behind ipv6 htext hfields (by omega)
      (by rw [colonPairs, if_neg (fun hne => hcolon hne.2)]; exact hpairs)
    have hg : s.groups < 8 := by
      have := hb.groups_eq
      omega
    -- The number stops on the dot, which ends the loop.
    obtain ⟨b, hout⟩ : ∃ b, (groupStep s).outcome = .done (.inr (.ok b)) := by
      rcases groupStep_outcome hg hb.offset_eq with ⟨hbad, _⟩ | ⟨_, b, hout⟩
      · have := hdot.2
        omega
      · rw [hout, GroupScan.next, if_pos (by rw [hdot.1]; decide)]
        exact ⟨_, rfl⟩
    obtain ⟨hofs, hmark, hover⟩ := hb.stopped_overflow hout
    have := h _ (enough.outcome_eq_done.mpr ⟨s, hreach, hout⟩)
    have := (finishAddress_inBounds ip hofs hmark).mp this
    have := hover.mpr ⟨hcount, hdot⟩
    omega
  · intro hnot r hr
    cases r with
    | error b => exact inBounds_pure _
    | ok t =>
        obtain ⟨s, hreach, hend⟩ := enough.outcome_eq_done.mp hr
        obtain ⟨fields, hb⟩ := Behind.of_reaches hreach
        obtain ⟨hofs, hmark, hover⟩ := hb.stopped_overflow hend
        refine (finishAddress_inBounds ip hofs hmark).mpr ?_
        by_contra hlarge
        obtain ⟨hcount, hdot⟩ := hover.mp (by omega)
        refine hnot ⟨fields, s.ip, hb.text_eq, hb.fields_ok, hcount, ?_, hdot⟩
        have := hb.pairs_eq
        unfold colonPairs at this
        split at this <;> split at this <;> omega

/-- Seven groups and a dotted quad: the fill asks for `(size_t) -2` octets. -/
theorem parseIPv6_overrun :
    ¬ (parseIPv6 (ascii "1:2:3:4:5:6:7:1.2.3.4") (Buffer.replicate 16 0)).InBounds := by
  decide

end Snert
