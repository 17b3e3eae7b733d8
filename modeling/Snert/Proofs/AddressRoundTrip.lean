/-
Module: Snert.Proofs.AddressRoundTrip
Purpose: What `formatIP` writes is a form of the address, in every mode, and `parseIPv6` reads it back.
  Leading zero words are counted in every mode, and after six of them, or five and 0xffff, the rest is
  put as a dotted quad; in the compact mode the first run of zero words becomes a pair of colons.
Trusted boundary: none
Main exports: formatIP_parseIPv6
-/
import Mathlib.Data.List.TakeWhile
import Mathlib.Data.Nat.Digits.Defs
import Snert.Proofs.AddressText

namespace Snert

open CModel CModel.Run Lists

/-! ### The form that is written -/

/-- Behind `j` zero words: is there a dotted quad at the end? -/
def dottedBehind (j : Nat) : List Nat → Bool
  | [] => false
  | w :: words => if w = 0 then dottedBehind (j + 1) words else j = 6 || (j = 5 && w = 0xffff)

/-- The form of an address in a mode. -/
def formOf (compact : Nat) (words : List Nat) (quad : Buffer 4) : AddressForm :=
  if compact = 1 ∧ 0 ∈ words then
    let front := words.takeWhile (· ≠ 0)
    let after := (words.dropWhile (· ≠ 0)).dropWhile (· = 0)
    if dottedBehind 0 words then ⟨false, [], some (after.take (after.length - 2)), some quad⟩
    else ⟨false, front, some (if after = [] ∧ front.length < 7 then [0] else after), none⟩
  else if dottedBehind 0 words then ⟨compact = 2, words.take 6, none, some quad⟩
  else ⟨compact = 2, words, none, none⟩

/-! ### What is printed -/

variable {n : Nat}

/-- The text printed so far. -/
structure Printed (s : FormatScan n) (text : List Octet) : Prop where
  octets : ∃ rest, s.buffer.octets = text ++ rest
  length : s.length = text.length

theorem snprintf_prints {buffer : Buffer n} {text rest more : List Octet}
    (hoctets : buffer.octets = text ++ rest) (hfit : text.length + more.length < n) :
    (snprintf buffer text.length (n - text.length) more).Ends fun put =>
      put.2 = more.length ∧ ∃ rest, put.1.octets = text ++ more ++ 0 :: rest := by
  have hlen := buffer.length_octets
  rw [hoctets, List.length_append] at hlen
  have htake : more.take (n - text.length - 1) = more := List.take_of_length_le (by omega)
  have hput := Buffer.octets_splice_append hoctets
    (show (more ++ [0]).length ≤ rest.length by
      rw [List.length_append, List.length_singleton]
      omega)
  rw [snprintf, if_neg (by omega), htake]
  refine (Yields.bind_ends_iff (buffer.yields_write (more ++ [0]) ?_)).mpr (ends_pure.mpr ?_)
  · rw [List.length_append, List.length_singleton]
    omega
  · refine ⟨rfl, rest.drop (more ++ [0]).length, hput.trans ?_⟩
    simp only [List.append_assoc, List.singleton_append]

/-- A colon follows every word but the last. -/
def colonAfter (i : Nat) : List Octet :=
  if i < 7 then [ch ':'] else []

theorem formatColon_prints {s : FormatScan n} {text : List Octet} (h : Printed s text)
    (hfit : text.length + (colonAfter s.i).length < n) :
    (formatColon s).Ends fun t => Printed t (text ++ colonAfter s.i) ∧
      t.i = s.i ∧ t.z = s.z ∧ t.compact = s.compact := by
  obtain ⟨⟨rest, hrest⟩, hlength⟩ := h
  unfold formatColon
  by_cases hi : s.i < 7
  · rw [colonAfter, if_pos hi, List.length_singleton] at hfit
    have hlen := s.buffer.length_octets
    rw [hrest, List.length_append] at hlen
    rw [if_pos ⟨hi, by omega⟩, hlength]
    refine (Yields.bind_ends_iff (s.buffer.yields_write [ch ':'] ?_)).mpr (ends_pure.mpr ?_)
    · rw [List.length_singleton]
      omega
    · rw [colonAfter, if_pos hi]
      refine ⟨⟨⟨rest.drop 1, Buffer.octets_splice_append hrest ?_⟩, ?_⟩, rfl, rfl, rfl⟩
      · rw [List.length_singleton]
        omega
      · simp
  · rw [if_neg fun hc => hi hc.1, colonAfter, if_neg hi, List.append_nil, ends_pure]
    exact ⟨⟨⟨rest, hrest⟩, hlength⟩, rfl, rfl, rfl⟩

theorem formatWord_prints (full : Bool) (word : Nat) {s : FormatScan n} {text : List Octet}
    (h : Printed s text) (hmore : ¬ (s.z = 6 ∧ s.i = 6))
    (hfit : text.length + (hexWord full word ++ colonAfter s.i).length < n) :
    (formatWord full word s).Ends fun r => ∃ t : FormatScan n,
      Printed t (text ++ (hexWord full word ++ colonAfter s.i)) ∧ t.z = s.z ∧
        t.compact = s.compact ∧
          if s.z = 5 ∧ s.i = 5 ∧ word = 0xffff then r = .inr t ∧ t.i = s.i
          else r = .inl t ∧ t.i = s.i + 1 := by
  obtain ⟨⟨rest, hrest⟩, hlength⟩ := h
  rw [List.length_append] at hfit
  unfold formatWord
  rw [if_neg hmore, ends_bind, hlength]
  refine (snprintf_prints hrest (by omega)).mono ?_
  rintro ⟨buffer, length⟩ ⟨rfl, rest', hput⟩
  dsimp only
  rw [if_neg (by omega), ends_bind]
  have hprinted : Printed (n := n) { s with
      buffer := buffer, length := text.length + (hexWord full word).length }
      (text ++ hexWord full word) :=
    ⟨⟨_, hput⟩, List.length_append.symm⟩
  refine (formatColon_prints hprinted ?_).mono ?_
  · rw [List.length_append]
    dsimp only
    omega
  · rintro t ⟨ht, hi, hz, hcompact⟩
    dsimp only at ht hi hz hcompact
    rw [List.append_assoc] at ht
    rw [ends_pure]
    by_cases hmapped : s.z = 5 ∧ s.i = 5 ∧ word = 0xffff
    · rw [if_pos (by rw [hz, hi]; exact hmapped)]
      refine ⟨t, ht, hz, hcompact, ?_⟩
      rw [if_pos hmapped]
      exact ⟨rfl, hi⟩
    · rw [if_neg (by rw [hz, hi]; exact hmapped)]
      refine ⟨{ t with i := t.i + 1 }, ⟨ht.octets, ht.length⟩, hz, hcompact, ?_⟩
      rw [if_neg hmapped]
      exact ⟨rfl, congrArg (· + 1) hi⟩

/-! ### The loop -/

/-- The loop has printed a text and ends with a dotted quad to come, or without. -/
def LoopPrints (text : List Octet) (dotted : Bool) (t : FormatScan n) : Prop :=
  Printed t text ∧ ((t.z = 6 ∧ t.i = 6) ∨ (t.z = 5 ∧ t.i = 5) ↔ dotted = true)

variable {words : List Nat}

theorem getD_of_drop {i w : Nat} {rest : List Nat} (h : words.drop i = w :: rest) :
    words.getD i 0 = w := by
  have hget : (words.drop i)[0]? = words[i + 0]? := List.getElem?_drop
  rw [h, Nat.add_zero] at hget
  rw [List.getD_eq_getElem?_getD, ← hget]
  rfl

theorem drop_succ_of_drop {i w : Nat} {rest : List Nat} (h : words.drop i = w :: rest) :
    words.drop (i + 1) = rest := by
  rw [← List.drop_drop, h]
  rfl

theorem length_of_drop (hwords : words.length = 8) {i : Nat} {rest : List Nat}
    (h : words.drop i = rest) (hi : i ≤ 8) : i + rest.length = 8 := by
  rw [← h, List.length_drop, hwords]
  omega

theorem formatStep_done {s : FormatScan n} (full : Bool) (hi : 8 ≤ s.i) {rounds : Nat}
    {Q : FormatScan n → Prop} (h : Q s) :
    (loop (formatStep words full) (rounds + 1) s).Ends Q := by
  rw [loop, formatStep, if_pos hi, pure_bind]
  exact ends_pure.mpr h

theorem formatStep_word {s : FormatScan n} {text : List Octet} (full : Bool) (h : Printed s text)
    {w : Nat} {rest : List Nat} (hwords : words.length = 8) (hdrop : words.drop s.i = w :: rest)
    (hcompact : ¬ (s.compact = 1 ∧ w = 0)) (hmore : ¬ (s.z = 6 ∧ s.i = 6 ∧ w ≠ 0))
    (hfit : text.length + (hexWord full w ++ colonAfter s.i).length < n) {rounds : Nat}
    {Q : FormatScan n → Prop}
    (hmapped : s.z = 5 → s.i = 5 → w = 0xffff → ∀ t : FormatScan n,
      Printed t (text ++ (hexWord full w ++ colonAfter s.i)) → t.z = 5 → t.i = 5 → Q t)
    (hnext : ¬ (s.z = 5 ∧ s.i = 5 ∧ w = 0xffff) → ∀ t : FormatScan n,
      Printed t (text ++ (hexWord full w ++ colonAfter s.i)) → t.i = s.i + 1 →
      t.compact = s.compact → t.z = (if w = 0 ∧ s.i = s.z then s.z + 1 else s.z) →
      (loop (formatStep words full) rounds t).Ends Q) :
    (loop (formatStep words full) (rounds + 1) s).Ends Q := by
  have hi : s.i < 8 := by
    by_contra hge
    rw [List.drop_of_length_le (by omega)] at hdrop
    cases hdrop
  have hcount : Printed (countZero w s) text := by
    unfold countZero
    split
    · exact ⟨h.octets, h.length⟩
    · exact h
  have hz : (countZero w s).z = if w = 0 ∧ s.i = s.z then s.z + 1 else s.z := by
    unfold countZero
    split <;> rfl
  have hc : (countZero w s).compact = s.compact := by
    unfold countZero
    split <;> rfl
  rw [loop, formatStep, if_neg (by omega), getD_of_drop hdrop]
  dsimp only
  rw [if_neg hcompact, ends_bind]
  refine (formatWord_prints full w hcount ?_ ?_).mono ?_
  · rw [hz, countZero_i]
    split <;> omega
  · rw [countZero_i]
    exact hfit
  · rintro r ⟨t, ht, htz, htc, hr⟩
    rw [countZero_i] at ht hr
    rw [hz] at htz hr
    by_cases hw : w = 0 ∧ s.i = s.z
    · rw [if_pos hw] at hr htz
      rw [if_neg (by omega)] at hr
      obtain ⟨rfl, hti⟩ := hr
      exact hnext (by omega) t ht hti (htc.trans hc) (by rw [if_pos hw]; exact htz)
    · rw [if_neg hw] at hr htz
      by_cases hm : s.z = 5 ∧ s.i = 5 ∧ w = 0xffff
      · rw [if_pos hm] at hr
        obtain ⟨rfl, hti⟩ := hr
        exact ends_pure.mpr (hmapped hm.1 hm.2.1 hm.2.2 t ht (htz.trans hm.1) (hti.trans hm.2.1))
      · rw [if_neg hm] at hr
        obtain ⟨rfl, hti⟩ := hr
        exact hnext hm t ht hti (htc.trans hc) (by rw [if_neg hw]; exact htz)

theorem groupsText_cons_eq (full : Bool) (hwords : words.length = 8) {i w : Nat} {rest : List Nat}
    (hdrop : words.drop i = w :: rest) : AddressForm.groupsText full none (w :: rest) =
      hexWord full w ++ colonAfter i ++ AddressForm.groupsText full none rest := by
  have hlen : i + (w :: rest).length = 8 := by
    rw [← hdrop, List.length_drop, hwords]
    have hi : i < 8 := by
      by_contra hge
      rw [List.drop_of_length_le (by omega)] at hdrop
      cases hdrop
    omega
  rw [List.length_cons] at hlen
  rw [AddressForm.groupsText, colonAfter]
  cases rest with
  | nil => simp [show ¬ i < 7 by simpa using (by simpa using hlen : i + 1 = 8).ge, AddressForm.groupsText,
      AddressForm.quadText]
  | cons v rest =>
      rw [List.length_cons] at hlen
      simp [show i < 7 by omega]

theorem formatLoop_plain (full : Bool) (hwords : words.length = 8) (rest : List Nat) :
    ∀ {s : FormatScan n} {text : List Octet} {rounds : Nat}, Printed s text →
      words.drop s.i = rest → s.z < s.i → ¬ (s.compact = 1 ∧ 0 ∈ rest) →
      text.length + (AddressForm.groupsText full none rest).length < n → rest.length < rounds →
      (loop (formatStep words full) rounds s).Ends
        (LoopPrints (text ++ AddressForm.groupsText full none rest) false) := by
  induction rest with
  | nil =>
      intro s text rounds h hdrop hz _ _ hrounds
      obtain ⟨rounds, rfl⟩ : ∃ k, rounds = k + 1 := ⟨rounds - 1, by omega⟩
      have hi : 8 ≤ s.i := by
        have := List.drop_eq_nil_iff.mp hdrop
        omega
      refine formatStep_done full hi ⟨?_, iff_of_false ?_ Bool.false_ne_true⟩
      · rw [AddressForm.groupsText, AddressForm.quadText, Option.elim_none, List.append_nil]
        exact h
      · omega
  | cons w rest ih =>
      intro s text rounds h hdrop hz hcompact hfit hrounds
      obtain ⟨rounds, rfl⟩ : ∃ k, rounds = k + 1 := ⟨rounds - 1, by omega⟩
      rw [groupsText_cons_eq full hwords hdrop, List.length_append] at hfit
      rw [groupsText_cons_eq full hwords hdrop, ← List.append_assoc]
      rw [List.length_cons] at hrounds
      have hnot : ¬ (s.compact = 1 ∧ w = 0) := fun hc => hcompact ⟨hc.1, by simp [hc.2]⟩
      refine formatStep_word full h hwords hdrop hnot (by omega) (by omega)
        (fun h5 h5' => by omega) fun _ t ht hti htc htz => ?_
      rw [if_neg (by omega)] at htz
      refine ih ht (by rw [hti]; exact drop_succ_of_drop hdrop) (by omega) ?_ ?_ (by omega)
      · rw [htc]
        exact fun hc => hcompact ⟨hc.1, List.mem_cons_of_mem _ hc.2⟩
      · rw [List.length_append]
        omega

/-! ### Leading zeros -/

/-- What is printed from a word on that stands behind `j` zero words and no other. -/
def leadingText (full : Bool) (j : Nat) (rest : List Nat) : List Octet :=
  if dottedBehind j rest then fieldsText ((rest.take (6 - j)).map (hexWord full))
  else AddressForm.groupsText full none rest

theorem dottedBehind_le {j : Nat} {rest : List Nat} (h : dottedBehind j rest = true) : j ≤ 6 := by
  induction rest generalizing j with
  | nil => cases h
  | cons w rest ih =>
      rw [dottedBehind] at h
      split at h
      · have := ih h
        omega
      · simp only [Bool.or_eq_true, Bool.and_eq_true, decide_eq_true_eq] at h
        omega

theorem leadingText_zero (full : Bool) (hwords : words.length = 8) {j : Nat} {rest : List Nat}
    (hdrop : words.drop j = 0 :: rest) : leadingText full j (0 :: rest) =
      hexWord full 0 ++ colonAfter j ++ leadingText full (j + 1) rest := by
  have hdotted : dottedBehind j (0 :: rest) = dottedBehind (j + 1) rest := by
    rw [dottedBehind, if_pos rfl]
  rw [leadingText, leadingText, hdotted]
  cases h : dottedBehind (j + 1) rest with
  | false =>
      rw [if_neg Bool.false_ne_true, if_neg Bool.false_ne_true]
      exact groupsText_cons_eq full hwords hdrop
  | true =>
      have hle := dottedBehind_le h
      rw [if_pos rfl, if_pos rfl, colonAfter, if_pos (by omega),
        show 6 - j = (6 - (j + 1)) + 1 by omega, List.take_succ_cons]
      rfl

theorem formatLoop_leading (full : Bool) (hwords : words.length = 8) (rest : List Nat) :
    ∀ {s : FormatScan n} {text : List Octet} {rounds : Nat}, Printed s text →
      words.drop s.i = rest → s.z = s.i → s.compact ≠ 1 →
      text.length + (leadingText full s.i rest).length < n → rest.length < rounds →
      (loop (formatStep words full) rounds s).Ends
        (LoopPrints (text ++ leadingText full s.i rest) (dottedBehind s.i rest)) := by
  induction rest with
  | nil =>
      intro s text rounds h hdrop hz _ _ hrounds
      obtain ⟨rounds, rfl⟩ : ∃ k, rounds = k + 1 := ⟨rounds - 1, by omega⟩
      have hi : 8 ≤ s.i := by
        have := List.drop_eq_nil_iff.mp hdrop
        omega
      have htext : leadingText full s.i [] = [] := rfl
      rw [htext, List.append_nil]
      exact formatStep_done full hi ⟨h, iff_of_false (by omega) Bool.false_ne_true⟩
  | cons w rest ih =>
      intro s text rounds h hdrop hz hcompact hfit hrounds
      obtain ⟨rounds, rfl⟩ : ∃ k, rounds = k + 1 := ⟨rounds - 1, by omega⟩
      rw [List.length_cons] at hrounds
      have hnot : ¬ (s.compact = 1 ∧ w = 0) := fun hc => hcompact hc.1
      by_cases hw : w = 0
      · -- One more leading zero.
        subst hw
        rw [leadingText_zero full hwords hdrop, List.length_append] at hfit
        rw [leadingText_zero full hwords hdrop, ← List.append_assoc]
        have hdotted : dottedBehind s.i (0 :: rest) = dottedBehind (s.i + 1) rest := by
          rw [dottedBehind, if_pos rfl]
        rw [hdotted]
        refine formatStep_word full h hwords hdrop hnot (by omega) (by omega)
          (fun _ _ hmapped => by cases hmapped) fun _ t ht hti htc htz => ?_
        rw [if_pos ⟨rfl, hz.symm⟩] at htz
        rw [← hti]
        refine ih ht (by rw [hti]; exact drop_succ_of_drop hdrop) (by omega) (by rw [htc]; exact hcompact)
          ?_ (by omega)
        rw [List.length_append, hti]
        omega
      · by_cases hsix : s.i = 6
        · -- The last two words are put as a dotted quad.
          have hdotted : dottedBehind s.i (w :: rest) = true := by
            rw [dottedBehind, if_neg hw, hsix]
            rfl
          have htext : leadingText full s.i (w :: rest) = [] := by
            rw [leadingText, if_pos hdotted, hsix]
            rfl
          rw [htext, hdotted, List.append_nil, loop, formatStep, if_neg (by omega),
            getD_of_drop hdrop]
          dsimp only
          have hcount : countZero w s = s := if_neg fun hc => hw hc.1
          rw [if_neg hnot, hcount, formatWord, if_pos ⟨by omega, hsix⟩, Run.pure_bind]
          exact ends_pure.mpr ⟨h, iff_of_true (.inl ⟨by omega, hsix⟩) rfl⟩
        · by_cases hmapped : s.i = 5 ∧ w = 0xffff
          · obtain ⟨hfive, rfl⟩ := hmapped
            have hdotted : dottedBehind s.i (0xffff :: rest) = true := by
              rw [dottedBehind, if_neg hw, hfive]
              rfl
            have htext : leadingText full s.i (0xffff :: rest) =
                hexWord full 0xffff ++ colonAfter s.i := by
              rw [leadingText, if_pos hdotted, hfive]
              simp [fieldsText, colonAfter]
            rw [htext] at hfit
            rw [htext, hdotted]
            refine formatStep_word full h hwords hdrop hnot (by omega) hfit
              (fun _ _ _ t ht htz hti => ⟨ht, iff_of_true (.inr ⟨htz, hti⟩) rfl⟩)
              fun hno => absurd ⟨by omega, hfive, rfl⟩ hno
          · have hdotted : dottedBehind s.i (w :: rest) = false := by
              rw [dottedBehind, if_neg hw]
              simp only [Bool.or_eq_false_iff, Bool.and_eq_false_iff, decide_eq_false_iff_not]
              omega
            have htext : leadingText full s.i (w :: rest) =
                hexWord full w ++ colonAfter s.i ++ AddressForm.groupsText full none rest := by
              rw [leadingText, hdotted, if_neg Bool.false_ne_true]
              exact groupsText_cons_eq full hwords hdrop
            rw [htext, List.length_append] at hfit
            rw [htext, hdotted, ← List.append_assoc]
            refine formatStep_word full h hwords hdrop hnot (by omega) (by omega)
              (fun _ h5 hf => absurd ⟨h5, hf⟩ hmapped) fun _ t ht hti htc htz => ?_
            rw [if_neg fun hc => hw hc.1] at htz
            refine formatLoop_plain full hwords rest ht (by rw [hti]; exact drop_succ_of_drop hdrop)
              (by omega) (fun hc => hcompact (htc ▸ hc.1)) ?_ (by omega)
            rw [List.length_append]
            omega

/-! ### Zeros compacted -/

theorem skipZeros_eq (hwords : words.length = 8) (rest : List Nat) : ∀ {i z rounds : Nat},
    words.drop i = rest → z ≤ i → rest.length < rounds →
    skipZeros words rounds i z 0 =
      (i + (rest.takeWhile (· = 0)).length,
        if z = i then i + (rest.takeWhile (· = 0)).length else z,
        (rest.dropWhile (· = 0)).headD 0) := by
  induction rest with
  | nil =>
      intro i z rounds hdrop hz hrounds
      obtain ⟨rounds, rfl⟩ : ∃ k, rounds = k + 1 := ⟨rounds - 1, by omega⟩
      have hi : 8 ≤ i := by
        have := List.drop_eq_nil_iff.mp hdrop
        omega
      rw [skipZeros, if_pos hi]
      by_cases heq : z = i
      · simp [heq]
      · simp [heq]
  | cons w rest ih =>
      intro i z rounds hdrop hz hrounds
      obtain ⟨rounds, rfl⟩ : ∃ k, rounds = k + 1 := ⟨rounds - 1, by omega⟩
      rw [List.length_cons] at hrounds
      have hi : i < 8 := by
        by_contra hge
        rw [List.drop_of_length_le (by omega)] at hdrop
        cases hdrop
      rw [skipZeros, if_neg (by omega), getD_of_drop hdrop]
      by_cases hw : w = 0
      · subst hw
        rw [if_neg (by simp), ih (drop_succ_of_drop hdrop) (by split <;> omega) (by omega)]
        have hcount : ((if i = z then z + 1 else z) = i + 1) ↔ z = i := by split <;> omega
        simp only [hcount, decide_true, List.takeWhile_cons, List.dropWhile_cons, if_true,
          List.length_cons]
        by_cases heq : z = i
        · simp only [heq, if_true]
          exact Prod.ext (by dsimp only; omega) (Prod.ext (by dsimp only; omega) rfl)
        · simp only [heq, if_false, if_neg (Ne.symm heq)]
          exact Prod.ext (by dsimp only; omega) rfl
      · rw [if_pos hw]
        by_cases heq : z = i
        · simp [hw, heq]
        · simp [hw, heq]

/-- What comes of the rest of the loop behind a round. -/
def Continues (words : List Nat) (full : Bool) (rounds : Nat) (Q : FormatScan n → Prop) :
    FormatScan n ⊕ FormatScan n → Prop
  | .inl t => (loop (formatStep words full) rounds t).Ends Q
  | .inr t => Q t

theorem loop_of_continues {full : Bool} {rounds : Nat} {Q : FormatScan n → Prop}
    {s : FormatScan n} (h : (formatStep words full s).Ends (Continues words full rounds Q)) :
    (loop (formatStep words full) (rounds + 1) s).Ends Q := by
  rw [loop, ends_bind]
  refine h.mono fun r hr => ?_
  cases r with
  | inl t => exact hr
  | inr t => exact ends_pure.mpr hr

/-- The words behind compacted zeros; when there are none, the last zero is printed. -/
def wordsAfter (after : List Nat) : List Nat :=
  if after = [] then [0] else after

theorem formatWord_after (hwords : words.length = 8) {after : List Nat} {t : FormatScan n}
    {text : List Octet} (h : Printed t text) (hdrop : words.drop t.i = after) (hi : t.i ≤ 8)
    (hz : t.z ≤ t.i) (hcompact : t.compact = 0) (hsix : ¬ (t.z = 6 ∧ t.i = 6))
    (hfive : ¬ (t.z = 5 ∧ t.i = 5 ∧ after.headD 0 = 0xffff))
    (hfit : text.length + (AddressForm.groupsText false none (wordsAfter after)).length < n)
    {rounds : Nat} (hrounds : after.length < rounds) :
    (formatWord false (after.headD 0) t).Ends (Continues words false rounds
      (LoopPrints (text ++ AddressForm.groupsText false none (wordsAfter after)) false)) := by
  have hnone : AddressForm.groupsText false none [] = [] := rfl
  cases after with
  | nil =>
      have hlen := length_of_drop hwords hdrop hi
      rw [List.length_nil, Nat.add_zero] at hlen
      have htext : AddressForm.groupsText false none (wordsAfter []) =
          hexWord false 0 ++ colonAfter t.i := by
        rw [wordsAfter, if_pos rfl, AddressForm.groupsText, if_pos ⟨rfl, rfl⟩, colonAfter,
          if_neg (by omega)]
      rw [List.headD_nil] at hfive ⊢
      rw [htext] at hfit ⊢
      refine (formatWord_prints false _ h hsix hfit).mono ?_
      rintro r ⟨u, hu, huz, huc, hr⟩
      rw [if_neg hfive] at hr
      obtain ⟨rfl, hui⟩ := hr
      have hrest := formatLoop_plain false hwords [] hu
        (List.drop_of_length_le (by rw [hwords, hui]; omega)) (by omega) (fun hc => by
          rw [huc, hcompact] at hc
          exact absurd hc.1 (by decide)) (by
          rw [hnone, List.length_append, List.length_nil]
          omega) (by rw [List.length_nil] at hrounds ⊢; exact hrounds)
      rwa [hnone, List.append_nil] at hrest
  | cons w after =>
      have htext : AddressForm.groupsText false none (wordsAfter (w :: after)) =
          hexWord false w ++ colonAfter t.i ++ AddressForm.groupsText false none after := by
        rw [wordsAfter, if_neg (List.cons_ne_nil _ _)]
        exact groupsText_cons_eq false hwords hdrop
      rw [List.length_cons] at hrounds
      rw [htext, List.length_append] at hfit
      rw [List.headD_cons] at hfive ⊢
      rw [htext, ← List.append_assoc]
      refine (formatWord_prints false _ h hsix (by omega)).mono ?_
      rintro r ⟨u, hu, huz, huc, hr⟩
      rw [if_neg hfive] at hr
      obtain ⟨rfl, hui⟩ := hr
      refine formatLoop_plain false hwords after hu (by rw [hui]; exact drop_succ_of_drop hdrop)
        (by omega) (fun hc => ?_) ?_ (by omega)
      · rw [huc, hcompact] at hc
        exact absurd hc.1 (by decide)
      · rw [List.length_append]
        omega

/-- What a run of zeros is printed as. -/
def zerosText (i : Nat) : List Octet :=
  if 0 < i then [ch ':'] else [ch ':', ch ':']

theorem formatStep_zeros (hwords : words.length = 8) {s : FormatScan n} {text : List Octet}
    (h : Printed s text) {rest : List Nat} (hdrop : words.drop s.i = 0 :: rest)
    (hcompact : s.compact = 1) (hz : s.z ≤ s.i)
    (hfit : text.length + (zerosText s.i).length < n) {rounds : Nat} {Q : FormatScan n → Prop}
    (hlast : s.i = 7 → ∀ t : FormatScan n, Printed t (text ++ zerosText s.i) → t.i = 7 → Q t)
    (hnext : s.i ≠ 7 → ∀ t : FormatScan n, Printed t (text ++ zerosText s.i) → t.compact = 0 →
      t.i = s.i + 1 + (rest.takeWhile (· = 0)).length → t.z = (if s.z = s.i then t.i else s.z) →
      (formatWord false ((rest.dropWhile (· = 0)).headD 0) t).Ends
        (Continues words false rounds Q)) :
    (loop (formatStep words false) (rounds + 1) s).Ends Q := by
  have hi : s.i < 8 := by
    by_contra hge
    rw [List.drop_of_length_le (by omega)] at hdrop
    cases hdrop
  have hlen := length_of_drop hwords hdrop (by omega)
  rw [List.length_cons] at hlen
  obtain ⟨⟨old, hold⟩, hlength⟩ := h
  have hcount : ∃ z, countZero 0 s = { s with z := z } ∧ z = if s.z = s.i then s.i + 1 else s.z := by
    unfold countZero
    by_cases heq : s.z = s.i
    · rw [if_pos ⟨rfl, heq.symm⟩, if_pos heq]
      exact ⟨s.z + 1, rfl, by rw [heq]⟩
    · rw [if_neg fun hc => heq hc.2.symm, if_neg heq]
      exact ⟨s.z, rfl, rfl⟩
  obtain ⟨z, hcount, hzvalue⟩ := hcount
  apply loop_of_continues
  rw [formatStep, if_neg (by omega), getD_of_drop hdrop]
  dsimp only
  rw [if_pos ⟨hcompact, rfl⟩, hcount, formatZeros, ends_bind]
  dsimp only
  rw [hlength]
  refine (snprintf_prints hold hfit).mono ?_
  rintro ⟨buffer, length⟩ ⟨rfl, rest', hput⟩
  change buffer.octets = text ++ zerosText s.i ++ 0 :: rest' at hput
  change (if n - text.length ≤ (zerosText s.i).length then _ else _ : Run _).Ends _
  rw [if_neg (by omega)]
  have hzle : z ≤ s.i + 1 := by
    rw [hzvalue]
    split <;> omega
  have hskip := skipZeros_eq hwords rest (drop_succ_of_drop hdrop) hzle (show rest.length < 8 by omega)
  by_cases hseven : s.i = 7
  · rw [if_pos hseven, ends_pure]
    exact hlast hseven _ ⟨⟨_, hput⟩, List.length_append.symm⟩ hseven
  · rw [if_neg hseven, hskip]
    refine hnext hseven _ ⟨⟨_, hput⟩, List.length_append.symm⟩ rfl rfl ?_
    have hsame : z = s.i + 1 ↔ s.z = s.i := by
      rw [hzvalue]
      split <;> omega
    dsimp only
    by_cases heq : s.z = s.i
    · rw [if_pos (hsame.mpr heq), if_pos heq]
    · rw [if_neg (mt hsame.mp heq), if_neg heq, hzvalue, if_neg heq]

/-- The words behind the zeros compacted at a word: a last word that is zero is left out. -/
def backWords (i : Nat) (after : List Nat) : List Nat :=
  if after = [] ∧ i < 7 then [0] else after

/-- What is printed from word `i` on, up to the end, with the first zeros compacted. -/
def compactText (i : Nat) (rest : List Nat) : List Octet :=
  fieldsText ((rest.takeWhile (· ≠ 0)).map (hexWord false)) ++
    (zerosText (i + (rest.takeWhile (· ≠ 0)).length) ++
      AddressForm.groupsText false none (backWords (i + (rest.takeWhile (· ≠ 0)).length)
        ((rest.dropWhile (· ≠ 0)).dropWhile (· = 0))))

theorem compactText_zero (i : Nat) (rest : List Nat) : compactText i (0 :: rest) =
    zerosText i ++
      AddressForm.groupsText false none (backWords i (rest.dropWhile (· = 0))) := by
  simp [compactText, fieldsText]

theorem colonAfter_of_drop (hwords : words.length = 8) {i w : Nat} {rest : List Nat}
    (hdrop : words.drop i = w :: rest) (hrest : rest ≠ []) : colonAfter i = [ch ':'] := by
  have hpos := List.length_pos_of_ne_nil hrest
  have hlen := congrArg List.length hdrop
  rw [List.length_drop, hwords, List.length_cons] at hlen
  rw [colonAfter, if_pos (by omega)]

theorem compactText_cons (hwords : words.length = 8) {i w : Nat} {rest : List Nat}
    (hdrop : words.drop i = w :: rest) (hw : w ≠ 0) (hzero : 0 ∈ rest) : compactText i (w :: rest) =
      hexWord false w ++ colonAfter i ++ compactText (i + 1) rest := by
  rw [colonAfter_of_drop hwords hdrop (List.ne_nil_of_mem hzero)]
  have hfront : (w :: rest).takeWhile (· ≠ 0) = w :: rest.takeWhile (· ≠ 0) :=
    List.takeWhile_cons_of_pos (by simpa using hw)
  have hback : (w :: rest).dropWhile (· ≠ 0) = rest.dropWhile (· ≠ 0) :=
    List.dropWhile_cons_of_pos (by simpa using hw)
  rw [compactText, compactText, hfront, hback, List.length_cons,
    show i + ((rest.takeWhile (· ≠ 0)).length + 1) = i + 1 + (rest.takeWhile (· ≠ 0)).length by omega]
  simp [fieldsText]

theorem drop_zeros {i : Nat} {rest : List Nat} (hdrop : words.drop i = 0 :: rest) :
    words.drop (i + 1 + (rest.takeWhile (· = 0)).length) = rest.dropWhile (· = 0) := by
  have hleft : (rest.takeWhile (· = 0) ++ rest.dropWhile (· = 0)).drop
      (rest.takeWhile (· = 0)).length = rest.dropWhile (· = 0) := List.drop_left
  rw [List.takeWhile_append_dropWhile] at hleft
  rw [← List.drop_drop, drop_succ_of_drop hdrop, hleft]

theorem formatLoop_compact (hwords : words.length = 8) (rest : List Nat) :
    ∀ {s : FormatScan n} {text : List Octet} {rounds : Nat}, Printed s text →
      words.drop s.i = rest → s.z < s.i → s.compact = 1 → 0 ∈ rest →
      text.length + (compactText s.i rest).length < n → rest.length < rounds →
      (loop (formatStep words false) rounds s).Ends
        (LoopPrints (text ++ compactText s.i rest) false) := by
  induction rest with
  | nil => exact fun _ _ _ _ hzero => absurd hzero List.not_mem_nil
  | cons w rest ih =>
      intro s text rounds h hdrop hz hcompact hzero hfit hrounds
      obtain ⟨rounds, rfl⟩ : ∃ k, rounds = k + 1 := ⟨rounds - 1, by omega⟩
      rw [List.length_cons] at hrounds
      by_cases hw : w = 0
      · subst hw
        have hlen := length_of_drop hwords hdrop (by
          by_contra hge
          rw [List.drop_of_length_le (by omega)] at hdrop
          cases hdrop)
        have hdrop' := drop_zeros hdrop
        have hbehind : (rest.takeWhile (· = 0)).length + (rest.dropWhile (· = 0)).length =
            rest.length := by
          rw [← List.length_append, List.takeWhile_append_dropWhile]
        rw [List.length_cons] at hlen
        rw [compactText_zero, List.length_append] at hfit
        rw [compactText_zero, ← List.append_assoc]
        refine formatStep_zeros hwords h hdrop hcompact (by omega) (by omega) ?_ ?_
        · -- The last word: the zero is left out.
          intro hseven t ht hti
          have hnone : rest = [] := List.eq_nil_of_length_eq_zero (by omega)
          have hback : backWords s.i (rest.dropWhile (· = 0)) = [] := by
            rw [hnone, backWords, if_neg (fun hc => by omega)]
            rfl
          have hnil : AddressForm.groupsText false none [] = [] := rfl
          rw [hback, hnil, List.append_nil]
          exact ⟨ht, iff_of_false (by omega) Bool.false_ne_true⟩
        · intro hseven t ht htc hti htz
          have hback : backWords s.i (rest.dropWhile (· = 0)) = wordsAfter (rest.dropWhile (· = 0)) := by
            rw [backWords, wordsAfter]
            simp [show s.i < 7 by omega]
          rw [if_neg (by omega)] at htz
          rw [hback] at hfit ⊢
          refine formatWord_after hwords ht (by rw [hti]; exact hdrop') (by omega) (by omega) htc
            (by omega) (by omega) ?_ (by omega)
          rw [List.length_append]
          omega
      · have hzero' : 0 ∈ rest := by simpa [Ne.symm hw] using hzero
        rw [compactText_cons hwords hdrop hw hzero', List.length_append] at hfit
        rw [compactText_cons hwords hdrop hw hzero', ← List.append_assoc]
        refine formatStep_word false h hwords hdrop (fun hc => hw hc.2) (by omega) (by omega)
          (fun h5 h5' => by omega) fun _ t ht hti htc htz => ?_
        rw [if_neg fun hc => hw hc.1] at htz
        rw [← hti]
        refine ih ht (by rw [hti]; exact drop_succ_of_drop hdrop) (by omega) (htc.trans hcompact) hzero'
          ?_ (by omega)
        rw [List.length_append, hti]
        omega

/-! ### The whole text -/

theorem dottedBehind_dropWhile (j : Nat) (rest : List Nat) : dottedBehind j rest =
    dottedBehind (j + (rest.takeWhile (· = 0)).length) (rest.dropWhile (· = 0)) := by
  induction rest generalizing j with
  | nil => rfl
  | cons w rest ih =>
      by_cases hw : w = 0
      · subst hw
        rw [dottedBehind, if_pos rfl, ih]
        simp only [decide_true, List.takeWhile_cons, List.dropWhile_cons, if_true, List.length_cons]
        congr 1
        omega
      · simp [hw]

/-- What is printed before a dotted quad, or all of the text. -/
def bodyText (compact : Nat) (words : List Nat) : List Octet :=
  if compact = 1 ∧ 0 ∈ words then
    if dottedBehind 0 words then
      let after := words.dropWhile (· = 0)
      [ch ':', ch ':'] ++ fieldsText ((after.take (after.length - 2)).map (hexWord false))
    else compactText 0 words
  else leadingText (compact = 2) 0 words

/-- Leading zeros, compacted. -/
theorem formatLoop_colons (hwords : words.length = 8) {rest : List Nat} (hzero : words = 0 :: rest)
    {s : FormatScan n} (h : Printed s []) (hi : s.i = 0) (hz : s.z = 0) (hcompact : s.compact = 1)
    (hfit : (bodyText 1 words).length < n) {rounds : Nat} (hrounds : rest.length < rounds) :
    (loop (formatStep words false) (rounds + 1) s).Ends
      (LoopPrints (bodyText 1 words) (dottedBehind 0 words)) := by
  have hdrop : words.drop s.i = 0 :: rest := by rw [hi, hzero]; rfl
  have hdrop' := drop_zeros hdrop
  have hmem : 0 ∈ words := by rw [hzero]; exact List.mem_cons_self
  rw [hi, Nat.zero_add] at hdrop'
  have hbehind : (rest.takeWhile (· = 0)).length + (rest.dropWhile (· = 0)).length = rest.length := by
    rw [← List.length_append, List.takeWhile_append_dropWhile]
  have hlen : rest.length = 7 := by
    rw [hzero, List.length_cons] at hwords
    omega
  have hdotted : dottedBehind 0 words =
      dottedBehind (1 + (rest.takeWhile (· = 0)).length) (rest.dropWhile (· = 0)) := by
    rw [hzero, dottedBehind, if_pos rfl, dottedBehind_dropWhile]
  have hafter : words.dropWhile (· = 0) = rest.dropWhile (· = 0) := by
    rw [hzero]
    exact List.dropWhile_cons_of_pos rfl
  have hcolons : zerosText s.i = [ch ':', ch ':'] := by rw [hi]; rfl
  have hplain : dottedBehind 0 words = false → bodyText 1 words = [ch ':', ch ':'] ++
      AddressForm.groupsText false none (wordsAfter (rest.dropWhile (· = 0))) := by
    intro hnot
    rw [bodyText, if_pos ⟨rfl, hmem⟩, hnot, if_neg Bool.false_ne_true, hzero, compactText_zero]
    simp [zerosText, backWords, wordsAfter]
  have hquad : dottedBehind 0 words = true → bodyText 1 words = [ch ':', ch ':'] ++
      fieldsText (((rest.dropWhile (· = 0)).take ((rest.dropWhile (· = 0)).length - 2)).map
        (hexWord false)) := by
    intro hdot
    rw [bodyText, if_pos ⟨rfl, hmem⟩, if_pos hdot, hafter]
  have hfitColons : ([] : List Octet).length + (zerosText s.i).length < n := by
    rw [hcolons]
    cases hd : dottedBehind 0 words with
    | false =>
        rw [hplain hd, List.length_append] at hfit
        rw [List.length_nil]
        omega
    | true =>
        rw [hquad hd, List.length_append] at hfit
        rw [List.length_nil]
        omega
  refine formatStep_zeros hwords h hdrop hcompact (by omega) hfitColons (fun hseven => by omega)
    fun _ t ht htc hti htz => ?_
  rw [if_pos (hz.trans hi.symm)] at htz
  rw [hcolons, List.nil_append] at ht
  rw [hi, Nat.zero_add] at hti
  rw [← hti] at hdrop' hdotted
  have hhead := List.head?_dropWhile_not (fun v => decide (v = 0)) rest
  cases hd : dottedBehind 0 words with
  | false =>
      rw [hplain hd, List.length_append] at hfit
      rw [hplain hd]
      rw [hd] at hdotted
      have hnot : ¬ (t.i = 6 ∧ t.i = 6) ∧
          ¬ (t.i = 5 ∧ t.i = 5 ∧ (rest.dropWhile (· = 0)).headD 0 = 0xffff) := by
        cases hback : rest.dropWhile (· = 0) with
        | nil =>
            rw [hback, List.length_nil] at hbehind
            omega
        | cons w after =>
            rw [hback] at hhead hdotted
            have hw : w ≠ 0 := by simpa using hhead
            rw [dottedBehind, if_neg hw, eq_comm, Bool.or_eq_false_iff, Bool.and_eq_false_iff] at hdotted
            simp only [decide_eq_false_iff_not] at hdotted
            rw [List.headD_cons]
            omega
      refine formatWord_after hwords ht hdrop' (by omega) (by omega) htc (by rw [htz]; exact hnot.1)
        (by rw [htz]; exact hnot.2) (by omega) (by omega)
  | true =>
      rw [hquad hd, List.length_append] at hfit
      rw [hquad hd]
      rw [hd] at hdotted
      cases hback : rest.dropWhile (· = 0) with
      | nil =>
          rw [hback] at hdotted
          cases hdotted
      | cons w after =>
          rw [hback] at hhead hdotted hfit hbehind
          have hw : w ≠ 0 := by simpa using hhead
          rw [List.length_cons] at hbehind
          rw [dottedBehind, if_neg hw, eq_comm, Bool.or_eq_true, Bool.and_eq_true] at hdotted
          simp only [decide_eq_true_eq] at hdotted
          rw [List.headD_cons]
          rcases hdotted with hsix | ⟨hfive, rfl⟩
          · have htake : (w :: after).take ((w :: after).length - 2) = [] := by
              rw [List.length_cons, show after.length + 1 - 2 = 0 by omega, List.take_zero]
            have hnil : fieldsText (([] : List Nat).map (hexWord false)) = [] := rfl
            rw [htake, hnil, List.append_nil, formatWord, if_pos ⟨htz.trans hsix, hsix⟩, ends_pure]
            exact ⟨ht, iff_of_true (.inl ⟨htz.trans hsix, hsix⟩) rfl⟩
          · have htake : (0xffff :: after).take ((0xffff :: after).length - 2) = [0xffff] := by
              rw [List.length_cons, show after.length + 1 - 2 = 0 + 1 by omega, List.take_succ_cons,
                List.take_zero]
            have htext : fieldsText (([0xffff] : List Nat).map (hexWord false)) =
                hexWord false 0xffff ++ colonAfter t.i := by
              rw [hfive]
              simp [fieldsText, colonAfter]
            rw [htake, htext] at hfit
            rw [htake, htext]
            refine (formatWord_prints false 0xffff ht (by omega) (by omega)).mono ?_
            rintro r ⟨u, hu, huz, -, hr⟩
            rw [if_pos ⟨htz.trans hfive, hfive, rfl⟩] at hr
            obtain ⟨rfl, hui⟩ := hr
            exact ⟨hu, iff_of_true (.inr ⟨by omega, by omega⟩) rfl⟩

theorem formatLoop_prints (hwords : words.length = 8) {s : FormatScan n} (h : Printed s [])
    (hi : s.i = 0) (hz : s.z = 0) (hfit : (bodyText s.compact words).length < n) :
    (loop (formatStep words (s.compact = 2)) 9 s).Ends
      (LoopPrints (bodyText s.compact words) (dottedBehind 0 words)) := by
  have hdrop : words.drop s.i = words := by rw [hi, List.drop_zero]
  by_cases hcompact : s.compact = 1
  · rw [hcompact] at hfit ⊢
    have hfull : decide (1 = 2) = false := rfl
    rw [hfull]
    obtain ⟨w, rest, hcons⟩ : ∃ w rest, words = w :: rest :=
      List.exists_cons_of_length_eq_add_one hwords
    have hrest : rest.length = 7 := by
      rw [hcons, List.length_cons] at hwords
      omega
    by_cases hw : w = 0
    · subst hw
      exact formatLoop_colons hwords hcons h hi hz hcompact hfit (by omega)
    · have hdotted : dottedBehind 0 words = false := by
        rw [hcons, dottedBehind, if_neg hw]
        rfl
      have hdropw : words.drop s.i = w :: rest := hdrop.trans hcons
      rw [hdotted]
      by_cases hzero : 0 ∈ rest
      · have hbody : bodyText 1 words =
            hexWord false w ++ colonAfter s.i ++ compactText (s.i + 1) rest := by
          rw [bodyText, if_pos ⟨rfl, by rw [hcons]; exact List.mem_cons_of_mem _ hzero⟩, hdotted,
            if_neg Bool.false_ne_true, hcons, ← hi]
          exact compactText_cons hwords hdropw hw hzero
        rw [hbody, List.length_append] at hfit
        rw [hbody]
        refine formatStep_word false h hwords hdropw (fun hc => hw hc.2) (by omega)
          (by rw [List.length_nil]; omega) (fun h5 => by omega) fun _ t ht hti htc htz => ?_
        rw [if_neg fun hc => hw hc.1] at htz
        rw [← hti]
        refine formatLoop_compact hwords rest ht (by rw [hti]; exact drop_succ_of_drop hdropw) (by omega)
          (htc.trans hcompact) hzero ?_ (by omega)
        rw [hti]
        exact hfit
      · have hbody : bodyText 1 words =
            hexWord false w ++ colonAfter s.i ++ AddressForm.groupsText false none rest := by
          have hno : ¬ ((1 : Nat) = 1 ∧ 0 ∈ words) := by
            rw [hcons, List.mem_cons, not_and, not_or]
            exact fun _ => ⟨Ne.symm hw, hzero⟩
          rw [bodyText, if_neg hno, leadingText, hdotted, if_neg Bool.false_ne_true, hcons]
          exact groupsText_cons_eq false hwords hdropw
        rw [hbody, List.length_append] at hfit
        rw [hbody]
        refine formatStep_word false h hwords hdropw (fun hc => hw hc.2) (by omega)
          (by rw [List.length_nil]; omega) (fun h5 => by omega) fun _ t ht hti htc htz => ?_
        rw [if_neg fun hc => hw hc.1] at htz
        refine formatLoop_plain false hwords rest ht (by rw [hti]; exact drop_succ_of_drop hdropw)
          (by omega) (fun hc => hzero hc.2) hfit (by omega)
  · have hbody : bodyText s.compact words = leadingText (s.compact = 2) s.i words := by
      rw [bodyText, if_neg fun hc => hcompact hc.1, hi]
    rw [hbody] at hfit ⊢
    have hprints := formatLoop_leading (s.compact = 2) hwords words h hdrop (hz.trans hi.symm) hcompact
      (by rw [List.length_nil]; omega) (show words.length < 9 by omega)
    rw [List.nil_append, hi] at hprints
    rw [hi]
    exact hprints

/-! ### The form of the text -/

theorem groupsText_quad (full : Bool) (quad : Buffer 4) (groups : List Nat) :
    AddressForm.groupsText full (some quad) groups =
      fieldsText (groups.map (hexWord full)) ++ dottedDecimal quad.octets := by
  induction groups with
  | nil => rfl
  | cons w groups ih =>
      rw [AddressForm.groupsText, if_neg (by simp), ih]
      simp [fieldsText]

theorem dottedBehind_cases (hwords : words.length = 8) (h : dottedBehind 0 words = true) :
    ∃ front quad, words = front ++ quad ∧ quad.length = 2 ∧
      (front = List.replicate 6 0 ∨ front = List.replicate 5 0 ++ [0xffff]) ∧
      words.dropWhile (· = 0) = front.dropWhile (· = 0) ++ quad := by
  rw [dottedBehind_dropWhile, Nat.zero_add] at h
  have hsplit := List.takeWhile_append_dropWhile (p := (· = 0)) (l := words)
  have hzeros : ∀ w ∈ words.takeWhile (· = 0), w = 0 := fun w hw => by
    simpa using List.mem_takeWhile_imp hw
  have hreplicate := List.eq_replicate_of_mem hzeros
  have hlen := congrArg List.length hsplit
  rw [List.length_append, hwords] at hlen
  have hhead := List.head?_dropWhile_not (fun v => decide (v = 0)) words
  cases hback : words.dropWhile (· = 0) with
  | nil =>
      rw [hback] at h
      cases h
  | cons w after =>
      rw [hback] at h hhead hsplit hlen
      have hw : w ≠ 0 := by simpa using hhead
      rw [List.length_cons] at hlen
      rw [dottedBehind, if_neg hw, Bool.or_eq_true, Bool.and_eq_true] at h
      simp only [decide_eq_true_eq] at h
      rcases h with hsix | ⟨hfive, rfl⟩
      · rw [hsix] at hreplicate
        refine ⟨List.replicate 6 0, w :: after, ?_, by rw [List.length_cons]; omega, .inl rfl, ?_⟩
        · rw [← hreplicate, hsplit]
        · rfl
      · rw [hfive] at hreplicate
        refine ⟨List.replicate 5 0 ++ [0xffff], after, ?_, by omega, .inr rfl, rfl⟩
        rw [← hreplicate, List.append_assoc, List.singleton_append, hsplit]

theorem dropWhile_of_dotted (hwords : words.length = 8) (h : dottedBehind 0 words = true) :
    words.takeWhile (· ≠ 0) = [] ∧ words.dropWhile (· ≠ 0) = words := by
  obtain ⟨front, quad, rfl, -, rfl | rfl, -⟩ := dottedBehind_cases hwords h
  · exact ⟨rfl, rfl⟩
  · exact ⟨rfl, rfl⟩

theorem text_formOf (hwords : words.length = 8) (compact : Nat) (quad : Buffer 4) :
    (formOf compact words quad).text =
      bodyText compact words ++ if dottedBehind 0 words then dottedDecimal quad.octets else [] := by
  rw [formOf, bodyText]
  by_cases hcompact : compact = 1 ∧ 0 ∈ words
  · rw [if_pos hcompact, if_pos hcompact]
    cases hd : dottedBehind 0 words with
    | true =>
        dsimp only
        rw [if_pos rfl, if_pos rfl, if_pos rfl, (dropWhile_of_dotted hwords hd).2,
          AddressForm.text]
        dsimp only
        rw [groupsText_quad, if_pos rfl, ← List.append_assoc]
        rfl
    | false =>
        dsimp only
        rw [if_neg Bool.false_ne_true, if_neg Bool.false_ne_true, if_neg Bool.false_ne_true,
          List.append_nil, AddressForm.text, compactText, Nat.zero_add, backWords]
        dsimp only
        rw [List.append_assoc]
        congr 1
        congr 1
        rw [zerosText]
        by_cases hfront : words.takeWhile (· ≠ 0) = []
        · rw [if_pos hfront, hfront]
          rfl
        · rw [if_neg hfront, if_pos (List.length_pos_of_ne_nil hfront)]
  · rw [if_neg hcompact, if_neg hcompact, leadingText]
    cases hd : dottedBehind 0 words with
    | true =>
        rw [if_pos rfl, if_pos rfl, if_pos rfl, AddressForm.text]
        dsimp only
        rw [groupsText_quad]
    | false =>
        rw [if_neg Bool.false_ne_true, if_neg Bool.false_ne_true, if_neg Bool.false_ne_true,
          List.append_nil]
        rfl

/-! ### The address of the form -/

theorem groupsOctets_zeros (k : Nat) :
    AddressForm.groupsOctets (List.replicate k 0) = List.replicate (2 * k) 0 := by
  induction k with
  | zero => rfl
  | succ k ih =>
      rw [List.replicate_succ, show 2 * (k + 1) = 2 * k + 1 + 1 by omega, List.replicate_succ,
        List.replicate_succ, ← ih]
      rfl

theorem groupsOctets_netWords (address : Ipv6) :
    AddressForm.groupsOctets (netWords address.octets) = address.octets := by
  obtain ⟨octets, hlen⟩ := address
  have hpair : ∀ a b : Octet, UInt8.ofNat ((a.toNat * 256 + b.toNat) / 256) = a ∧
      UInt8.ofNat ((a.toNat * 256 + b.toNat) % 256) = b := by
    intro a b
    have ha := a.toNat_lt
    have hb := b.toNat_lt
    rw [show (a.toNat * 256 + b.toNat) / 256 = a.toNat by omega,
      show (a.toNat * 256 + b.toNat) % 256 = b.toNat by omega]
    exact ⟨UInt8.ofNat_toNat, UInt8.ofNat_toNat⟩
  match octets, hlen with
  | [a0, b0, a1, b1, a2, b2, a3, b3, a4, b4, a5, b5, a6, b6, a7, b7], _ =>
      simp [AddressForm.groupsOctets, netWords, List.range_succ, hpair]

theorem netWords_lt (ip : List Octet) : ∀ w ∈ netWords ip, w < 65536 := by
  intro w hw
  obtain ⟨i, -, rfl⟩ := List.mem_map.mp hw
  have h0 := (ip.getD (2 * i) 0).toNat_lt
  have h1 := (ip.getD (2 * i + 1) 0).toNat_lt
  omega

theorem length_netWords (ip : List Octet) : (netWords ip).length = 8 := by
  simp [netWords]

/-- The last four octets of an address. -/
def quadOf (address : Ipv6) : Buffer 4 :=
  ⟨address.octets.drop 12, by rw [List.length_drop, address.length_octets]⟩

/-- The form that an address is written in. -/
def addressForm (compact : Nat) (address : Ipv6) : AddressForm :=
  formOf compact (netWords address.octets) (quadOf address)

theorem zeros_split (hzero : 0 ∈ words) : ∃ k, 0 < k ∧ words = words.takeWhile (· ≠ 0) ++
    List.replicate k 0 ++ (words.dropWhile (· ≠ 0)).dropWhile (· = 0) := by
  have hne := List.takeWhile_append_dropWhile (p := (· ≠ 0)) (l := words)
  have heq := List.takeWhile_append_dropWhile (p := (· = 0)) (l := words.dropWhile (· ≠ 0))
  have hzeros : ∀ w ∈ (words.dropWhile (· ≠ 0)).takeWhile (· = 0), w = 0 := fun w hw => by
    simpa using List.mem_takeWhile_imp hw
  refine ⟨((words.dropWhile (· ≠ 0)).takeWhile (· = 0)).length, ?_, ?_⟩
  · have hhead := List.head?_dropWhile_not (fun v => decide (v ≠ 0)) words
    cases hback : words.dropWhile (· ≠ 0) with
    | nil =>
        rw [hback, List.append_nil] at hne
        have hmem : 0 ∈ words.takeWhile (· ≠ 0) := by rw [hne]; exact hzero
        simpa using List.mem_takeWhile_imp hmem
    | cons w after =>
        rw [hback] at hhead
        have hw : w = 0 := by simpa using hhead
        rw [List.takeWhile_cons_of_pos (by simpa using hw)]
        exact Nat.succ_pos _
  · rw [← List.eq_replicate_of_mem hzeros, List.append_assoc, heq, hne]

theorem spec_of_zeros {front back : List Nat} (k : Nat) (last : List Nat) (quad : Option (Buffer 4))
    (hsplit : words = front ++ List.replicate k 0 ++ back ++ last) (hwords : words.length = 8)
    (hlt : ∀ w ∈ words, w < 65536) (hk : 0 < k)
    (hlast : AddressForm.quadOctets quad = AddressForm.groupsOctets last)
    (hquad : quad.isSome → 1 < k) :
    (AddressForm.mk false front (some back) quad).WellFormed ∧
      (AddressForm.mk false front (some back) quad).octets = AddressForm.groupsOctets words := by
  subst hsplit
  simp only [List.length_append, List.length_replicate] at hwords
  simp only [List.mem_append] at hlt
  have hsize : (AddressForm.mk false front (some back) quad).size + 2 * k = 16 := by
    rw [AddressForm.size, hlast, length_groupsOctets, Option.getD_some]
    dsimp only
    omega
  refine ⟨⟨fun w hw => hlt w (.inl (.inl (.inl hw))), fun w hw => hlt w (.inl (.inr hw)), by simp,
    fun _ => by omega, fun _ h => ?_⟩, ?_⟩
  · have hpair := hquad h
    omega
  · rw [AddressForm.octets, groupsOctets_append, groupsOctets_append, groupsOctets_append,
      groupsOctets_zeros, Nat.sub_eq_of_eq_add' hsize.symm, hlast, Option.getD_some]

theorem formOf_spec (hwords : words.length = 8) (hlt : ∀ w ∈ words, w < 65536) (compact : Nat)
    {quad : Buffer 4} (hquad : quad.octets = AddressForm.groupsOctets (words.drop 6)) :
    (formOf compact words quad).WellFormed ∧
      (formOf compact words quad).octets = AddressForm.groupsOctets words := by
  have hquadlen := quad.length_octets
  rw [formOf]
  by_cases hcompact : compact = 1 ∧ 0 ∈ words
  · rw [if_pos hcompact]
    dsimp only
    cases hd : dottedBehind 0 words with
    | true =>
        rw [if_pos rfl, (dropWhile_of_dotted hwords hd).2]
        obtain ⟨front, last, rfl, hlast, hfront, hback⟩ := dottedBehind_cases hwords hd
        rw [hback, List.length_append, hlast, Nat.add_sub_cancel, List.take_left' rfl]
        have hlen : front.length = 6 := by
          rw [List.length_append] at hwords
          omega
        rw [List.drop_left' hlen] at hquad
        rcases hfront with rfl | rfl
        · exact spec_of_zeros 6 last (some quad) rfl hwords hlt (by omega) hquad (fun _ => by omega)
        · exact spec_of_zeros 5 last (some quad) rfl hwords hlt (by omega) hquad (fun _ => by omega)
    | false =>
        rw [if_neg Bool.false_ne_true]
        obtain ⟨k, hk, hsplit⟩ := zeros_split hcompact.2
        by_cases hnone : (words.dropWhile (· ≠ 0)).dropWhile (· = 0) = [] ∧
            (words.takeWhile (· ≠ 0)).length < 7
        · -- The zeros are the last words, and one of them is printed behind the colons.
          rw [if_pos hnone]
          rw [hnone.1, List.append_nil] at hsplit
          have hlen := congrArg List.length hsplit
          rw [hwords, List.length_append, List.length_replicate] at hlen
          refine spec_of_zeros (k - 1) [] none ?_ hwords hlt (by omega) rfl (by simp)
          rw [List.append_nil, List.append_assoc, show [0] = List.replicate 1 0 from rfl,
            List.replicate_append_replicate, show k - 1 + 1 = k by omega]
          exact hsplit
        · rw [if_neg hnone]
          refine spec_of_zeros k [] none ?_ hwords hlt hk rfl (by simp)
          rw [List.append_nil]
          exact hsplit
  · rw [if_neg hcompact]
    cases hd : dottedBehind 0 words with
    | true =>
        have htake : (words.take 6).length = 6 := by rw [List.length_take]; omega
        rw [if_pos rfl]
        refine ⟨⟨fun w hw => hlt w (List.mem_of_mem_take hw), by simp, fun _ => ?_, by simp, by simp⟩, ?_⟩
        · simp [AddressForm.size, AddressForm.quadOctets, htake, hquadlen]
        · have hwhole := groupsOctets_append (words.take 6) (words.drop 6)
          rw [List.take_append_drop, ← hquad] at hwhole
          have hnil : AddressForm.groupsOctets [] = [] := rfl
          rw [hwhole]
          simp [AddressForm.octets, AddressForm.size, AddressForm.quadOctets, htake, hquadlen, hnil]
    | false =>
        rw [if_neg Bool.false_ne_true]
        refine ⟨⟨hlt, by simp, fun _ => ?_, by simp, by simp⟩, ?_⟩
        · simp [AddressForm.size, AddressForm.quadOctets, hwords]
        · simp [AddressForm.octets, AddressForm.size, AddressForm.quadOctets, hwords,
            AddressForm.groupsOctets]

/-! ### The text of an address -/

/-- The text of an address in a mode. -/
def formatText (compact : Nat) (address : Ipv6) : List Octet :=
  (addressForm compact address).text

theorem addressForm_spec (compact : Nat) (address : Ipv6) :
    (addressForm compact address).WellFormed ∧
      (addressForm compact address).octets = address.octets := by
  have hlen := address.length_octets
  have hwhole := groupsOctets_netWords address
  have hwords := length_netWords address.octets
  have hquad : (quadOf address).octets =
      AddressForm.groupsOctets ((netWords address.octets).drop 6) := by
    have hsplit := groupsOctets_append ((netWords address.octets).take 6)
      ((netWords address.octets).drop 6)
    rw [List.take_append_drop, hwhole] at hsplit
    have hfront : (AddressForm.groupsOctets ((netWords address.octets).take 6)).length = 12 := by
      rw [length_groupsOctets, List.length_take]
      omega
    have hdrop := congrArg (List.drop 12) hsplit
    rw [List.drop_left' hfront] at hdrop
    exact hdrop
  rw [← hwhole]
  exact formOf_spec hwords (netWords_lt address.octets) compact hquad

/-- Digits, colons and dots. -/
def IsAddressOctet (c : Octet) : Prop :=
  isDigit 16 c ∨ c = ch ':' ∨ c = ch '.'

theorem hexWord_octets (full : Bool) (w : Nat) : ∀ c ∈ hexWord full w, IsAddressOctet c :=
  fun c hc => .inl ((IsDigits.of_hexWord full (w := w)).1.2 c hc)

theorem decimal_octets (k : Nat) : ∀ c ∈ decimal k, IsAddressOctet c :=
  fun c hc => .inl (isDigit_mono (by decide)
    ((numeral_reads 10 (by decide) (by decide) k).1.2 c hc))

theorem dottedDecimal_octets (ip : List Octet) : ∀ c ∈ dottedDecimal ip, IsAddressOctet c := by
  intro c hc
  simp only [dottedDecimal, List.mem_append, List.mem_cons] at hc
  rcases hc with ((hc | rfl | hc) | rfl | hc) | rfl | hc
  · exact decimal_octets _ c hc
  · exact .inr (.inr rfl)
  · exact decimal_octets _ c hc
  · exact .inr (.inr rfl)
  · exact decimal_octets _ c hc
  · exact .inr (.inr rfl)
  · exact decimal_octets _ c hc

theorem AddressForm.text_octets (form : AddressForm) : ∀ c ∈ form.text, IsAddressOctet c := by
  have hcolon : IsAddressOctet (ch ':') := .inr (.inl rfl)
  have hgroups : ∀ groups, ∀ c ∈ groupsText form.full form.quad groups, IsAddressOctet c := by
    intro groups
    induction groups with
    | nil =>
        cases hquad : form.quad with
        | none => exact nofun
        | some quad => exact dottedDecimal_octets quad.octets
    | cons w groups ih =>
        intro c hc
        rw [groupsText, List.mem_append] at hc
        rcases hc with hc | hc
        · exact hexWord_octets form.full w c hc
        · split at hc
          · cases hc
          · rcases List.mem_cons.mp hc with rfl | hc
            · exact hcolon
            · exact ih c hc
  have hfields : ∀ words : List Nat, ∀ c ∈ fieldsText (words.map (hexWord form.full)),
      IsAddressOctet c := by
    intro words c hc
    obtain ⟨field, hfield, hc⟩ := List.mem_flatMap.mp hc
    obtain ⟨w, -, rfl⟩ := List.mem_map.mp hfield
    rcases List.mem_append.mp hc with hc | hc
    · exact hexWord_octets form.full w c hc
    · rw [List.mem_singleton.mp hc]
      exact hcolon
  intro c hc
  rw [text] at hc
  cases hback : form.back with
  | none =>
      rw [hback] at hc
      exact hgroups form.front c hc
  | some back =>
      rw [hback] at hc
      rcases List.mem_append.mp hc with hc | hc
      · rcases List.mem_append.mp hc with hc | hc
        · exact hfields form.front c hc
        · have hcolons : c = ch ':' := by
            split at hc <;> simpa using hc
          rw [hcolons]
          exact hcolon
      · exact hgroups back c hc

theorem zero_not_mem_text (form : AddressForm) : 0 ∉ form.text := by
  intro hzero
  rcases form.text_octets 0 hzero with h | h | h
  · exact absurd h (by decide)
  · exact absurd h (by decide)
  · exact absurd h (by decide)

theorem length_hexWord (full : Bool) {w : Nat} (h : w < 65536) : (hexWord full w).length ≤ 4 := by
  have hlen : ((Nat.toDigits 16 w).map ch).length ≤ 4 := by
    rw [List.length_map]
    exact Nat.toDigits_length 16 w 4 (by decide) (by omega)
  rw [hexWord]
  cases full with
  | false => exact hlen
  | true =>
      rw [if_pos rfl, List.length_append, List.length_replicate]
      omega

theorem length_dottedDecimal (ip : List Octet) : (dottedDecimal ip).length ≤ 15 := by
  have hdecimal : ∀ c : Octet, (decimal c.toNat).length ≤ 3 := by
    intro c
    have hc := c.toNat_lt
    rw [decimal, List.length_map]
    exact Nat.toDigits_length 10 c.toNat 3 (by decide) (by omega)
  have h0 := hdecimal (ip.getD 0 0)
  have h1 := hdecimal (ip.getD 1 0)
  have h2 := hdecimal (ip.getD 2 0)
  have h3 := hdecimal (ip.getD 3 0)
  simp only [dottedDecimal, List.length_append, List.length_cons]
  omega

/-! ### Printed and read -/

theorem formatTail_prints (address : Ipv6) {s : FormatScan n} {text : List Octet} {dotted : Bool}
    (h : LoopPrints text dotted s)
    (hfit : (text ++ if dotted then dottedDecimal (quadOf address).octets else []).length < n) :
    (formatTail address.octets s).Ends fun put =>
      put.2 = (text ++ if dotted then dottedDecimal (quadOf address).octets else []).length ∧
        ∃ rest, put.1.octets =
          (text ++ if dotted then dottedDecimal (quadOf address).octets else []) ++ 0 :: rest := by
  obtain ⟨⟨⟨rest, hrest⟩, hlength⟩, hdotted⟩ := h
  rw [List.length_append] at hfit
  have hlen := s.buffer.length_octets
  rw [hrest, List.length_append] at hlen
  have hnul : (formatNul s).Ends fun buffer =>
      buffer.octets = text ++ 0 :: rest.drop 1 := by
    rw [formatNul, if_pos (by omega), hlength]
    refine (s.buffer.yields_write [0] ?_).ends_iff.mpr ?_
    · rw [List.length_singleton]
      omega
    · rw [Buffer.octets_splice_append hrest (by rw [List.length_singleton]; omega), List.append_assoc]
      rfl
  rw [formatTail, ends_bind]
  refine hnul.mono fun buffer hbuffer => ?_
  cases dotted with
  | true =>
      rw [if_pos rfl] at hfit
      rw [if_pos (hdotted.mpr rfl), if_pos rfl, ends_bind, hlength]
      refine (snprintf_prints hbuffer hfit).mono ?_
      rintro put ⟨hput, hoctets⟩
      rw [ends_pure, List.length_append, ← hput]
      exact ⟨rfl, hoctets⟩
  | false =>
      rw [if_neg (fun hc => absurd (hdotted.mp hc) Bool.false_ne_true), if_neg Bool.false_ne_true,
        List.append_nil, ends_pure]
      exact ⟨hlength, rest.drop 1, hbuffer⟩

theorem formatIP_prints (compact : Nat) (address : Ipv6) (buffer : Buffer n)
    (hfit : (formatText compact address).length < n) :
    (formatIP address.octets compact buffer).Ends fun put =>
      put.2 = (formatText compact address).length ∧
        ∃ rest, put.1.octets = formatText compact address ++ 0 :: rest := by
  have hlen := address.length_octets
  have hwords := length_netWords address.octets
  have htext := text_formOf hwords compact (quadOf address)
  change formatText compact address = _ at htext
  rw [htext] at hfit ⊢
  rw [formatIP, if_neg (by omega), if_neg (by omega), ends_bind]
  refine (formatLoop_prints hwords (s := ⟨buffer, 0, 0, 0, compact⟩) ⟨⟨buffer.octets, rfl⟩, rfl⟩ rfl rfl
    ?_).mono fun s hs => formatTail_prints address hs hfit
  rw [List.length_append] at hfit
  exact Nat.lt_of_le_of_lt (Nat.le_add_right _ _) hfit

/-- An address is read back from its text in every mode. -/
theorem formatIP_parseIPv6 (compact : Nat) (address : Ipv6) (buffer : Buffer n)
    (hfit : (formatText compact address).length < n) (ipv6 : Ipv6) :
    (formatIP address.octets compact buffer).Ends fun put =>
      put.1.Terminated ∧ put.2 = put.1.cstring.length ∧
        (parseIPv6 put.1.cstring ipv6).Yields (put.1.cstring.length, address) := by
  refine (formatIP_prints compact address buffer hfit).mono ?_
  rintro put ⟨hlength, rest, hput⟩
  obtain ⟨hform, hoctets⟩ := addressForm_spec compact address
  have hcstring : put.1.cstring = formatText compact address :=
    Buffer.cstring_of_octets hput (zero_not_mem_text _)
  refine ⟨Buffer.terminated_of_octets hput, hcstring ▸ hlength, ?_⟩
  rw [hcstring]
  refine (AddressForm.parse_ends hform ipv6).mono ?_
  rintro ⟨length, parsed⟩ ⟨rfl, hparsed⟩
  exact Prod.ext rfl (Buffer.ext (hparsed.trans hoctets))

theorem formatIP_parseIPv6_loopback :
    let address : Ipv6 := ⟨List.replicate 15 0 ++ [1], rfl⟩
    let buffer : Buffer 46 := ⟨List.replicate 46 0xff, rfl⟩
    (formatText 1 address).length < 46 ∧
      (formatIP address.octets 1 buffer).Ends fun put =>
        put.1.Terminated ∧ put.2 = put.1.cstring.length ∧
          (parseIPv6 put.1.cstring address).Yields (put.1.cstring.length, address) :=
  ⟨by decide, formatIP_parseIPv6 1 ⟨List.replicate 15 0 ++ [1], rfl⟩
    ⟨List.replicate 46 0xff, rfl⟩ (by decide) ⟨List.replicate 15 0 ++ [1], rfl⟩⟩

end Snert
