/-
Module: Snert.Proofs.FormFields
Purpose: What `cgiUrlDecode` makes of the octets up to the next separator, as a function of the
  octets; the function of the code ends exactly if there is such a reading and the destination has
  room for it.
Trusted boundary: none
Main exports: decodedValue, cgiFieldValue_ends, cgiFieldValue_total
-/
import Snert.Util.Cgi

namespace Snert

open CModel Run

/-! ### Reading up to a separator -/

/-- What the octets up to the next separator are decoded to, and what stands behind the separator.
There is no reading if an escape takes the NUL for its second digit. -/
def decoded : List Octet → Option (List Octet × List Octet)
  | [] => some ([], [])
  | c :: s =>
      if c = ch '=' ∨ c = ch '&' then some ([], s)
      else if c = ch '+' then (decoded s).map (Prod.map (List.cons (ch ' ')) id)
      else if c = ch '%' then
        match sscanfHex2 s with
        | some hex =>
            match s with
            | _ :: _ :: s' => (decoded s').map (Prod.map (List.cons hex) id)
            | _ => none
        | none => (decoded s).map (Prod.map (List.cons c) id)
      else (decoded s).map (Prod.map (List.cons c) id)

theorem map_cons_eq_some {x : Octet} {reading : Option (List Octet × List Octet)}
    {d r : List Octet} : reading.map (Prod.map (List.cons x) id) = some (d, r) ↔
      ∃ d', reading = some (d', r) ∧ d = x :: d' := by
  constructor
  · intro h
    obtain ⟨⟨d', r'⟩, hreading, heq⟩ := Option.map_eq_some_iff.mp h
    cases heq
    exact ⟨d', hreading, rfl⟩
  · rintro ⟨d', rfl, rfl⟩
    rfl

theorem decoded_lengths (s : List Octet) : ∀ d r, decoded s = some (d, r) →
    r.length ≤ s.length - 1 ∧ d.length + r.length ≤ s.length := by
  have hnext : ∀ (x c : Octet) (s s' : List Octet), s'.length ≤ s.length →
      (∀ d r, decoded s' = some (d, r) →
        r.length ≤ s'.length - 1 ∧ d.length + r.length ≤ s'.length) →
      ∀ d r, (decoded s').map (Prod.map (List.cons x) id) = some (d, r) →
        r.length ≤ (c :: s).length - 1 ∧ d.length + r.length ≤ (c :: s).length := by
    intro x c s s' hle ih d r h
    obtain ⟨d', hd', rfl⟩ := map_cons_eq_some.mp h
    obtain ⟨hrest, hsum⟩ := ih d' r hd'
    simp only [List.length_cons]
    omega
  fun_induction decoded s with
  | case1 =>
      rintro d r h
      cases h
      exact ⟨Nat.le_refl 0, Nat.le_refl 0⟩
  | case2 c s hsep =>
      rintro d r h
      cases h
      exact ⟨Nat.le_refl _, by simp⟩
  | case3 s hsep ih => exact hnext _ _ s s (Nat.le_refl _) ih
  | case4 hex a b s' hsep hplus hscan ih =>
      exact hnext _ _ (a :: b :: s') s' (by simp only [List.length_cons]; omega) ih
  | case5 => exact fun d r h => nomatch h
  | case6 s hscan hsep hplus ih => exact hnext _ _ s s (Nat.le_refl _) ih
  | case7 c s hsep hplus hpercent ih => exact hnext _ _ s s (Nat.le_refl _) ih

theorem decoded_rest_length (s d r : List Octet) (h : decoded s = some (d, r)) :
    r.length ≤ s.length - 1 :=
  (decoded_lengths s d r h).1

/-! ### The code -/

section

variable {text : List Octet} {n : Nat}

/-- How decoding ends: with a reading for which there is room in the block. -/
def DecodeEnds (block : Buffer n) (t : Nat)
    (reading : Option (List Octet × List Octet)) (x : Run (Buffer n × Nat × List Octet)) : Prop :=
  ∀ Q, x.Ends Q ↔ ∃ d r, reading = some (d, r) ∧ t + d.length + 1 ≤ n ∧
    Q (block.splice t (d ++ [0]), t + d.length + 1, r)

theorem decodeEnds_write {block : Buffer n} {t : Nat} (x : Octet) {s' : List Octet}
    {reading : Option (List Octet × List Octet)}
    (ih : ∀ (block : Buffer n) t, DecodeEnds block t reading (cgiUrlDecode text block t s')) :
    DecodeEnds block t (reading.map (Prod.map (List.cons x) id)) (do
      let block ← block.write t [x]
      cgiUrlDecode text block (t + 1) s') := by
  intro Q
  rw [ends_bind, Buffer.ends_write]
  constructor
  · rintro ⟨⟨-, hroom⟩, hends⟩
    obtain ⟨d, r, hreading, hfits, hQ⟩ := (ih _ _ Q).mp hends
    refine ⟨x :: d, r, map_cons_eq_some.mpr ⟨d, hreading, rfl⟩, ?_, ?_⟩
    · rw [List.length_cons]
      omega
    · have hsplice := block.splice_splice [x] (d ++ [0]) (i := t) (by simp; omega)
      rw [List.length_singleton] at hsplice
      rw [Int.toNat_natCast, hsplice, Nat.add_right_comm t 1] at hQ
      exact hQ
  · rintro ⟨d, r, hreading, hfits, hQ⟩
    obtain ⟨d, hrest, rfl⟩ := map_cons_eq_some.mp hreading
    rw [List.length_cons] at hfits hQ
    have hsplice := block.splice_splice [x] (d ++ [0]) (i := t) (by simp; omega)
    rw [List.length_singleton] at hsplice
    refine ⟨⟨Int.natCast_nonneg t, by rw [List.length_singleton]; omega⟩,
      (ih _ _ Q).mpr ⟨d, r, hrest, by omega, ?_⟩⟩
    rw [Int.toNat_natCast, hsplice, Nat.add_right_comm t 1]
    exact hQ

theorem decodeEnds_zero {block : Buffer n} {t : Nat} (r : List Octet) :
    DecodeEnds block t (some ([], r)) (do
      let block ← block.write t [0]
      return (block, t + 1, r)) := by
  intro Q
  rw [ends_bind, Buffer.ends_write]
  constructor
  · rintro ⟨⟨-, hroom⟩, hQ⟩
    exact ⟨[], r, rfl, by exact_mod_cast hroom, ends_pure.mp hQ⟩
  · rintro ⟨d, r', hreading, hfits, hQ⟩
    cases hreading
    exact ⟨⟨Int.natCast_nonneg t, by exact_mod_cast hfits⟩, ends_pure.mpr hQ⟩

theorem load_restOf_bind_ends {s : List Octet} {count : Nat} (hs : s.length ≤ text.length)
    (hcount : count ≤ s.length + 1) {β : Type} {f : Unit → Run β} {Q : β → Prop} :
    (Run.load (restOf text s count) () >>= f).Ends Q ↔ (f ()).Ends Q :=
  (yields_load (Access.inBounds_iff_le.mpr (by omega)) ()).bind_ends_iff

theorem cgiUrlDecode_ends {s : List Octet} (hs : s.length ≤ text.length) (block : Buffer n)
    (t : Nat) : DecodeEnds block t (decoded s) (cgiUrlDecode text block t s) := by
  fun_induction decoded s generalizing block t with
  | case1 =>
      intro Q
      rw [cgiUrlDecode, load_restOf_bind_ends hs (by simp)]
      exact decodeEnds_zero [] Q
  | case2 c s hsep =>
      intro Q
      rw [cgiUrlDecode, load_restOf_bind_ends hs (by simp), if_pos hsep]
      exact decodeEnds_zero s Q
  | case3 s hsep ih =>
      intro Q
      rw [cgiUrlDecode, load_restOf_bind_ends hs (by simp), if_neg hsep, if_pos rfl]
      exact decodeEnds_write _ (ih (Nat.le_of_succ_le hs)) Q
  | case4 hex a b s' hsep hplus hscan ih =>
      intro Q
      have hs' : s'.length + 1 + 1 + 1 ≤ text.length := hs
      rw [cgiUrlDecode, load_restOf_bind_ends hs (by simp), if_neg hsep, if_neg hplus, if_pos rfl,
        load_restOf_bind_ends (Nat.le_of_succ_le hs) (Nat.le_refl _), hscan]
      exact decodeEnds_write _ (ih (by omega)) Q
  | case5 s hex hscan hshort hsep hplus =>
      intro Q
      rw [cgiUrlDecode, load_restOf_bind_ends hs (by simp), if_neg hsep, if_neg hplus, if_pos rfl,
        load_restOf_bind_ends (Nat.le_of_succ_le hs) (Nat.le_refl _), hscan]
      refine iff_of_false (fun hends => ?_) fun ⟨d, r, hnone, _⟩ => nomatch hnone
      obtain ⟨-, hends⟩ := (Buffer.ends_write _ _ _).mp (ends_bind.mp hends)
      match s, hshort with
      | [], _ => exact not_ends_overrun hends
      | [_], _ => exact not_ends_overrun hends
      | a :: b :: s', hshort => exact hshort a b s' rfl
  | case6 s hscan hsep hplus ih =>
      intro Q
      rw [cgiUrlDecode, load_restOf_bind_ends hs (by simp), if_neg hsep, if_neg hplus, if_pos rfl,
        load_restOf_bind_ends (Nat.le_of_succ_le hs) (Nat.le_refl _), hscan]
      exact decodeEnds_write _ (ih (Nat.le_of_succ_le hs)) Q
  | case7 c s hsep hplus hpercent ih =>
      intro Q
      rw [cgiUrlDecode, load_restOf_bind_ends hs (by simp), if_neg hsep, if_neg hplus,
        if_neg hpercent]
      exact decodeEnds_write _ (ih (Nat.le_of_succ_le hs)) Q

theorem total_write (block : Buffer n) (t : Nat) (os : List Octet) : (block.write t os).Total :=
  total_store _ _

theorem cgiUrlDecode_total (s : List Octet) (block : Buffer n) (t : Nat) :
    (cgiUrlDecode text block t s).Total := by
  have hnext : ∀ (x : Octet) {s' : List Octet},
      (∀ (block : Buffer n) t, (cgiUrlDecode text block t s').Total) →
      ∀ (block : Buffer n) (t : Nat), (do
        let block ← block.write t [x]
        cgiUrlDecode text block (t + 1) s').Total :=
    fun x _ ih block t => (total_write block t [x]).bind fun block => ih block (t + 1)
  have hzero : ∀ (block : Buffer n) (t : Nat) (r : List Octet), (do
      let block ← block.write t [0]
      return (block, t + 1, r)).Total :=
    fun block t r => (total_write block t [0]).bind fun _ => total_pure _
  fun_induction decoded s generalizing block t with
  | case1 =>
      rw [cgiUrlDecode]
      exact (total_load _ _).bind fun _ => hzero block t []
  | case2 c s hsep =>
      rw [cgiUrlDecode]
      refine (total_load _ _).bind fun _ => ?_
      rw [if_pos hsep]
      exact hzero block t s
  | case3 s hsep ih =>
      rw [cgiUrlDecode]
      refine (total_load _ _).bind fun _ => ?_
      rw [if_neg hsep, if_pos rfl]
      exact hnext _ ih block t
  | case4 hex a b s' hsep hplus hscan ih =>
      rw [cgiUrlDecode]
      refine (total_load _ _).bind fun _ => ?_
      rw [if_neg hsep, if_neg hplus, if_pos rfl]
      refine (total_load _ _).bind fun _ => ?_
      rw [hscan]
      exact hnext _ ih block t
  | case5 s hex hscan hshort hsep hplus =>
      have hover : ¬ Access.InBounds ⟨(text.length + 1 : Nat), 1, text.length + 1⟩ := fun h =>
        absurd (Access.inBounds_iff_le.mp h) (Nat.not_succ_le_self _)
      rw [cgiUrlDecode]
      refine (total_load _ _).bind fun _ => ?_
      rw [if_neg hsep, if_neg hplus, if_pos rfl]
      refine (total_load _ _).bind fun _ => ?_
      rw [hscan]
      refine (total_write block t [hex]).bind fun block => ?_
      match s, hshort with
      | [], _ => exact total_overrun hover
      | [_], _ => exact total_overrun hover
      | a :: b :: s', hshort => exact absurd rfl (hshort a b s')
  | case6 s hscan hsep hplus ih =>
      rw [cgiUrlDecode]
      refine (total_load _ _).bind fun _ => ?_
      rw [if_neg hsep, if_neg hplus, if_pos rfl]
      refine (total_load _ _).bind fun _ => ?_
      rw [hscan]
      exact hnext _ ih block t
  | case7 c s hsep hplus hpercent ih =>
      rw [cgiUrlDecode]
      refine (total_load _ _).bind fun _ => ?_
      rw [if_neg hsep, if_neg hplus, if_neg hpercent]
      exact hnext _ ih block t

/-! ### The value of a field -/

/-- What stands before the rest of the string. -/
def octetBefore (text s : List Octet) : Octet :=
  text.getD (text.length - s.length - 1) 0

/-- The reading of a value, which is empty without an equals sign before it. -/
def decodedValue (text s : List Octet) : Option (List Octet × List Octet) :=
  if octetBefore text s = ch '=' then decoded s else some ([], s)

theorem decodedValue_rest_length {s d r : List Octet} (h : decodedValue text s = some (d, r)) :
    r.length ≤ s.length := by
  unfold decodedValue at h
  split at h
  · exact (decoded_rest_length s d r h).trans (Nat.sub_le _ _)
  · cases h
    exact Nat.le_refl _

/-- The octet before the rest of the string is read, which there is unless nothing has been
taken. -/
theorem cgiFieldValue_ends {s : List Octet} (hs : s.length < text.length) (block : Buffer n)
    (t : Nat) : DecodeEnds block t (decodedValue text s) (cgiFieldValue text block t s) := by
  intro Q
  have hbefore : Access.InBounds
      ⟨((text.length - s.length : Nat) : Int) - 1, 1, text.length + 1⟩ := by
    unfold Access.InBounds
    dsimp only
    omega
  rw [cgiFieldValue, (yields_load hbefore _).bind_ends_iff, decodedValue]
  change Ends (if octetBefore text s = _ then _ else _) Q ↔ _
  by_cases hequals : octetBefore text s = ch '='
  · rw [if_pos hequals, if_pos hequals]
    exact cgiUrlDecode_ends hs.le block t Q
  · rw [if_neg hequals, if_neg hequals]
    exact decodeEnds_zero s Q

theorem cgiFieldValue_total (s : List Octet) (block : Buffer n) (t : Nat) :
    (cgiFieldValue text block t s).Total := by
  refine (total_load _ _).bind fun c => ?_
  split
  · exact cgiUrlDecode_total s block t
  · exact (total_write block t [0]).bind fun _ => total_pure _

theorem entry_inBounds {i count : Nat} (hi : i ≤ count)
    (hcount : CGI_MAP_SIZE * (count + 1) ≤ n) :
    Access.InBounds ⟨(CGI_MAP_SIZE * i : Nat), CGI_MAP_SIZE, n⟩ := by
  have hle := Nat.mul_le_mul_left CGI_MAP_SIZE (Nat.succ_le_succ hi)
  exact Access.inBounds_iff_le.mpr (hle.trans hcount)

end

end Snert
