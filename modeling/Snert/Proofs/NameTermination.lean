/-
Module: Snert.Proofs.NameTermination
Purpose: Names as walks through a packet: a label is stepped over when it fits the room left in the
  buffer, a compression pointer is followed for free. The loop of `pdq_name_copy` simulates the walk
  and is simulated by it, so it never ends exactly when the walk comes to a pointer that leads back
  to itself.
Trusted boundary: none
Main exports: nameCopy_halts_iff
-/
import Snert.Pdq.Name

namespace Snert

open CModel CModel.Run Relation

/-! ### The walk -/

/-- A compression pointer at `p` refers to `q`. -/
def PointsTo (packet : Packet) (p q : Nat) : Prop :=
  p < packet.length ∧ isPointer (packet.octet p) ∧ q = pointerTarget packet p

/-- A label of `c` octets begins at `p`, behind its length. -/
def LabelAt (packet : Packet) (p c : Nat) : Prop :=
  p < packet.length ∧ packet.octet p ≠ 0 ∧ isPointer (packet.octet p) = false ∧
    c = (packet.octet p).toNat

/-- One move of the walk, from an offset and the room left there. -/
inductive NameMove (packet : Packet) : Nat × Nat → Nat × Nat → Prop
  | pointer {p q room : Nat} : PointsTo packet p q → NameMove packet (p, room) (q, room)
  | label {p c room : Nat} : LabelAt packet p c → c < room →
      NameMove packet (p, room) (p + (c + 1), room - (c + 1))

/-- The walk comes from offset `p` with a buffer of `size` octets to `q` with `room` left. -/
def NameWalk (packet : Packet) (p size q room : Nat) : Prop :=
  ReflTransGen (NameMove packet) (p, size) (q, room)

/-- The walk comes to compression pointers that lead round. -/
def ComesRound (packet : Packet) (p size : Nat) : Prop :=
  ∃ q room, NameWalk packet p size q room ∧ TransGen (PointsTo packet) q q

theorem isPointer_zero : isPointer 0 = false := by decide

theorem pointerTarget_lt (packet : Packet) (p : Nat) : pointerTarget packet p < 0x4000 :=
  Nat.mod_lt _ (by decide)

section

variable {packet : Packet} {p q r c room size : Nat}

theorem NameMove.room_le {x y : Nat × Nat} (h : NameMove packet x y) : y.2 ≤ x.2 := by
  cases h with
  | pointer _ => exact Nat.le_refl _
  | label _ _ => exact Nat.sub_le _ _

theorem NameMove.pointsTo {x y : Nat × Nat} (h : NameMove packet x y) (hroom : x.2 ≤ y.2) :
    PointsTo packet x.1 y.1 := by
  cases h with
  | pointer h => exact h
  | label _ hc =>
      dsimp only at hroom
      omega

theorem TransGen.room_le {x y : Nat × Nat} (h : TransGen (NameMove packet) x y) : y.2 ≤ x.2 := by
  induction h with
  | single h => exact h.room_le
  | tail _ h ih => exact Nat.le_trans h.room_le ih

theorem TransGen.pointsTo {x y : Nat × Nat} (h : TransGen (NameMove packet) x y)
    (hroom : x.2 ≤ y.2) : TransGen (PointsTo packet) x.1 y.1 := by
  induction h with
  | single h => exact .single (h.pointsTo hroom)
  | tail hinit hlast ih =>
      have hmid := TransGen.room_le hinit
      exact .tail (ih (Nat.le_trans hroom hlast.room_le)) (hlast.pointsTo (Nat.le_trans hmid hroom))

theorem NameWalk.bound (h : NameWalk packet p size q room) :
    q + room < p + 0x4000 + size ∧ room ≤ size := by
  suffices hall : ∀ y : Nat × Nat, ReflTransGen (NameMove packet) (p, size) y →
      y.1 + y.2 < p + 0x4000 + size ∧ y.2 ≤ size from hall _ h
  intro y hy
  induction hy with
  | refl => exact ⟨by dsimp only; omega, Nat.le_refl _⟩
  | tail _ hmove ih =>
      cases hmove with
      | pointer hp =>
          have htarget := hp.2.2 ▸ pointerTarget_lt packet _
          dsimp only at ih ⊢
          omega
      | label _ hc =>
          dsimp only at ih ⊢
          omega

end

/-! ### What one round of the loop does -/

/-- The room left is what the buffer has behind `buf`. -/
def NameInv {size : Nat} (s : NameScan size) : Prop :=
  s.buf + s.remaining = size

/-- The state behind a label. -/
def behindLabel {size : Nat} (packet : Packet) (s : NameScan size) (c : Nat) : NameScan size :=
  { ptr := s.ptr + (c + 1)
    value := (s.value.splice s.buf (strncpyOctets (packet.octets (s.ptr + 1) c))).splice (s.buf + c)
      [ch '.']
    buf := s.buf + c + 1
    remaining := s.remaining - (c + 1) }

@[simp] theorem length_strncpyOctets (source : List Octet) :
    (strncpyOctets source).length = source.length := by
  have hle : (source.takeWhile (· ≠ 0)).length ≤ source.length := (List.takeWhile_prefix _).length_le
  simp only [strncpyOctets, List.length_append, List.length_replicate]
  omega

section

variable {size : Nat} {packet : Packet} {s t : NameScan size} {c : Nat}

theorem copyLabel_outcome (hinv : NameInv s) (hroom : c < s.remaining) :
    (copyLabel packet s c).outcome = .done (behindLabel packet s c) := by
  unfold NameInv at hinv
  unfold copyLabel Packet.read
  rw [outcome_load_bind]
  rw [outcome_bind_of_done (Buffer.outcome_write _ (Int.natCast_nonneg _) (by simp; omega)),
    outcome_bind_of_done (Buffer.outcome_write _ (by omega) (by simp; omega))]
  rfl

theorem copyLabel_not_diverge (packet : Packet) (s : NameScan size) (c : Nat) :
    (copyLabel packet s c).outcome ≠ .diverge := by
  unfold copyLabel Packet.read
  rw [outcome_load_bind]
  apply bind_not_diverge (store_not_diverge _ _)
  intro value
  apply bind_not_diverge (store_not_diverge _ _)
  intro value
  nofun

theorem nameCopyStep_not_diverge (packet : Packet) (s : NameScan size) :
    (nameCopyStep packet s).outcome ≠ .diverge := by
  unfold nameCopyStep Packet.getOctet Packet.netGetShort
  split
  · nofun
  · rw [outcome_load_bind]
    split
    · nofun
    · split
      · nofun
      · split
        · nofun
        · exact bind_not_diverge (copyLabel_not_diverge _ _ _) fun s => by nofun

theorem next_iff (hinv : NameInv s) : Next (nameCopyStep packet) s t ↔
    (∃ q, PointsTo packet s.ptr q ∧ t = { s with ptr := q }) ∨
      ∃ c, LabelAt packet s.ptr c ∧ c < s.remaining ∧ t = behindLabel packet s c := by
  unfold Next nameCopyStep
  by_cases hend : packet.length ≤ s.ptr
  · rw [if_pos hend]
    refine iff_of_false nofun ?_
    rintro (⟨q, hp, -⟩ | ⟨c, hl, -⟩)
    · exact absurd hp.1 (Nat.not_lt.mpr hend)
    · exact absurd hl.1 (Nat.not_lt.mpr hend)
  rw [if_neg hend]
  unfold Packet.getOctet Packet.netGetShort
  rw [outcome_load_bind]
  by_cases hroot : packet.octet s.ptr = 0
  · rw [if_pos hroot]
    refine iff_of_false nofun ?_
    rintro (⟨q, hp, -⟩ | ⟨c, hl, -⟩)
    · have hpointer := hp.2.1
      rw [hroot, isPointer_zero] at hpointer
      cases hpointer
    · exact hl.2.1 hroot
  rw [if_neg hroot]
  cases hpointer : isPointer (packet.octet s.ptr) with
  | true =>
      rw [if_pos rfl, outcome_load_bind, outcome_pure]
      constructor
      · intro h
        refine .inl ⟨pointerTarget packet s.ptr, ⟨Nat.not_le.mp hend, hpointer, rfl⟩, ?_⟩
        simpa [pointerTarget] using h.symm
      · rintro (⟨q, ⟨-, -, rfl⟩, rfl⟩ | ⟨c, hl, -⟩)
        · rfl
        · rw [hl.2.2.1] at hpointer
          cases hpointer
  | false =>
      rw [if_neg Bool.false_ne_true]
      by_cases hroom : s.remaining ≤ (packet.octet s.ptr).toNat
      · rw [if_pos hroom]
        refine iff_of_false nofun ?_
        rintro (⟨q, hp, -⟩ | ⟨c, hl, hc, -⟩)
        · rw [hp.2.1] at hpointer
          cases hpointer
        · rw [hl.2.2.2] at hc
          omega
      · rw [if_neg hroom, outcome_bind_of_done (copyLabel_outcome hinv (Nat.not_le.mp hroom)),
          outcome_pure]
        constructor
        · intro h
          refine .inr ⟨_, ⟨Nat.not_le.mp hend, hroot, hpointer, rfl⟩, Nat.not_le.mp hroom, ?_⟩
          simpa using h.symm
        · rintro (⟨q, hp, -⟩ | ⟨c, hl, -, rfl⟩)
          · rw [hp.2.1] at hpointer
            cases hpointer
          · rw [hl.2.2.2]

/-! ### The loop simulates the walk -/

theorem nameInv_initial (ptr : Nat) (value : Buffer size) : NameInv (NameScan.initial ptr value) :=
  Nat.zero_add size

theorem nameInv_next (hinv : NameInv s) (h : Next (nameCopyStep packet) s t) : NameInv t := by
  rcases (next_iff hinv).mp h with ⟨q, -, rfl⟩ | ⟨c, -, hc, rfl⟩
  · exact hinv
  · unfold NameInv at hinv ⊢
    dsimp only [behindLabel]
    omega

theorem nameInv_reaches (hinv : NameInv s) (h : Reaches (nameCopyStep packet) s t) : NameInv t := by
  induction h with
  | refl => exact hinv
  | tail _ hnext ih => exact nameInv_next ih hnext

theorem nameMove_of_next (hinv : NameInv s) (h : Next (nameCopyStep packet) s t) :
    NameMove packet (s.ptr, s.remaining) (t.ptr, t.remaining) := by
  rcases (next_iff hinv).mp h with ⟨q, hp, rfl⟩ | ⟨c, hl, hc, rfl⟩
  · exact .pointer hp
  · exact .label hl hc

theorem next_of_nameMove (hinv : NameInv s) {y : Nat × Nat}
    (h : NameMove packet (s.ptr, s.remaining) y) :
    ∃ t, Next (nameCopyStep packet) s t ∧ (t.ptr, t.remaining) = y := by
  cases h with
  | pointer hp => exact ⟨_, (next_iff hinv).mpr (.inl ⟨_, hp, rfl⟩), rfl⟩
  | label hl hc => exact ⟨_, (next_iff hinv).mpr (.inr ⟨_, hl, hc, rfl⟩), rfl⟩

theorem nameWalk_of_reaches (hinv : NameInv s) (h : Reaches (nameCopyStep packet) s t) :
    NameWalk packet s.ptr s.remaining t.ptr t.remaining := by
  induction h with
  | refl => exact .refl
  | tail hreach hnext ih =>
      exact .tail ih (nameMove_of_next (nameInv_reaches hinv hreach) hnext)

theorem reaches_of_nameWalk (hinv : NameInv s) {q room : Nat}
    (h : NameWalk packet s.ptr s.remaining q room) :
    ∃ t, Reaches (nameCopyStep packet) s t ∧ t.ptr = q ∧ t.remaining = room := by
  suffices hall : ∀ y, ReflTransGen (NameMove packet) (s.ptr, s.remaining) y →
      ∃ t, Reaches (nameCopyStep packet) s t ∧ (t.ptr, t.remaining) = y by
    obtain ⟨t, ht, hview⟩ := hall _ h
    simp only [Prod.mk.injEq] at hview
    exact ⟨t, ht, hview.1, hview.2⟩
  intro y hy
  induction hy with
  | refl => exact ⟨s, .refl, rfl⟩
  | tail _ hmove ih =>
      obtain ⟨t, ht, rfl⟩ := ih
      obtain ⟨u, hu, hview⟩ := next_of_nameMove (nameInv_reaches hinv ht) hmove
      exact ⟨u, .tail ht hu, hview⟩

theorem eq_of_reaches (hinv : NameInv s) (h : Reaches (nameCopyStep packet) s t) :
    t.remaining < s.remaining ∨ t = { s with ptr := t.ptr } := by
  induction h with
  | refl => exact .inr rfl
  | @tail u t hreach hnext ih =>
      rcases (next_iff (nameInv_reaches hinv hreach)).mp hnext with ⟨q, -, rfl⟩ | ⟨c, -, hc, rfl⟩
      · rcases ih with hlt | heq
        · exact .inl hlt
        · rw [heq]
          exact .inr rfl
      · left
        have hle : u.remaining ≤ s.remaining := by
          rcases ih with hlt | heq
          · exact Nat.le_of_lt hlt
          · rw [heq]
        dsimp only [behindLabel]
        omega

theorem eq_of_view_eq (hs : NameInv s) {u : NameScan size} (ht : Reaches (nameCopyStep packet) s t)
    (hu : Reaches (nameCopyStep packet) s u) (hptr : t.ptr = u.ptr)
    (hroom : t.remaining = u.remaining) : t = u := by
  rcases ht.total hu with htu | hut
  · rcases eq_of_reaches (nameInv_reaches hs ht) htu with hlt | heq
    · omega
    · rw [heq, ← hptr]
  · rcases eq_of_reaches (nameInv_reaches hs hu) hut with hlt | heq
    · omega
    · rw [heq, hptr]

theorem nameCopy_enoughRounds (packet : Packet) (ptr : Nat) (value : Buffer size) :
    EnoughRounds (nameCopyStep packet) (NameScan.initial ptr value) (nameCopyRounds ptr size) := by
  have hinv := nameInv_initial ptr value
  have hbound : ∀ t, Reaches (nameCopyStep packet) (NameScan.initial ptr value) t →
      t.ptr + t.remaining < ptr + 0x4000 + size ∧ t.remaining ≤ size := fun t ht =>
    NameWalk.bound (nameWalk_of_reaches hinv ht)
  refine ⟨fun t => t.ptr * (size + 1) + t.remaining, fun t ht => ?_, fun t u ht hu hcode => ?_⟩
  · rcases hbound t ht with ⟨hsum, hroom⟩
    have hrow : (t.ptr + 1) * (size + 1) ≤ (ptr + 0x4000 + size) * (size + 1) :=
      Nat.mul_le_mul_right _ (by omega)
    rw [Nat.add_mul, Nat.one_mul] at hrow
    unfold nameCopyRounds
    dsimp only
    omega
  · have hroom : t.remaining = u.remaining := by
      have hmod := congrArg (· % (size + 1)) hcode
      simp only [Nat.mul_add_mod_self_right] at hmod
      rwa [Nat.mod_eq_of_lt (Nat.lt_succ_of_le (hbound t ht).2),
        Nat.mod_eq_of_lt (Nat.lt_succ_of_le (hbound u hu).2)] at hmod
    have hptr : t.ptr = u.ptr := by
      dsimp only at hcode
      rw [hroom, Nat.add_right_cancel_iff] at hcode
      exact Nat.eq_of_mul_eq_mul_right (Nat.succ_pos size) hcode
    exact eq_of_view_eq hinv ht hu hptr hroom

/-! ### When the loop ends -/

theorem transGen_next_of_pointsTo (hinv : NameInv s) {q : Nat}
    (h : TransGen (PointsTo packet) s.ptr q) :
    TransGen (Next (nameCopyStep packet)) s { s with ptr := q } := by
  induction h with
  | single hp => exact .single ((next_iff hinv).mpr (.inl ⟨_, hp, rfl⟩))
  | @tail p q _ hp ih =>
      have hstep : Next (nameCopyStep packet) { s with ptr := p } { s with ptr := q } :=
        (next_iff (s := { s with ptr := p }) hinv).mpr (.inl ⟨q, hp, rfl⟩)
      exact .tail ih hstep

theorem nameMove_of_transGen_next (hinv : NameInv s)
    (h : TransGen (Next (nameCopyStep packet)) s t) :
    TransGen (NameMove packet) (s.ptr, s.remaining) (t.ptr, t.remaining) := by
  induction h with
  | single hnext => exact .single (nameMove_of_next hinv hnext)
  | tail hinit hnext ih =>
      have hmid := nameInv_reaches hinv hinit.to_reflTransGen
      exact .tail ih (nameMove_of_next hmid hnext)

/-- The loop of `pdq_name_copy` ends exactly when the walk through the name does not come to
pointers that lead round. -/
theorem nameCopy_halts_iff (packet : Packet) (ptr : Nat) (value : Buffer size) :
    Halts (nameCopyStep packet) (NameScan.initial ptr value) ↔ ¬ ComesRound packet ptr size := by
  have hinv := nameInv_initial ptr value
  constructor
  · rintro hhalts ⟨q, room, hwalk, hcycle⟩
    obtain ⟨t, ht, rfl, rfl⟩ := reaches_of_nameWalk hinv hwalk
    exact not_halts_of_cycle (nameCopyStep_not_diverge packet) ht
      (transGen_next_of_pointsTo (nameInv_reaches hinv ht) hcycle) hhalts
  · intro hround
    have enough := nameCopy_enoughRounds packet ptr value
    rw [enough.halts_iff (nameCopyStep_not_diverge packet)]
    intro hdiverge
    obtain ⟨t, ht⟩ := (loop_outcome_eq_diverge (nameCopyStep_not_diverge packet) _).mp hdiverge
    obtain ⟨u, hu, hcycle⟩ := enough.exists_cycle ht
    have hmoves := nameMove_of_transGen_next (nameInv_reaches hinv hu) hcycle
    exact hround ⟨u.ptr, u.remaining, nameWalk_of_reaches hinv hu,
      TransGen.pointsTo hmoves (Nat.le_refl _)⟩

/-- `0xC0 0x0C` at offset 12 points at itself. -/
def selfPointer : Packet :=
  { length := 14
    header := { id := 0, bits := 0, qdcount := 1, ancount := 0, nscount := 0, arcount := 0 }
    octet := fun i => if i = 12 then 0xc0 else if i = 13 then 0x0c else 0 }

theorem nameCopy_hangs :
    ¬ Halts (nameCopyStep selfPointer)
      (NameScan.initial 12 (Buffer.replicate DOMAIN_SIZE 0)) := by
  have hnext : Next (nameCopyStep selfPointer) (NameScan.initial 12 (Buffer.replicate DOMAIN_SIZE 0))
      (NameScan.initial 12 (Buffer.replicate DOMAIN_SIZE 0)) := rfl
  exact not_halts_of_cycle (nameCopyStep_not_diverge selfPointer) .refl (.single hnext)

end

end Snert
