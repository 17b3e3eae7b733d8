/-
Module: Snert.Proofs.RateWindow
Purpose: What the intervals of type/mcc.c count. The slot of a tick holds the last tick of its class
  modulo the number of intervals, so that an update counts the ticks of its window and no other. A
  rate that is asked for later also counts the tick that has just left the window, as long as its
  slot has not been taken over.
Trusted boundary: none
Main exports: rateWindow_iff
-/
import Mathlib.Algebra.BigOperators.Fin
import Mathlib.Data.Nat.ModEq
import Snert.Mcc.Active

namespace Snert

open CModel

/-! ### Counting -/

theorem sum_countP_class {α : Type} {n : Nat} (f : α → Fin n) (p : α → Bool) (l : List α) :
    ∑ k, l.countP (fun a => decide (f a = k) && p a) = l.countP p := by
  induction l with
  | nil => simp
  | cons a l ih =>
      have hone : ∑ k, (if (decide (f a = k) && p a) = true then 1 else 0) =
          if p a = true then 1 else 0 := by
        cases p a <;> simp
      simp only [List.countP_cons]
      rw [Finset.sum_add_distrib, ih, hone]

theorem countP_add_countP {α : Type} {p q r : α → Bool} {l : List α}
    (h : ∀ a ∈ l, (if r a = true then 1 else 0) =
      (if p a = true then 1 else 0) + if q a = true then 1 else 0) :
    l.countP r = l.countP p + l.countP q := by
  induction l with
  | nil => rfl
  | cons a l ih =>
      rw [List.countP_cons, List.countP_cons, List.countP_cons,
        ih fun b hb => h b (List.mem_cons_of_mem a hb), h a List.mem_cons_self]
      omega

theorem toNat_foldl_add {α : Type} (f : α → UInt64) (l : List α) (count : UInt64) :
    (l.foldl (fun count a => count + f a) count).toNat =
      (count.toNat + (l.map fun a => (f a).toNat).sum) % 2 ^ 64 := by
  induction l generalizing count with
  | nil =>
      have hlt := count.toNat_lt
      simp only [List.foldl_nil, List.map_nil, List.sum_nil]
      omega
  | cons a l ih =>
      rw [List.foldl_cons, ih, UInt64.toNat_add, List.map_cons, List.sum_cons, Nat.mod_add_mod,
        Nat.add_assoc]

/-! ### Updates -/

/-- The intervals after updates at ticks. -/
def updatedRates (ticks : List UInt64) : MccIntervals :=
  ticks.foldl (fun intervals t => (mccUpdateRate intervals t).1) zeroedIntervals

/-- The number of updates whose tick lies in the window that ends with `u`. -/
def windowUpdates (ticks : List UInt64) (u : UInt64) : Nat :=
  ticks.countP fun t => u.toNat < t.toNat + MCC_INTERVALS ∧ t.toNat ≤ u.toNat

/-- The number of updates at the tick that has just left the window, if none at `u` has taken their
slot. -/
def leftUpdates (ticks : List UInt64) (u : UInt64) : Nat :=
  if u ∈ ticks then 0 else ticks.countP fun t => t.toNat + MCC_INTERVALS = u.toNat

/-- A slot holds the last tick of its class and the number of updates at it, or is zeroed. -/
structure SlotHolds (ticks : List UInt64) (k : Fin MCC_INTERVALS) (slot : MccInterval) : Prop where
  latest : ∀ t ∈ ticks, currentInterval t = k → t ≤ slot.ticks
  count_eq : slot.count.toNat = ticks.count slot.ticks % 2 ^ 64
  held : currentInterval slot.ticks = k ∧ slot.ticks ∈ ticks ∨
    slot = ⟨0, 0⟩ ∧ ∀ t ∈ ticks, currentInterval t ≠ k

/-- Every slot holds the last tick of its class. -/
def RatesHold (ticks : List UInt64) (intervals : MccIntervals) : Prop :=
  ∀ k, SlotHolds ticks k (intervals k)

theorem ratesHold_zeroed : RatesHold [] zeroedIntervals :=
  fun _ => ⟨nofun, rfl, .inr ⟨rfl, nofun⟩⟩

theorem SlotHolds.update {ticks : List UInt64} {t : UInt64} {slot : MccInterval}
    (h : SlotHolds ticks (currentInterval t) slot) (hlast : ∀ s ∈ ticks, s ≤ t) :
    SlotHolds (ticks ++ [t]) (currentInterval t) (slot.update t) := by
  have hticks : (slot.update t).ticks = t := by
    rw [MccInterval.update]
    by_cases hne : slot.ticks ≠ t
    · rw [if_pos hne]
    · rw [if_neg hne]
      exact not_not.mp hne
  refine ⟨?_, ?_, .inl ⟨by rw [hticks], by rw [hticks]; simp⟩⟩
  · intro s hs _
    rw [hticks]
    rcases List.mem_append.mp hs with hs | hs
    · exact hlast s hs
    · exact List.mem_singleton.mp hs ▸ UInt64.le_refl s
  · rw [hticks, List.count_append, List.count_singleton_self, MccInterval.update]
    by_cases hne : slot.ticks ≠ t
    · -- An update of another tick of the class is not later than the slot, which is earlier than t.
      have hfresh : ticks.count t = 0 := by
        refine List.count_eq_zero.mpr fun hmem => hne ?_
        have hle := h.latest t hmem rfl
        rcases h.held with ⟨-, hheld⟩ | ⟨-, hnone⟩
        · exact UInt64.le_antisymm (hlast _ hheld) hle
        · exact absurd rfl (hnone t hmem)
      rw [if_pos hne, hfresh]
      rfl
    · rw [if_neg hne, UInt64.toNat_add, h.count_eq, not_not.mp hne]
      exact Nat.mod_add_mod _ _ _

theorem SlotHolds.keep {ticks : List UInt64} {t : UInt64} {k : Fin MCC_INTERVALS}
    {slot : MccInterval} (h : SlotHolds ticks k slot) (hk : currentInterval t ≠ k) (ht : t ≠ 0) :
    SlotHolds (ticks ++ [t]) k slot := by
  have hother : t ≠ slot.ticks := by
    rintro rfl
    rcases h.held with ⟨hclass, -⟩ | ⟨hslot, -⟩
    · exact hk hclass
    · exact ht (congrArg MccInterval.ticks hslot)
  refine ⟨?_, ?_, ?_⟩
  · intro s hs hclass
    rcases List.mem_append.mp hs with hs | hs
    · exact h.latest s hs hclass
    · exact absurd (List.mem_singleton.mp hs ▸ hclass) hk
  · rw [List.count_append, List.count_singleton, if_neg (by simpa using hother), Nat.add_zero,
      h.count_eq]
  · refine h.held.imp (And.imp_right (List.mem_append_left _)) (And.imp_right fun hnone s hs => ?_)
    rcases List.mem_append.mp hs with hs | hs
    · exact hnone s hs
    · exact List.mem_singleton.mp hs ▸ hk

theorem RatesHold.update {ticks : List UInt64} {t : UInt64} {intervals : MccIntervals}
    (h : RatesHold ticks intervals) (hlast : ∀ s ∈ ticks, s ≤ t) (ht : t ≠ 0) :
    RatesHold (ticks ++ [t]) (mccUpdateRate intervals t).1 := by
  intro k
  rw [mccUpdateRate]
  dsimp only
  by_cases hk : k = currentInterval t
  · rw [hk, Function.update_self]
    exact (h _).update hlast
  · rw [Function.update_of_ne hk]
    exact (h k).keep (Ne.symm hk) ht

theorem ratesHold_updated {ticks : List UInt64} (hsorted : ticks.Pairwise (· ≤ ·))
    (hpos : ∀ t ∈ ticks, t ≠ 0) : RatesHold ticks (updatedRates ticks) := by
  induction ticks using List.reverseRecOn with
  | nil => exact ratesHold_zeroed
  | append_singleton ticks t ih =>
      obtain ⟨hsorted, -, hlast⟩ := List.pairwise_append.mp hsorted
      rw [updatedRates, List.foldl_append]
      exact (ih hsorted fun s hs => hpos s (List.mem_append_left _ hs)).update
        (fun s hs => hlast s hs t (List.mem_singleton_self t)) (hpos t (by simp))

/-! ### Rates -/

/-- An update counts in the rate at `u`: its slot has not been taken over, and holds a tick that the
loop takes for one of the window. -/
def counted (intervals : MccIntervals) (u t : UInt64) : Bool :=
  decide ((intervals (currentInterval t)).ticks = t ∧ u - UInt64.ofNat MCC_INTERVALS ≤ t ∧ t ≤ u)

theorem RatesHold.intervalCount_modEq {ticks : List UInt64} {intervals : MccIntervals}
    (h : RatesHold ticks intervals) (u : UInt64) (k : Fin MCC_INTERVALS) :
    (intervalCount u (intervals k)).toNat ≡ ticks.countP (fun t =>
      decide (currentInterval t = k) && counted intervals u t) [MOD 2 ^ 64] := by
  rcases (h k).held with ⟨hclass, -⟩ | ⟨hslot, hnone⟩
  · by_cases hin : u - UInt64.ofNat MCC_INTERVALS ≤ (intervals k).ticks ∧ (intervals k).ticks ≤ u
    · have hcount : ticks.countP (fun t => decide (currentInterval t = k) &&
          counted intervals u t) = ticks.count (intervals k).ticks := by
        refine List.countP_congr fun t _ => ?_
        simp only [counted, Bool.and_eq_true, decide_eq_true_eq, beq_iff_eq]
        constructor
        · rintro ⟨rfl, hheld, -⟩
          exact hheld.symm
        · rintro rfl
          exact ⟨hclass, by rw [hclass], hin⟩
      rw [intervalCount, if_pos hin, hcount, (h k).count_eq]
      exact Nat.mod_modEq _ _
    · have hcount : ticks.countP (fun t => decide (currentInterval t = k) &&
          counted intervals u t) = 0 := by
        refine List.countP_eq_zero.mpr fun t _ hcounted => hin ?_
        simp only [counted, Bool.and_eq_true, decide_eq_true_eq] at hcounted
        obtain ⟨rfl, hheld, hwindow⟩ := hcounted
        rwa [hheld]
      rw [intervalCount, if_neg hin, hcount]
      rfl
  · have hcount : ticks.countP (fun t => decide (currentInterval t = k) &&
        counted intervals u t) = 0 := by
      refine List.countP_eq_zero.mpr fun t ht hcounted => hnone t ht ?_
      simp only [Bool.and_eq_true, decide_eq_true_eq] at hcounted
      exact hcounted.1
    rw [intervalCount, hslot, ite_self, hcount]
    rfl

theorem RatesHold.mccGetRate_eq {ticks : List UInt64} {intervals : MccIntervals}
    (h : RatesHold ticks intervals) (u : UInt64) :
    (mccGetRate intervals u).toNat = ticks.countP (counted intervals u) % 2 ^ 64 := by
  have hsum : ∑ k, (intervalCount u (intervals k)).toNat ≡ ticks.countP (counted intervals u)
      [MOD 2 ^ 64] := by
    rw [← sum_countP_class currentInterval (counted intervals u)]
    rw [Nat.ModEq, Finset.sum_nat_mod, Finset.sum_nat_mod Finset.univ _ fun k =>
      ticks.countP fun t => decide (currentInterval t = k) && counted intervals u t]
    exact congrArg (· % 2 ^ 64) (Finset.sum_congr rfl fun k _ => h.intervalCount_modEq u k)
  rw [mccGetRate, toNat_foldl_add, ← Fin.sum_univ_def]
  exact (congrArg (· % 2 ^ 64) (Nat.zero_add _)).trans hsum

theorem RatesHold.slot {ticks : List UInt64} {intervals : MccIntervals}
    (h : RatesHold ticks intervals) {t : UInt64} (ht : t ∈ ticks) :
    (intervals (currentInterval t)).ticks ∈ ticks ∧
      (intervals (currentInterval t)).ticks.toNat % 10 = t.toNat % 10 ∧
      t.toNat ≤ (intervals (currentInterval t)).ticks.toNat := by
  rcases (h (currentInterval t)).held with ⟨hclass, hmem⟩ | ⟨-, hnone⟩
  · exact ⟨hmem, congrArg Fin.val hclass,
      UInt64.le_iff_toNat_le.mp ((h (currentInterval t)).latest t ht rfl)⟩
  · exact absurd rfl (hnone t ht)

theorem counted_iff {intervals : MccIntervals} {u : UInt64} (hu : MCC_INTERVALS ≤ u.toNat)
    (t : UInt64) : counted intervals u t = true ↔
      (intervals (currentInterval t)).ticks.toNat = t.toNat ∧ u.toNat ≤ t.toNat + MCC_INTERVALS ∧
        t.toNat ≤ u.toNat := by
  have hbegin : (u - UInt64.ofNat MCC_INTERVALS).toNat = u.toNat - MCC_INTERVALS :=
    UInt64.toNat_sub_of_le _ _ (UInt64.le_iff_toNat_le.mpr hu)
  rw [counted, decide_eq_true_eq, ← UInt64.toNat_inj, UInt64.le_iff_toNat_le,
    UInt64.le_iff_toNat_le, hbegin, Nat.sub_le_iff_le_add]

theorem RatesHold.countP_counted {ticks : List UInt64} {intervals : MccIntervals}
    (h : RatesHold ticks intervals) {u : UInt64} (hu : MCC_INTERVALS ≤ u.toNat)
    (hlast : ∀ t ∈ ticks, t ≤ u) :
    ticks.countP (counted intervals u) = windowUpdates ticks u + leftUpdates ticks u := by
  have hsize : MCC_INTERVALS = 10 := rfl
  rw [windowUpdates, leftUpdates]
  by_cases hmem : u ∈ ticks
  · rw [if_pos hmem, Nat.add_zero]
    refine List.countP_congr fun t ht => ?_
    obtain ⟨hheld, hclass, hle⟩ := h.slot ht
    have hbound := UInt64.le_iff_toNat_le.mp (hlast _ hheld)
    rw [counted_iff hu, decide_eq_true_eq]
    constructor
    · rintro ⟨hsame, hfrom, hto⟩
      refine ⟨Nat.lt_of_le_of_ne hfrom fun hleft => ?_, hto⟩
      -- The tick that has just left the window shares its slot with u.
      have hshared : currentInterval u = currentInterval t := by
        rw [currentInterval, currentInterval, Fin.mk.injEq, hleft, Nat.add_mod_right]
      have hover := UInt64.le_iff_toNat_le.mp ((h _).latest u hmem hshared)
      omega
    · rintro ⟨hfrom, hto⟩
      omega
  · rw [if_neg hmem]
    refine countP_add_countP fun t ht => ?_
    obtain ⟨hheld, hclass, hle⟩ := h.slot ht
    have hbound := UInt64.le_iff_toNat_le.mp (hlast _ hheld)
    have hother : (intervals (currentInterval t)).ticks.toNat ≠ u.toNat := by
      intro heq
      exact hmem (UInt64.toNat_inj.mp heq ▸ hheld)
    simp only [counted_iff hu, decide_eq_true_eq]
    split_ifs <;> omega

theorem mccGetRate_updated {ticks : List UInt64} (hsorted : ticks.Pairwise (· ≤ ·))
    (hpos : ∀ t ∈ ticks, t ≠ 0) {u : UInt64} (hu : MCC_INTERVALS ≤ u.toNat)
    (hlast : ∀ t ∈ ticks, t ≤ u) :
    (mccGetRate (updatedRates ticks) u).toNat =
      (windowUpdates ticks u + leftUpdates ticks u) % 2 ^ 64 := by
  have h := ratesHold_updated hsorted hpos
  rw [h.mccGetRate_eq, h.countP_counted hu hlast]

/-- Updates at ticks that do not decrease. The rate that an update returns is exact. The rate at a
later tick is exact if and only if no update at the tick that has just left the window is still in
its slot. Numbers that do not fit a word are not exact either. -/
theorem rateWindow_iff (ticks : List UInt64) (t : UInt64)
    (hsorted : (ticks ++ [t]).Pairwise (· ≤ ·))
    (hmin : ∀ s ∈ ticks ++ [t], MCC_INTERVALS ≤ s.toNat) :
    ((mccUpdateRate (updatedRates ticks) t).2.toNat = windowUpdates (ticks ++ [t]) t ↔
        windowUpdates (ticks ++ [t]) t < 2 ^ 64) ∧
      ∀ u, t ≤ u →
        ((mccGetRate (updatedRates (ticks ++ [t])) u).toNat = windowUpdates (ticks ++ [t]) u ↔
          windowUpdates (ticks ++ [t]) u < 2 ^ 64 ∧ leftUpdates (ticks ++ [t]) u % 2 ^ 64 = 0) := by
  have hpos : ∀ s ∈ ticks ++ [t], s ≠ 0 := by
    rintro s hs rfl
    exact absurd (hmin 0 hs) (by decide)
  have hle : ∀ s ∈ ticks ++ [t], s ≤ t := by
    intro s hs
    rcases List.mem_append.mp hs with hs | hs
    · exact (List.pairwise_append.mp hsorted).2.2 s hs t (List.mem_singleton_self t)
    · exact List.mem_singleton.mp hs ▸ UInt64.le_refl s
  have hlast : t ∈ ticks ++ [t] := by simp
  have hmint := hmin t hlast
  constructor
  · have hrate := mccGetRate_updated hsorted hpos hmint hle
    rw [leftUpdates, if_pos hlast, Nat.add_zero, updatedRates, List.foldl_append] at hrate
    rw [show (mccUpdateRate (updatedRates ticks) t).2.toNat = _ from hrate]
    exact ⟨fun h => h ▸ Nat.mod_lt _ (by decide), Nat.mod_eq_of_lt⟩
  · intro u hu
    have htu := UInt64.le_iff_toNat_le.mp hu
    rw [mccGetRate_updated hsorted hpos (Nat.le_trans hmint htu)
      fun s hs => UInt64.le_trans (hle s hs) hu]
    omega

/-- Three updates, at the ticks 10, 10 and 12, and the rate at the tick 21. -/
theorem rateWindow_iff_three :
    (mccGetRate (updatedRates ([10, 10] ++ [12])) 21).toNat =
      windowUpdates ([10, 10] ++ [12]) 21 :=
  ((rateWindow_iff [10, 10] 12 (by decide) (by decide)).2 21 (by decide)).mpr (by decide)

/-- An update at the tick 10 counts at the tick 20, whose window begins behind it. -/
theorem rateWindow_left : ¬ ∀ (ticks : List UInt64) (t u : UInt64),
    (ticks ++ [t]).Pairwise (· ≤ ·) → (∀ s ∈ ticks ++ [t], MCC_INTERVALS ≤ s.toNat) → t ≤ u →
      (mccGetRate (updatedRates (ticks ++ [t])) u).toNat = windowUpdates (ticks ++ [t]) u := by
  intro h
  exact absurd (h [] 10 20 (by decide) (by decide) (by decide)) (by decide)

end Snert
