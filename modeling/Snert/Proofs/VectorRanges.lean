/-
Module: Snert.Proofs.VectorRanges
Purpose: Ranges of a vector are moved by three reversals: two neighbouring ranges are reversed each,
  then both together, and have changed places. Insertion and removal rest on it. Of bad ranges
  `VectorMoveRange` only looks at the order, and `VectorRemoveSome` only at the end: any other one
  is taken, or the reversals that are possible are made.
Trusted boundary: none
Main exports: vectorRanges_exact, vectorRejects_iff
-/
import Snert.Lists.Reversal
import Snert.Util.Vector

namespace Snert

open CModel Lists

variable {α : Type}

/-! ### What a vector holds -/

/-- The vector holds the items, a NULL behind them, and has the room that `_size` says. -/
structure PointerVector.Holds (vector : PointerVector α) (items : List (Option α)) : Prop where
  length_eq : vector.length.toInt = items.length
  base_eq : ∃ unused, vector.base = items ++ none :: unused
  size_eq : vector.base.length = vector.size + 1
  size_lt : 8 * (vector.size + 1) < 2 ^ 63

namespace PointerVector.Holds

variable {self : PointerVector α} {items : List (Option α)}

theorem length_le (h : self.Holds items) : items.length ≤ self.size := by
  obtain ⟨unused, hbase⟩ := h.base_eq
  have hlength := congrArg List.length hbase
  rw [h.size_eq, List.length_append, List.length_cons] at hlength
  omega

theorem replaced (h : self.Holds items) {unused items' : List (Option α)}
    (hlength : items'.length = items.length)
    (hbase : (items' ++ none :: unused).length = self.base.length) :
    ({ self with base := items' ++ none :: unused } : PointerVector α).Holds items' where
  length_eq := by
    rw [hlength]
    exact h.length_eq
  base_eq := ⟨unused, rfl⟩
  size_eq := hbase.trans h.size_eq
  size_lt := h.size_lt

end PointerVector.Holds

theorem vectorCreate_holds {capacity : Int64} {self : PointerVector α}
    (h : VectorCreate α capacity true = some self) : self.Holds [] := by
  obtain ⟨hfits, hself⟩ := Option.ite_none_right_eq_some.mp h
  obtain rfl := Option.some.inj hself
  exact ⟨rfl, ⟨_, rfl⟩, List.length_replicate, hfits.2⟩

/-! ### Reversal -/

theorem yields_baseRead {base : List (Option α)} {i : Int} {item : Option α} (hi : 0 ≤ i)
    (h : base[i.toNat]? = some item) : (baseRead base i).Yields item := by
  obtain ⟨hlt, -⟩ := List.getElem?_eq_some_iff.mp h
  have hin : Access.InBounds ⟨i, 1, base.length⟩ := ⟨hi, by dsimp only; omega⟩
  have hread := Run.yields_load hin base[i.toNat]?.join
  rw [baseRead]
  rwa [show base[i.toNat]?.join = item by rw [h]; rfl] at hread ⊢

theorem yields_baseWrite {base : List (Option α)} {i : Int} (item : Option α) (hi : 0 ≤ i)
    (hlt : i.toNat < base.length) :
    (baseWrite base i item).Yields (base.set i.toNat item) :=
  Run.ends_store.mpr ⟨⟨hi, by dsimp only; omega⟩, rfl⟩

theorem rangeStep_round {goal : List (Option α)} {st : RangeCursor α}
    (h : Reversing goal st.base st.xp st.yp) :
    (rangeStep st).Ends (Run.Round (fun st => Reversing goal st.base st.xp st.yp)
      (fun st => (st.yp - st.xp).toNat) (fun base => base = goal) st) := by
  rw [rangeStep]
  by_cases hlt : (st.xp : Int) < st.yp
  · obtain ⟨x, y, hx, hy, hswap⟩ := h.swap hlt
    have hcast : (st.xp : Int).toNat = st.xp := Int.toNat_natCast _
    have hxlt := (List.getElem?_eq_some_iff.mp hx).1
    have hylt := (List.getElem?_eq_some_iff.mp hy).1
    rw [if_pos hlt, (yields_baseRead (Int.natCast_nonneg st.xp) (hcast ▸ hx)).bind_ends_iff,
      (yields_baseRead (by omega) hy).bind_ends_iff,
      (yields_baseWrite y (Int.natCast_nonneg st.xp) (hcast ▸ hxlt)).bind_ends_iff, hcast,
      (yields_baseWrite x (by omega) (by rw [List.length_set]; exact hylt)).bind_ends_iff,
      Run.ends_pure]
    refine ⟨hswap, ?_⟩
    change (st.yp - 1 - (st.xp + 1 : Nat)).toNat < (st.yp - st.xp).toNat
    omega
  · rw [if_neg hlt]
    exact Run.ends_pure.mpr (h.finished hlt)

theorem rangeLoop_ends {goal : List (Option α)} {st : RangeCursor α}
    (h : Reversing goal st.base st.xp st.yp) {rounds : Nat}
    (hrounds : (st.yp - st.xp).toNat < rounds) :
    (Run.loop rangeStep rounds st).Ends fun base => base = goal :=
  Run.loop_ends _ (fun _ ht => rangeStep_round ht) h hrounds

theorem reverseRange_eq (self : PointerVector α) (x y : Int64) :
    VectorReverseRange self x y =
      if x.toInt < 0 ∨ self.length.toInt ≤ x.toInt then pure (-1, self)
      else if y.toInt < 0 ∨ self.length.toInt ≤ y.toInt then pure (-1, self)
      else if y.toInt < x.toInt then pure (-1, self)
      else Run.loop rangeStep (y.toInt.toNat + 1) ⟨x.toInt.toNat, y.toInt, self.base⟩ >>=
        fun base => pure (0, { self with base := base }) := by
  simp only [VectorReverseRange, Int64.lt_iff_toInt_lt, Int64.le_iff_toInt_le, Int64.toInt_zero]

theorem reverseRange_ends {self : PointerVector α} {front part back : List (Option α)}
    (h : self.Holds (front ++ part ++ back)) {x y : Int64} (hx : x.toInt = front.length)
    (hy : y.toInt = (front.length + part.length : Nat) - 1) :
    (VectorReverseRange self x y).Ends fun out => out.2.Holds (front ++ part.reverse ++ back) := by
  have hlength := h.length_eq
  simp only [List.length_append] at hlength
  rw [reverseRange_eq]
  cases part with
  | nil =>
      have hrefused : (pure (-1, self) : Run (Int × PointerVector α)).Ends fun out =>
          out.2.Holds (front ++ [].reverse ++ back) := Run.ends_pure.mpr h
      rw [List.length_nil] at hy
      split_ifs
      · exact hrefused
      · exact hrefused
      · exact hrefused
      · omega
  | cons item part =>
      obtain ⟨unused, hbase⟩ := h.base_eq
      have hsplit : self.base = front ++ (item :: part) ++ (back ++ none :: unused) := by
        rw [hbase, List.append_assoc]
      have hpart := reversing_part front (item :: part) (back ++ none :: unused)
      have hxnat : x.toInt.toNat = front.length := by rw [hx, Int.toNat_natCast]
      rw [← hsplit, ← hy, ← hxnat] at hpart
      rw [List.length_cons] at hy hlength
      rw [if_neg (by omega), if_neg (by omega), if_neg (by omega)]
      have hloop : (Run.loop rangeStep (y.toInt.toNat + 1)
          ⟨x.toInt.toNat, y.toInt, self.base⟩).Ends fun base => base = _ :=
        rangeLoop_ends hpart (by dsimp only; omega)
      refine Run.ends_bind.mpr (hloop.mono ?_)
      rintro base rfl
      refine Run.ends_pure.mpr ?_
      dsimp only
      rw [← List.append_assoc]
      exact h.replaced (by simp; omega) (by rw [hbase]; simp; omega)

/-! ### Movement -/

theorem reversals_ends {self : PointerVector α} {front left right back : List (Option α)}
    (h : self.Holds (front ++ left ++ right ++ back)) {x y x' y' : Int64}
    (hx : x.toInt = front.length) (hy : y.toInt = (front.length + left.length : Nat) - 1)
    (hx' : x'.toInt = (front.length + left.length : Nat))
    (hy' : y'.toInt = (front.length + left.length + right.length : Nat) - 1) :
    (do
      let out ← VectorReverseRange self x y
      let out ← VectorReverseRange out.2 x' y'
      let out ← VectorReverseRange out.2 x y'
      pure ((0 : Int), out.2)).Ends fun out =>
        out.1 = 0 ∧ out.2.Holds (front ++ right ++ left ++ back) := by
  rw [List.append_assoc (front ++ left)] at h
  refine Run.ends_bind.mpr ((reverseRange_ends h hx hy).mono fun out hout => ?_)
  rw [← List.append_assoc] at hout
  refine Run.ends_bind.mpr ((reverseRange_ends hout
    (by rw [hx', List.length_append, List.length_reverse])
    (by rw [hy', List.length_append, List.length_reverse])).mono fun out hout => ?_)
  rw [List.append_assoc front] at hout
  refine Run.ends_bind.mpr ((reverseRange_ends hout hx (by
    rw [hy', List.length_append, List.length_reverse, List.length_reverse, Nat.add_assoc])).mono
      fun out hout => ?_)
  rw [List.reverse_append, List.reverse_reverse, List.reverse_reverse, ← List.append_assoc] at hout
  exact Run.ends_pure.mpr ⟨rfl, hout⟩

theorem toInt_sub_one {x y : Int64} (h : y < x) : (x - 1).toInt = x.toInt - 1 := by
  have hlt := Int64.lt_iff_toInt_lt.mp h
  have hle := y.le_toInt
  have hlt' := x.toInt_lt
  rw [Int64.toInt_sub, Int64.toInt_one]
  exact Int.bmod_eq_of_le (by omega) (by omega)

theorem toInt_add_one {x y : Int64} (h : x < y) : (x + 1).toInt = x.toInt + 1 := by
  have hlt := Int64.lt_iff_toInt_lt.mp h
  have hle := x.le_toInt
  have hlt' := y.toInt_lt
  rw [Int64.toInt_add, Int64.toInt_one]
  exact Int.bmod_eq_of_le (by omega) (by omega)

section
variable {self : PointerVector α} {front left right back : List (Option α)}

theorem moveRange_forward (h : self.Holds (front ++ left ++ right ++ back)) (hleft : left ≠ [])
    (hright : right ≠ []) {start finish target : Int64} (htarget : target.toInt = front.length)
    (hstart : start.toInt = (front.length + left.length : Nat))
    (hfinish : finish.toInt = (front.length + left.length + right.length : Nat) - 1) :
    (VectorMoveRange self start finish target).Ends fun out =>
      out.1 = 0 ∧ out.2.Holds (front ++ right ++ left ++ back) := by
  have hposleft := List.length_pos_of_ne_nil hleft
  have hposright := List.length_pos_of_ne_nil hright
  have hbefore : target < start := Int64.lt_iff_toInt_lt.mpr (by omega)
  rw [VectorMoveRange, if_neg (mt Int64.lt_iff_toInt_lt.mp (by omega)), if_pos hbefore]
  exact reversals_ends h htarget (by rw [toInt_sub_one hbefore, hstart]) hstart hfinish

theorem moveRange_backward (h : self.Holds (front ++ left ++ right ++ back)) (hleft : left ≠ [])
    {start finish target : Int64} (hstart : start.toInt = front.length)
    (hfinish : finish.toInt = (front.length + left.length : Nat) - 1)
    (htarget : target.toInt = (front.length + left.length + right.length : Nat)) :
    (VectorMoveRange self start finish target).Ends fun out =>
      out.1 = 0 ∧ out.2.Holds (front ++ right ++ left ++ back) := by
  have hposleft := List.length_pos_of_ne_nil hleft
  have hlength := h.length_eq
  simp only [List.length_append] at hlength
  have hbehind : finish < target := Int64.lt_iff_toInt_lt.mpr (by omega)
  have hinside : target ≤ self.length := Int64.le_iff_toInt_le.mpr (by omega)
  rw [VectorMoveRange, if_neg (mt Int64.lt_iff_toInt_lt.mp (by omega)),
    if_neg (mt Int64.lt_iff_toInt_lt.mp (by omega)), if_pos ⟨hbehind, hinside⟩]
  exact reversals_ends h hstart hfinish
    (by rw [toInt_add_one hbehind, hfinish]; omega)
    (by rw [toInt_sub_one hbehind, htarget])

end

/-- The items `start` to `finish` are cut out and put in front of what was item `target`: what is
outside of the range before that item, the range, and what is outside of it from that item on. -/
def moveItems (items : List (Option α)) (start finish target : Nat) : List (Option α) :=
  items.take (min target start) ++ (items.take target).drop (finish + 1) ++
    (items.take (finish + 1)).drop start ++
      ((items.take start).drop target ++ items.drop (max target (finish + 1)))

theorem take_append_range (items : List α) {m n : Nat} (h : m ≤ n) :
    items.take m ++ (items.take n).drop m = items.take n := by
  have hsplit := List.take_append_drop m (items.take n)
  rwa [List.take_take, Nat.min_eq_left h] at hsplit

theorem length_range {items : List α} {m n : Nat} (h : n ≤ items.length) :
    ((items.take n).drop m).length = n - m := by
  rw [List.length_drop, List.length_take_of_le h]

theorem moveRange_ends {self : PointerVector α} {items : List (Option α)} (h : self.Holds items)
    {start finish target : Int64} {i j k : Nat} (hi : start.toInt = i) (hj : finish.toInt = j)
    (hk : target.toInt = k) (hij : i ≤ j) (hj' : j < items.length)
    (htarget : k < i ∨ j < k ∧ k ≤ items.length) :
    (VectorMoveRange self start finish target).Ends fun out =>
      out.1 = 0 ∧ out.2.Holds (moveItems items i j k) := by
  have hpart : ∀ {m n : Nat}, m < n → n ≤ items.length → (items.take n).drop m ≠ [] :=
    fun hmn hn => List.ne_nil_of_length_pos (by rw [length_range hn]; omega)
  rcases htarget with hki | ⟨hjk, hk'⟩
  · have hmoved : moveItems items i j k = items.take k ++ (items.take (j + 1)).drop i ++
        (items.take i).drop k ++ items.drop (j + 1) := by
      have hnone : (items.take k).drop (j + 1) = [] :=
        List.drop_of_length_le (by rw [List.length_take]; omega)
      rw [moveItems, hnone, Nat.min_eq_left hki.le, Nat.max_eq_right (by omega), List.append_nil,
        ← List.append_assoc]
    have hsplit : items.take k ++ (items.take i).drop k ++ (items.take (j + 1)).drop i ++
        items.drop (j + 1) = items := by
      rw [take_append_range items hki.le, take_append_range items (by omega),
        List.take_append_drop]
    rw [← hsplit] at h
    rw [hmoved]
    refine moveRange_forward h (hpart hki (by omega)) (hpart (by omega) hj') ?_ ?_ ?_
    · rw [hk, List.length_take_of_le (by omega)]
    · rw [hi, List.length_take_of_le (by omega), length_range (by omega)]
      omega
    · rw [hj, List.length_take_of_le (by omega), length_range (by omega), length_range hj']
      omega
  · have hmoved : moveItems items i j k = items.take i ++ (items.take k).drop (j + 1) ++
        (items.take (j + 1)).drop i ++ items.drop k := by
      have hnone : (items.take i).drop k = [] :=
        List.drop_of_length_le (by rw [List.length_take]; omega)
      rw [moveItems, hnone, Nat.min_eq_right (by omega), Nat.max_eq_left hjk, List.nil_append]
    have hsplit : items.take i ++ (items.take (j + 1)).drop i ++ (items.take k).drop (j + 1) ++
        items.drop k = items := by
      rw [take_append_range items (by omega), take_append_range items hjk, List.take_append_drop]
    rw [← hsplit] at h
    rw [hmoved]
    refine moveRange_backward h (hpart (by omega) hj') ?_ ?_ ?_
    · rw [hi, List.length_take_of_le (by omega)]
    · rw [hj, List.length_take_of_le (by omega), length_range hj']
      omega
    · rw [hk, List.length_take_of_le (by omega), length_range hj', length_range hk']
      omega

/-! ### Insertion -/

theorem vectorRoom_holds {self grown : PointerVector α} {items : List (Option α)}
    (h : self.Holds items) {memory : Option (GrownItems α)}
    (hroom : vectorRoom self memory = some grown) :
    grown.Holds items ∧ items.length < grown.size := by
  have hlength := h.length_eq
  have hle := h.length_le
  rw [vectorRoom] at hroom
  split_ifs at hroom with hfits hlarge
  · obtain rfl := Option.some.inj hroom
    exact ⟨h, by omega⟩
  · obtain ⟨⟨fresh, hfresh⟩, -, rfl⟩ := Option.map_eq_some_iff.mp hroom
    obtain ⟨unused, hbase⟩ := h.base_eq
    refine ⟨⟨hlength, ⟨unused ++ fresh, ?_⟩, ?_, ?_⟩, ?_⟩
    · dsimp only
      rw [hbase, List.append_assoc]
      rfl
    · dsimp only
      rw [List.length_append, hfresh, h.size_eq]
      omega
    · dsimp only
      omega
    · change items.length < self.size + 100
      omega

theorem vectorAdd_ends {self : PointerVector α} {items : List (Option α)} (h : self.Holds items)
    (data : α) (memory : Option (GrownItems α)) :
    (VectorAdd self (some data) memory).Ends fun out =>
      (out.1 = 0 ∧ out.2.Holds (items ++ [some data])) ∨
        (out = (-1, self) ∧ vectorRoom self memory = none) := by
  rw [VectorAdd.eq_def]
  cases hroom : vectorRoom self memory with
  | none => exact Run.ends_pure.mpr (.inr ⟨rfl, rfl⟩)
  | some grown =>
      obtain ⟨hgrown, hlt⟩ := vectorRoom_holds h hroom
      obtain ⟨base, hbase⟩ := hgrown.base_eq
      have hsize := hgrown.size_eq
      have hsmall := hgrown.size_lt
      have hlength := hgrown.length_eq
      have hnext : (grown.length + 1).toInt = (items.length + 1 : Nat) := by
        rw [Int64.toInt_add, Int64.toInt_one, hlength]
        exact Int.bmod_eq_of_le (by omega) (by omega)
      obtain ⟨next, unused, rfl⟩ : ∃ next unused, base = next :: unused := by
        refine List.exists_cons_of_length_pos ?_
        rw [hbase, List.length_append, List.length_cons] at hsize
        omega
      have hnat : grown.length.toInt.toNat = items.length := by rw [hlength, Int.toNat_natCast]
      have hput : grown.base.set grown.length.toInt.toNat (some data) =
          items ++ some data :: next :: unused := by
        rw [hnat, hbase]
        simp
      have hlast : (items ++ some data :: next :: unused).set (grown.length + 1).toInt.toNat none =
          items ++ some data :: none :: unused := by
        rw [hnext, Int.toNat_natCast]
        simp
      have hbehind : (grown.length + 1).toInt.toNat <
          (items ++ some data :: next :: unused).length := by
        rw [hnext, Int.toNat_natCast, List.length_append, List.length_cons, List.length_cons]
        omega
      dsimp only
      rw [(yields_baseWrite (some data) (by omega) (by omega)).bind_ends_iff, hput,
        (yields_baseWrite none (by omega) hbehind).bind_ends_iff, hlast, Run.ends_pure]
      refine .inl ⟨rfl, ?_, ⟨unused, ?_⟩, ?_, hsmall⟩
      · dsimp only
        rw [hnext, List.length_append]
        rfl
      · simp
      · rw [← hsize, hbase]
        simp

theorem insertIdx_eq {items : List α} {i : Nat} (h : i ≤ items.length) (item : α) :
    items.insertIdx i item = items.take i ++ item :: items.drop i := by
  induction items generalizing i with
  | nil =>
      obtain rfl : i = 0 := Nat.le_zero.mp h
      rfl
  | cons a items ih =>
      cases i with
      | zero => rfl
      | succ i => rw [List.insertIdx_succ_cons, ih (Nat.le_of_succ_le_succ h)]; rfl

theorem vectorInsert_ends {self : PointerVector α} {items : List (Option α)} (h : self.Holds items)
    {before : Int64} {i : Nat} (hi : before.toInt = i) (hle : i ≤ items.length) (data : α)
    (memory : Option (GrownItems α)) :
    (VectorInsert self before (some data) memory).Ends fun out =>
      (out.1 = 0 ∧ out.2.Holds (items.insertIdx i (some data))) ∨
        (out = (-1, self) ∧ vectorRoom self memory = none) := by
  have hlength := h.length_eq
  refine Run.ends_bind.mpr ((vectorAdd_ends h data memory).mono ?_)
  rintro out (⟨hzero, hout⟩ | ⟨rfl, hroom⟩)
  · rw [if_neg (not_not.mpr hzero), insertIdx_eq hle]
    have hsplit : items.take i ++ items.drop i ++ [some data] ++ [] = items ++ [some data] := by
      rw [List.take_append_drop, List.append_nil]
    by_cases hend : i = items.length
    · -- The range is the target: nothing is moved.
      subst hend
      have heq : before = self.length := Int64.toInt_inj.mp (hi.trans hlength.symm)
      subst heq
      rw [VectorMoveRange, if_neg (by simp), if_neg (by simp), if_neg (by simp)]
      refine Run.ends_pure.mpr (.inl ⟨rfl, ?_⟩)
      rw [List.take_length, List.drop_length]
      exact hout
    · rw [← hsplit] at hout
      refine (moveRange_forward hout (List.ne_nil_of_length_pos ?_) (by simp) ?_ ?_ ?_).mono
        fun out hmoved => .inl ⟨hmoved.1, ?_⟩
      · rw [List.length_drop]
        omega
      · rw [hi, List.length_take_of_le hle]
      · rw [hlength, List.length_take_of_le hle, List.length_drop]
        omega
      · rw [hlength, List.length_take_of_le hle, List.length_drop, List.length_singleton]
        omega
      · have hholds := hmoved.2
        rwa [List.append_nil, List.append_assoc, List.singleton_append] at hholds
  · rw [if_pos (show (-1 : Int) ≠ 0 by decide)]
    exact Run.ends_pure.mpr (.inr ⟨rfl, hroom⟩)

/-! ### Removal -/

theorem destroyItems_yields {self : PointerVector α} {front part back : List (Option α)}
    (hbase : self.base = front ++ part ++ back) {i : Int} (hi : i = front.length) :
    (destroyItems self part.length i).Yields (part.flatMap (destroyItem self.freeEntry)) := by
  induction part generalizing front i with
  | nil => exact Run.yields_pure []
  | cons item part ih =>
      have hitem : self.base[i.toNat]? = some item := by
        rw [hi, Int.toNat_natCast, hbase]
        simp
      have hrest : self.base = (front ++ [item]) ++ part ++ back := by
        rw [hbase]
        simp
      refine (yields_baseRead (by omega) hitem).bind ?_
      refine (ih hrest (by rw [List.length_append, List.length_singleton]; omega)).bind ?_
      exact Run.yields_pure _

theorem truncate_ends {self : PointerVector α} {items gone : List (Option α)}
    (h : self.Holds (items ++ gone)) {newLength : Int64}
    (hlength : newLength.toInt = items.length) :
    (baseWrite self.base newLength.toInt none).Ends fun base =>
      ({ self with length := newLength, base := base } : PointerVector α).Holds items := by
  obtain ⟨unused, hbase⟩ := h.base_eq
  obtain ⟨next, rest, hnext⟩ : ∃ next rest, gone ++ none :: unused = next :: rest := by
    cases gone with
    | nil => exact ⟨none, unused, rfl⟩
    | cons next gone => exact ⟨next, gone ++ none :: unused, rfl⟩
  rw [List.append_assoc, hnext] at hbase
  have hnat : newLength.toInt.toNat = items.length := by rw [hlength, Int.toNat_natCast]
  have hput : self.base.set newLength.toInt.toNat none = items ++ none :: rest := by
    rw [hnat, hbase]
    simp
  have hlt : newLength.toInt.toNat < self.base.length := by
    rw [hnat, hbase, List.length_append, List.length_cons]
    omega
  rw [(yields_baseWrite none (by omega) hlt).ends_iff, hput]
  refine ⟨hlength, ⟨rest, rfl⟩, ?_, h.size_lt⟩
  rw [← h.size_eq, hbase]
  simp

theorem vectorRemoveSome_ends {self : PointerVector α} {front part back : List (Option α)}
    (h : self.Holds (front ++ part ++ back)) {index length : Int64}
    (hindex : index.toInt = front.length) (hlength : length.toInt = part.length) :
    (VectorRemoveSome self index length).Ends fun out => out.result = 0 ∧
      out.vector.Holds (front ++ back) ∧
      out.destroyed = part.flatMap (destroyItem self.freeEntry) := by
  have htotal := h.length_eq
  have hsmall := h.size_lt
  have hle := h.length_le
  simp only [List.length_append] at htotal hle
  have hsum : (index + length).toInt = (front.length + part.length : Nat) := by
    rw [Int64.toInt_add, hindex, hlength]
    exact Int.bmod_eq_of_le (by omega) (by omega)
  have hlast : (index + length - 1).toInt = (front.length + part.length : Nat) - 1 := by
    rw [Int64.toInt_sub, Int64.toInt_one, hsum]
    exact Int.bmod_eq_of_le (by omega) (by omega)
  have hrounds : ((index + length).toInt - index.toInt).toNat = part.length := by
    rw [hsum, hindex]
    omega
  -- The range is moved to the end, unless there is nothing to be moved.
  have hmoved : (VectorMoveRange self index (index + length - 1) self.length).Ends fun out =>
      (if out.1 = 0 then out.2.length - length else out.2.length).toInt =
        (front ++ back).length ∧ out.2.Holds (front ++ back ++ part) := by
    cases part with
    | nil =>
        rw [List.length_nil] at hlast htotal
        rw [VectorMoveRange, if_pos (Int64.lt_iff_toInt_lt.mpr (by omega)), Run.ends_pure,
          if_neg (show (-1 : Int) ≠ 0 by decide), List.length_append, List.append_nil]
        rw [List.append_nil] at h
        exact ⟨by omega, h⟩
    | cons item part =>
        have hback : self.Holds (front ++ item :: part ++ back ++ []) := by
          rwa [List.append_nil]
        refine (moveRange_backward hback (by simp) hindex hlast htotal).mono ?_
        rintro out ⟨hzero, hout⟩
        rw [List.append_nil] at hout
        refine ⟨?_, hout⟩
        have hsame := hout.length_eq
        simp only [List.length_append] at hsame
        rw [if_pos hzero, Int64.toInt_sub, hsame, hlength, List.length_append]
        refine (Int.bmod_eq_of_le ?_ ?_).trans ?_ <;> omega
  have hfits : ¬ self.length < index + length := fun hlt => by
    have := Int64.lt_iff_toInt_lt.mp hlt
    omega
  obtain ⟨unused, hbase⟩ := h.base_eq
  rw [List.append_assoc] at hbase
  rw [VectorRemoveSome, if_neg hfits, hrounds,
    (destroyItems_yields hbase hindex).bind_ends_iff]
  refine Run.ends_bind.mpr (hmoved.mono ?_)
  rintro out ⟨hnew, hout⟩
  refine Run.ends_bind.mpr ((truncate_ends hout hnew).mono fun base hholds => ?_)
  exact Run.ends_pure.mpr ⟨rfl, hholds, rfl⟩

/-- For every vector: a range that is moved to a target outside of it is cut out and put in front of
what was the item at the target; an item that is inserted at an index of the vector or at its end is
inserted into the list, unless there is no memory; a range of the vector that is removed is deleted
from the list. What the vector holds has a NULL behind it. -/
theorem vectorRanges_exact (self : PointerVector α) (items : List (Option α))
    (h : self.Holds items) :
    (∀ start finish target : Int64, 0 ≤ start → start ≤ finish → finish < self.length →
      (0 ≤ target ∧ target < start ∨ finish < target ∧ target ≤ self.length) →
      (VectorMoveRange self start finish target).Ends fun out => out.1 = 0 ∧ out.2.Holds
        (moveItems items start.toInt.toNat finish.toInt.toNat target.toInt.toNat)) ∧
    (∀ before data memory, 0 ≤ before → before ≤ self.length →
      (VectorInsert self before (some data) memory).Ends fun out =>
        (out.1 = 0 ∧ out.2.Holds (items.insertIdx before.toInt.toNat (some data))) ∨
          (out = (-1, self) ∧ vectorRoom self memory = none)) ∧
    ∀ index length : Int64, 0 ≤ index → 0 ≤ length → index.toInt + length.toInt ≤ items.length →
      (VectorRemoveSome self index length).Ends fun out => out.result = 0 ∧
        out.vector.Holds (items.take index.toInt.toNat ++
          items.drop (index.toInt + length.toInt).toNat) ∧
        out.destroyed = ((items.drop index.toInt.toNat).take length.toInt.toNat).flatMap
          (destroyItem self.freeEntry) := by
  have hlength := h.length_eq
  have hnonneg : ∀ {x : Int64}, 0 ≤ x → x.toInt = x.toInt.toNat := fun hx =>
    (Int.toNat_of_nonneg (Int64.le_iff_toInt_le.mp hx)).symm
  refine ⟨fun start finish target hstart hfinish hend htarget => ?_,
    fun before data memory hbefore hend => ?_, fun index length hindex hlen hend => ?_⟩
  · have hstart' := Int64.le_iff_toInt_le.mp hstart
    have hfinish' := Int64.le_iff_toInt_le.mp hfinish
    have hend' := Int64.lt_iff_toInt_lt.mp hend
    rw [Int64.lt_iff_toInt_lt, Int64.lt_iff_toInt_lt, Int64.le_iff_toInt_le,
      Int64.le_iff_toInt_le] at htarget
    rw [Int64.toInt_zero] at hstart' htarget
    exact moveRange_ends h (by omega) (by omega) (by omega) (by omega) (by omega) (by omega)
  · have hend' := Int64.le_iff_toInt_le.mp hend
    have hbefore' := hnonneg hbefore
    exact vectorInsert_ends h hbefore' (by omega) data memory
  · have hindex' := hnonneg hindex
    have hlen' := hnonneg hlen
    obtain ⟨i, hi⟩ : ∃ i, index.toInt.toNat = i := ⟨_, rfl⟩
    obtain ⟨n, hn⟩ : ∃ n, length.toInt.toNat = n := ⟨_, rfl⟩
    rw [hi] at hindex' ⊢
    rw [hn] at hlen' ⊢
    have hsum : (index.toInt + length.toInt).toNat = i + n := by omega
    have hsplit : items.take i ++ (items.drop i).take n ++ items.drop (i + n) = items := by
      rw [List.append_assoc, ← List.drop_drop, List.take_append_drop, List.take_append_drop]
    rw [← hsplit] at h
    rw [hsum]
    refine vectorRemoveSome_ends h ?_ ?_
    · rw [hindex', List.length_take_of_le (by omega)]
    · rw [hlen', List.length_take_of_le (by rw [List.length_drop]; omega)]

/-- A vector with room for four items. -/
def threeItems : PointerVector Nat :=
  ⟨4, 3, [some 1, some 2, some 3, none, none], true⟩

/-- A vector of three items. -/
theorem vectorRanges_three : threeItems.Holds [some 1, some 2, some 3] ∧
    (VectorMoveRange threeItems 0 1 3).Ends fun out =>
      out.1 = 0 ∧ out.2.Holds [some 3, some 1, some 2] :=
  have hholds : threeItems.Holds [some 1, some 2, some 3] :=
    ⟨by decide, ⟨[none], rfl⟩, rfl, by decide⟩
  ⟨hholds, (vectorRanges_exact threeItems _ hholds).1 0 1 3 (by decide) (by decide) (by decide)
    (by decide)⟩

/-! ### Bad ranges -/

/-- The range is not inside the vector, or the target is outside of it or in the range. -/
def BadMove (self : PointerVector α) (start finish target : Int64) : Prop :=
  ¬ (0 ≤ start ∧ start ≤ finish ∧ finish < self.length) ∨
    ¬ (0 ≤ target ∧ target ≤ self.length) ∨ (start ≤ target ∧ target ≤ finish)

/-- The items `index` to `index + length - 1` are items of the vector. -/
def InsideVector (self : PointerVector α) (index length : Int64) : Prop :=
  0 ≤ index.toInt ∧ 0 ≤ length.toInt ∧ index.toInt + length.toInt ≤ self.length.toInt

instance (self : PointerVector α) (start finish target : Int64) :
    Decidable (BadMove self start finish target) :=
  inferInstanceAs (Decidable (_ ∨ _))

/-! ### What is refused -/

theorem moveRange_accepts {self : PointerVector α} {start finish target : Int64}
    (horder : ¬ finish < start) {out : Int × PointerVector α}
    (h : (VectorMoveRange self start finish target).outcome = .done out) : out.1 = 0 := by
  rw [VectorMoveRange, if_neg horder] at h
  split_ifs at h
  · obtain ⟨_, -, h⟩ := Run.outcome_bind_eq_done.mp h
    obtain ⟨_, -, h⟩ := Run.outcome_bind_eq_done.mp h
    obtain ⟨_, -, h⟩ := Run.outcome_bind_eq_done.mp h
    cases h
    rfl
  · obtain ⟨_, -, h⟩ := Run.outcome_bind_eq_done.mp h
    obtain ⟨_, -, h⟩ := Run.outcome_bind_eq_done.mp h
    obtain ⟨_, -, h⟩ := Run.outcome_bind_eq_done.mp h
    cases h
    rfl
  · cases h
    rfl

theorem removeSome_accepts {self : PointerVector α} {index length : Int64}
    (hfits : ¬ self.length < index + length) {out : Removal α}
    (h : (VectorRemoveSome self index length).outcome = .done out) : out.result = 0 := by
  rw [VectorRemoveSome, if_neg hfits] at h
  obtain ⟨_, -, h⟩ := Run.outcome_bind_eq_done.mp h
  obtain ⟨_, -, h⟩ := Run.outcome_bind_eq_done.mp h
  obtain ⟨_, -, h⟩ := Run.outcome_bind_eq_done.mp h
  cases h
  rfl

/-! ### What is kept -/

/-- For every vector and all arguments: a bad movement returns -1 and changes nothing exactly if the
range ends before it begins; a removal outside of the vector returns -1, destroys nothing and
changes nothing exactly if the sum of the index and the length, as the machine adds, is more than
the number of items. -/
theorem vectorRejects_iff (self : PointerVector α) :
    (∀ start finish target : Int64,
      (BadMove self start finish target →
        (VectorMoveRange self start finish target).Ends (· = (-1, self))) ↔
      (BadMove self start finish target → finish < start)) ∧
    ∀ index length : Int64,
      (¬ InsideVector self index length →
        (VectorRemoveSome self index length).Ends (· = ⟨-1, self, []⟩)) ↔
      (¬ InsideVector self index length → self.length < index + length) := by
  refine ⟨fun start finish target => imp_congr_right fun _ => ⟨fun hends => ?_, fun hlt => ?_⟩,
    fun index length => imp_congr_right fun _ => ⟨fun hends => ?_, fun hlt => ?_⟩⟩
  · by_contra horder
    obtain ⟨-, out, hdone, rfl⟩ := hends
    exact absurd (moveRange_accepts horder hdone) (show ¬ (-1 : Int) = 0 by decide)
  · rw [VectorMoveRange, if_pos hlt]
    exact Run.ends_pure.mpr rfl
  · by_contra hfits
    obtain ⟨-, out, hdone, rfl⟩ := hends
    exact absurd (removeSome_accepts hfits hdone) (show ¬ (-1 : Int) = 0 by decide)
  · rw [VectorRemoveSome, if_pos hlt]
    exact Run.ends_pure.mpr rfl

/-- Items 2 to 7 of three items are put in front of item 0: the reversal of items 0 and 1 is made,
the two others are refused, and 0 is returned. -/
theorem moveRange_halfPermuted : ¬ ∀ (self : PointerVector Nat) (items : List (Option Nat)),
    self.Holds items →
      (∀ start finish target, BadMove self start finish target →
        (VectorMoveRange self start finish target).Ends (· = (-1, self))) ∧
      ∀ index length, ¬ InsideVector self index length →
        (VectorRemoveSome self index length).Ends (· = ⟨-1, self, []⟩) := by
  intro h
  have hholds : threeItems.Holds [some 1, some 2, some 3] :=
    ⟨by decide, ⟨[none], rfl⟩, rfl, by decide⟩
  obtain ⟨-, out, hdone, rfl⟩ := (h _ _ hholds).1 2 7 0 (by decide)
  have hresult : (VectorMoveRange threeItems 2 7 0).outcome = .done
      (0, { threeItems with base := [some 2, some 1, some 3, none, none] }) := by
    decide
  rw [hresult] at hdone
  cases hdone

end Snert
