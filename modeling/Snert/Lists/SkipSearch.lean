/-
Module: Snert.Lists.SkipSearch
Purpose: A search that goes through the offsets of a text by shifts. It stops at the first offset
  that it comes to where the pattern occurs, so it finds the first one of all if and only if it does
  not jump over it.
Trusted boundary: none
Main exports: naiveSearch, eq_naiveSearch_iff, Tried, StopsAt
-/
import Mathlib.Data.Nat.Find
import Mathlib.Order.WellFounded
import Snert.Lists.Mismatches

namespace Lists

/-! ### The naive search -/

section

variable {α : Type*} [DecidableEq α] {pattern text : List α} {bound : Nat}

/-- The naive search: every offset of the text is looked at, from left to right. -/
def naiveSearch (pattern text : List α) (bound : Nat) : Int :=
  match (List.range (text.length + 1)).find? fun offset => OccursAt pattern text bound offset with
  | some offset => offset
  | none => -1

theorem naiveSearch_firstAt (pattern text : List α) (bound : Nat) :
    FirstAt pattern text bound (naiveSearch pattern text bound) := by
  have hrange : ∀ offset, OccursAt pattern text bound offset → offset < text.length + 1 :=
    fun offset hoccurs => Nat.lt_succ_of_le (Nat.le_of_add_right_le hoccurs.1)
  rw [naiveSearch]
  cases hfind : (List.range (text.length + 1)).find?
      fun offset => OccursAt pattern text bound offset with
  | none =>
      refine .inr ⟨rfl, fun offset hoccurs => ?_⟩
      have hnone := List.find?_eq_none.mp hfind offset
        (List.mem_range.mpr (hrange offset hoccurs))
      exact hnone (decide_eq_true hoccurs)
  | some offset =>
      have hoccurs : OccursAt pattern text bound offset := by
        simpa using List.find?_some hfind
      refine .inl ⟨offset, rfl, hoccurs, fun before hbefore hearlier => ?_⟩
      have hnone := List.find?_range_eq_some.mp hfind
      exact absurd (decide_eq_true hearlier) (by simpa using hnone.2.2 before hbefore)

theorem FirstAt.unique {answer answer' : Int} (h : FirstAt pattern text bound answer)
    (h' : FirstAt pattern text bound answer') : answer = answer' := by
  rcases h with ⟨offset, rfl, hoccurs, hfirst⟩ | ⟨rfl, hnone⟩
  · rcases h' with ⟨offset', rfl, hoccurs', hfirst'⟩ | ⟨rfl, hnone'⟩
    · rcases Nat.lt_trichotomy offset offset' with hlt | rfl | hgt
      · exact absurd hoccurs (hfirst' offset hlt)
      · rfl
      · exact absurd hoccurs' (hfirst offset' hgt)
    · exact absurd hoccurs (hnone' offset)
  · rcases h' with ⟨offset', rfl, hoccurs', -⟩ | ⟨rfl, -⟩
    · exact absurd hoccurs' (hnone offset')
    · rfl

/-- The answer of the naive search is the first occurrence. -/
theorem eq_naiveSearch_iff {answer : Int} :
    answer = naiveSearch pattern text bound ↔ FirstAt pattern text bound answer :=
  ⟨fun h => h ▸ naiveSearch_firstAt pattern text bound,
    fun h => h.unique (naiveSearch_firstAt pattern text bound)⟩

end

/-! ### A search by shifts -/

section

variable (shift : Nat → Nat) (occurs : Nat → Prop)

/-- The offset that a search by shifts comes to after a number of rounds. -/
def triedAt : Nat → Nat
  | 0 => 0
  | rounds + 1 => triedAt rounds + shift (triedAt rounds)

/-- The search comes to an offset, not stopped by an occurrence before. -/
def Tried (offset : Nat) : Prop :=
  ∃ rounds, triedAt shift rounds = offset ∧ ∀ before < rounds, ¬ occurs (triedAt shift before)

/-- The answer of a search by shifts: an offset that it comes to and where the pattern occurs, or -1
    if there is none. -/
def StopsAt (answer : Int) : Prop :=
  (∃ offset : Nat, answer = offset ∧ Tried shift occurs offset ∧ occurs offset) ∨
    answer = -1 ∧ ∀ offset, Tried shift occurs offset → ¬ occurs offset

/-- From an offset that it comes to, the search jumps over the first occurrence. -/
def JumpsOver : Prop :=
  ∃ offset first, Tried shift occurs offset ∧ occurs first ∧ (∀ before < first, ¬ occurs before) ∧
    offset < first ∧ first < offset + shift offset

variable {shift occurs}

theorem Tried.start : Tried shift occurs 0 :=
  ⟨0, rfl, fun before hbefore => absurd hbefore (Nat.not_lt_zero before)⟩

theorem Tried.next {offset : Nat} (h : Tried shift occurs offset) (hnot : ¬ occurs offset) :
    Tried shift occurs (offset + shift offset) := by
  obtain ⟨rounds, rfl, hbefore⟩ := h
  refine ⟨rounds + 1, rfl, fun before hlt => ?_⟩
  rcases Nat.lt_or_eq_of_le (Nat.le_of_lt_succ hlt) with hlt | rfl
  · exact hbefore before hlt
  · exact hnot

variable (hpos : ∀ offset, 0 < shift offset)

include hpos

theorem strictMono_triedAt : StrictMono (triedAt shift) :=
  strictMono_nat_of_lt_succ fun _ => Nat.lt_add_of_pos_right (hpos _)

theorem Tried.not_between {offset other : Nat} (h : Tried shift occurs offset)
    (hother : Tried shift occurs other) : other ≤ offset ∨ offset + shift offset ≤ other := by
  obtain ⟨rounds, rfl, -⟩ := h
  obtain ⟨rounds', rfl, -⟩ := hother
  have hmono := (strictMono_triedAt hpos).monotone
  rcases Nat.lt_or_ge rounds rounds' with hlt | hge
  · exact .inr (hmono hlt)
  · exact .inl (hmono hge)

theorem Tried.not_occurs {offset before : Nat} (h : Tried shift occurs offset)
    (hbefore : Tried shift occurs before) (hlt : before < offset) : ¬ occurs before := by
  obtain ⟨rounds, rfl, hnot⟩ := h
  obtain ⟨rounds', rfl, -⟩ := hbefore
  exact hnot rounds' ((strictMono_triedAt hpos).lt_iff_lt.mp hlt)

theorem tried_of_not_jumpsOver (h : ¬ JumpsOver shift occurs) {first : Nat} (hoccurs : occurs first)
    (hfirst : ∀ before < first, ¬ occurs before) : Tried shift occurs first := by
  have hmono := strictMono_triedAt hpos
  -- The last round before the occurrence, or at it.
  have hle : ∃ rounds, triedAt shift rounds ≤ first ∧ first < triedAt shift (rounds + 1) := by
    have hreach : ∃ rounds, first < triedAt shift rounds :=
      ⟨first + 1, Nat.lt_of_lt_of_le (Nat.lt_succ_self first) (hmono.le_apply)⟩
    classical
    cases hleast : Nat.find hreach with
    | zero =>
        have hlt := Nat.find_spec hreach
        rw [hleast] at hlt
        exact absurd hlt (Nat.not_lt_zero first)
    | succ rounds =>
        refine ⟨rounds, Nat.not_lt.mp ?_, hleast ▸ Nat.find_spec hreach⟩
        exact Nat.find_min hreach (hleast ▸ Nat.lt_succ_self rounds)
  obtain ⟨rounds, hle, hlt⟩ := hle
  have htried : Tried shift occurs (triedAt shift rounds) := by
    refine ⟨rounds, rfl, fun before hbefore => hfirst _ ?_⟩
    exact Nat.lt_of_lt_of_le (hmono hbefore) hle
  rcases Nat.lt_or_eq_of_le hle with hbefore | heq
  · exact absurd ⟨_, first, htried, hoccurs, hfirst, hbefore, hlt⟩ h
  · exact heq ▸ htried

end

/-- A search by shifts finds the first occurrence if and only if it does not jump over it. -/
theorem StopsAt.eq_naiveSearch_iff {α : Type*} [DecidableEq α] {pattern text : List α} {bound : Nat}
    {shift : Nat → Nat} (hpos : ∀ offset, 0 < shift offset) {answer : Int}
    (h : StopsAt shift (OccursAt pattern text bound) answer) :
    answer = naiveSearch pattern text bound ↔
      ¬ JumpsOver shift (OccursAt pattern text bound) := by
  rw [Lists.eq_naiveSearch_iff]
  constructor
  · rintro hanswer ⟨offset, first, htried, hoccurs, hfirst, hbefore, hlt⟩
    have hfound : FirstAt pattern text bound first := .inl ⟨first, rfl, hoccurs, hfirst⟩
    obtain rfl := hanswer.unique hfound
    rcases h with ⟨other, heq, hother, -⟩ | ⟨hminus, -⟩
    · obtain rfl := Int.natCast_inj.mp heq
      rcases htried.not_between hpos hother with hle | hge
      · omega
      · omega
    · omega
  · intro hjumps
    by_cases hnone : ∀ offset, ¬ OccursAt pattern text bound offset
    · rcases h with ⟨offset, -, -, hoccurs⟩ | ⟨rfl, -⟩
      · exact absurd hoccurs (hnone offset)
      · exact .inr ⟨rfl, hnone⟩
    · obtain ⟨offset, hoffset⟩ := not_forall_not.mp hnone
      classical
      have hexists : ∃ offset, OccursAt pattern text bound offset := ⟨offset, hoffset⟩
      have hoccurs := Nat.find_spec hexists
      have hfirst : ∀ before < Nat.find hexists, ¬ OccursAt pattern text bound before :=
        fun before hbefore => Nat.find_min hexists hbefore
      have htried := tried_of_not_jumpsOver hpos hjumps hoccurs hfirst
      rcases h with ⟨other, rfl, hother, hat⟩ | ⟨rfl, hnot⟩
      · refine .inl ⟨other, rfl, hat, fun before hbefore hearlier => ?_⟩
        have hleast : Nat.find hexists ≤ before := Nat.find_min' hexists hearlier
        exact hother.not_occurs hpos htried (by omega) hoccurs
      · exact absurd hoccurs (hnot _ htried)

end Lists
