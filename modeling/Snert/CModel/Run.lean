/-
Module: Snert.CModel.Run
Purpose: A shallow embedding of C code that touches memory. A `Run` carries the list of accesses the
  code makes to objects of known extent, next to the way it ends: with a value, in a crash (an access
  outside its object, after which C promises nothing) or without ever ending. `Run.loop` is the
  unbounded loop, cut off after a number of rounds. The rules of this module say how accesses and
  outcomes compose, which states a loop visits, and when a loop ends.
Trusted boundary: human-reviewed spec
Main exports: Access, Outcome, Run, Run.InBounds
-/
import Mathlib.Order.ConditionallyCompleteLattice.Basic
import Mathlib.Logic.Relation
import Mathlib.Data.Fintype.Pigeonhole
import Mathlib.Algebra.GroupWithZero.Nat
import Mathlib.Data.Int.ConditionallyCompleteOrder

namespace CModel

/-- Octets, the `unsigned char` of the code. -/
abbrev Octet := UInt8

/-- A statement about all items of a list is decided along the list, whatever their type. -/
instance (priority := 2000) decidableForallMem {α : Type} (s : List α) (p : α → Prop)
    [DecidablePred p] : Decidable (∀ c ∈ s, p c) :=
  List.decidableBAll p s

/-- The octet of an ASCII character constant. -/
abbrev ch (c : Char) : Octet := c.toUInt8

/-- One access to `count` consecutive octets of an object that is `extent` octets long, the first of
    them at index `first`. The index is an integer because pointer arithmetic can leave the object at
    either end. -/
structure Access where
  first : Int
  count : Nat
  extent : Nat
deriving DecidableEq, Repr

/-- The octets accessed all belong to the object. An access to no octets may sit at its very end. -/
def Access.InBounds (a : Access) : Prop :=
  0 ≤ a.first ∧ a.first + a.count ≤ a.extent

instance (a : Access) : Decidable a.InBounds :=
  inferInstanceAs (Decidable (_ ∧ _))

theorem Access.inBounds_iff_le {first count extent : Nat} :
    Access.InBounds ⟨first, count, extent⟩ ↔ first + count ≤ extent := by
  unfold Access.InBounds
  dsimp only
  omega

/-- How a piece of code ends. -/
inductive Outcome (α : Type) where
  /-- The code ends with a value. -/
  | done (value : α)
  /-- The code leaves an object; C promises nothing from there on. -/
  | crash
  /-- The code is still running when the rounds allowed to its loops are used up. -/
  | diverge
deriving DecidableEq, Repr

/-- A run of a piece of code: the accesses it makes, in order, and how it ends. -/
structure Run (α : Type) where
  accesses : List Access
  outcome : Outcome α
deriving DecidableEq, Repr

namespace Run

variable {α β γ : Type}

/-- Run `f` on the value of `x`. A run that has no value goes no further. -/
def bind (x : Run α) (f : α → Run β) : Run β :=
  match x.outcome with
  | .done a => ⟨x.accesses ++ (f a).accesses, (f a).outcome⟩
  | .crash => ⟨x.accesses, .crash⟩
  | .diverge => ⟨x.accesses, .diverge⟩

instance : Monad Run where
  pure a := ⟨[], .done a⟩
  bind := bind

/-- Read memory at an access. A read outside its object still yields what memory holds there. -/
def load (a : Access) (value : α) : Run α :=
  ⟨[a], .done value⟩

/-- Store at an access. The new value of the object is only defined when the access is in bounds. -/
def store (a : Access) (value : α) : Run α :=
  ⟨[a], if a.InBounds then .done value else .crash⟩

/-- Leave an object for good, as a pointer that runs past the end of a string does. -/
def overrun (a : Access) : Run α :=
  ⟨[a], .crash⟩

/-- The run with its accesses left out, for code that works on objects that are not followed. -/
def unfollowed (x : Run α) : Run α :=
  ⟨[], x.outcome⟩

/-- The value that a run ends with, if it does. -/
def result (x : Run α) : Option α :=
  match x.outcome with
  | .done a => some a
  | _ => none

/-- Every access of the run is inside the object it is made to. -/
def InBounds (x : Run α) : Prop :=
  ∀ a ∈ x.accesses, a.InBounds

instance (x : Run α) : Decidable x.InBounds :=
  inferInstanceAs (Decidable (∀ a ∈ x.accesses, a.InBounds))

/-! ### Accesses and outcomes of the primitive runs -/

@[simp] theorem outcome_pure (a : α) : (pure a : Run α).outcome = .done a := rfl

@[simp] theorem outcome_load (a : Access) (v : α) : (load a v).outcome = .done v := rfl

theorem outcome_store_of_inBounds {a : Access} (h : a.InBounds) (v : α) :
    (store a v).outcome = .done v := by
  simp [store, h]

theorem outcome_store_of_not_inBounds {a : Access} (h : ¬ a.InBounds) (v : α) :
    (store a v).outcome = .crash := by
  simp [store, h]

@[simp] theorem inBounds_pure (a : α) : (pure a : Run α).InBounds := by
  intro b hb
  cases hb

@[simp] theorem inBounds_load (a : Access) (v : α) : (load a v).InBounds ↔ a.InBounds := by
  simp [InBounds, load]

@[simp] theorem inBounds_store (a : Access) (v : α) : (store a v).InBounds ↔ a.InBounds := by
  simp [InBounds, store]

@[simp] theorem inBounds_unfollowed (x : Run α) : x.unfollowed.InBounds := by
  intro a ha
  cases ha

theorem result_eq_some {x : Run α} {a : α} : x.result = some a ↔ x.outcome = .done a := by
  unfold result
  cases x.outcome <;> simp

/-! ### Sequencing -/

theorem bind_eq (x : Run α) (f : α → Run β) : (x >>= f) = x.bind f := rfl

@[simp] theorem pure_bind (a : α) (f : α → Run β) : ((pure a : Run α) >>= f) = f a := rfl

@[simp] theorem bind_pure (x : Run α) : (x >>= pure) = x := by
  rw [bind_eq, bind]
  rcases x with ⟨accesses, outcome⟩
  cases outcome with
  | done a => exact congrArg (Run.mk · (.done a)) (List.append_nil accesses)
  | crash => rfl
  | diverge => rfl

theorem bind_assoc (x : Run α) (f : α → Run β) (g : β → Run γ) :
    (x >>= f) >>= g = x >>= fun a => f a >>= g := by
  rcases x with ⟨accesses, a | _ | _⟩
  · simp only [bind_eq, bind]
    rcases (f a).outcome with _ | _ | _
    · simp [List.append_assoc]
    · rfl
    · rfl
  · rfl
  · rfl

theorem outcome_bind_of_done {x : Run α} {a : α} (h : x.outcome = .done a) (f : α → Run β) :
    (x >>= f).outcome = (f a).outcome := by
  rw [bind_eq, bind, h]

theorem outcome_bind_of_crash {x : Run α} (h : x.outcome = .crash) (f : α → Run β) :
    (x >>= f).outcome = .crash := by
  rw [bind_eq, bind, h]

theorem outcome_bind_of_diverge {x : Run α} (h : x.outcome = .diverge) (f : α → Run β) :
    (x >>= f).outcome = .diverge := by
  rw [bind_eq, bind, h]

theorem outcome_bind_eq_done {x : Run α} {f : α → Run β} {b : β} :
    (x >>= f).outcome = .done b ↔ ∃ a, x.outcome = .done a ∧ (f a).outcome = .done b := by
  cases h : x.outcome with
  | done a => simp [outcome_bind_of_done h]
  | crash => simp [outcome_bind_of_crash h]
  | diverge => simp [outcome_bind_of_diverge h]

theorem bind_not_diverge {x : Run α} {f : α → Run β} (hx : x.outcome ≠ .diverge)
    (hf : ∀ a, (f a).outcome ≠ .diverge) : (x >>= f).outcome ≠ .diverge := by
  cases h : x.outcome with
  | done a =>
      rw [outcome_bind_of_done h]
      exact hf a
  | crash => simp [outcome_bind_of_crash h]
  | diverge => exact absurd h hx

theorem store_not_diverge (a : Access) (v : α) : (store a v).outcome ≠ .diverge := by
  unfold store
  split
  · nofun
  · nofun

theorem inBounds_bind {x : Run α} {f : α → Run β} :
    (x >>= f).InBounds ↔ x.InBounds ∧ ∀ a, x.outcome = .done a → (f a).InBounds := by
  rw [bind_eq, bind]
  cases h : x.outcome with
  | done a => simp [InBounds, or_imp, forall_and]
  | crash => simp [InBounds]
  | diverge => simp [InBounds]

@[simp] theorem inBounds_load_bind (a : Access) (v : α) (f : α → Run β) :
    (load a v >>= f).InBounds ↔ a.InBounds ∧ (f v).InBounds := by
  simp [inBounds_bind]

@[simp] theorem outcome_load_bind (a : Access) (v : α) (f : α → Run β) :
    (load a v >>= f).outcome = (f v).outcome := rfl

@[simp] theorem inBounds_store_bind (a : Access) (v : α) (f : α → Run β) :
    (store a v >>= f).InBounds ↔ a.InBounds ∧ (f v).InBounds := by
  rw [inBounds_bind, inBounds_store]
  by_cases h : a.InBounds
  · simp [outcome_store_of_inBounds h, h]
  · simp [h]

theorem outcome_store_bind {a : Access} (h : a.InBounds) (v : α) (f : α → Run β) :
    (store a v >>= f).outcome = (f v).outcome :=
  outcome_bind_of_done (outcome_store_of_inBounds h v) f

/-! ### Postconditions -/

/-- The run stays in bounds and ends with a value that has the property `Q`. -/
def Ends (x : Run α) (Q : α → Prop) : Prop :=
  x.InBounds ∧ ∃ a, x.outcome = .done a ∧ Q a

@[simp] theorem ends_pure {a : α} {Q : α → Prop} : (pure a : Run α).Ends Q ↔ Q a := by
  simp [Ends]

theorem Ends.mono {x : Run α} {P Q : α → Prop} (h : x.Ends P) (hPQ : ∀ a, P a → Q a) :
    x.Ends Q := by
  rcases h with ⟨hin, a, hdone, ha⟩
  exact ⟨hin, a, hdone, hPQ a ha⟩

theorem Ends.both {x : Run α} {P Q : α → Prop} (hP : x.Ends P) (hQ : x.Ends Q) :
    ∃ a, P a ∧ Q a := by
  obtain ⟨-, a, ha, hPa⟩ := hP
  obtain ⟨-, b, hb, hQb⟩ := hQ
  rw [ha] at hb
  cases hb
  exact ⟨a, hPa, hQb⟩

theorem Ends.ends_iff {x : Run α} {P Q : α → Prop} {R : Prop} (h : x.Ends P)
    (hQ : ∀ a, P a → (Q a ↔ R)) : x.Ends Q ↔ R := by
  constructor
  · intro hends
    obtain ⟨a, hPa, hQa⟩ := h.both hends
    exact (hQ a hPa).mp hQa
  · exact fun hR => h.mono fun a hPa => (hQ a hPa).mpr hR

/-- The run stays in bounds and ends with the value `a`. -/
def Yields (x : Run α) (a : α) : Prop :=
  x.Ends (· = a)

theorem Yields.ends_iff {x : Run α} {a : α} (h : x.Yields a) {Q : α → Prop} : x.Ends Q ↔ Q a := by
  rcases h with ⟨hin, a', hdone, rfl⟩
  simp [Ends, hin, hdone]

theorem Yields.outcome {x : Run α} {a : α} (h : x.Yields a) : x.outcome = .done a := by
  rcases h with ⟨-, a', hdone, rfl⟩
  exact hdone

@[simp] theorem yields_pure (a : α) : (pure a : Run α).Yields a :=
  ends_pure.mpr rfl

theorem yields_load {a : Access} (h : a.InBounds) (v : α) : (load a v).Yields v :=
  ⟨(inBounds_load a v).mpr h, v, rfl, rfl⟩

theorem ends_bind {x : Run α} {f : α → Run β} {Q : β → Prop} :
    (x >>= f).Ends Q ↔ x.Ends fun a => (f a).Ends Q := by
  unfold Ends
  rw [inBounds_bind]
  constructor
  · rintro ⟨⟨hx, hf⟩, b, hb, hQ⟩
    obtain ⟨a, ha, hb⟩ := outcome_bind_eq_done.mp hb
    exact ⟨hx, a, ha, hf a ha, b, hb, hQ⟩
  · rintro ⟨hx, a, ha, hf, b, hb, hQ⟩
    refine ⟨⟨hx, fun a' ha' => ?_⟩, b, outcome_bind_eq_done.mpr ⟨a, ha, hb⟩, hQ⟩
    rw [ha] at ha'
    cases ha'
    exact hf

theorem Yields.bind_ends_iff {x : Run α} {a : α} (h : x.Yields a) {f : α → Run β} {Q : β → Prop} :
    (x >>= f).Ends Q ↔ (f a).Ends Q := by
  rw [ends_bind, h.ends_iff]

theorem Yields.bind {x : Run α} {a : α} {f : α → Run β} {b : β} (h : x.Yields a)
    (hf : (f a).Yields b) : (x >>= f).Yields b :=
  h.bind_ends_iff.mpr hf

theorem yields_of_result {x : Run α} {a : α} (hin : x.InBounds) (h : x.result = some a) :
    x.Yields a :=
  ⟨hin, a, result_eq_some.mp h, rfl⟩

theorem bind_of_result_eq_none {x : Run α} (hin : x.InBounds) (h : x.result = none)
    (f : α → Run β) : (x >>= f).InBounds ∧ ∀ b, (x >>= f).outcome ≠ .done b := by
  have hnot : ∀ a, x.outcome ≠ .done a := fun a ha => by simp [result_eq_some.mpr ha] at h
  refine ⟨inBounds_bind.mpr ⟨hin, fun a ha => absurd ha (hnot a)⟩, fun b hb => ?_⟩
  obtain ⟨a, ha, -⟩ := outcome_bind_eq_done.mp hb
  exact hnot a ha

@[simp] theorem ends_store {a : Access} {v : α} {Q : α → Prop} :
    (store a v).Ends Q ↔ a.InBounds ∧ Q v := by
  unfold Ends
  rw [inBounds_store]
  refine and_congr_right fun h => ?_
  simp [outcome_store_of_inBounds h]

theorem ends_load {a : Access} {v : α} {Q : α → Prop} :
    (load a v).Ends Q ↔ a.InBounds ∧ Q v := by
  constructor
  · rintro ⟨hin, w, hw, hQ⟩
    cases hw
    exact ⟨(inBounds_load a v).mp hin, hQ⟩
  · rintro ⟨hin, hQ⟩
    exact (yields_load hin v).ends_iff.mpr hQ

@[simp] theorem not_ends_overrun {a : Access} {Q : α → Prop} : ¬ (overrun a : Run α).Ends Q := by
  rintro ⟨-, b, hb, -⟩
  cases hb

/-! ### Postconditions of what may not end -/

/-- The run stays in bounds, and a value it ends with has the property `Q`. -/
def Safe (x : Run α) (Q : α → Prop) : Prop :=
  x.InBounds ∧ ∀ a, x.outcome = .done a → Q a

theorem inBounds_iff_safe {x : Run α} : x.InBounds ↔ x.Safe fun _ => True := by
  simp [Safe]

theorem safe_congr {x : Run α} {P Q : α → Prop} (h : ∀ a, P a ↔ Q a) : x.Safe P ↔ x.Safe Q := by
  simp only [Safe, h]

theorem Safe.mono {x : Run α} {P Q : α → Prop} (h : x.Safe P) (hPQ : ∀ a, P a → Q a) :
    x.Safe Q :=
  ⟨h.1, fun a ha => hPQ a (h.2 a ha)⟩

@[simp] theorem safe_pure {a : α} {Q : α → Prop} : (pure a : Run α).Safe Q ↔ Q a := by
  simp [Safe]

@[simp] theorem safe_load {a : Access} {v : α} {Q : α → Prop} :
    (load a v).Safe Q ↔ a.InBounds ∧ Q v := by
  simp [Safe]

@[simp] theorem safe_store {a : Access} {v : α} {Q : α → Prop} :
    (store a v).Safe Q ↔ a.InBounds ∧ Q v := by
  unfold Safe
  rw [inBounds_store]
  refine and_congr_right fun h => ?_
  simp [outcome_store_of_inBounds h]

theorem safe_bind {x : Run α} {f : α → Run β} {Q : β → Prop} :
    (x >>= f).Safe Q ↔ x.Safe fun a => (f a).Safe Q := by
  unfold Safe
  rw [inBounds_bind]
  constructor
  · rintro ⟨⟨hx, hf⟩, hQ⟩
    exact ⟨hx, fun a ha => ⟨hf a ha, fun b hb => hQ b (outcome_bind_eq_done.mpr ⟨a, ha, hb⟩)⟩⟩
  · rintro ⟨hx, hf⟩
    refine ⟨⟨hx, fun a ha => (hf a ha).1⟩, fun b hb => ?_⟩
    obtain ⟨a, ha, hb⟩ := outcome_bind_eq_done.mp hb
    exact (hf a ha).2 b hb

theorem Yields.safe_iff {x : Run α} {a : α} (h : x.Yields a) {Q : α → Prop} : x.Safe Q ↔ Q a := by
  rcases h with ⟨hin, a', hdone, rfl⟩
  simp [Safe, hin, hdone]

/-- A value that the run ends with has the property `Q`, whatever the run accesses. -/
def Gives (x : Run α) (Q : α → Prop) : Prop :=
  ∀ a, x.outcome = .done a → Q a

theorem gives_pure {a : α} {Q : α → Prop} (h : Q a) : (pure a : Run α).Gives Q := by
  rintro _ ⟨⟩
  exact h

theorem Gives.bind {x : Run α} {f : α → Run β} {P : α → Prop} {Q : β → Prop} (hx : x.Gives P)
    (hf : ∀ a, P a → (f a).Gives Q) : (x >>= f).Gives Q := by
  intro b hb
  obtain ⟨a, ha, hb⟩ := outcome_bind_eq_done.mp hb
  exact hf a (hx a ha) b hb

/-! ### Crashes show -/

/-- A run that crashes has made the access that crashed it known. -/
def Honest (x : Run α) : Prop :=
  x.outcome = .crash → ¬ x.InBounds

theorem Honest.bind {x : Run α} {f : α → Run β} (hx : x.Honest) (hf : ∀ a, (f a).Honest) :
    (x >>= f).Honest := by
  intro hcrash hin
  rw [inBounds_bind] at hin
  cases h : x.outcome with
  | done a =>
      rw [outcome_bind_of_done h] at hcrash
      exact hf a hcrash (hin.2 a h)
  | crash => exact hx h hin.1
  | diverge =>
      rw [outcome_bind_of_diverge h] at hcrash
      cases hcrash

/-- A run that leaves no object ends. -/
def Total (x : Run α) : Prop :=
  x.InBounds → ∃ a, x.outcome = .done a

theorem total_pure (a : α) : (pure a : Run α).Total := fun _ => ⟨a, rfl⟩

theorem total_load (a : Access) (v : α) : (load a v).Total := fun _ => ⟨v, rfl⟩

theorem total_store (a : Access) (v : α) : (store a v).Total := fun hin =>
  ⟨v, outcome_store_of_inBounds ((inBounds_store a v).mp hin) v⟩

theorem total_overrun {a : Access} (h : ¬ a.InBounds) : (overrun a : Run α).Total := fun hin =>
  absurd (hin a (List.mem_singleton_self a)) h

theorem Total.bind {x : Run α} {f : α → Run β} (hx : x.Total) (hf : ∀ a, (f a).Total) :
    (x >>= f).Total := by
  intro hin
  rw [inBounds_bind] at hin
  obtain ⟨a, ha⟩ := hx hin.1
  obtain ⟨b, hb⟩ := hf a (hin.2 a ha)
  exact ⟨b, outcome_bind_eq_done.mpr ⟨a, ha, hb⟩⟩

theorem Total.inBounds_iff {x : Run α} (h : x.Total) : x.InBounds ↔ x.Ends fun _ => True :=
  ⟨fun hin => ⟨hin, (h hin).imp fun _ ha => ⟨ha, trivial⟩⟩, fun hends => hends.1⟩

/-- The indices of the octets that a run accesses, in a run that accesses one object. -/
def touched (x : Run α) : Set Int :=
  {i | ∃ a ∈ x.accesses, a.first ≤ i ∧ i < a.first + a.count}

@[simp] theorem touched_pure (a : α) : (pure a : Run α).touched = ∅ :=
  Set.eq_empty_of_forall_notMem fun _ ⟨_, hb, _⟩ => nomatch hb

@[simp] theorem touched_store (a : Access) (v : α) :
    (store a v).touched = Set.Ico a.first (a.first + a.count) := by
  ext i
  simp [touched, store]

theorem Yields.touched_bind {x : Run α} {a : α} (h : x.Yields a) (f : α → Run β) :
    (x >>= f).touched = x.touched ∪ (f a).touched := by
  have haccesses : (x >>= f).accesses = x.accesses ++ (f a).accesses := by
    rw [bind_eq, Run.bind, h.outcome]
  ext i
  simp [touched, haccesses, or_and_right, exists_or]

/-! ### Loops -/

variable {σ ρ : Type}

/-- Repeat `step` until it yields a result, for at most the given number of rounds. A step yields
    either the state of the next round or the result of the loop. -/
def loop (step : σ → Run (σ ⊕ ρ)) : Nat → σ → Run ρ
  | 0, _ => ⟨[], .diverge⟩
  | rounds + 1, s => do
      match ← step s with
      | .inl s' => loop step rounds s'
      | .inr r => pure r

/-- One round of the loop leads from `s` to `s'`. -/
def Next (step : σ → Run (σ ⊕ ρ)) (s s' : σ) : Prop :=
  (step s).outcome = .done (.inl s')

/-- The loop, started at `s`, comes to `s'`. -/
def Reaches (step : σ → Run (σ ⊕ ρ)) : σ → σ → Prop :=
  Relation.ReflTransGen (Next step)

/-- The loop, started at `s`, ends: some number of rounds is enough for it. -/
def Halts (step : σ → Run (σ ⊕ ρ)) (s : σ) : Prop :=
  ∃ rounds, (loop step rounds s).outcome ≠ .diverge

/-- The state the loop is in after exactly `k` rounds, if it is still running then. -/
def after (step : σ → Run (σ ⊕ ρ)) : Nat → σ → Option σ
  | 0, s => some s
  | k + 1, s =>
      match (step s).outcome with
      | .done (.inl s') => after step k s'
      | _ => none

section Loop

variable {step : σ → Run (σ ⊕ ρ)} {s s' t : σ} {r : ρ} {k : Nat}

theorem Next.unique (h : Next step s s') (h' : Next step s t) : s' = t := by
  rw [Next, h] at h'
  simpa using h'

@[simp] theorem after_zero : after step 0 s = some s := rfl

theorem after_succ_of_next (h : Next step s s') : after step (k + 1) s = after step k s' := by
  rw [after, h]

theorem after_succ_eq_some : after step (k + 1) s = some t ↔
    ∃ s', Next step s s' ∧ after step k s' = some t := by
  constructor
  · intro h
    rw [after] at h
    split at h
    · rename_i s' hs
      exact ⟨s', hs, h⟩
    · cases h
  · rintro ⟨s', hs, h⟩
    rw [after_succ_of_next hs, h]

theorem after_add (i j : Nat) (s : σ) :
    after step (i + j) s = (after step i s).bind (after step j) := by
  induction i generalizing s with
  | zero => simp
  | succ i ih =>
      rw [show i + 1 + j = (i + j) + 1 by omega, after, after]
      split
      · exact ih _
      · rfl

theorem after_of_le {i j : Nat} (h : after step j s = some t) (hij : i ≤ j) :
    ∃ u, after step i s = some u ∧ after step (j - i) u = some t := by
  obtain ⟨d, rfl⟩ := Nat.exists_eq_add_of_le hij
  rw [after_add] at h
  obtain ⟨u, hu, ht⟩ := Option.bind_eq_some_iff.mp h
  exact ⟨u, hu, by simpa using ht⟩

theorem reaches_iff_after : Reaches step s t ↔ ∃ k, after step k s = some t := by
  constructor
  · intro h
    induction h using Relation.ReflTransGen.head_induction_on with
    | refl => exact ⟨0, rfl⟩
    | head hn _ ih =>
        obtain ⟨k, hk⟩ := ih
        exact ⟨k + 1, by rw [after_succ_of_next hn, hk]⟩
  · rintro ⟨k, hk⟩
    induction k generalizing s with
    | zero =>
        obtain rfl : s = t := by simpa using hk
        exact .refl
    | succ k ih =>
        obtain ⟨u, hu, hk⟩ := after_succ_eq_some.mp hk
        exact .head hu (ih hk)

theorem loop_inBounds_iff (rounds : Nat) : (loop step rounds s).InBounds ↔
    ∀ k < rounds, ∀ t, after step k s = some t → (step t).InBounds := by
  induction rounds generalizing s with
  | zero => simp [loop, InBounds]
  | succ rounds ih =>
      rw [loop, inBounds_bind]
      constructor
      · rintro ⟨hs, hrest⟩ k hk t ht
        cases k with
        | zero =>
            obtain rfl : s = t := by simpa using ht
            exact hs
        | succ k =>
            obtain ⟨u, hu, ht⟩ := after_succ_eq_some.mp ht
            exact (ih.mp (hrest _ hu)) k (by omega) t ht
      · intro h
        refine ⟨h 0 (by omega) s rfl, ?_⟩
        rintro (u | r) hu
        · exact ih.mpr fun k hk t ht => h (k + 1) (by omega) t (after_succ_eq_some.mpr ⟨u, hu, ht⟩)
        · exact inBounds_pure r

theorem loop_outcome_eq_done (rounds : Nat) : (loop step rounds s).outcome = .done r ↔
    ∃ k < rounds, ∃ t, after step k s = some t ∧ (step t).outcome = .done (.inr r) := by
  induction rounds generalizing s with
  | zero => simp [loop]
  | succ rounds ih =>
      rw [loop, outcome_bind_eq_done]
      constructor
      · rintro ⟨u | r', hu, hr⟩
        · obtain ⟨k, hk, t, ht, hr⟩ := ih.mp hr
          exact ⟨k + 1, by omega, t, after_succ_eq_some.mpr ⟨u, hu, ht⟩, hr⟩
        · obtain rfl : r' = r := by simpa using hr
          exact ⟨0, by omega, s, rfl, hu⟩
      · rintro ⟨k, hk, t, ht, hr⟩
        cases k with
        | zero =>
            obtain rfl : s = t := by simpa using ht
            exact ⟨.inr r, hr, rfl⟩
        | succ k =>
            obtain ⟨u, hu, ht⟩ := after_succ_eq_some.mp ht
            exact ⟨.inl u, hu, ih.mpr ⟨k, by omega, t, ht, hr⟩⟩

theorem loop_outcome_eq_diverge (hstep : ∀ t, (step t).outcome ≠ .diverge) (rounds : Nat) :
    (loop step rounds s).outcome = .diverge ↔ ∃ t, after step rounds s = some t := by
  induction rounds generalizing s with
  | zero => simp [loop]
  | succ rounds ih =>
      rw [loop, after]
      cases h : (step s).outcome with
      | done v =>
          rw [outcome_bind_of_done h]
          cases v with
          | inl u => exact ih
          | inr r => simp
      | crash => simp [outcome_bind_of_crash h]
      | diverge => exact absurd h (hstep s)

theorem loop_not_crash {I : σ → Prop} (hstep : ∀ t, I t → (step t).outcome ≠ .crash)
    (hnext : ∀ t u, I t → Next step t u → I u) (rounds : Nat) (hs : I s) :
    (loop step rounds s).outcome ≠ .crash := by
  induction rounds generalizing s with
  | zero => nofun
  | succ rounds ih =>
      rw [loop]
      cases h : (step s).outcome with
      | done v =>
          rw [outcome_bind_of_done h]
          cases v with
          | inl u => exact ih (hnext s u hs h)
          | inr r => nofun
      | crash => exact absurd h (hstep s hs)
      | diverge =>
          rw [outcome_bind_of_diverge h]
          nofun

theorem loop_of_le {rounds rounds' : Nat} (h : (loop step rounds s).outcome ≠ .diverge)
    (hle : rounds ≤ rounds') : loop step rounds' s = loop step rounds s := by
  induction rounds generalizing s rounds' with
  | zero => exact absurd rfl h
  | succ rounds ih =>
      obtain ⟨rounds', rfl⟩ : ∃ k, rounds' = k + 1 := ⟨rounds' - 1, by omega⟩
      rw [loop] at h
      rw [loop, loop, bind_eq, bind_eq]
      unfold bind
      cases hs : (step s).outcome with
      | crash => rfl
      | diverge => rfl
      | done r =>
          rw [outcome_bind_of_done hs] at h
          cases r with
          | inl t => simp only [ih h (Nat.le_of_succ_le_succ hle)]
          | inr r => rfl

theorem loop_map {σ' ρ' : Type} {step' : σ' → Run (σ' ⊕ ρ')} (f : σ → σ') (g : ρ → ρ')
    (hstep : ∀ s, step' (f s) = step s >>= fun r => pure (Sum.map f g r)) (rounds : Nat) (s : σ) :
    loop step' rounds (f s) = loop step rounds s >>= fun r => pure (g r) := by
  induction rounds generalizing s with
  | zero => rfl
  | succ rounds ih =>
      rw [loop, loop, hstep, bind_assoc, bind_assoc]
      congr 1
      funext r
      cases r with
      | inl t => exact ih t
      | inr r => rfl

theorem halts_iff (hstep : ∀ t, (step t).outcome ≠ .diverge) :
    Halts step s ↔ ∃ k, after step k s = none := by
  simp only [Halts, ne_eq, loop_outcome_eq_diverge hstep, not_exists, Option.eq_none_iff_forall_ne_some]

theorem loop_ends_of_measure (hstep : ∀ t, (step t).outcome ≠ .diverge) (measure : σ → Nat)
    (hdec : ∀ t t', Next step t t' → measure t' < measure t) {rounds : Nat}
    (hr : measure s < rounds) : (loop step rounds s).outcome ≠ .diverge := by
  rw [ne_eq, loop_outcome_eq_diverge hstep]
  rintro ⟨t, ht⟩
  induction rounds generalizing s with
  | zero => omega
  | succ rounds ih =>
      obtain ⟨u, hu, ht⟩ := after_succ_eq_some.mp ht
      exact ih (by have := hdec s u hu; omega) ht

theorem not_halts_of_cycle (hstep : ∀ t, (step t).outcome ≠ .diverge) (hreach : Reaches step s t)
    (hcycle : Relation.TransGen (Next step) t t) : ¬ Halts step s := by
  obtain ⟨u, htu, hut⟩ := Relation.TransGen.head'_iff.mp hcycle
  obtain ⟨period, hp⟩ := reaches_iff_after.mp hut
  obtain ⟨lead, hl⟩ := reaches_iff_after.mp hreach
  have again : ∀ k, ∃ v, after step k t = some v := by
    intro k
    induction k using Nat.strongRecOn with
    | ind k ih =>
        by_cases hk : k ≤ period + 1
        · obtain ⟨v, hv, _⟩ := after_of_le (after_succ_eq_some.mpr ⟨u, htu, hp⟩) hk
          exact ⟨v, hv⟩
        · obtain ⟨v, hv⟩ := ih (k - (period + 1)) (by omega)
          refine ⟨v, ?_⟩
          rw [show k = period + 1 + (k - (period + 1)) by omega, after_add,
            after_succ_eq_some.mpr ⟨u, htu, hp⟩]
          exact hv
  rw [halts_iff hstep]
  rintro ⟨k, hk⟩
  obtain ⟨v, hv⟩ := again (k - lead)
  by_cases hle : k ≤ lead
  · obtain ⟨w, hw, _⟩ := after_of_le hl hle
    rw [hk] at hw
    cases hw
  · rw [show k = lead + (k - lead) by omega, after_add, hl] at hk
    simp [hv] at hk

/-! ### How many rounds are enough

A loop over finitely many states either ends before it has gone through them all or comes back to
one of them. So a bound on the number of states is a number of rounds after which nothing new is
seen: whatever the loop reaches it has reached by then, and if it is still running it never ends. -/

/-- The states the loop reaches from `s` can be numbered below `rounds`. -/
def EnoughRounds (step : σ → Run (σ ⊕ ρ)) (s : σ) (rounds : Nat) : Prop :=
  ∃ code : σ → Nat, (∀ t, Reaches step s t → code t < rounds) ∧
    ∀ t u, Reaches step s t → Reaches step s u → code t = code u → t = u

theorem EnoughRounds.exists_repeat {rounds : Nat} (enough : EnoughRounds step s rounds)
    (h : after step rounds s = some t) :
    ∃ i j u, i < j ∧ j ≤ rounds ∧ after step i s = some u ∧ after step j s = some u := by
  obtain ⟨code, bound, inj⟩ := enough
  have states : ∀ k : Fin (rounds + 1), ∃ u, after step k s = some u := fun k => by
    obtain ⟨u, hu, _⟩ := after_of_le h (Nat.lt_succ_iff.mp k.isLt)
    exact ⟨u, hu⟩
  choose state hstate using states
  have reached : ∀ k, Reaches step s (state k) := fun k => reaches_iff_after.mpr ⟨k, hstate k⟩
  obtain ⟨i, j, hne, hij⟩ := Fintype.exists_ne_map_eq_of_card_lt
    (fun k => (⟨code (state k), bound _ (reached k)⟩ : Fin rounds)) (by simp)
  have same : state i = state j := inj _ _ (reached i) (reached j) (by simpa using hij)
  rcases Nat.lt_or_gt_of_ne (Fin.val_ne_of_ne hne) with hlt | hgt
  · exact ⟨i, j, state i, hlt, Nat.lt_succ_iff.mp j.isLt, hstate i, same ▸ hstate j⟩
  · exact ⟨j, i, state i, hgt, Nat.lt_succ_iff.mp i.isLt, same ▸ hstate j, hstate i⟩

theorem EnoughRounds.exists_cycle {rounds : Nat} (enough : EnoughRounds step s rounds)
    (h : after step rounds s = some t) :
    ∃ u, Reaches step s u ∧ Relation.TransGen (Next step) u u := by
  obtain ⟨i, j, u, hij, _, hi, hj⟩ := enough.exists_repeat h
  refine ⟨u, reaches_iff_after.mpr ⟨i, hi⟩, ?_⟩
  rw [show j = i + ((j - i - 1) + 1) by omega, after_add, hi] at hj
  obtain ⟨v, huv, hv⟩ := after_succ_eq_some.mp hj
  exact .head' huv (reaches_iff_after.mpr ⟨_, hv⟩)

theorem EnoughRounds.halts_iff (hstep : ∀ t, (step t).outcome ≠ .diverge) {rounds : Nat}
    (enough : EnoughRounds step s rounds) :
    Halts step s ↔ (loop step rounds s).outcome ≠ .diverge := by
  refine ⟨fun halts hdiv => ?_, fun h => ⟨rounds, h⟩⟩
  obtain ⟨t, ht⟩ := (loop_outcome_eq_diverge hstep rounds).mp hdiv
  obtain ⟨u, hu, hcycle⟩ := enough.exists_cycle ht
  exact not_halts_of_cycle hstep hu hcycle halts

theorem EnoughRounds.reaches_within {rounds : Nat} (enough : EnoughRounds step s rounds)
    (h : Reaches step s t) : ∃ k < rounds, after step k s = some t := by
  obtain ⟨k, hk⟩ := reaches_iff_after.mp h
  induction k using Nat.strongRecOn with
  | ind k ih =>
      by_cases hlt : k < rounds
      · exact ⟨k, hlt, hk⟩
      · obtain ⟨v, hv, _⟩ := after_of_le hk (Nat.not_lt.mp hlt)
        obtain ⟨i, j, u, hij, hj, hi, hju⟩ := enough.exists_repeat hv
        obtain ⟨w, hw, hrest⟩ := after_of_le hk (show j ≤ k by omega)
        obtain rfl : u = w := by rw [hju] at hw; simpa using hw
        exact ih (i + (k - j)) (by omega) (by rw [after_add, hi]; exact hrest)

theorem EnoughRounds.inBounds_iff {rounds : Nat} (enough : EnoughRounds step s rounds) :
    (loop step rounds s).InBounds ↔ ∀ t, Reaches step s t → (step t).InBounds := by
  rw [loop_inBounds_iff]
  constructor
  · intro h t ht
    obtain ⟨k, hk, hkt⟩ := enough.reaches_within ht
    exact h k hk t hkt
  · intro h k _ t hkt
    exact h t (reaches_iff_after.mpr ⟨k, hkt⟩)

theorem EnoughRounds.outcome_eq_done {rounds : Nat} (enough : EnoughRounds step s rounds) :
    (loop step rounds s).outcome = .done r ↔
      ∃ t, Reaches step s t ∧ (step t).outcome = .done (.inr r) := by
  rw [loop_outcome_eq_done]
  constructor
  · rintro ⟨k, _, t, ht, hr⟩
    exact ⟨t, reaches_iff_after.mpr ⟨k, ht⟩, hr⟩
  · rintro ⟨t, ht, hr⟩
    obtain ⟨k, hk, hkt⟩ := enough.reaches_within ht
    exact ⟨k, hk, t, hkt, hr⟩

/-- What a round from `t` may yield: a state that keeps the invariant `I` and has a smaller measure,
or a result with the property `Q`. -/
def Round (I : σ → Prop) (measure : σ → Nat) (Q : ρ → Prop) (t : σ) : σ ⊕ ρ → Prop
  | .inl t' => I t' ∧ measure t' < measure t
  | .inr r => Q r

theorem loop_ends {I : σ → Prop} {Q : ρ → Prop} (measure : σ → Nat)
    (hround : ∀ t, I t → (step t).Ends (Round I measure Q t)) {rounds : Nat} (hs : I s)
    (hrounds : measure s < rounds) : (loop step rounds s).Ends Q := by
  induction rounds generalizing s with
  | zero => omega
  | succ rounds ih =>
      rw [loop, ends_bind]
      refine (hround s hs).mono fun r hr => ?_
      cases r with
      | inl t => exact ih hr.1 (by have := hr.2; omega)
      | inr r => exact ends_pure.mpr hr

theorem loop_done {I : σ → Prop} {Q : ρ → Prop}
    (hround : ∀ t r, I t → (step t).outcome = .done r → Sum.elim I Q r) {rounds : Nat} (hs : I s)
    (h : (loop step rounds s).outcome = .done r) : Q r := by
  induction rounds generalizing s with
  | zero => cases h
  | succ rounds ih =>
      obtain ⟨u | r', hu, hr⟩ := outcome_bind_eq_done.mp h
      · exact ih (hround s _ hs hu) hr
      · obtain rfl : r' = r := by simpa using hr
        exact hround s _ hs hu

/-- The loop, started at `s`, begins one of its first `rounds` rounds in the state `t`. -/
def Visits (step : σ → Run (σ ⊕ ρ)) (rounds : Nat) (s t : σ) : Prop :=
  ∃ k < rounds, after step k s = some t

theorem visits_succ {rounds : Nat} :
    Visits step (rounds + 1) s t ↔ s = t ∨ ∃ u, Next step s u ∧ Visits step rounds u t := by
  constructor
  · rintro ⟨k, hk, ht⟩
    cases k with
    | zero => exact .inl (by simpa using ht)
    | succ k =>
        obtain ⟨u, hu, ht⟩ := after_succ_eq_some.mp ht
        exact .inr ⟨u, hu, k, by omega, ht⟩
  · rintro (rfl | ⟨u, hu, k, hk, ht⟩)
    · exact ⟨0, by omega, rfl⟩
    · exact ⟨k + 1, by omega, after_succ_eq_some.mpr ⟨u, hu, ht⟩⟩

theorem loop_safe_iff {I C : σ → Prop} {Q : ρ → Prop}
    (hmeets : ∀ t, I t → C t → (step t).Safe (Sum.elim I Q))
    (hstrays : ∀ t, I t → ¬ C t → ¬ (step t).InBounds) {rounds : Nat} (hs : I s) :
    (loop step rounds s).Safe Q ↔ ∀ t, Visits step rounds s t → C t := by
  induction rounds generalizing s with
  | zero =>
      refine ⟨fun _ t ⟨k, hk, _⟩ => absurd hk (Nat.not_lt_zero k), fun _ => ?_⟩
      exact ⟨nofun, nofun⟩
  | succ rounds ih =>
      rw [loop, safe_bind]
      constructor
      · intro hsafe t ht
        have hC : C s := Classical.byContradiction fun hC => hstrays s hs hC hsafe.1
        rcases visits_succ.mp ht with rfl | ⟨u, hu, ht⟩
        · exact hC
        · exact (ih ((hmeets s hs hC).2 _ hu)).mp (hsafe.2 _ hu) t ht
      · intro hall
        have hround := hmeets s hs (hall s (visits_succ.mpr (.inl rfl)))
        refine ⟨hround.1, fun r hr => ?_⟩
        cases r with
        | inl u =>
            exact (ih (hround.2 _ hr)).mpr fun t ht =>
              hall t (visits_succ.mpr (.inr ⟨u, hr, ht⟩))
        | inr r => exact safe_pure.mpr (hround.2 _ hr)

theorem loop_safe_iff_inBounds {I C : σ → Prop} {Q : ρ → Prop}
    (hmeets : ∀ t, I t → C t → (step t).Safe (Sum.elim I Q))
    (hstrays : ∀ t, I t → ¬ C t → ¬ (step t).InBounds) {rounds : Nat} (hs : I s) :
    (loop step rounds s).Safe Q ↔ (loop step rounds s).InBounds := by
  rw [loop_safe_iff hmeets hstrays hs, inBounds_iff_safe]
  refine (loop_safe_iff (fun t hI hC => (hmeets t hI hC).mono ?_) hstrays hs).symm
  rintro (u | r) h
  · exact h
  · trivial

theorem Reaches.total (ht : Reaches step s t) (hu : Reaches step s s') :
    Reaches step t s' ∨ Reaches step s' t :=
  Relation.ReflTransGen.total_of_right_unique (fun _ _ _ h h' => h.unique h') ht hu

theorem enoughRounds_of_measure (measure : σ → Nat)
    (hdec : ∀ t t', Next step t t' → measure t' < measure t) :
    EnoughRounds step s (measure s + 1) := by
  have le : ∀ {t u}, Reaches step t u → measure u ≤ measure t := by
    intro t u h
    induction h with
    | refl => exact Nat.le_refl _
    | tail _ hn ih => exact Nat.le_trans (Nat.le_of_lt (hdec _ _ hn)) ih
  have eq : ∀ {t u}, Reaches step t u → measure t = measure u → t = u := by
    intro t u h hm
    rcases Relation.ReflTransGen.cases_head h with rfl | ⟨v, hv, hrest⟩
    · rfl
    · have := le hrest
      have := hdec _ _ hv
      omega
  refine ⟨measure, fun t ht => Nat.lt_succ_iff.mpr (le ht), fun t u ht hu hm => ?_⟩
  rcases ht.total hu with h | h
  · exact eq h hm
  · exact (eq h hm.symm).symm

end Loop

end Run

end CModel
