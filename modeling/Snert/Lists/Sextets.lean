/-
Module: Snert.Lists.Sextets
Purpose: Octet strings regrouped into sextets, three octets making four sextets, and back. An encoder
  that takes one octet at a time holds back the bits that do not fill a sextet; what it gives off and
  what it holds together are the sextets of the octets it took.
Trusted boundary: none
Main exports: sextets, octetsOf, octetsOf_sextets, Held
-/
import Mathlib.Data.List.Basic

namespace Lists

/-! ### Regrouping -/

/-- The sextets of an octet string. The bits that lack in the last sextet are zero. -/
def sextets : List UInt8 → List Nat
  | [] => []
  | [a] => [a.toNat / 4, a.toNat % 4 * 16]
  | [a, b] => [a.toNat / 4, a.toNat % 4 * 16 + b.toNat / 16, b.toNat % 16 * 4]
  | a :: b :: c :: octets =>
      a.toNat / 4 :: (a.toNat % 4 * 16 + b.toNat / 16) :: (b.toNat % 16 * 4 + c.toNat / 64) ::
        c.toNat % 64 :: sextets octets

/-- The octet that ends in the second sextet of a quantum. -/
def firstOctet (w x : Nat) : UInt8 :=
  UInt8.ofNat (w * 4 + x / 16)

/-- The octet that ends in the third sextet. -/
def secondOctet (x y : Nat) : UInt8 :=
  UInt8.ofNat (x * 16 + y / 4)

/-- The octet that ends in the fourth sextet. -/
def thirdOctet (y z : Nat) : UInt8 :=
  UInt8.ofNat (y * 64 + z)

/-- The octets that a string of sextets fills. -/
def octetsOf : List Nat → List UInt8
  | w :: x :: y :: z :: rest =>
      firstOctet w x :: secondOctet x y :: thirdOctet y z :: octetsOf rest
  | [w, x, y] => [firstOctet w x, secondOctet x y]
  | [w, x] => [firstOctet w x]
  | [_] => []
  | [] => []

theorem ofNat_eq_of_mod {n : Nat} {c : UInt8} (h : n % 256 = c.toNat) : UInt8.ofNat n = c := by
  apply UInt8.toNat_inj.mp
  rw [UInt8.toNat_ofNat']
  exact h

/-- Regrouping loses nothing. -/
theorem octetsOf_sextets (octets : List UInt8) : octetsOf (sextets octets) = octets := by
  induction octets using sextets.induct with
  | case1 => rfl
  | case2 a =>
      have ha := a.toNat_lt
      rw [sextets, octetsOf, firstOctet, ofNat_eq_of_mod (c := a) (by omega)]
  | case3 a b =>
      have ha := a.toNat_lt
      have hb := b.toNat_lt
      rw [sextets, octetsOf, firstOctet, secondOctet, ofNat_eq_of_mod (c := a) (by omega),
        ofNat_eq_of_mod (c := b) (by omega)]
  | case4 a b c octets ih =>
      have ha := a.toNat_lt
      have hb := b.toNat_lt
      have hc := c.toNat_lt
      rw [sextets, octetsOf, ih, firstOctet, secondOctet, thirdOctet,
        ofNat_eq_of_mod (c := a) (by omega), ofNat_eq_of_mod (c := b) (by omega),
        ofNat_eq_of_mod (c := c) (by omega)]

theorem sextets_lt (octets : List UInt8) : ∀ v ∈ sextets octets, v < 64 := by
  induction octets using sextets.induct with
  | case1 => exact nofun
  | case2 a =>
      have ha := a.toNat_lt
      simp only [sextets, List.forall_mem_cons, List.not_mem_nil, false_implies, implies_true,
        and_true]
      omega
  | case3 a b =>
      have ha := a.toNat_lt
      have hb := b.toNat_lt
      simp only [sextets, List.forall_mem_cons, List.not_mem_nil, false_implies, implies_true,
        and_true]
      omega
  | case4 a b c octets ih =>
      have ha := a.toNat_lt
      have hb := b.toNat_lt
      have hc := c.toNat_lt
      simp only [sextets, List.forall_mem_cons]
      exact ⟨by omega, by omega, by omega, by omega, ih⟩

theorem length_octetsOf (values : List Nat) : (octetsOf values).length = values.length * 3 / 4 := by
  induction values using octetsOf.induct with
  | case1 w x y z rest ih =>
      simp only [octetsOf, List.length_cons, ih]
      omega
  | case2 | case3 | case4 | case5 => simp [octetsOf]

theorem length_sextets_mod (octets : List UInt8) : (sextets octets).length % 4 ≠ 1 := by
  induction octets using sextets.induct with
  | case1 | case2 | case3 => simp [sextets]
  | case4 a b c octets ih =>
      simp only [sextets, List.length_cons]
      omega

/-! ### Encoding octet by octet -/

/-- The bits that an encoder holds back: none, or two or four bits, put where they stand in the sextet
they begin. -/
inductive Held where
  | none
  | two (value : Nat)
  | four (value : Nat)
deriving DecidableEq, Repr

namespace Held

/-- The sextet begun, filled up with zeros. -/
def flush : Held → List Nat
  | .none => []
  | .two value => [value]
  | .four value => [value]

/-- How many octets of a quantum have been taken. As many sextets of it have been given off. -/
def taken : Held → Nat
  | .none => 0
  | .two _ => 1
  | .four _ => 2

/-- Take an octet: the sextets given off, and what is held then. -/
def put : Held → UInt8 → List Nat × Held
  | .none, x => ([x.toNat / 4], .two (x.toNat % 4 * 16))
  | .two value, x => ([value + x.toNat / 16], .four (x.toNat % 16 * 4))
  | .four value, x => ([value + x.toNat / 64, x.toNat % 64], .none)

/-- Take the octets of a string. -/
def feed : Held → List UInt8 → List Nat × Held
  | held, [] => ([], held)
  | held, x :: octets =>
      ((held.put x).1 ++ (feed (held.put x).2 octets).1, (feed (held.put x).2 octets).2)

@[simp] theorem feed_nil (held : Held) : held.feed [] = ([], held) := rfl

theorem feed_cons (held : Held) (x : UInt8) (octets : List UInt8) :
    held.feed (x :: octets) =
      ((held.put x).1 ++ ((held.put x).2.feed octets).1, ((held.put x).2.feed octets).2) := rfl

theorem feed_append (held : Held) (octets octets' : List UInt8) :
    held.feed (octets ++ octets') =
      ((held.feed octets).1 ++ ((held.feed octets).2.feed octets').1,
        ((held.feed octets).2.feed octets').2) := by
  induction octets generalizing held with
  | nil => rfl
  | cons x octets ih => simp [feed_cons, ih]

theorem feed_flush (octets : List UInt8) :
    (Held.none.feed octets).1 ++ (Held.none.feed octets).2.flush = sextets octets := by
  induction octets using sextets.induct with
  | case1 | case2 | case3 => rfl
  | case4 a b c octets ih =>
      rw [sextets, ← ih]
      rfl

theorem taken_feed (octets : List UInt8) (held : Held) :
    (held.feed octets).2.taken = (held.taken + octets.length) % 3 := by
  induction octets generalizing held with
  | nil => cases held <;> rfl
  | cons x octets ih =>
      rw [feed_cons, ih, List.length_cons]
      cases held with
      | none => simp only [put, taken]; omega
      | two => simp only [put, taken]; omega
      | four => simp only [put, taken]; omega

theorem length_feed (octets : List UInt8) (held : Held) :
    held.taken + (held.feed octets).1.length = (held.taken + octets.length) * 4 / 3 := by
  induction octets generalizing held with
  | nil => cases held <;> simp [taken]
  | cons x octets ih =>
      have hrest := ih (held.put x).2
      rw [feed_cons, List.length_append, List.length_cons]
      cases held with
      | none => simp only [put, taken, List.length_cons, List.length_nil] at hrest ⊢; omega
      | two => simp only [put, taken, List.length_cons, List.length_nil] at hrest ⊢; omega
      | four => simp only [put, taken, List.length_cons, List.length_nil] at hrest ⊢; omega

end Held

end Lists
