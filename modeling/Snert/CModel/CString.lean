/-
Module: Snert.CModel.CString
Purpose: C strings and the functions of the C library that work on them. A pointer into a string is
  the list of octets from there up to the terminating NUL, so that `*p` is the head of the list and
  the NUL is its end. The functions follow their documented behaviour in the C locale, `long` being
  64 bits wide.
Trusted boundary: human-reviewed spec
Main exports: CString, peek, isspace, iscntrl
-/
import Snert.CModel.Run

namespace CModel

/-- A C string: octets none of which is NUL. The NUL that ends it is not one of them. -/
structure CString where
  octets : List Octet
  noNul : 0 ∉ octets
deriving DecidableEq, Repr

/-- The octets of a string literal. -/
abbrev ascii (s : String) : List Octet :=
  s.toList.map ch

/-- The octet a pointer points at: the NUL at the end of the string. -/
def peek (p : List Octet) : Octet :=
  p.headD 0

@[simp] theorem peek_nil : peek [] = 0 := rfl

@[simp] theorem peek_cons (c : Octet) (p : List Octet) : peek (c :: p) = c := rfl

/-! ### Character classes -/

/-- White space: blank, and the five control characters from tab to carriage return. -/
def isspace (c : Octet) : Bool :=
  c = 32 || (9 ≤ c && c ≤ 13)

/-- The control characters. -/
def iscntrl (c : Octet) : Bool :=
  c < 32 || c = 127

/-- A letter or a digit. -/
def isalnum (c : Octet) : Bool :=
  (48 ≤ c && c ≤ 57) || (65 ≤ c && c ≤ 90) || (97 ≤ c && c ≤ 122)

/-- Lower case of an ASCII letter; every other octet is unchanged. -/
def tolower (c : Octet) : Octet :=
  if 65 ≤ c ∧ c ≤ 90 then c + 32 else c

/-- The value of an octet as a digit of a base up to 36. -/
def digitValue (c : Octet) : Option Nat :=
  if 48 ≤ c ∧ c ≤ 57 then some (c.toNat - 48)
  else if 65 ≤ c ∧ c ≤ 90 then some (c.toNat - 55)
  else if 97 ≤ c ∧ c ≤ 122 then some (c.toNat - 87)
  else none

/-- Is the octet a digit of the base? -/
def isDigit (base : Nat) (c : Octet) : Bool :=
  match digitValue c with
  | some d => d < base
  | none => false

/-- A hexadecimal digit, in upper or lower case. -/
def isxdigit (c : Octet) : Bool :=
  isDigit 16 c

/-! ### Spans -/

/-- `strchr (set, c) != NULL`: the NUL that ends the set counts as one of its octets. -/
def strchr (set : List Octet) (c : Octet) : Bool :=
  c ∈ set || c = 0

/-- Length of the longest start of `s` that consists of octets of `set`. -/
def strspn (s set : List Octet) : Nat :=
  (s.takeWhile (· ∈ set)).length

/-- Length of the longest start of `s` that consists of octets outside `set`. -/
def strcspn (s set : List Octet) : Nat :=
  (s.takeWhile (· ∉ set)).length

/-! ### Comparison -/

/-- Difference of the first two octets that differ when case is ignored, the NUL included. -/
def strcasecmp : List Octet → List Octet → Int
  | [], [] => 0
  | [], d :: _ => -(tolower d).toNat
  | c :: _, [] => (tolower c).toNat
  | c :: s, d :: t =>
      if tolower c = tolower d then strcasecmp s t else (tolower c).toNat - (tolower d).toNat

/-- As `strcasecmp`, for the first `n` octets of the strings. -/
def strncasecmp (s t : List Octet) (n : Nat) : Int :=
  strcasecmp (s.take n) (t.take n)

/-- Difference of the first two octets that differ among the first `n`, up to the NUL. -/
def strncmp : List Octet → List Octet → Nat → Int
  | _, _, 0 => 0
  | s, t, n + 1 =>
      if peek s ≠ peek t then (peek s).toNat - (peek t).toNat
      else if peek s = 0 then 0
      else strncmp s.tail t.tail n

theorem strncmp_length_eq_zero_iff {s t : List Octet} (hs : 0 ∉ s) :
    strncmp s t s.length = 0 ↔ s <+: t := by
  induction s generalizing t with
  | nil => exact iff_of_true rfl List.nil_prefix
  | cons c s ih =>
      obtain ⟨hc, hs⟩ := not_or.mp (mt List.mem_cons.mpr hs)
      rw [List.length_cons, strncmp, peek_cons]
      cases t with
      | nil =>
          rw [peek_nil, if_pos (Ne.symm hc)]
          refine iff_of_false (fun h => hc ?_) (by simp)
          have hzero : (c.toNat : Int) - 0 = 0 := h
          exact (UInt8.toNat_inj.mp (by simpa using hzero)).symm
      | cons d t =>
          rw [peek_cons, List.cons_prefix_cons]
          by_cases hd : c = d
          · rw [if_neg (not_not.mpr hd), if_neg (Ne.symm hc), List.tail_cons, List.tail_cons, ih hs]
            exact (and_iff_right hd).symm
          · rw [if_pos hd]
            refine iff_of_false (fun h => hd (UInt8.toNat_inj.mp ?_)) fun h => hd h.1
            omega

theorem tolower_eq_zero_iff (c : Octet) : tolower c = 0 ↔ c = 0 := by
  unfold tolower
  split
  · rename_i hc
    constructor
    · intro h
      exfalso
      have h1 : c.toNat + 32 < 256 := by
        have := UInt8.le_iff_toNat_le.mp hc.2
        simp at this
        omega
      have h2 := congrArg UInt8.toNat h
      rw [UInt8.toNat_add] at h2
      simp at h2
      omega
    · rintro rfl
      exact absurd hc.1 (by decide)
  · rfl

theorem strcasecmp_eq_zero_iff {s t : List Octet} (ht : 0 ∉ t) (hs : 0 ∉ s ∨ s.length ≤ t.length) :
    strcasecmp s t = 0 ↔ s.map tolower = t.map tolower := by
  induction s generalizing t with
  | nil =>
      cases t with
      | nil => simp [strcasecmp]
      | cons d t =>
          have hd : tolower d ≠ 0 := fun h => ht ((tolower_eq_zero_iff d).mp h ▸ List.mem_cons_self)
          have hpos : (tolower d).toNat ≠ 0 := fun h => hd (UInt8.toNat_inj.mp h)
          rw [strcasecmp]
          simp
          omega
  | cons c s ih =>
      cases t with
      | nil =>
          have hzero : 0 ∉ c :: s := hs.resolve_right (by simp)
          have hc : tolower c ≠ 0 := fun h => hzero ((tolower_eq_zero_iff c).mp h ▸ List.mem_cons_self)
          have hpos : (tolower c).toNat ≠ 0 := fun h => hc (UInt8.toNat_inj.mp h)
          rw [strcasecmp]
          simp
          omega
      | cons d t =>
          rw [strcasecmp, List.map_cons, List.map_cons, List.cons.injEq]
          by_cases hcd : tolower c = tolower d
          · rw [if_pos hcd, and_iff_right hcd]
            refine ih (fun h => ht (List.mem_cons_of_mem _ h)) ?_
            exact hs.imp (fun h hmem => h (List.mem_cons_of_mem _ hmem)) Nat.le_of_succ_le_succ
          · have hne : (tolower c).toNat ≠ (tolower d).toNat := fun h => hcd (UInt8.toNat_inj.mp h)
            rw [if_neg hcd]
            refine iff_of_false ?_ fun h => hcd h.1
            omega
/-! ### Numbers -/

/-- Bring a number into the range of a 64-bit `long`. -/
def clampLong (x : Int) : Int :=
  max (-2 ^ 63) (min x (2 ^ 63 - 1))

/-- An optional sign: is it a minus, and what follows it. -/
def numberSign : List Octet → Bool × List Octet
  | c :: s => if c = ch '-' then (true, s) else if c = ch '+' then (false, s) else (false, c :: s)
  | [] => (false, [])

/-- Skip the prefix `0x` of a hexadecimal number, which only counts when a digit follows it. -/
def numberPrefix (base : Nat) : List Octet → List Octet
  | z :: x :: d :: s =>
      if base = 16 ∧ z = ch '0' ∧ tolower x = ch 'x' ∧ isDigit 16 d then d :: s
      else z :: x :: d :: s
  | s => s

/-- The value of a string of digits. -/
def digitsValue (base : Nat) (digits : List Octet) : Nat :=
  digits.foldl (fun v c => v * base + (digitValue c).getD 0) 0

/-- `strtol (s, &stop, base)`: the number at the start of the string and the string after it. White
    space and a sign may stand before the digits. Without digits the number is zero and nothing is
    read. -/
def strtol (s : List Octet) (base : Nat) : Int × List Octet :=
  let sign := numberSign (s.dropWhile isspace)
  let number := numberPrefix base sign.2
  let digits := number.takeWhile (isDigit base)
  if digits = [] then (0, s)
  else
    (clampLong (if sign.1 then -(digitsValue base digits : Int) else digitsValue base digits),
      number.dropWhile (isDigit base))

/-! ### What `strtol` reads -/

/-- An octet that is no part of any number: it ends one wherever it stands. -/
def Delimiter (c : Octet) : Prop :=
  isspace c = false ∧ c ≠ ch '-' ∧ c ≠ ch '+' ∧ digitValue c = none

instance (c : Octet) : Decidable (Delimiter c) :=
  inferInstanceAs (Decidable (_ ∧ _))

theorem Delimiter.isDigit_eq_false {c : Octet} (h : Delimiter c) (base : Nat) :
    isDigit base c = false := by
  rw [isDigit, h.2.2.2]

theorem Delimiter.tolower_ne_x {c : Octet} (h : Delimiter c) : tolower c ≠ ch 'x' := by
  intro hx
  have hd := h.2.2.2
  unfold tolower at hx
  split at hx
  · rename_i hc
    -- An upper case letter is a digit of base 36.
    unfold digitValue at hd
    split at hd <;> cases hd
  · subst hx
    exact absurd hd (by decide)

theorem dropWhile_append_delimiter {p : Octet → Bool} {c : Octet} (hc : p c = false)
    (f r : List Octet) : (f ++ c :: r).dropWhile p = f.dropWhile p ++ c :: r := by
  induction f with
  | nil => simp [hc]
  | cons d f ih =>
      rw [List.cons_append, List.dropWhile_cons, List.dropWhile_cons]
      split
      · exact ih
      · rfl

theorem takeWhile_append_delimiter {p : Octet → Bool} {c : Octet} (hc : p c = false)
    (f r : List Octet) : (f ++ c :: r).takeWhile p = f.takeWhile p := by
  induction f with
  | nil => simp [hc]
  | cons d f ih =>
      rw [List.cons_append, List.takeWhile_cons, List.takeWhile_cons, ih]

theorem numberSign_append_delimiter {c : Octet} (h : Delimiter c) (f r : List Octet) :
    numberSign (f ++ c :: r) = ((numberSign f).1, (numberSign f).2 ++ c :: r) := by
  cases f with
  | nil => simp [numberSign, h.2.1, h.2.2.1]
  | cons d f =>
      simp only [List.cons_append, numberSign]
      split
      · rfl
      · split <;> rfl

theorem numberPrefix_append_delimiter {c : Octet} (h : Delimiter c) (base : Nat)
    (f r : List Octet) : numberPrefix base (f ++ c :: r) = numberPrefix base f ++ c :: r := by
  have hd := h.isDigit_eq_false 16
  have hx := h.tolower_ne_x
  have hz : c ≠ ch '0' := by
    rintro rfl
    exact absurd h (by decide)
  match f with
  | [] =>
      cases r with
      | nil => rfl
      | cons x r => cases r <;> simp [numberPrefix, hz]
  | [z] => cases r <;> simp [numberPrefix, hx]
  | [z, x] => simp [numberPrefix, hd]
  | z :: x :: d :: s =>
      simp only [List.cons_append, numberPrefix]
      split <;> rfl

theorem strtol_append_delimiter {c : Octet} (h : Delimiter c) (base : Nat) (f r : List Octet) :
    strtol (f ++ c :: r) base = ((strtol f base).1, (strtol f base).2 ++ c :: r) := by
  simp only [strtol, dropWhile_append_delimiter h.1, numberSign_append_delimiter h,
    numberPrefix_append_delimiter h, dropWhile_append_delimiter (h.isDigit_eq_false base),
    takeWhile_append_delimiter (h.isDigit_eq_false base)]
  split <;> rfl

theorem numberSign_suffix (s : List Octet) : (numberSign s).2 <:+ s := by
  cases s with
  | nil => exact List.suffix_refl _
  | cons c s =>
      simp only [numberSign]
      split
      · exact List.suffix_cons c s
      · split
        · exact List.suffix_cons c s
        · exact List.suffix_refl _

theorem numberPrefix_suffix (base : Nat) (s : List Octet) : numberPrefix base s <:+ s := by
  match s with
  | z :: x :: d :: s =>
      simp only [numberPrefix]
      split
      · exact ⟨[z, x], rfl⟩
      · exact List.suffix_refl _
  | [] => exact List.suffix_refl _
  | [_] => exact List.suffix_refl _
  | [_, _] => exact List.suffix_refl _

theorem numberPrefix_ten (s : List Octet) : numberPrefix 10 s = s := by
  unfold numberPrefix
  split
  · exact if_neg fun hbase => absurd hbase.1 (by decide)
  · rfl

theorem numberPrefix_cases (s : List Octet) : numberPrefix 16 s = s ∨ ∃ z x d r,
    s = z :: x :: d :: r ∧ tolower x = ch 'x' ∧ isDigit 16 d ∧ numberPrefix 16 s = d :: r := by
  match s with
  | z :: x :: d :: r =>
      rw [numberPrefix]
      split
      · rename_i hbefore
        exact .inr ⟨z, x, d, r, rfl, hbefore.2.2.1, hbefore.2.2.2, rfl⟩
      · exact .inl rfl
  | [] => exact .inl rfl
  | [_] => exact .inl rfl
  | [_, _] => exact .inl rfl

theorem strtol_suffix (s : List Octet) (base : Nat) : (strtol s base).2 <:+ s := by
  simp only [strtol]
  split
  · exact List.suffix_refl _
  · exact (List.dropWhile_suffix _).trans ((numberPrefix_suffix _ _).trans
      ((numberSign_suffix _).trans (List.dropWhile_suffix _)))

end CModel
