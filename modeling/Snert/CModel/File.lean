/-
Module: Snert.CModel.File
Purpose: A stream that is read, with the two conversions of `fscanf` for unsigned numbers. A read
  that finds nothing more sets the end-of-file indicator; an octet that a conversion does not take
  is put back.
Trusted boundary: human-reviewed spec
Main exports: File, fgetc, scanSpaces, scanDigits
-/
import Snert.CModel.Numeral

namespace CModel

/-- `FILE`: the octets that have not been read, and the end-of-file indicator. -/
structure File where
  rest : List Octet
  eof : Bool
deriving DecidableEq, Repr

/-- `fgetc (fp)`, or `none` for `EOF`. -/
def fgetc (fp : File) : Option Octet × File :=
  match fp.rest with
  | [] => (none, { fp with eof := true })
  | c :: rest => (some c, { fp with rest := rest })

/-- The white space in front of a conversion. -/
def scanSpaces (fp : File) : File :=
  let rest := fp.rest.dropWhile isspace
  ⟨rest, fp.eof || rest.isEmpty⟩

/-- An optional sign: is it a minus, and the width that is left. -/
def scanSign (width : Nat) (fp : File) : Bool × Nat × File :=
  match fp.rest with
  | [] => (false, width, fp)
  | c :: rest =>
      if c = ch '-' then (true, width - 1, { fp with rest := rest })
      else if c = ch '+' then (false, width - 1, { fp with rest := rest })
      else (false, width, fp)

/-- The optional `0x` of a hexadecimal number, and the width that is left. -/
def scanPrefix (base width : Nat) (fp : File) : Nat × File :=
  match fp.rest with
  | z :: x :: rest =>
      if base = 16 ∧ 2 ≤ width ∧ z = ch '0' ∧ tolower x = ch 'x' then
        (width - 2, { fp with rest := rest })
      else (width, fp)
  | _ => (width, fp)

/-- The digits that follow, up to a width. -/
def scanDigits (base : Nat) : Nat → File → List Octet × File
  | 0, fp => ([], fp)
  | width + 1, fp =>
      match fp.rest with
      | [] => ([], { fp with eof := true })
      | c :: rest =>
          if isDigit base c then
            let (digits, fp) := scanDigits base width { fp with rest := rest }
            (c :: digits, fp)
          else ([], fp)

/-- The conversions `%lu` and `%X` of `fscanf` with a width, which keeps the number far below the
    range of its type. -/
def fscanfUnsigned (base width : Nat) (fp : File) : Option Nat × File :=
  let (negative, width, fp) := scanSign width (scanSpaces fp)
  let (width, fp) := scanPrefix base width fp
  let (digits, fp) := scanDigits base width fp
  if digits = [] then (none, fp)
  else if negative then (some ((2 ^ 64 - digitsValue base digits) % 2 ^ 64), fp)
  else (some (digitsValue base digits), fp)

/-! ### Numbers as they are written -/

theorem scanSpaces_spaces {spaces : List Octet} (h : ∀ c ∈ spaces, isspace c) {c : Octet}
    (hc : isspace c = false) (r : List Octet) (eof : Bool) :
    scanSpaces ⟨spaces ++ c :: r, eof⟩ = ⟨c :: r, eof⟩ := by
  have hrest : (spaces ++ c :: r).dropWhile isspace = c :: r := by
    rw [List.dropWhile_append_of_pos h, List.dropWhile_cons_of_neg (by rw [hc]; exact nofun)]
  rw [scanSpaces]
  dsimp only
  rw [hrest, List.isEmpty_cons, Bool.or_false]

theorem scanDigits_digits {base width : Nat} {digits : List Octet}
    (h : ∀ c ∈ digits, isDigit base c) (hwidth : digits.length ≤ width) {r : List Octet}
    (hend : digits.length = width ∨ ∃ c s, r = c :: s ∧ isDigit base c = false) (eof : Bool) :
    scanDigits base width ⟨digits ++ r, eof⟩ = (digits, ⟨r, eof⟩) := by
  induction digits generalizing width with
  | nil =>
      cases width with
      | zero => rfl
      | succ width =>
          obtain ⟨c, s, rfl, hc⟩ := hend.resolve_left nofun
          rw [scanDigits]
          dsimp only [List.nil_append]
          rw [hc, if_neg Bool.false_ne_true]
  | cons c digits ih =>
      cases width with
      | zero => exact absurd hwidth (by simp)
      | succ width =>
          rw [List.forall_mem_cons] at h
          rw [List.length_cons] at hwidth hend
          rw [scanDigits]
          dsimp only [List.cons_append]
          rw [if_pos h.1, ih h.2 (Nat.le_of_succ_le_succ hwidth) (hend.imp_left Nat.succ.inj)]

theorem fscanfUnsigned_digits {base width : Nat} (hbase : base ≤ 16) {spaces digits : List Octet}
    (hspaces : ∀ c ∈ spaces, isspace c) (h : IsDigits base digits)
    (hwidth : digits.length ≤ width) {r : List Octet}
    (hend : digits.length = width ∨
      base ≠ 16 ∧ ∃ c s, r = c :: s ∧ isDigit base c = false) (eof : Bool) :
    fscanfUnsigned base width ⟨spaces ++ (digits ++ r), eof⟩ =
      (some (digitsValue base digits), ⟨r, eof⟩) := by
  obtain ⟨hne, hdigits⟩ := h
  obtain ⟨d, digits, rfl⟩ := List.exists_cons_of_ne_nil hne
  obtain ⟨hspace, hminus, hplus, -⟩ :=
    not_of_isDigit16 (isDigit_mono hbase (hdigits d List.mem_cons_self))
  have hbefore : scanPrefix base width ⟨d :: digits ++ r, eof⟩ =
      (width, ⟨d :: digits ++ r, eof⟩) := by
    rw [scanPrefix]
    dsimp only
    split
    next z x rest heq =>
      refine if_neg ?_
      rintro ⟨rfl, htwo, -, hx⟩
      have hlength := hend.resolve_right fun h => h.1 rfl
      cases digits with
      | nil =>
          rw [List.length_singleton] at hlength
          omega
      | cons x' digits =>
          rw [List.cons_append, List.cons_append, List.cons.injEq, List.cons.injEq] at heq
          have hdigit := hdigits x' (List.mem_cons_of_mem _ List.mem_cons_self)
          rw [heq.2.1] at hdigit
          exact (not_of_isDigit16 hdigit).2.2.2 hx
    next => rfl
  rw [fscanfUnsigned, List.cons_append, scanSpaces_spaces hspaces hspace]
  have hsign : scanSign width ⟨d :: (digits ++ r), eof⟩ =
      (false, width, ⟨d :: (digits ++ r), eof⟩) := by
    rw [scanSign]
    dsimp only
    rw [if_neg hminus, if_neg hplus]
  rw [hsign]
  dsimp only
  rw [← List.cons_append, hbefore]
  dsimp only
  rw [scanDigits_digits hdigits hwidth (hend.imp_right And.right), if_neg (List.cons_ne_nil _ _),
    if_neg Bool.false_ne_true]

end CModel
