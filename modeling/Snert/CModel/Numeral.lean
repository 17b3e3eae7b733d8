/-
Module: Snert.CModel.Numeral
Purpose: Numbers in writing. The digits of a number, as `printf` writes them, are read back by `strtol`
  to their end, or to a delimiter behind them.
Trusted boundary: none
Main exports: numeral, IsDigits, strtol_digits, strtol_digits_delimiter
-/
import Mathlib.Data.List.TakeWhile
import Snert.CModel.CString
import Snert.Lists.OctetBits

namespace CModel

open Lists

/-- The digits of a number, in lower case. -/
def numeral (base n : Nat) : List Octet :=
  (Nat.toDigits base n).map ch

/-- One or more digits of a base. -/
def IsDigits (base : Nat) (digits : List Octet) : Prop :=
  digits ≠ [] ∧ ∀ c ∈ digits, isDigit base c

instance (base : Nat) (digits : List Octet) : Decidable (IsDigits base digits) :=
  inferInstanceAs (Decidable (_ ∧ _))

/-! ### Digits -/

theorem isDigit_mono {base base' : Nat} (h : base ≤ base') {c : Octet} (hc : isDigit base c) :
    isDigit base' c := by
  unfold isDigit at hc ⊢
  cases hvalue : digitValue c with
  | none => simp [hvalue] at hc
  | some d =>
      simp only [hvalue, decide_eq_true_eq] at hc ⊢
      omega

theorem not_of_isDigit16 {c : Octet} (hc : isDigit 16 c) :
    isspace c = false ∧ c ≠ ch '-' ∧ c ≠ ch '+' ∧ tolower c ≠ ch 'x' :=
  forall_octet (P := fun c => isDigit 16 c →
    isspace c = false ∧ c ≠ ch '-' ∧ c ≠ ch '+' ∧ tolower c ≠ ch 'x') (by decide +kernel) c hc

theorem numberPrefix_digits {base : Nat} (hbase : base ≤ 16) {digits : List Octet}
    (h : ∀ c ∈ digits, isDigit base c) : numberPrefix base digits = digits := by
  unfold numberPrefix
  split
  · rename_i z x d s
    refine if_neg fun hbefore => ?_
    have hx : isDigit 16 x := isDigit_mono hbase (h x (by simp))
    exact (not_of_isDigit16 hx).2.2.2 hbefore.2.2.1
  · rfl

theorem numberSign_digits {base : Nat} (hbase : base ≤ 16) {digits : List Octet}
    (h : IsDigits base digits) (r : List Octet) :
    numberSign ((digits ++ r).dropWhile isspace) = (false, digits ++ r) := by
  obtain ⟨hne, hdigits⟩ := h
  cases digits with
  | nil => exact absurd rfl hne
  | cons c digits =>
      obtain ⟨hspace, hminus, hplus, -⟩ :=
        not_of_isDigit16 (isDigit_mono hbase (hdigits c List.mem_cons_self))
      rw [List.cons_append, List.dropWhile_cons_of_neg (by rw [hspace]; exact Bool.false_ne_true)]
      rw [numberSign, if_neg hminus, if_neg hplus]

/-- Digits are read to their end. -/
theorem strtol_digits {base : Nat} (hbase : base ≤ 16) {digits : List Octet}
    (h : IsDigits base digits) : strtol digits base = (clampLong (digitsValue base digits), []) := by
  have htake : digits.takeWhile (isDigit base) = digits := List.takeWhile_eq_self_iff.mpr h.2
  have hdrop : digits.dropWhile (isDigit base) = [] := List.dropWhile_eq_nil_iff.mpr h.2
  have hsign := numberSign_digits hbase h []
  rw [List.append_nil] at hsign
  unfold strtol
  dsimp only
  rw [hsign]
  dsimp only
  rw [numberPrefix_digits hbase h.2, htake, hdrop, if_neg h.1]
  rfl

/-- And to a delimiter behind them. -/
theorem strtol_digits_delimiter {base : Nat} (hbase : base ≤ 16) {digits : List Octet}
    (h : IsDigits base digits) {c : Octet} (hc : Delimiter c) (r : List Octet) :
    strtol (digits ++ c :: r) base = (clampLong (digitsValue base digits), c :: r) := by
  rw [strtol_append_delimiter hc, strtol_digits hbase h]
  rfl

theorem strtol_without_digits {s : List Octet} (hspace : isspace (peek s) = false)
    (hdigit : isDigit 10 (peek (numberSign s).2) = false) : strtol s 10 = (0, s) := by
  have hskip : s.dropWhile isspace = s := by
    cases s with
    | nil => rfl
    | cons c s => exact List.dropWhile_cons_of_neg (by rw [← peek_cons c s, hspace]; decide)
  have hnone : (numberSign s).2.takeWhile (isDigit 10) = [] := by
    cases hsign : (numberSign s).2 with
    | nil => rfl
    | cons c rest =>
        rw [hsign] at hdigit
        exact List.takeWhile_cons_of_neg (by rw [← peek_cons c rest, hdigit]; decide)
  unfold strtol
  dsimp only
  rw [hskip, numberPrefix_ten, if_pos hnone]

theorem strtol_stop {digits rest : List Octet} (h : IsDigits 10 digits)
    (hrest : isDigit 10 (peek rest) = false) :
    strtol (digits ++ rest) 10 = (clampLong (digitsValue 10 digits), rest) := by
  have hnone : rest.takeWhile (isDigit 10) = [] ∧ rest.dropWhile (isDigit 10) = rest := by
    cases rest with
    | nil => exact ⟨rfl, rfl⟩
    | cons c rest =>
        have hc : ¬ isDigit 10 c = true := by
          rw [← peek_cons c rest, hrest]
          exact Bool.false_ne_true
        exact ⟨List.takeWhile_cons_of_neg hc, List.dropWhile_cons_of_neg hc⟩
  unfold strtol
  dsimp only
  rw [numberSign_digits (by decide) h rest]
  dsimp only
  rw [numberPrefix_ten, List.takeWhile_append_of_pos h.2, List.dropWhile_append_of_pos h.2, hnone.1, hnone.2,
    List.append_nil, if_neg h.1]
  rfl

/-! ### The digits of a number -/

theorem digitValue_digitChar {d : Nat} (h : d < 16) : digitValue (ch d.digitChar) = some d := by
  have hall : ∀ i : Fin 16, digitValue (ch i.val.digitChar) = some i.val := by decide +kernel
  exact hall ⟨d, h⟩

theorem digitsValue_append (base : Nat) (digits : List Octet) (c : Octet) :
    digitsValue base (digits ++ [c]) =
      digitsValue base digits * base + (digitValue c).getD 0 := by
  simp [digitsValue, List.foldl_append]

theorem digitsValue_lt {base : Nat} {digits : List Octet} (h : ∀ c ∈ digits, isDigit base c) :
    digitsValue base digits < base ^ digits.length := by
  induction digits using List.reverseRecOn with
  | nil => exact Nat.one_pos
  | append_singleton digits c ih =>
      have hfront := ih fun d hd => h d (List.mem_append_left _ hd)
      have hc := h c (by simp)
      rw [digitsValue_append, List.length_append, List.length_singleton, Nat.pow_succ]
      unfold isDigit at hc
      cases hvalue : digitValue c with
      | none => simp [hvalue] at hc
      | some d =>
          simp only [hvalue, decide_eq_true_eq] at hc
          rw [Option.getD_some]
          calc digitsValue base digits * base + d < digitsValue base digits * base + base := by omega
            _ = (digitsValue base digits + 1) * base := by rw [Nat.succ_mul]
            _ ≤ base ^ digits.length * base := Nat.mul_le_mul_right base hfront

theorem numeral_eq {base n : Nat} (hbase : 1 < base) : numeral base n =
    if n < base then [ch n.digitChar] else numeral base (n / base) ++ [ch (n % base).digitChar] := by
  unfold numeral
  rw [Nat.toDigits_eq_if hbase]
  split
  · rfl
  · rw [List.map_append]
    rfl

theorem numeral_reads (base : Nat) (hlow : 1 < base) (hhigh : base ≤ 16) (n : Nat) :
    IsDigits base (numeral base n) ∧ digitsValue base (numeral base n) = n := by
  induction n using Nat.strongRecOn with
  | ind n ih =>
      rw [numeral_eq hlow]
      split
      · rename_i hlt
        have hvalue := digitValue_digitChar (show n < 16 by omega)
        refine ⟨⟨List.cons_ne_nil _ _, ?_⟩, ?_⟩
        · rw [List.forall_mem_singleton, isDigit, hvalue]
          exact decide_eq_true hlt
        · simp [digitsValue, hvalue]
      · rename_i hge
        have hmod : n % base < base := Nat.mod_lt _ (by omega)
        have hvalue := digitValue_digitChar (show n % base < 16 by omega)
        obtain ⟨⟨-, hdigits⟩, hfront⟩ := ih (n / base) (Nat.div_lt_self (by omega) hlow)
        refine ⟨⟨by simp, ?_⟩, ?_⟩
        · intro c hc
          rcases List.mem_append.mp hc with hc | hc
          · exact hdigits c hc
          · rw [List.mem_singleton.mp hc, isDigit, hvalue]
            exact decide_eq_true hmod
        · rw [digitsValue_append, hfront, hvalue, Option.getD_some, Nat.mul_comm]
          exact Nat.div_add_mod n base

theorem zeros_read {base : Nat} (hbase : 0 < base) {digits : List Octet} (h : IsDigits base digits)
    (k : Nat) : IsDigits base (List.replicate k (ch '0') ++ digits) ∧
      digitsValue base (List.replicate k (ch '0') ++ digits) = digitsValue base digits := by
  induction k with
  | zero => exact ⟨h, rfl⟩
  | succ k ih =>
      obtain ⟨⟨-, hdigits⟩, hvalue⟩ := ih
      rw [List.replicate_succ, List.cons_append]
      refine ⟨⟨List.cons_ne_nil _ _, ?_⟩, ?_⟩
      · rw [List.forall_mem_cons]
        exact ⟨decide_eq_true hbase, hdigits⟩
      · rw [← hvalue, digitsValue, List.foldl_cons, Nat.zero_mul]
        rfl

theorem clampLong_natCast {n : Nat} (h : n < 2 ^ 63) : clampLong n = n := by
  unfold clampLong
  omega

end CModel
