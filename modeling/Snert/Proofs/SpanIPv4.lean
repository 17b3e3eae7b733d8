/-
Module: Snert.Proofs.SpanIPv4
Purpose: What `spanIPv4` accepts. It reads numbers with `strtol` one after another, and accepts them
  when there are three dots among them, whatever stands between the numbers and wherever the dots
  stand. The grammar asks for four plain numbers.
Trusted boundary: none
Main exports: QuadAt, PlainQuad, spansIPv4_iff
-/
import Mathlib.Data.List.TakeWhile
import Snert.CModel.Numeral
import Snert.Net.SpanHost

namespace Snert

open CModel

/-! ### The numbers that are read -/

/-- A number as `strtol` reads it, white space and a sign included, and whether a dot follows. -/
structure SpanNumber where
  text : List Octet
  value : Int
  dot : Bool
deriving DecidableEq, Repr

/-- The number, and the dot behind it. -/
def SpanNumber.octets (n : SpanNumber) : List Octet :=
  n.text ++ if n.dot then [ch '.'] else []

/-- The numbers at the start of a text, read one after another up to where there is none. -/
def readNumbers : Nat → List Octet → List SpanNumber
  | 0, _ => []
  | rounds + 1, s =>
      let stop := (strtol s 10).2
      if stop.length < s.length then
        ⟨s.take (s.length - stop.length), (strtol s 10).1, peek stop = ch '.'⟩ ::
          readNumbers rounds (if peek stop = ch '.' then stop.tail else stop)
      else []

/-- The numbers at the start of a whole string. -/
def numbersIn (s : List Octet) : List SpanNumber :=
  readNumbers (s.length + 1) s

/-- The numbers are in range and have three dots. -/
def Dotted (numbers : List SpanNumber) : Prop :=
  (∀ n ∈ numbers, 0 ≤ n.value ∧ n.value ≤ 255) ∧ numbers.countP (·.dot) = 3

instance (numbers : List SpanNumber) : Decidable (Dotted numbers) :=
  inferInstanceAs (Decidable (_ ∧ _))

theorem strtol_of_peek_zero {s : List Octet} (h : peek s = 0) (base : Nat) :
    (strtol s base).2 = s := by
  cases s with
  | nil => rfl
  | cons c s =>
      rw [peek_cons] at h
      subst h
      exact congrArg Prod.snd (strtol_append_delimiter (c := 0) (by decide) base [] s)

theorem take_append_strtol (s : List Octet) (base : Nat) :
    s.take (s.length - (strtol s base).2.length) ++ (strtol s base).2 = s := by
  obtain ⟨text, htext⟩ := strtol_suffix s base
  have hlen := congrArg List.length htext
  rw [List.length_append] at hlen
  rw [← hlen, Nat.add_sub_cancel]
  nth_rewrite 1 [← htext]
  rw [List.take_left, htext]

theorem octets_append_stop (text stop : List Octet) (value : Int) :
    (SpanNumber.mk text value (peek stop = ch '.')).octets ++
      (if peek stop = ch '.' then stop.tail else stop) = text ++ stop := by
  rw [SpanNumber.octets]
  by_cases hdot : peek stop = ch '.'
  · cases stop with
    | nil => exact absurd hdot (by decide)
    | cons c stop =>
        rw [peek_cons] at hdot
        subst hdot
        simp
  · simp [hdot]

/-- What follows a number and its dot. -/
def behindNumber (stop : List Octet) : List Octet :=
  if peek stop = ch '.' then stop.tail else stop

theorem readNumbers_succ {s : List Octet} (h : (strtol s 10).2.length < s.length) (rounds : Nat) :
    readNumbers (rounds + 1) s =
      ⟨s.take (s.length - (strtol s 10).2.length), (strtol s 10).1, peek (strtol s 10).2 = ch '.'⟩ ::
        readNumbers rounds (behindNumber (strtol s 10).2) := by
  rw [readNumbers, if_pos h]
  rfl

theorem readNumbers_stop {s : List Octet} (h : ¬ (strtol s 10).2.length < s.length) (rounds : Nat) :
    readNumbers rounds s = [] := by
  cases rounds with
  | zero => rfl
  | succ rounds =>
      rw [readNumbers, if_neg h]

theorem spanNumbers_succ {s : List Octet} (h : (strtol s 10).2.length < s.length)
    (rounds dots : Nat) : spanNumbers (rounds + 1) s dots =
      if 0 ≤ (strtol s 10).1 ∧ (strtol s 10).1 ≤ 255 then
        spanNumbers rounds (behindNumber (strtol s 10).2)
          (dots + if peek (strtol s 10).2 = ch '.' then 1 else 0)
      else none := by
  have hnul : peek s ≠ 0 := fun hnul => by
    rw [strtol_of_peek_zero hnul] at h
    exact Nat.lt_irrefl _ h
  rw [spanNumbers]
  dsimp only
  rw [if_neg hnul, if_neg (not_not.mpr h)]
  by_cases hrange : 0 ≤ (strtol s 10).1 ∧ (strtol s 10).1 ≤ 255
  · rw [if_neg (by omega), if_pos hrange, behindNumber]
    split
    · rfl
    · rfl
  · rw [if_pos (by omega), if_neg hrange]

theorem spanNumbers_eq (rounds : Nat) : ∀ s : List Octet, ∃ rest,
    s = (readNumbers rounds s).flatMap SpanNumber.octets ++ rest ∧
      ∀ dots, spanNumbers rounds s dots =
        if ∀ n ∈ readNumbers rounds s, 0 ≤ n.value ∧ n.value ≤ 255 then
          some (dots + (readNumbers rounds s).countP (·.dot), rest)
        else none := by
  induction rounds with
  | zero => exact fun s => ⟨s, rfl, fun dots => rfl⟩
  | succ rounds ih =>
      intro s
      by_cases hread : (strtol s 10).2.length < s.length
      · obtain ⟨rest, hrest, hloop⟩ := ih (behindNumber (strtol s 10).2)
        refine ⟨rest, ?_, fun dots => ?_⟩
        · rw [readNumbers_succ hread, List.flatMap_cons, List.append_assoc, ← hrest, behindNumber,
            octets_append_stop, take_append_strtol]
        · rw [spanNumbers_succ hread, readNumbers_succ hread, hloop]
          simp only [List.forall_mem_cons, List.countP_cons, decide_eq_true_eq]
          by_cases hrange : 0 ≤ (strtol s 10).1 ∧ (strtol s 10).1 ≤ 255
          · simp only [hrange, and_self, if_true, true_and]
            congr 3
            omega
          · rw [if_neg hrange, if_neg fun h => hrange h.1]
      · refine ⟨s, ?_, fun dots => ?_⟩
        · rw [readNumbers_stop hread]
          rfl
        · rw [readNumbers_stop hread, spanNumbers]
          dsimp only
          by_cases hnul : peek s = 0
          · rw [if_pos hnul]
            rfl
          · rw [if_neg hnul, if_pos hread]
            rfl

theorem numbersIn_append (s : List Octet) :
    ∃ rest, s = (numbersIn s).flatMap SpanNumber.octets ++ rest :=
  (spanNumbers_eq (s.length + 1) s).imp fun _ h => h.1

theorem spanIPv4_eq (s : List Octet) : spanIPv4 s =
    if Dotted (numbersIn s) then ((numbersIn s).flatMap SpanNumber.octets).length else 0 := by
  obtain ⟨rest, hrest, hloop⟩ := spanNumbers_eq (s.length + 1) s
  have hlen := congrArg List.length hrest
  rw [List.length_append] at hlen
  rw [spanIPv4, hloop, Nat.zero_add]
  by_cases hrange : ∀ n ∈ readNumbers (s.length + 1) s, 0 ≤ n.value ∧ n.value ≤ 255
  · rw [if_pos hrange]
    dsimp only
    by_cases hdots : (readNumbers (s.length + 1) s).countP (·.dot) = 3
    · have hdotted : Dotted (numbersIn s) := ⟨hrange, hdots⟩
      rw [if_neg (not_not.mpr hdots), if_pos hdotted, numbersIn]
      omega
    · have hdotted : ¬ Dotted (numbersIn s) := fun h => hdots h.2
      rw [if_pos hdots, if_neg hdotted]
  · have hdotted : ¬ Dotted (numbersIn s) := fun h => hrange h.1
    rw [if_neg hrange, if_neg hdotted]

theorem spanIPv4_pos_iff (s : List Octet) : 0 < spanIPv4 s ↔ Dotted (numbersIn s) := by
  rw [spanIPv4_eq]
  split
  · rename_i hdotted
    refine iff_of_true (List.length_pos_of_ne_nil fun hnil => ?_) hdotted
    have hnone : ∀ n ∈ numbersIn s, n.octets = [] := by simpa using hnil
    have hdots : 0 < (numbersIn s).countP (·.dot) := by rw [hdotted.2]; decide
    obtain ⟨n, hn, hdot⟩ := List.countP_pos_iff.mp hdots
    have hoctets := hnone n hn
    rw [SpanNumber.octets, hdot] at hoctets
    simp at hoctets
  · rename_i hdotted
    exact iff_of_false (Nat.lt_irrefl 0) hdotted

/-! ### Where a number ends -/

theorem dropWhile_of_peek {p : Octet → Bool} {r : List Octet} (h : p (peek r) = false) :
    r.takeWhile p = [] ∧ r.dropWhile p = r := by
  cases r with
  | nil => exact ⟨rfl, rfl⟩
  | cons c r =>
      rw [peek_cons] at h
      simp [h]

theorem isDigit_peek_dropWhile (base : Nat) (s : List Octet) :
    isDigit base (peek (s.dropWhile (isDigit base))) = false := by
  induction s with
  | nil => rfl
  | cons c s ih =>
      rw [List.dropWhile_cons]
      split
      · exact ih
      · rename_i hc
        exact Bool.eq_false_iff.mpr hc

theorem isDigit_peek_strtol {s : List Octet} {base : Nat}
    (h : (strtol s base).2.length < s.length) : isDigit base (peek (strtol s base).2) = false := by
  unfold strtol at h ⊢
  dsimp only at h ⊢
  split
  · rename_i hnone
    rw [if_pos hnone] at h
    exact absurd h (Nat.lt_irrefl _)
  · exact isDigit_peek_dropWhile base _

theorem numberPrefix_of_ne {base : Nat} (h : base ≠ 16) (s : List Octet) :
    numberPrefix base s = s := by
  unfold numberPrefix
  split
  · exact if_neg fun hbefore => h hbefore.1
  · rfl

theorem strtol_decimal_append {a r : List Octet} (h : IsDigits 10 a)
    (hr : isDigit 10 (peek r) = false) :
    strtol (a ++ r) 10 = (clampLong (digitsValue 10 a), r) := by
  have hsign := numberSign_digits (by decide : 10 ≤ 16) h r
  obtain ⟨hne, hdigits⟩ := h
  have htake : (a ++ r).takeWhile (isDigit 10) = a := by
    rw [List.takeWhile_append_of_pos hdigits, (dropWhile_of_peek hr).1, List.append_nil]
  have hdrop : (a ++ r).dropWhile (isDigit 10) = r := by
    rw [List.dropWhile_append_of_pos hdigits, (dropWhile_of_peek hr).2]
  unfold strtol
  dsimp only
  rw [hsign]
  dsimp only
  rw [numberPrefix_of_ne (by decide), htake, hdrop, if_neg hne]
  rfl

/-! ### Four plain numbers -/

theorem Snum.isDigits {a : List Octet} (h : Snum a) : IsDigits 10 a :=
  ⟨List.ne_nil_of_length_pos h.1, h.2.2.1⟩

theorem Snum.clampLong {a : List Octet} (h : Snum a) :
    CModel.clampLong (digitsValue 10 a) = digitsValue 10 a := by
  have hvalue := h.2.2.2
  exact clampLong_natCast (by omega)

theorem readNumbers_digits {a r : List Octet} (h : IsDigits 10 a)
    (hr : isDigit 10 (peek r) = false) (rounds : Nat) : readNumbers (rounds + 1) (a ++ r) =
      ⟨a, clampLong (digitsValue 10 a), peek r = ch '.'⟩ ::
        readNumbers rounds (behindNumber r) := by
  have hread := strtol_decimal_append h hr
  have hpos := List.length_pos_of_ne_nil h.1
  have hlen : (a ++ r).length = a.length + r.length := List.length_append
  have htext : (a ++ r).take ((a ++ r).length - r.length) = a := by
    rw [hlen, Nat.add_sub_cancel, List.take_left]
  rw [readNumbers_succ (by rw [hread]; dsimp only; omega), hread]
  dsimp only
  rw [htext]

theorem readNumbers_snum_dot {a r : List Octet} (h : Snum a) (rounds : Nat) :
    readNumbers (rounds + 1) (a ++ ch '.' :: r) =
      ⟨a, digitsValue 10 a, true⟩ :: readNumbers rounds r := by
  rw [readNumbers_digits h.isDigits (by rw [peek_cons]; decide), h.clampLong]
  rfl

theorem numbersIn_quad {a b c d rest : List Octet} (ha : Snum a) (hb : Snum b) (hc : Snum c)
    (hd : IsDigits 10 d) (hrest : isDigit 10 (peek rest) = false) : ∃ rounds,
      numbersIn (a ++ ch '.' :: (b ++ ch '.' :: (c ++ ch '.' :: (d ++ rest)))) =
        ⟨a, digitsValue 10 a, true⟩ :: ⟨b, digitsValue 10 b, true⟩ :: ⟨c, digitsValue 10 c, true⟩ ::
          ⟨d, clampLong (digitsValue 10 d), peek rest = ch '.'⟩ ::
            readNumbers rounds (behindNumber rest) := by
  obtain ⟨rounds, hrounds⟩ : ∃ rounds,
      (a ++ ch '.' :: (b ++ ch '.' :: (c ++ ch '.' :: (d ++ rest)))).length + 1 = rounds + 4 := by
    refine ⟨_, (Nat.sub_add_cancel ?_).symm⟩
    simp only [List.length_append, List.length_cons]
    omega
  refine ⟨rounds, ?_⟩
  rw [numbersIn, hrounds, readNumbers_snum_dot ha, readNumbers_snum_dot hb, readNumbers_snum_dot hc,
    readNumbers_digits hd hrest]

theorem readNumbers_cons {rounds : Nat} {s : List Octet} {n : SpanNumber} {numbers : List SpanNumber}
    (h : readNumbers rounds s = n :: numbers) : ∃ stop rounds', s = n.text ++ stop ∧
      n.dot = decide (peek stop = ch '.') ∧ isDigit 10 (peek stop) = false ∧
        numbers = readNumbers rounds' (behindNumber stop) := by
  cases rounds with
  | zero => cases h
  | succ rounds =>
      by_cases hread : (strtol s 10).2.length < s.length
      · rw [readNumbers_succ hread, List.cons.injEq] at h
        obtain ⟨rfl, rfl⟩ := h
        exact ⟨(strtol s 10).2, rounds, (take_append_strtol s 10).symm, rfl,
          isDigit_peek_strtol hread, rfl⟩
      · rw [readNumbers_stop hread] at h
        cases h

theorem text_ne_nil {rounds : Nat} : ∀ {s : List Octet}, ∀ n ∈ readNumbers rounds s, n.text ≠ [] := by
  induction rounds with
  | zero => exact fun n hn => nomatch hn
  | succ rounds ih =>
      intro s n hn
      by_cases hread : (strtol s 10).2.length < s.length
      · rw [readNumbers_succ hread] at hn
        rcases List.mem_cons.mp hn with rfl | hn
        · refine List.ne_nil_of_length_pos ?_
          rw [List.length_take]
          omega
        · exact ih n hn
      · rw [readNumbers_stop hread] at hn
        cases hn

theorem dot_of_snum {rounds : Nat} {s : List Octet} {n n' : SpanNumber} {numbers : List SpanNumber}
    (h : readNumbers rounds s = n :: n' :: numbers) (hn' : Snum n'.text) : ∃ rounds' r,
      n.dot = true ∧ s = n.text ++ ch '.' :: r ∧ readNumbers rounds' r = n' :: numbers := by
  obtain ⟨stop, rounds', rfl, hdot, hdigit, hnumbers⟩ := readNumbers_cons h
  obtain ⟨stop', -, hstop', -⟩ := readNumbers_cons hnumbers.symm
  by_cases hpeek : peek stop = ch '.'
  · cases stop with
    | nil => exact absurd hpeek (by decide)
    | cons c stop =>
        rw [peek_cons] at hpeek
        subst hpeek
        exact ⟨rounds', stop, by rw [hdot]; rfl, rfl, hnumbers.symm⟩
  · -- The next number would begin with a digit where the first one ends.
    rw [behindNumber, if_neg hpeek] at hstop'
    cases htext : n'.text with
    | nil => exact absurd htext hn'.isDigits.1
    | cons c text =>
        rw [htext] at hstop'
        rw [hstop', List.cons_append, peek_cons] at hdigit
        have hc := hn'.isDigits.2 c (by rw [htext]; exact List.mem_cons_self)
        rw [hdigit] at hc
        cases hc

/-! ### The grammar and the scan -/

/-- The first `n` octets are a literal, and neither a digit nor another dotted number follows. -/
def QuadAt (s : List Octet) (n : Nat) : Prop :=
  ∃ text rest, s = text ++ rest ∧ text.length = n ∧ IPv4Literal text ∧
    isDigit 10 (peek rest) = false ∧ ¬ (peek rest = ch '.' ∧ isDigit 10 (peek rest.tail))

/-- `spanIPv4` accepts what the grammar does. -/
def SpansIPv4 (s : List Octet) : Prop :=
  ∀ n, 0 < n → (spanIPv4 s = n ↔ QuadAt s n)

/-- There are four numbers, with three dots. -/
def FourNumbers (numbers : List SpanNumber) : Prop :=
  numbers.length = 4 ∧ numbers.countP (·.dot) = 3

/-- Numbers with three dots that the scanner accepts are four, each written in one to three digits; and
behind a literal at the start of the string there is neither a dot nor a further number. -/
def PlainIPv4 (s : List Octet) : Prop :=
  (Dotted (numbersIn s) → FourNumbers (numbersIn s) ∧ ∀ n ∈ numbersIn s, Snum n.text) ∧
    ((∃ n, QuadAt s n) → FourNumbers (numbersIn s))

theorem quadAt_of_plain {s : List Octet} (hfour : FourNumbers (numbersIn s))
    (hplain : ∀ n ∈ numbersIn s, Snum n.text) :
    QuadAt s ((numbersIn s).flatMap SpanNumber.octets).length := by
  obtain ⟨hlen, hdots⟩ := hfour
  match hnumbers : numbersIn s, hlen with
  | [n1, n2, n3, n4], _ =>
      rw [hnumbers] at hdots hplain
      simp only [List.forall_mem_cons] at hplain
      obtain ⟨h1, h2, h3, h4, -⟩ := hplain
      obtain ⟨rounds2, r2, hdot1, hs, hread2⟩ := dot_of_snum hnumbers h2
      obtain ⟨rounds3, r3, hdot2, hr2, hread3⟩ := dot_of_snum hread2 h3
      obtain ⟨rounds4, r4, hdot3, hr3, hread4⟩ := dot_of_snum hread3 h4
      obtain ⟨rest, -, hr4, hdot4, hdigit, -⟩ := readNumbers_cons hread4
      -- The fourth number has no dot: there are three of them.
      simp only [List.countP_cons, List.countP_nil, hdot1, hdot2, hdot3, if_true] at hdots
      have hnot : n4.dot = false := by
        cases hd : n4.dot with
        | false => rfl
        | true => rw [hd] at hdots; cases hdots
      rw [hnot, eq_comm, decide_eq_false_iff_not] at hdot4
      refine ⟨n1.text ++ ch '.' :: (n2.text ++ ch '.' :: (n3.text ++ ch '.' :: n4.text)), rest, ?_, ?_,
        ⟨_, _, _, _, h1, h2, h3, h4, rfl⟩, hdigit, fun h => hdot4 h.1⟩
      · rw [hs, hr2, hr3, hr4]
        simp
      · simp [SpanNumber.octets, hdot1, hdot2, hdot3, hnot]

theorem numbersIn_of_quadAt {s : List Octet} {n : Nat} (h : QuadAt s n) :
    ∃ n1 n2 n3 n4 more, numbersIn s = n1 :: n2 :: n3 :: n4 :: more ∧
      (∀ m ∈ [n1, n2, n3, n4], Snum m.text ∧ 0 ≤ m.value ∧ m.value ≤ 255) ∧
      n1.dot = true ∧ n2.dot = true ∧ n3.dot = true ∧
      n + (if n4.dot then 1 else 0) = ([n1, n2, n3, n4].flatMap SpanNumber.octets).length := by
  obtain ⟨text, rest, rfl, rfl, ⟨a, b, c, d, ha, hb, hc, hd, rfl⟩, hdigit, -⟩ := h
  obtain ⟨rounds, hnumbers⟩ := numbersIn_quad ha hb hc hd.isDigits hdigit
  have hvalue : ∀ {a : List Octet}, Snum a →
      0 ≤ (digitsValue 10 a : Int) ∧ (digitsValue 10 a : Int) ≤ 255 := fun ha => by
    have hle := ha.2.2.2
    omega
  have htext : a ++ ch '.' :: (b ++ ch '.' :: (c ++ ch '.' :: d)) ++ rest =
      a ++ ch '.' :: (b ++ ch '.' :: (c ++ ch '.' :: (d ++ rest))) := by
    simp only [List.append_assoc, List.cons_append]
  rw [htext, hnumbers, hd.clampLong]
  refine ⟨_, _, _, _, _, rfl, ?_, rfl, rfl, rfl, ?_⟩
  · simp only [List.forall_mem_cons]
    exact ⟨⟨ha, hvalue ha⟩, ⟨hb, hvalue hb⟩, ⟨hc, hvalue hc⟩, ⟨hd, hvalue hd⟩, nofun⟩
  · by_cases hdot : peek rest = ch '.'
    · simp [SpanNumber.octets, hdot]
      omega
    · simp [SpanNumber.octets, hdot]

theorem spanIPv4_of_quadAt {s : List Octet} {n : Nat} (h : QuadAt s n) (hpos : 0 < n) :
    spanIPv4 s = n ↔ FourNumbers (numbersIn s) := by
  obtain ⟨n1, n2, n3, n4, more, hnumbers, hplain, hdot1, hdot2, hdot3, hlen⟩ := numbersIn_of_quadAt h
  have hcount : (numbersIn s).countP (·.dot) =
      3 + (if n4.dot then 1 else 0) + more.countP (·.dot) := by
    rw [hnumbers]
    simp only [List.countP_cons, hdot1, hdot2, hdot3, if_true]
    omega
  rw [spanIPv4_eq]
  constructor
  · intro hspan
    by_cases hdotted : Dotted (numbersIn s)
    · rw [if_pos hdotted, hnumbers] at hspan
      have hdots := hdotted.2
      refine ⟨?_, hdots⟩
      -- A further number would make the text longer than the literal.
      have hmore : more = [] := by
        cases more with
        | nil => rfl
        | cons m more =>
            have hne := text_ne_nil m (by rw [← numbersIn, hnumbers]; simp)
            have hpos := List.length_pos_of_ne_nil hne
            simp only [List.flatMap_cons, List.flatMap_nil, List.length_append, List.append_nil,
              SpanNumber.octets] at hspan hlen
            omega
      rw [hnumbers, hmore]
      rfl
    · rw [if_neg hdotted] at hspan
      omega
  · rintro ⟨hfour, hdots⟩
    rw [hnumbers] at hfour
    obtain rfl : more = [] := List.eq_nil_of_length_eq_zero (by simpa using hfour)
    have hdotted : Dotted (numbersIn s) := by
      refine ⟨fun m hm => ?_, hdots⟩
      rw [hnumbers] at hm
      exact (hplain m hm).2
    rw [if_pos hdotted, hnumbers, ← hlen]
    rw [List.countP_nil] at hcount
    omega

theorem QuadAt.pos {s : List Octet} {n : Nat} (h : QuadAt s n) : 0 < n := by
  obtain ⟨text, rest, -, rfl, ⟨a, b, c, d, -, -, -, -, rfl⟩, -⟩ := h
  rw [List.length_append, List.length_cons]
  omega

/-- `spanIPv4` accepts what the grammar does exactly at the plain strings. -/
theorem spansIPv4_iff (s : List Octet) : SpansIPv4 s ↔ PlainIPv4 s := by
  constructor
  · intro h
    have hfollow : ∀ n, QuadAt s n → FourNumbers (numbersIn s) := fun n hquad =>
      (spanIPv4_of_quadAt hquad hquad.pos).mp ((h n hquad.pos).mpr hquad)
    refine ⟨fun hdotted => ?_, fun ⟨n, hquad⟩ => hfollow n hquad⟩
    have hspan := spanIPv4_eq s
    rw [if_pos hdotted] at hspan
    have hpos := (spanIPv4_pos_iff s).mpr hdotted
    rw [hspan] at hpos
    have hquad := (h _ hpos).mp hspan
    have hfour := hfollow _ hquad
    obtain ⟨n1, n2, n3, n4, more, hnumbers, hplain, -⟩ := numbersIn_of_quadAt hquad
    have hlen := hfour.1
    rw [hnumbers] at hlen
    obtain rfl : more = [] := List.eq_nil_of_length_eq_zero (by simpa using hlen)
    rw [hnumbers] at hfour ⊢
    exact ⟨hfour, fun m hm => (hplain m hm).1⟩
  · rintro ⟨hdotted, hfollow⟩ n hpos
    constructor
    · intro hspan
      rw [spanIPv4_eq] at hspan
      split at hspan
      · rename_i hd
        obtain ⟨hfour, hplain⟩ := hdotted hd
        exact hspan ▸ quadAt_of_plain hfour hplain
      · omega
    · intro hquad
      exact (spanIPv4_of_quadAt hquad hpos).mpr (hfollow ⟨n, hquad⟩)

/-! ### A literal at the start of a string -/

theorem numbersIn_literal {text : List Octet} (h : IPv4Literal text) (r : List Octet) :
    ∃ n1 n2 n3 n4 more d digits, numbersIn (text ++ r) = n1 :: n2 :: n3 :: n4 :: more ∧
      (∀ m ∈ [n1, n2, n3], Snum m.text) ∧ Snum d ∧ n4.text = d ++ digits ∧
      ([n1, n2, n3, n4].flatMap SpanNumber.octets).length =
        text.length + digits.length + if n4.dot then 1 else 0 := by
  obtain ⟨a, b, c, d, ha, hb, hc, hd, rfl⟩ := h
  have hdigits : IsDigits 10 (d ++ r.takeWhile (isDigit 10)) := by
    refine ⟨List.append_ne_nil_of_left_ne_nil hd.isDigits.1 _, fun x hx => ?_⟩
    rcases List.mem_append.mp hx with hx | hx
    · exact hd.isDigits.2 x hx
    · exact List.mem_takeWhile_imp hx
  obtain ⟨rounds, hnumbers⟩ := numbersIn_quad ha hb hc hdigits (isDigit_peek_dropWhile 10 r)
  have htext : a ++ ch '.' :: (b ++ ch '.' :: (c ++ ch '.' :: d)) ++ r =
      a ++ ch '.' :: (b ++ ch '.' :: (c ++ ch '.' :: (d ++ r.takeWhile (isDigit 10) ++
        r.dropWhile (isDigit 10)))) := by
    simp only [List.append_assoc, List.cons_append, List.takeWhile_append_dropWhile]
  rw [htext, hnumbers]
  refine ⟨_, _, _, _, _, d, r.takeWhile (isDigit 10), rfl, ?_, hd, rfl, ?_⟩
  · simp only [List.forall_mem_cons]
    exact ⟨ha, hb, hc, fun m hm => absurd hm List.not_mem_nil⟩
  · simp only [List.flatMap_cons, List.flatMap_nil, SpanNumber.octets, List.length_append,
      List.length_cons, List.length_nil, if_true]
    split
    · rw [List.length_singleton]
      omega
    · rw [List.length_nil]
      omega

theorem length_literal_le {text r : List Octet} (h : IPv4Literal text)
    (hdotted : Dotted (numbersIn (text ++ r))) : text.length ≤ spanIPv4 (text ++ r) := by
  obtain ⟨n1, n2, n3, n4, more, d, digits, hnumbers, -, -, -, hlen⟩ := numbersIn_literal h r
  have hsplit : n1 :: n2 :: n3 :: n4 :: more = [n1, n2, n3, n4] ++ more := rfl
  rw [spanIPv4_eq, if_pos hdotted, hnumbers, hsplit, List.flatMap_append, List.length_append, hlen]
  omega

theorem plain_of_literal {s : List Octet} (hdotted : Dotted (numbersIn s))
    (h : IPv4Literal (s.take (spanIPv4 s))) :
    (numbersIn s).length = 4 ∧ ∀ n ∈ numbersIn s, Snum n.text := by
  obtain ⟨n1, n2, n3, n4, more, d, digits, hnumbers, hplain, hd, htext, hlen⟩ :=
    numbersIn_literal h (s.drop (spanIPv4 s))
  rw [List.take_append_drop] at hnumbers
  have hspan := spanIPv4_eq s
  have hsplit : n1 :: n2 :: n3 :: n4 :: more = [n1, n2, n3, n4] ++ more := rfl
  rw [if_pos hdotted, hnumbers, hsplit, List.flatMap_append, List.length_append, hlen,
    List.length_take] at hspan
  have hle : spanIPv4 s ≤ s.length := by
    obtain ⟨rest, hrest⟩ := numbersIn_append s
    have hlength := congrArg List.length hrest
    rw [List.length_append] at hlength
    rw [spanIPv4_eq, if_pos hdotted]
    omega
  have hmore : more = [] := by
    cases more with
    | nil => rfl
    | cons m more =>
        have hpos := List.length_pos_of_ne_nil (text_ne_nil m (by rw [← numbersIn, hnumbers]; simp))
        rw [List.flatMap_cons, List.length_append, SpanNumber.octets, List.length_append] at hspan
        omega
  have hdigits : digits = [] := List.eq_nil_of_length_eq_zero (by omega)
  rw [hdigits, List.append_nil] at htext
  rw [hnumbers, hmore]
  refine ⟨rfl, ?_⟩
  simp only [List.forall_mem_cons] at hplain ⊢
  exact ⟨hplain.1, hplain.2.1, hplain.2.2.1, htext ▸ hd, fun m hm => absurd hm List.not_mem_nil⟩

theorem take_spanIPv4 {s : List Octet} (hdotted : Dotted (numbersIn s)) :
    s.take (spanIPv4 s) = (numbersIn s).flatMap SpanNumber.octets := by
  obtain ⟨rest, hrest⟩ := numbersIn_append s
  rw [spanIPv4_eq, if_pos hdotted]
  nth_rewrite 2 [hrest]
  exact List.take_left

theorem delimiter_not_mem {s text : List Octet} {base : Nat}
    (h : text ++ (strtol s base).2 = s) {c : Octet} (hc : Delimiter c) : c ∉ text := by
  intro hmem
  obtain ⟨front, back, rfl⟩ := List.append_of_mem hmem
  have hs : s = front ++ c :: (back ++ (strtol s base).2) := by
    rw [← List.cons_append, ← List.append_assoc, h]
  have hread := congrArg (fun r => r.2.length) (strtol_append_delimiter hc base front
    (back ++ (strtol s base).2))
  dsimp only at hread
  rw [← hs, List.length_append, List.length_cons, List.length_append] at hread
  omega

theorem numbers_octets {rounds : Nat} : ∀ {s : List Octet}, ∀ n ∈ readNumbers rounds s,
    ∀ c, Delimiter c → c ≠ ch '.' → c ∉ n.octets := by
  induction rounds with
  | zero => exact fun n hn => absurd hn List.not_mem_nil
  | succ rounds ih =>
      intro s n hn c hc hdot
      by_cases hread : (strtol s 10).2.length < s.length
      · rw [readNumbers_succ hread] at hn
        rcases List.mem_cons.mp hn with rfl | hn
        · rw [SpanNumber.octets, List.mem_append]
          rintro (hmem | hmem)
          · exact delimiter_not_mem (take_append_strtol s 10) hc hmem
          · split at hmem
            · exact hdot (List.mem_singleton.mp hmem)
            · cases hmem
        · exact ih n hn c hc hdot
      · rw [readNumbers_stop hread] at hn
        cases hn

theorem mem_take_spanIPv4 {s : List Octet} (hdotted : Dotted (numbersIn s)) :
    ch '.' ∈ s.take (spanIPv4 s) ∧ ch ':' ∉ s.take (spanIPv4 s) := by
  rw [take_spanIPv4 hdotted]
  constructor
  · have hdots : 0 < (numbersIn s).countP (·.dot) := by rw [hdotted.2]; decide
    obtain ⟨n, hn, hdot⟩ := List.countP_pos_iff.mp hdots
    refine List.mem_flatMap.mpr ⟨n, hn, ?_⟩
    rw [SpanNumber.octets, hdot]
    simp
  · intro hmem
    obtain ⟨n, hn, hc⟩ := List.mem_flatMap.mp hmem
    exact numbers_octets n hn (ch ':') (by decide) (by decide) hc

end Snert
