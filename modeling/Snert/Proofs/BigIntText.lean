/-
Module: Snert.Proofs.BigIntText
Purpose: `BigIntToString` gives the positional representation of a number. Every division takes the
  lowest digit off the number, the digits per octet bound what the divisions can give, and the loop
  at the end puts the highest digit first.
Trusted boundary: none
Main exports: bigIntToString_positional
-/
import Mathlib.Data.Nat.Digits.Lemmas
import Snert.Lists.Reversal
import Snert.Proofs.BigIntDivision
import Snert.Util.BigInt

namespace Snert

open CModel Lists

namespace BigInt

/-! ### One digit -/

theorem Canonical.magnitude_eq {n : BigInt} (h : n.Canonical) {k : Nat} (hk : n.toInt = k) :
    n.magnitude = k ∧ (n.sign = 0 ∨ n.sign = 1) := by
  have hzero := h.sign_zero
  rw [toInt] at hk
  rcases h.sign_mem with hsign | hsign | hsign <;> rw [hsign] at hk hzero
  · omega
  · exact ⟨by omega, .inl hsign⟩
  · exact ⟨by omega, .inr hsign⟩

theorem Canonical.first_octet {n : BigInt} (h : n.Canonical) (hlt : n.magnitude < 256)
    (hne : n.value ≠ []) : ∃ c, n.value.head? = some c ∧ c.toNat = n.magnitude := by
  have hfront := h.front
  rw [magnitude] at hlt hfront ⊢
  cases hvalue : n.value with
  | nil => exact absurd hvalue hne
  | cons c rest =>
      rw [hvalue] at hlt hfront
      refine ⟨c, rfl, ?_⟩
      by_cases hc : c = 0
      · subst hc
        have hzero : number (0 :: rest) = 0 := by
          by_contra hnot
          exact hfront hnot rfl
        rw [hzero]
        rfl
      · cases rest with
        | nil => exact (number_singleton c).symm
        | cons d rest =>
            have hle := le_number hc (d :: rest)
            rw [List.length_cons, pow_succ] at hle
            have hpos : 0 < 256 ^ rest.length := Nat.pow_pos (by decide)
            omega

theorem Canonical.toInt_neg_iff {n : BigInt} (h : n.Canonical) : n.toInt < 0 ↔ n.sign < 0 := by
  have hzero := h.sign_zero
  rw [toInt]
  rcases h.sign_mem with hsign | hsign | hsign <;> rw [hsign] at hzero ⊢ <;> omega

theorem Canonical.natAbs_toInt {n : BigInt} (h : n.Canonical) : n.toInt.natAbs = n.magnitude := by
  have hzero := h.sign_zero
  rw [toInt]
  rcases h.sign_mem with hsign | hsign | hsign <;> rw [hsign] at hzero ⊢ <;> omega

theorem fromLong_ne_nil (value : Int64) : (fromLong value).value ≠ [] := by
  have hjustify : ∀ n : BigInt, n.value ≠ [] → n.leftJustify.value ≠ [] := by
    intro n hn
    rw [leftJustify]
    split
    · exact hn
    · assumption
  have hunsigned : ∀ word : UInt64, (fromUnsignedLong word).value ≠ [] := fun word =>
    hjustify _ (by simp [unsignedLongOctets])
  rw [fromLong]
  split_ifs <;> exact hunsigned _

theorem fromLong_natCast {k : Nat} (hk : k < 2 ^ 63) :
    (fromLong (Int64.ofInt k)).Canonical ∧ (fromLong (Int64.ofInt k)).magnitude = k := by
  obtain ⟨hcanonical, hvalue⟩ := fromLong_spec (Int64.ofInt k)
  rw [Int64.toInt_ofInt_of_le (by omega) (by omega)] at hvalue
  exact ⟨hcanonical, (hcanonical.magnitude_eq hvalue).1⟩

/-- The quotient and the remainder of a positive number by a radix, the remainder in one octet. -/
def TakesDigit (result : Option (BigInt × BigInt)) (magnitude radix : Nat) : Prop :=
  ∃ q r, result = some (q, r) ∧ q.Canonical ∧ (q.sign = 0 ∨ q.sign = 1) ∧
    q.magnitude = magnitude / radix ∧
      ∃ c, r.value.head? = some c ∧ c.toNat = magnitude % radix

theorem divideOctets_digit {tmp : BigInt} (hsign : tmp.sign = 1) {radix : Nat}
    (hradix : 2 ≤ radix) (hradix' : radix ≤ 36) (hle : radix ≤ tmp.magnitude)
    (hgreater : 0 < compare tmp (fromLong (Int64.ofInt radix))) :
    TakesDigit (BigIntDivideByLong tmp (Int64.ofInt radix)) tmp.magnitude radix := by
  have hint : (Int64.ofInt radix).toInt = radix :=
    Int64.toInt_ofInt_of_le (by omega) (by omega)
  have hzero : Int64.ofInt radix ≠ 0 := fun hnot => by
    have := congrArg Int64.toInt hnot
    rw [hint] at this
    change (radix : Int) = 0 at this
    omega
  have hneg : ¬ Int64.ofInt radix < 0 := fun hnot => by
    have := Int64.lt_iff_toInt_lt.mp hnot
    rw [hint] at this
    change (radix : Int) < 0 at this
    omega
  have hword := abs_word (Int64.ofInt radix)
  rw [if_neg hneg, hint, Int.natAbs_natCast] at hword
  cases hrun : divideOctets (Int64.ofInt radix).toUInt64 tmp.value 0 with
  | mk value last =>
      have hbegin : (0 : UInt64).toNat < (Int64.ofInt radix).toUInt64.toNat := by
        rw [hword]
        exact Nat.lt_of_lt_of_le (by decide) hradix
      obtain ⟨hlast, -, -, hiff⟩ := divideOctets_spec tmp.value hbegin hrun
      have hkeeps : KeepsRemainders (number tmp.value) radix := fun k _ =>
        (Nat.mod_lt _ (by omega)).trans (by omega)
      have hexact : number value * radix + last.toNat = tmp.magnitude := by
        rw [hword] at hiff
        change _ = 0 * _ + _ ↔ KeepsFrom _ 0 _ at hiff
        rw [keepsFrom_zero_iff] at hiff
        have := hiff.mpr hkeeps
        rwa [Nat.zero_mul, Nat.zero_add] at this
      rw [hword] at hlast
      obtain ⟨hquotient, hremainder⟩ : tmp.magnitude / radix = number value ∧
          tmp.magnitude % radix = last.toNat :=
        (Nat.div_mod_unique (by omega)).mpr ⟨by rw [← hexact]; ring, hlast⟩
      obtain ⟨hcanonical, hlong⟩ := fromLong_spec last.toInt64
      rw [toInt_word, UInt64.toUInt64_toInt64, if_pos (by omega)] at hlong
      have hmagnitude := (hcanonical.magnitude_eq hlong).1
      have hresult : BigIntDivideByLong tmp (Int64.ofInt radix) =
          some ({ leftJustify ⟨0, value⟩ with sign := 1 }, fromLong last.toInt64) := by
        rw [BigIntDivideByLong, if_neg hzero, if_neg (by omega)]
        dsimp only
        rw [if_neg (by omega), if_neg (by omega), if_neg hneg, if_neg hneg, hrun, hsign]
        rfl
      have hnonzero : number value ≠ 0 := by
        rw [← hquotient]
        exact (Nat.div_pos hle (by omega)).ne'
      refine ⟨_, _, hresult, canonical_leftJustify (.inr (.inr rfl)) (by omega), .inr rfl, ?_, ?_⟩
      · rw [hquotient]
        exact magnitude_leftJustify ⟨0, value⟩
      · rw [hremainder, ← hmagnitude]
        exact hcanonical.first_octet (by omega) (fromLong_ne_nil _)

theorem divideByLong_digit {tmp : BigInt} (h : tmp.Canonical) (hsign : tmp.sign = 1) {radix : Nat}
    (hradix : 2 ≤ radix) (hradix' : radix ≤ 36) :
    TakesDigit (BigIntDivideByLong tmp (Int64.ofInt radix)) tmp.magnitude radix := by
  obtain ⟨hcanonical, hmagnitude⟩ := fromLong_natCast (k := radix) (by omega)
  obtain ⟨hzero, hzero'⟩ := fromLong_natCast (k := 0) (by decide)
  obtain ⟨hone, hone'⟩ := fromLong_natCast (k := 1) (by decide)
  have hne : Int64.ofInt radix ≠ 0 := fun hnot => by
    have hint := congrArg Int64.toInt hnot
    rw [Int64.toInt_ofInt_of_le (by omega) (by omega)] at hint
    change (radix : Int) = 0 at hint
    omega
  have hpositive : (fromLong (Int64.ofInt radix)).sign = 1 := by
    have hmem := (hcanonical.magnitude_eq (k := radix) ?_).2
    · have := hcanonical.sign_zero
      omega
    · rw [(fromLong_spec _).2, Int64.toInt_ofInt_of_le (by omega) (by omega)]
  have hcompare := (compare_spec (h.front_of_sign (by omega))
    (hcanonical.front_of_sign (by omega))).1 (hsign.trans hpositive.symm)
  rw [hmagnitude] at hcompare
  obtain ⟨hcmp, hlt⟩ | ⟨hcmp, heq⟩ | ⟨hcmp, hgt⟩ := hcompare
  · -- The number itself is the last digit.
    have hresult : BigIntDivideByLong tmp (Int64.ofInt radix) =
        some (fromLong 0, fromBigInt tmp) := by
      rw [BigIntDivideByLong, if_neg hne, if_neg (by omega)]
      exact if_pos (by omega)
    refine ⟨_, _, hresult, hzero, .inl (hzero.sign_zero.mpr hzero'), ?_, ?_⟩
    · rw [Nat.div_eq_of_lt hlt]
      exact hzero'
    · rw [Nat.mod_eq_of_lt hlt]
      refine h.first_octet (by omega) fun hnil => ?_
      have hnonzero := h.magnitude_ne_zero (by omega)
      rw [magnitude, hnil] at hnonzero
      exact hnonzero rfl
  · have hresult : BigIntDivideByLong tmp (Int64.ofInt radix) =
        some (fromLong 1, fromLong 0) := by
      rw [BigIntDivideByLong, if_neg hne, if_neg (by omega)]
      dsimp only
      rw [if_neg (by omega), if_pos hcmp]
    refine ⟨_, _, hresult, hone, .inr rfl, ?_, ?_⟩
    · rw [heq, Nat.div_self (by omega)]
      exact hone'
    · rw [heq, Nat.mod_self]
      exact ⟨0, by decide, rfl⟩
  · exact divideOctets_digit hsign hradix hradix' hgt.le (by omega)

/-! ### All digits -/

/-- The character of a digit. -/
def digitOctet (d : Nat) : Octet :=
  digitTable.get d

/-- The digits that have been put, the lowest one first, are followed by those of `tmp`. -/
structure DigitsPut (radix magnitude : Nat) {n : Nat} (st : DigitCursor n) : Prop where
  canonical : st.tmp.Canonical
  sign : st.tmp.sign = 0 ∨ st.tmp.sign = 1
  put : ∃ ds rest, st.string.octets = ds.map digitOctet ++ rest ∧ st.t = ds.length ∧
    ds ++ Nat.digits radix st.tmp.magnitude = Nat.digits radix magnitude

/-- All digits have been put. -/
def AllDigitsPut (radix magnitude : Nat) {n : Nat} (st : DigitCursor n) : Prop :=
  st.t = (Nat.digits radix magnitude).length ∧
    ∃ rest, st.string.octets = (Nat.digits radix magnitude).map digitOctet ++ rest

section
variable {radix magnitude n : Nat}

theorem digitStep_round (hradix : 2 ≤ radix) (hradix' : radix ≤ 36)
    (hroom : (Nat.digits radix magnitude).length ≤ n) {st : DigitCursor n}
    (h : DigitsPut radix magnitude st) :
    (digitStep radix st).Ends (Run.Round (DigitsPut radix magnitude)
      (fun st => (Nat.digits radix st.tmp.magnitude).length)
      (AllDigitsPut radix magnitude) st) := by
  obtain ⟨ds, rest, hoctets, ht, hdigits⟩ := h.put
  rw [digitStep]
  by_cases hzero : st.tmp.sign = 0
  · rw [if_pos hzero]
    rw [h.canonical.sign_zero.mp hzero, Nat.digits_zero, List.append_nil] at hdigits
    subst hdigits
    exact Run.ends_pure.mpr ⟨ht, rest, hoctets⟩
  · obtain ⟨q, r, hresult, hcanonical, hsign, hmagnitude, c, hhead, hc⟩ :=
      divideByLong_digit h.canonical (h.sign.resolve_left hzero) hradix hradix'
    have hsplit : Nat.digits radix st.tmp.magnitude =
        c.toNat :: Nat.digits radix q.magnitude := by
      rw [hc, hmagnitude]
      exact Nat.digits_def' (by omega) (Nat.pos_of_ne_zero (h.canonical.magnitude_ne_zero hzero))
    rw [hsplit] at hdigits
    have hlength := congrArg List.length hdigits
    rw [List.length_append, List.length_cons] at hlength
    have hbuffer := st.string.length_octets
    rw [hoctets, List.length_append, List.length_map] at hbuffer
    have hpos : 0 < r.length := List.length_pos_of_ne_nil fun hnil => by simp [hnil] at hhead
    have hread : (r.buffer.read 0).Yields c := by
      have hget : r.buffer.get 0 = c := by
        rw [Buffer.get, List.getD_eq_getElem?_getD, ← List.head?_eq_getElem?, buffer, hhead]
        rfl
      exact hget ▸ r.buffer.yields_read hpos
    have hdigit : c.toNat < 37 := by
      have := Nat.mod_lt st.tmp.magnitude (show 0 < radix by omega)
      omega
    rw [if_neg hzero, hresult]
    dsimp only
    rw [hread.bind_ends_iff, (digitTable.yields_read hdigit).bind_ends_iff,
      (st.string.yields_write [digitTable.get c.toNat]
        (by rw [List.length_singleton]; omega)).bind_ends_iff, Run.ends_pure]
    refine ⟨⟨hcanonical, hsign, ds ++ [c.toNat], rest.drop 1, ?_, ?_, ?_⟩, ?_⟩
    · have hput : (st.string.splice (ds.map digitOctet).length [digitOctet c.toNat]).octets =
          ds.map digitOctet ++ [digitOctet c.toNat] ++ rest.drop 1 :=
        Buffer.octets_splice_append hoctets (by rw [List.length_singleton]; omega)
      rw [List.length_map] at hput
      rw [List.map_append, ht]
      exact hput
    · rw [ht, List.length_append]
      rfl
    · rw [List.append_assoc]
      exact hdigits
    · change (Nat.digits radix q.magnitude).length < (Nat.digits radix st.tmp.magnitude).length
      rw [hsplit]
      exact Nat.lt_succ_self _

theorem digitLoop_ends (hradix : 2 ≤ radix) (hradix' : radix ≤ 36)
    (hroom : (Nat.digits radix magnitude).length ≤ n) {st : DigitCursor n}
    (h : DigitsPut radix magnitude st) {rounds : Nat}
    (hrounds : (Nat.digits radix st.tmp.magnitude).length < rounds) :
    (Run.loop (digitStep radix) rounds st).Ends (AllDigitsPut radix magnitude) :=
  Run.loop_ends _ (fun _ ht => digitStep_round hradix hradix' hroom ht) h hrounds

end

/-! ### Room for the digits -/

theorem octet_le_pow {radix : Nat} (hradix : 2 ≤ radix) :
    256 ≤ radix ^ digitsPerByte radix := by
  have hpow : ∀ {low k : Nat}, low ≤ radix → 256 ≤ low ^ k → 256 ≤ radix ^ k :=
    fun hlow hk => hk.trans (Nat.pow_le_pow_left hlow _)
  rw [digitsPerByte]
  split_ifs with h16 h7 h4 h3
  · exact hpow (show 16 ≤ radix by omega) (by decide)
  · exact hpow (show 7 ≤ radix by omega) (by decide)
  · exact hpow (show 4 ≤ radix by omega) (by decide)
  · exact hpow (show 3 ≤ radix by omega) (by decide)
  · exact hpow hradix (by decide)

theorem digits_length_le {radix : Nat} (hradix : 2 ≤ radix) (value : List Octet) :
    (Nat.digits radix (number value)).length ≤ digitsPerByte radix * value.length := by
  rw [Nat.digits_length_le_iff (by omega), pow_mul]
  exact (number_lt value).trans_le (Nat.pow_le_pow_left (octet_le_pow hradix) _)

theorem digitsPerByte_le (radix : Int) : digitsPerByte radix ≤ 8 := by
  rw [digitsPerByte]
  split_ifs <;> decide

/-! ### The string is reversed -/

section
variable {n : Nat}

theorem octets_splice_one (b : Buffer n) {i : Nat} (hi : i < n) (c : Octet) :
    (b.splice i [c]).octets = b.octets.set i c := by
  rw [Buffer.octets_splice _ (by simpa using hi), List.set_eq_take_append_cons_drop,
    if_pos (by rw [b.length_octets]; exact hi), List.append_assoc]
  rfl

theorem lt_of_item {b : Buffer n} {i : Nat} {c : Octet} (h : b.octets[i]? = some c) : i < n := by
  obtain ⟨hlt, -⟩ := List.getElem?_eq_some_iff.mp h
  rwa [b.length_octets] at hlt

theorem yields_read_item {b : Buffer n} {i : Int} {c : Octet} (hi : 0 ≤ i)
    (h : b.octets[i.toNat]? = some c) : (b.read i).Yields c := by
  have hget : b.get i.toNat = c := by
    rw [Buffer.get, List.getD_eq_getElem?_getD, h]
    rfl
  have hread := b.yields_read (lt_of_item h)
  rwa [hget, Int.toNat_of_nonneg hi] at hread

theorem yields_write_item (b : Buffer n) {i : Int} (c : Octet) (hi : 0 ≤ i) (hlt : i.toNat < n) :
    (b.write i [c]).Yields (b.splice i.toNat [c]) := by
  have hwrite := b.yields_write (i := i.toNat) [c] hlt
  rwa [Int.toNat_of_nonneg hi] at hwrite

theorem reverseStep_round {goal : List Octet} {st : ReverseCursor n}
    (h : Reversing goal st.string.octets st.s st.t) :
    (reverseStep st).Ends (Run.Round (fun st => Reversing goal st.string.octets st.s st.t)
      (fun st => (st.t - st.s).toNat) (fun st => st.string.octets = goal) st) := by
  rw [reverseStep]
  by_cases hlt : (st.s : Int) < st.t
  · obtain ⟨x, y, hx, hy, hswap⟩ := h.swap hlt
    have hs := lt_of_item hx
    have ht := lt_of_item hy
    have hcast : (st.s : Int).toNat = st.s := Int.toNat_natCast _
    rw [if_pos hlt, (yields_read_item (Int.natCast_nonneg st.s) (hcast ▸ hx)).bind_ends_iff,
      (yields_read_item (by omega) hy).bind_ends_iff,
      (yields_write_item st.string y (Int.natCast_nonneg st.s) (hcast ▸ hs)).bind_ends_iff,
      (yields_write_item _ x (by omega) ht).bind_ends_iff, Run.ends_pure, hcast]
    refine ⟨?_, ?_⟩
    · change Reversing goal ((st.string.splice st.s [y]).splice st.t.toNat [x]).octets _ _
      rw [octets_splice_one _ ht, octets_splice_one _ hs]
      exact hswap
    · change (st.t - 1 - (st.s + 1 : Nat)).toNat < (st.t - st.s).toNat
      omega
  · rw [if_neg hlt]
    exact Run.ends_pure.mpr (h.finished hlt)

theorem reverseLoop_ends {goal : List Octet} {st : ReverseCursor n}
    (h : Reversing goal st.string.octets st.s st.t) {rounds : Nat}
    (hrounds : (st.t - st.s).toNat < rounds) :
    (Run.loop reverseStep rounds st).Ends fun st => st.string.octets = goal :=
  Run.loop_ends _ (fun _ ht => reverseStep_round ht) h hrounds

end

end BigInt

open BigInt

/-! ### The positional representation -/

/-- The digits of the absolute value, the highest one first and not zero unless it is the only one,
behind a minus exactly for a number below zero. -/
def Positional (radix : Nat) (value : Int) (text : List Octet) : Prop :=
  ∃ ds : List Nat, ds ≠ [] ∧ (∀ d ∈ ds, d < radix) ∧ (ds.head? = some 0 → ds = [0]) ∧
    Nat.ofDigits radix ds.reverse = value.natAbs ∧
    text = (if value < 0 then [ch '-'] else []) ++ ds.map digitOctet

theorem positional_zero {radix : Nat} (hradix : 2 ≤ radix) : Positional radix 0 (ascii "0") :=
  ⟨[0], by simp, by simp; omega, fun _ => rfl, by simp, by decide⟩

theorem positional_digits {radix : Nat} (hradix : 2 ≤ radix) {value : Int} (hvalue : value ≠ 0) :
    Positional radix value ((if value < 0 then [ch '-'] else []) ++
      ((Nat.digits radix value.natAbs).reverse.map digitOctet)) := by
  have hne : value.natAbs ≠ 0 := Int.natAbs_ne_zero.mpr hvalue
  refine ⟨(Nat.digits radix value.natAbs).reverse, ?_, ?_, ?_, ?_, rfl⟩
  · simpa using Nat.digits_ne_nil_iff_ne_zero.mpr hne
  · intro d hd
    exact Nat.digits_lt_base (by omega) (List.mem_reverse.mp hd)
  · intro hhead
    rw [List.head?_reverse] at hhead
    have hlast := Nat.getLast_digit_ne_zero radix hne
    rw [List.getLast?_eq_some_getLast (Nat.digits_ne_nil_iff_ne_zero.mpr hne)] at hhead
    exact absurd (Option.some.inj hhead) hlast
  · rw [List.reverse_reverse, Nat.ofDigits_digits]

theorem digitOctet_ne_zero {d : Nat} (hd : d < 36) : digitOctet d ≠ 0 := by
  have hall : ∀ d < 36, digitOctet d ≠ 0 := by decide
  exact hall d hd

theorem Positional.noNul {radix : Nat} {value : Int} {text : List Octet} (hradix : radix ≤ 36)
    (h : Positional radix value text) : 0 ∉ text := by
  obtain ⟨ds, -, hds, -, -, rfl⟩ := h
  intro hmem
  rcases List.mem_append.mp hmem with hsign | hdigit
  · split at hsign
    · exact absurd (List.mem_singleton.mp hsign) (by decide)
    · exact absurd hsign List.not_mem_nil
  · obtain ⟨d, hd, hzero⟩ := List.mem_map.mp hdigit
    exact digitOctet_ne_zero ((hds d hd).trans_le hradix) hzero

theorem putMinus_ends {n : Nat} (sign : Int) {st : DigitCursor n} {put rest : List Octet}
    (hoctets : st.string.octets = put ++ rest) (ht : st.t = put.length)
    (hroom : put.length + 1 ≤ n) :
    (putMinus sign st).Ends fun out => ∃ rest,
      out.2.octets = put ++ (if sign < 0 then [ch '-'] else []) ++ rest ∧
        out.1 = (put ++ if sign < 0 then [ch '-'] else []).length := by
  have hbuffer := st.string.length_octets
  rw [hoctets, List.length_append] at hbuffer
  rw [putMinus]
  by_cases hsign : sign < 0
  · rw [if_pos hsign, if_pos hsign, ht, (st.string.yields_write [ch '-'] hroom).bind_ends_iff,
      Run.ends_pure]
    refine ⟨rest.drop 1, ?_, by rw [List.length_append]; rfl⟩
    exact Buffer.octets_splice_append hoctets (by rw [List.length_singleton]; omega)
  · rw [if_neg hsign, if_neg hsign, Run.ends_pure]
    exact ⟨rest, by rw [List.append_nil]; exact hoctets, by rw [List.append_nil]; exact ht⟩

theorem reverse_ends {n : Nat} {string : Buffer n} {text rest : List Octet}
    (hoctets : string.octets = text ++ rest) (hroom : text.length + 1 ≤ n) :
    (string.write (text.length : Int) [0] >>= fun string =>
      Run.loop reverseStep (text.length + 1) ⟨0, (text.length : Int) - 1, string⟩).Ends fun st =>
        st.string.octets = text.reverse ++ 0 :: rest.drop 1 := by
  have hbuffer := string.length_octets
  rw [hoctets, List.length_append] at hbuffer
  have hput : (string.splice text.length [0]).octets = text ++ [0] ++ rest.drop 1 :=
    Buffer.octets_splice_append hoctets (by rw [List.length_singleton]; omega)
  rw [(string.yields_write [0] hroom).bind_ends_iff]
  refine reverseLoop_ends ?_ (by dsimp only; omega)
  have hpart := reversing_part [] text (0 :: rest.drop 1)
  rw [List.length_nil, Nat.zero_add, List.nil_append, List.nil_append] at hpart
  dsimp only
  rw [hput, List.append_assoc]
  exact hpart

/-- For every canonical number, every radix from 2 to 36 and whatever the memory holds: the string
returned is terminated and is the positional representation, and with its NUL it takes no more than
the octets that are allocated. -/
theorem bigIntToString_positional (number : CanonicalBigInt) (radix : Int) (hradix : 2 ≤ radix)
    (hradix' : radix ≤ 36) (memory : Buffer (digitsPerByte radix * number.length + 2)) :
    (BigIntToString number.toBigInt radix memory).Ends fun result =>
      ∃ allocated, result = some allocated ∧ allocated.string.Terminated ∧
        Positional radix.toNat number.toInt allocated.string.cstring ∧
        allocated.string.cstring.length + 1 ≤ digitsPerByte radix * number.length + 2 := by
  obtain ⟨number, hcanonical⟩ := number
  obtain ⟨radix, rfl⟩ := Int.eq_ofNat_of_zero_le (Int.le_trans (by decide) hradix)
  have hradix : 2 ≤ radix := by omega
  have hradix' : radix ≤ 36 := by omega
  rw [Int.toNat_natCast]
  rw [BigIntToString]
  dsimp only at memory ⊢
  by_cases hsign : number.sign = 0
  · rw [if_pos hsign, Run.ends_pure]
    refine ⟨_, rfl, by decide, ?_, ?_⟩
    · rw [toInt_of_sign hsign]
      exact positional_zero hradix
    · change 1 + 1 ≤ _
      omega
  · have hdigits := digits_length_le hradix number.value
    have hbits := Nat.mul_le_mul_right number.value.length (digitsPerByte_le radix)
    have hmagnitude := hcanonical.magnitude_ne_zero hsign
    have habs : (BigIntAbs number).Canonical ∧ (BigIntAbs number).sign = 1 ∧
        (BigIntAbs number).magnitude = number.magnitude := by
      have hone : (BigIntAbs number).sign = 1 := if_pos hsign
      refine ⟨⟨.inr (.inr hone), ?_, hcanonical.front⟩, hone, rfl⟩
      rw [hone]
      exact iff_of_false (by decide) hmagnitude
    have hput : DigitsPut radix number.magnitude
        (⟨0, BigIntAbs number, memory⟩ : DigitCursor (digitsPerByte radix * number.length + 2)) :=
      ⟨habs.1, .inr habs.2.1, [], memory.octets, rfl, rfl, by rw [habs.2.2]; rfl⟩
    rw [if_neg hsign, if_neg (by omega)]
    change (Nat.digits radix number.magnitude).length ≤
      digitsPerByte radix * number.length at hdigits
    change digitsPerByte radix * number.length ≤ 8 * number.length at hbits
    refine Run.ends_bind.mpr ((digitLoop_ends hradix hradix' (by omega) hput
      (by rw [habs.2.2]; omega)).mono ?_)
    rintro st ⟨ht, rest, hoctets⟩
    have hlength : ((Nat.digits radix number.magnitude).map digitOctet).length =
      (Nat.digits radix number.magnitude).length := List.length_map _
    refine Run.ends_bind.mpr ((putMinus_ends number.sign hoctets (ht.trans hlength.symm)
      (by omega)).mono ?_)
    rintro ⟨t, string⟩ ⟨rest, hstring, rfl⟩
    have hminus : (if number.sign < 0 then [ch '-'] else []).length ≤ 1 := by
      split <;> decide
    have hreverse := reverse_ends hstring (by rw [List.length_append]; omega)
    dsimp only
    rw [← Run.bind_assoc]
    refine Run.ends_bind.mpr (hreverse.mono fun st hst => ?_)
    have hnonzero : number.toInt ≠ 0 := fun hzero =>
      hmagnitude (by rw [← hcanonical.natAbs_toInt, hzero]; rfl)
    have hpositional := positional_digits hradix hnonzero
    rw [hcanonical.natAbs_toInt] at hpositional
    have htext : (((Nat.digits radix number.magnitude).map digitOctet) ++
        if number.sign < 0 then [ch '-'] else []).reverse =
          (if number.toInt < 0 then [ch '-'] else []) ++
            (Nat.digits radix number.magnitude).reverse.map digitOctet := by
      rw [List.reverse_append, List.map_reverse]
      congr 1
      by_cases hneg : number.sign < 0
      · rw [if_pos hneg, if_pos (hcanonical.toInt_neg_iff.mpr hneg)]
        rfl
      · rw [if_neg hneg, if_neg (mt hcanonical.toInt_neg_iff.mp hneg)]
        rfl
    rw [htext] at hst
    have hcstring := Buffer.cstring_of_octets hst (hpositional.noNul hradix')
    refine Run.ends_pure.mpr ⟨_, rfl, Buffer.terminated_of_octets hst, ?_, ?_⟩
    · dsimp only
      rw [hcstring]
      exact hpositional
    · dsimp only
      rw [hcstring, ← htext, List.length_reverse, List.length_append]
      omega

/-- -255 in base 16. -/
theorem bigIntToString_hexadecimal : (2 : Int) ≤ 16 ∧ (16 : Int) ≤ 36 ∧
    (BigIntToString ⟨-1, [255]⟩ 16 (Buffer.replicate _ 0)).Ends fun result =>
      ∃ allocated, result = some allocated ∧ allocated.string.Terminated ∧
        Positional 16 (-255) allocated.string.cstring ∧
        allocated.string.cstring.length + 1 ≤ digitsPerByte 16 * 1 + 2 :=
  ⟨by decide, by decide, bigIntToString_positional
    ⟨⟨-1, [255]⟩, ⟨.inl rfl, by decide, by decide⟩⟩ 16 (by decide) (by decide)
    (Buffer.replicate _ 0)⟩

end Snert
