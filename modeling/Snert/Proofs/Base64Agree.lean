/-
Module: Snert.Proofs.Base64Agree
Purpose: The two ways into the decoder of util/b64.c: octet by octet, and by buffers. Both see the
  characters of a string as values, and a string is decided by its values in front: the data up to
  the first padding, and how much padding follows. In a buffer an octet above 127 is a negative
  `char`, which is taken for padding, where the octet itself is ignored. So the two ways agree
  exactly on the strings whose first such octet has no padding left to add.
Trusted boundary: none
Main exports: b64DecodeBuffer_agrees_iff
-/
import Snert.Proofs.Base64RoundTrip
import Snert.Util.Base64Object

namespace Snert

open CModel CModel.Run Lists

variable {n : Nat}

/-! ### Decoding values -/

/-- `b64DecodeCharacters` on the values of the characters. -/
def b64DecodeValues (b64 : B64) : List Nat → B64 × List Octet × Bool
  | [] => (b64, [], false)
  | v :: values =>
      match b64Step b64 v with
      | (b64, .next) => b64DecodeValues b64 values
      | (b64, .error) => (b64, [], true)
      | (b64, .eof) => (b64, [], false)
      | (b64, .octet octet) =>
          let r := b64DecodeValues b64 values
          (r.1, octet :: r.2.1, r.2.2)

theorem b64DecodeCharacters_eq (input : List Ch) : ∀ b64 : B64,
    b64DecodeCharacters b64 input = b64DecodeValues b64 (input.filterMap b64Value) := by
  induction input with
  | nil => exact fun _ => rfl
  | cons x input ih =>
      intro b64
      cases hvalue : b64Value x with
      | none =>
          have hdecode : b64Decode b64 x = (b64, .next) := by rw [b64Decode, hvalue]
          rw [b64DecodeCharacters, hdecode, List.filterMap_cons_none hvalue]
          exact ih b64
      | some v =>
          have hdecode : b64Decode b64 x = b64Step b64 v := by rw [b64Decode, hvalue]
          rw [b64DecodeCharacters, hdecode, List.filterMap_cons_some hvalue, b64DecodeValues]
          rcases b64Step b64 v with ⟨b64', octet | _ | _ | _⟩
          all_goals simp only [ih]

theorem b64DecodeValues_step {b64 : B64} {j v : Nat} (hv : v < 64)
    (hposition : quantumPosition b64.state = some (j % 4)) :
    ∃ b64' os, quantumPosition b64'.state = some ((j + 1) % 4) ∧
      3 * j / 4 + os.length = 3 * (j + 1) / 4 ∧
      ∀ rest, b64DecodeValues b64 (v :: rest) =
        ((b64DecodeValues b64' rest).1, os ++ (b64DecodeValues b64' rest).2.1,
          (b64DecodeValues b64' rest).2.2) := by
  obtain ⟨hold, state⟩ := b64
  have hlt : j % 4 < 4 := Nat.mod_lt _ (by decide)
  cases state with
  | start | decodeA =>
      have hj : j % 4 = 0 := (Option.some.inj hposition).symm
      refine ⟨⟨v, .decodeB⟩, [], congrArg some (by omega), ?_, fun rest => ?_⟩
      · rw [List.length_nil]
        omega
      · rw [b64DecodeValues, b64Step_first hv (by rfl), List.nil_append]
  | decodeB =>
      have hj : j % 4 = 1 := (Option.some.inj hposition).symm
      refine ⟨⟨v, .decodeC⟩, [firstOctet hold v], congrArg some (by omega), ?_, fun rest => ?_⟩
      · rw [List.length_singleton]
        omega
      · rw [b64DecodeValues, b64Step_second hv]
        rfl
  | decodeC =>
      have hj : j % 4 = 2 := (Option.some.inj hposition).symm
      refine ⟨⟨v, .decodeD⟩, [secondOctet hold v], congrArg some (by omega), ?_, fun rest => ?_⟩
      · rw [List.length_singleton]
        omega
      · rw [b64DecodeValues, b64Step_third hv]
        rfl
  | decodeD =>
      have hj : j % 4 = 3 := (Option.some.inj hposition).symm
      refine ⟨⟨hold, .decodeA⟩, [thirdOctet hold v], congrArg some (by omega), ?_, fun rest => ?_⟩
      · rw [List.length_singleton]
        omega
      · rw [b64DecodeValues, b64Step_fourth hv]
        rfl
  | _ => exact nomatch hposition

theorem b64DecodeValues_data (data : List Nat) : ∀ {b64 : B64} {j : Nat}, (∀ v ∈ data, v < 64) →
    quantumPosition b64.state = some (j % 4) →
    ∃ b64' os, quantumPosition b64'.state = some ((j + data.length) % 4) ∧
      3 * j / 4 + os.length = 3 * (j + data.length) / 4 ∧
      ∀ rest, b64DecodeValues b64 (data ++ rest) =
        ((b64DecodeValues b64' rest).1, os ++ (b64DecodeValues b64' rest).2.1,
          (b64DecodeValues b64' rest).2.2) := by
  induction data with
  | nil => exact fun {b64} {j} _ hposition => ⟨b64, [], hposition, rfl, fun _ => rfl⟩
  | cons v data ih =>
      intro b64 j hdata hposition
      obtain ⟨hv, hdata⟩ := List.forall_mem_cons.mp hdata
      obtain ⟨b64₁, os₁, hposition₁, hcount₁, hstep⟩ := b64DecodeValues_step hv hposition
      obtain ⟨b64₂, os₂, hposition₂, hcount₂, hrest⟩ := ih hdata hposition₁
      have hlength : j + 1 + data.length = j + (v :: data).length := by
        rw [List.length_cons]
        omega
      rw [hlength] at hposition₂ hcount₂
      refine ⟨b64₂, os₁ ++ os₂, hposition₂, ?_, fun rest => ?_⟩
      · rw [List.length_append]
        omega
      · rw [List.cons_append, hstep, hrest, List.append_assoc]

/-! ### Padding -/

/-- What a padding does to the decoder. -/
def b64Pad (b64 : B64) : B64 :=
  (b64Step b64 64).1

/-- How much padding the decoder can still take notice of: up to the end of the text, or to an
error. -/
def padsLeft : B64State → Nat
  | .start | .decodeA => 4
  | .decodeB => 0
  | .decodeC => 2
  | .decodeD => 1
  | .decodePad3 => 3
  | .decodePad2 => 2
  | .decodePad1 => 1
  | .eof => 0

theorem padsLeft_pad (b64 : B64) : padsLeft (b64Pad b64).state = padsLeft b64.state - 1 := by
  obtain ⟨hold, state⟩ := b64
  cases state <;> rfl

theorem pad_of_padsLeft_eq_zero {b64 : B64} (h : padsLeft b64.state = 0) : b64Pad b64 = b64 := by
  obtain ⟨hold, state⟩ := b64
  cases state with
  | decodeB | eof => rfl
  | _ => exact nomatch h

theorem padsLeft_iterate (p : Nat) : ∀ b64 : B64,
    padsLeft (b64Pad^[p] b64).state = padsLeft b64.state - p := by
  induction p with
  | zero => exact fun _ => rfl
  | succ p ih =>
      intro b64
      rw [Function.iterate_succ_apply, ih, padsLeft_pad]
      omega

theorem pad_iterate_of_le {b64 : B64} {p : Nat} (h : padsLeft b64.state ≤ p) :
    b64Pad^[p] b64 = b64Pad^[padsLeft b64.state] b64 := by
  obtain ⟨q, rfl⟩ := Nat.exists_eq_add_of_le h
  have hzero : padsLeft (b64Pad^[padsLeft b64.state] b64).state = 0 := by
    rw [padsLeft_iterate, Nat.sub_self]
  rw [Nat.add_comm, Function.iterate_add_apply,
    Function.iterate_fixed (pad_of_padsLeft_eq_zero hzero)]

theorem pad_iterate_eq_iff (b64 : B64) (p q : Nat) : b64Pad^[p] b64 = b64Pad^[q] b64 ↔
    min p (padsLeft b64.state) = min q (padsLeft b64.state) := by
  constructor
  · intro h
    have hleft := congrArg (fun b => padsLeft b.state) h
    simp only [padsLeft_iterate] at hleft
    omega
  · intro h
    rcases Nat.lt_or_ge p (padsLeft b64.state) with hp | hp
    · have heq : p = q := by omega
      rw [heq]
    · have hq : padsLeft b64.state ≤ q := by omega
      rw [pad_iterate_of_le hp, pad_iterate_of_le hq]

/-- Behind padding no data is taken any more. -/
def PastData : B64State → Prop
  | .decodePad3 | .decodePad2 | .decodePad1 | .eof => True
  | _ => False

theorem b64Step_pad (b64 : B64) :
    (b64Step b64 64 = (b64Pad b64, .next) ∧ PastData (b64Pad b64).state) ∨
      (b64Step b64 64 = (b64Pad b64, .eof) ∧ padsLeft (b64Pad b64).state = 0) ∨
      (b64Step b64 64 = (b64Pad b64, .error) ∧ padsLeft (b64Pad b64).state = 0) := by
  obtain ⟨hold, state⟩ := b64
  cases state with
  | start | decodeA | decodeC | decodePad3 | decodePad2 => exact .inl ⟨rfl, trivial⟩
  | decodeD | decodePad1 | eof => exact .inr (.inl ⟨rfl, rfl⟩)
  | decodeB => exact .inr (.inr ⟨rfl, rfl⟩)

theorem b64Step_pastData {b64 : B64} (h : PastData b64.state) {v : Nat} (hv : v < 64) :
    b64Step b64 v = (b64, .eof) ∨ b64Step b64 v = (b64, .error) := by
  obtain ⟨hold, state⟩ := b64
  have hne : v ≠ 64 := by omega
  cases state with
  | eof => exact .inl rfl
  | decodePad3 | decodePad2 | decodePad1 => exact .inr (if_neg hne)
  | _ => exact h.elim

theorem b64DecodeValues_padding (p : Nat) {rest : List Nat} (hrest : ∀ v ∈ rest.head?, v < 64) :
    ∀ {b64 : B64}, (rest = [] ∨ p ≠ 0 ∨ PastData b64.state) →
      ∃ failed, b64DecodeValues b64 (List.replicate p 64 ++ rest) = (b64Pad^[p] b64, [], failed) := by
  induction p with
  | zero =>
      intro b64 h
      cases rest with
      | nil => exact ⟨false, rfl⟩
      | cons v rest =>
          have hpast : PastData b64.state := by simpa using h
          rcases b64Step_pastData hpast (hrest v rfl) with hstep | hstep
          all_goals
            rw [List.replicate_zero, List.nil_append, b64DecodeValues, hstep]
            exact ⟨_, rfl⟩
  | succ p ih =>
      intro b64 _
      rw [List.replicate_succ, List.cons_append, b64DecodeValues, Function.iterate_succ_apply]
      rcases b64Step_pad b64 with ⟨hstep, hpast⟩ | ⟨hstep, hleft⟩ | ⟨hstep, hleft⟩
      · rw [hstep]
        exact ih (.inr (.inr hpast))
      all_goals
        rw [hstep, Function.iterate_fixed (pad_of_padsLeft_eq_zero hleft)]
        exact ⟨_, rfl⟩

/-! ### What decides a list of values -/

/-- The data in front of the first padding. -/
def dataInFront (values : List Nat) : List Nat :=
  values.takeWhile (· < 64)

/-- How much padding follows the data in front. -/
def padsBehind (values : List Nat) : Nat :=
  ((values.dropWhile (· < 64)).takeWhile (· = 64)).length

/-- How much padding closes the last quantum of so many characters. A quantum of one character
cannot be closed. -/
def padsToClose (data : Nat) : Nat :=
  match data % 4 with
  | 0 => 4
  | 1 => 0
  | 2 => 2
  | _ => 1

theorem padsLeft_of_position {state : B64State} {j : Nat}
    (h : quantumPosition state = some (j % 4)) : padsLeft state = padsToClose j := by
  rw [padsToClose]
  cases state with
  | start | decodeA | decodeB | decodeC | decodeD =>
      rw [← Option.some.inj h]
      rfl
  | _ => exact nomatch h

theorem values_shape {values : List Nat} (hvalues : ∀ v ∈ values, v ≤ 64) :
    ∃ rest, values = dataInFront values ++ (List.replicate (padsBehind values) 64 ++ rest) ∧
      (∀ v ∈ rest.head?, v < 64) ∧ (rest = [] ∨ padsBehind values ≠ 0) := by
  have hbehind : ∀ v ∈ (values.dropWhile (· < 64)).takeWhile (· = 64), v = 64 := fun v hv => by
    simpa using List.mem_takeWhile_imp hv
  have hpads : (values.dropWhile (· < 64)).takeWhile (· = 64) =
      List.replicate (padsBehind values) 64 := List.eq_replicate_of_mem hbehind
  refine ⟨(values.dropWhile (· < 64)).dropWhile (· = 64), ?_, fun v hv => ?_, ?_⟩
  · rw [← hpads, List.takeWhile_append_dropWhile, dataInFront, List.takeWhile_append_dropWhile]
  · have hne : ¬ v = 64 := by
      have := List.head?_dropWhile_not (· = 64) (values.dropWhile (· < 64))
      rw [Option.mem_def.mp hv] at this
      simpa using this
    have hmem : v ∈ values :=
      (List.dropWhile_suffix _).subset ((List.dropWhile_suffix _).subset (List.mem_of_mem_head? hv))
    have := hvalues v hmem
    omega
  · cases hdrop : values.dropWhile (· < 64) with
    | nil => exact .inl rfl
    | cons v rest =>
        have hv : ¬ v < 64 := by
          have := List.head?_dropWhile_not (· < 64) values
          rw [hdrop] at this
          simpa using this
        have hmem : v ∈ values := (List.dropWhile_suffix (· < 64)).subset (by rw [hdrop]; simp)
        have hpad : v = 64 := by
          have := hvalues v hmem
          omega
        refine .inr ?_
        rw [padsBehind, hdrop, List.takeWhile_cons_of_pos (by simpa using hpad)]
        simp

theorem b64DecodeValues_front {b64 : B64} {j : Nat} {data : List Nat} (hdata : ∀ v ∈ data, v < 64)
    (hposition : quantumPosition b64.state = some (j % 4)) :
    ∃ b64' os, quantumPosition b64'.state = some ((j + data.length) % 4) ∧
      3 * j / 4 + os.length = 3 * (j + data.length) / 4 ∧
      ∀ values, (∀ v ∈ values, v ≤ 64) → dataInFront values = data →
        (b64DecodeValues b64 values).1 = b64Pad^[padsBehind values] b64' ∧
          (b64DecodeValues b64 values).2.1 = os := by
  obtain ⟨b64', os, hposition', hcount, hrun⟩ := b64DecodeValues_data data hdata hposition
  refine ⟨b64', os, hposition', hcount, fun values hvalues hfront => ?_⟩
  obtain ⟨rest, hshape, hhead, hpads⟩ := values_shape hvalues
  obtain ⟨failed, hpadding⟩ := @b64DecodeValues_padding (padsBehind values) _ hhead b64'
    (hpads.imp_right .inl)
  have hwhole : b64DecodeValues b64 values = (b64Pad^[padsBehind values] b64', os, failed) := by
    have hsplit : b64DecodeValues b64 values =
        b64DecodeValues b64 (data ++ (List.replicate (padsBehind values) 64 ++ rest)) := by
      rw [← hfront, ← hshape]
    rw [hsplit, hrun, hpadding, List.append_nil]
  rw [hwhole]
  exact ⟨rfl, rfl⟩

theorem pad_iterate_ne_decodeB (p : Nat) : ∀ {b64 : B64}, b64.state ≠ .decodeB →
    (b64Pad^[p] b64).state ≠ .decodeB := by
  induction p with
  | zero => exact fun h => h
  | succ p ih =>
      intro b64 h
      rw [Function.iterate_succ_apply]
      refine ih ?_
      obtain ⟨hold, state⟩ := b64
      cases state with
      | decodeB => exact (h rfl).elim
      | _ => exact nofun

theorem state_decodeB_of_position {state : B64State} (h : quantumPosition state = some 1) :
    state = .decodeB := by
  cases state with
  | decodeB => rfl
  | _ => simp [quantumPosition] at h

theorem first_of_quantum {c d : Nat} (hlt : c < d) (h : 3 * c / 4 = 3 * d / 4) :
    d % 4 = 1 ∧ c % 4 = 0 := by
  have hd : d = c + 1 := by omega
  subst hd
  omega

theorem b64DecodeValues_eq_iff {b64 : B64} (hposition : quantumPosition b64.state = some 0)
    {values others : List Nat} (hvalues : ∀ v ∈ values, v ≤ 64) (hothers : ∀ v ∈ others, v ≤ 64)
    (hbegins : dataInFront others <+: dataInFront values) :
    (b64DecodeValues b64 others).1 = (b64DecodeValues b64 values).1 ∧
        (b64DecodeValues b64 others).2.1 = (b64DecodeValues b64 values).2.1 ↔
      dataInFront others = dataInFront values ∧
        min (padsBehind others) (padsToClose (dataInFront values).length) =
          min (padsBehind values) (padsToClose (dataInFront values).length) := by
  have hdata (l : List Nat) : ∀ v ∈ dataInFront l, v < 64 := fun v hv => by
    simpa using List.mem_takeWhile_imp hv
  obtain ⟨b64₁, os₁, hposition₁, hcount₁, hrun₁⟩ :=
    b64DecodeValues_front (j := 0) (hdata values) hposition
  obtain ⟨hstate₁, hoctets₁⟩ := hrun₁ values hvalues rfl
  rw [hstate₁, hoctets₁]
  by_cases heq : dataInFront others = dataInFront values
  · obtain ⟨hstate₂, hoctets₂⟩ := hrun₁ others hothers heq
    rw [hstate₂, hoctets₂, pad_iterate_eq_iff, padsLeft_of_position hposition₁, Nat.zero_add]
    exact ⟨fun h => ⟨heq, h.1⟩, fun h => ⟨h.2, rfl⟩⟩
  · refine iff_of_false ?_ fun h => heq h.1
    rintro ⟨hstate, hoctets⟩
    obtain ⟨b64₂, os₂, hposition₂, hcount₂, hrun₂⟩ :=
      b64DecodeValues_front (j := 0) (hdata others) hposition
    obtain ⟨hstate₂, hoctets₂⟩ := hrun₂ others hothers rfl
    rw [hstate₂] at hstate
    rw [hoctets₂] at hoctets
    -- One character more without an octet more: the first of a quantum, which no padding undoes.
    have hlt : (dataInFront others).length < (dataInFront values).length :=
      Nat.lt_of_le_of_ne hbegins.length_le fun h => heq (hbegins.eq_of_length h)
    rw [hoctets] at hcount₂
    have hone := first_of_quantum (Nat.add_lt_add_left hlt 0) (hcount₂.symm.trans hcount₁)
    rw [hone.1] at hposition₁
    rw [hone.2] at hposition₂
    have hB : b64₁.state = .decodeB := state_decodeB_of_position hposition₁
    have hfixed : b64Pad b64₁ = b64₁ := pad_of_padsLeft_eq_zero (by rw [hB]; rfl)
    rw [Function.iterate_fixed hfixed] at hstate
    refine @pad_iterate_ne_decodeB (padsBehind others) b64₂ ?_ (by rw [hstate, hB])
    intro hB₂
    rw [hB₂] at hposition₂
    exact nomatch hposition₂

/-! ### The two readings of a string -/

/-- The values of the characters of a string in an array of `char`. -/
def charValues (input : List Octet) : List Nat :=
  (input.map signedChar).filterMap b64Value

theorem b64Value_signedChar (c : Octet) :
    (c < 128 → b64Value (signedChar c) = b64Value (some c)) ∧
      (¬ c < 128 → b64Value (signedChar c) = some 64 ∧ b64Value (some c) = none) := by
  rw [signedChar]
  by_cases hlow : c < 128
  · rw [if_pos hlow]
    exact ⟨fun _ => rfl, fun h => absurd hlow h⟩
  · have halphabet : ∀ x ∈ encodeSet, x < 128 := by decide
    have hzero : c ≠ 0 := by
      rintro rfl
      exact hlow (by decide)
    have hpad : c ≠ ch '=' := by
      rintro rfl
      exact hlow (by decide)
    rw [if_neg hlow]
    refine ⟨fun h => absurd h hlow, fun _ => ⟨rfl, ?_⟩⟩
    rw [b64Value, if_neg hpad, decodeSet, if_neg hzero, List.idxOf?_eq_none_iff]
    exact fun hmem => hlow (halphabet c hmem)

theorem le_of_b64Value (x : Ch) {v : Nat} (h : b64Value x = some v) : v ≤ 64 := by
  cases x with
  | none => exact Nat.le_of_eq (Option.some.inj h).symm
  | some c =>
      rw [b64Value, decodeSet] at h
      split_ifs at h
      · exact Nat.le_of_eq (Option.some.inj h).symm
      · exact Nat.le_of_eq (Option.some.inj h).symm
      · obtain ⟨hlength, -⟩ := List.idxOf?_eq_some_iff.mp h
        exact Nat.le_of_lt hlength

theorem b64Values_le (input : List Octet) : ∀ v ∈ b64Values input, v ≤ 64 := fun v hv => by
  obtain ⟨c, -, hc⟩ := List.mem_filterMap.mp hv
  exact le_of_b64Value _ hc

theorem charValues_le (input : List Octet) : ∀ v ∈ charValues input, v ≤ 64 := fun v hv => by
  obtain ⟨x, -, hx⟩ := List.mem_filterMap.mp hv
  exact le_of_b64Value _ hx

theorem b64Values_append (input input' : List Octet) :
    b64Values (input ++ input') = b64Values input ++ b64Values input' :=
  List.filterMap_append

theorem charValues_append (input input' : List Octet) :
    charValues (input ++ input') = charValues input ++ charValues input' := by
  rw [charValues, List.map_append, List.filterMap_append]
  rfl

theorem charValues_of_low {input : List Octet} (h : ∀ c ∈ input, c < 128) :
    charValues input = b64Values input := by
  rw [charValues, List.filterMap_map, b64Values]
  exact List.filterMap_congr fun c hc => (b64Value_signedChar c).1 (h c hc)

theorem charValues_cons_high {c : Octet} (h : ¬ c < 128) (input : List Octet) :
    charValues (c :: input) = 64 :: charValues input := by
  rw [charValues, List.map_cons, List.filterMap_cons_some ((b64Value_signedChar c).2 h).1]
  rfl

theorem b64Values_cons_high {c : Octet} (h : ¬ c < 128) (input : List Octet) :
    b64Values (c :: input) = b64Values input :=
  List.filterMap_cons_none ((b64Value_signedChar c).2 h).2

/-- How much padding stands in front. -/
def padRun (values : List Nat) : Nat :=
  (values.takeWhile (· = 64)).length

theorem padRun_cons_pad (values : List Nat) : padRun (64 :: values) = padRun values + 1 := by
  rw [padRun, List.takeWhile_cons_of_pos (by decide), List.length_cons, padRun]

theorem padRun_append (values values' : List Nat) : padRun (values ++ values') =
    if padRun values = values.length then values.length + padRun values' else padRun values := by
  rw [padRun, List.takeWhile_append, padRun]
  split
  · rw [List.length_append, padRun]
  · rfl

theorem padRun_b64Values_le (input : List Octet) :
    padRun (b64Values input) ≤ padRun (charValues input) := by
  induction input with
  | nil => exact Nat.le_refl _
  | cons c input ih =>
      by_cases hc : c < 128
      · have hsingle : charValues [c] = b64Values [c] :=
          charValues_of_low fun d hd => List.mem_singleton.mp hd ▸ hc
        rw [← List.singleton_append, b64Values_append, charValues_append, hsingle, padRun_append,
          padRun_append]
        split
        · exact Nat.add_le_add_left ih _
        · exact Nat.le_refl _
      · rw [b64Values_cons_high hc, charValues_cons_high hc, padRun_cons_pad]
        exact Nat.le_succ_of_le ih

theorem dataInFront_append (values values' : List Nat) : dataInFront (values ++ values') =
    if (dataInFront values).length = values.length then values ++ dataInFront values'
    else dataInFront values :=
  List.takeWhile_append

theorem dataInFront_append_pad (values values' : List Nat) :
    dataInFront (values ++ 64 :: values') = dataInFront values := by
  rw [dataInFront_append]
  split
  · next h =>
      have hnil : dataInFront (64 :: values') = [] := List.takeWhile_cons_of_neg (by decide)
      rw [hnil, List.append_nil]
      exact ((List.takeWhile_prefix _).eq_of_length h).symm
  · rfl

theorem padsBehind_eq {values rest : List Nat} (h : values = dataInFront values ++ rest) :
    padsBehind values = padRun rest := by
  have hrest : values.dropWhile (· < 64) = rest := by
    refine @List.append_cancel_left _ (dataInFront values) _ _ ?_
    rw [dataInFront, List.takeWhile_append_dropWhile]
    exact h
  rw [padsBehind, hrest, padRun]

theorem padding_put_in {front values others : List Nat} (hle : padRun values ≤ padRun others) :
    (dataInFront (front ++ 64 :: others) <+: dataInFront (front ++ values)) ∧
      (dataInFront (front ++ 64 :: others) = dataInFront (front ++ values) ↔
        (dataInFront (front ++ values)).length ≤ front.length) ∧
      (dataInFront (front ++ 64 :: others) = dataInFront (front ++ values) →
        ((dataInFront (front ++ values)).length + padsBehind (front ++ values) < front.length →
          padsBehind (front ++ 64 :: others) = padsBehind (front ++ values)) ∧
        (front.length ≤ (dataInFront (front ++ values)).length + padsBehind (front ++ values) →
          padsBehind (front ++ values) < padsBehind (front ++ 64 :: others))) := by
  have hput := dataInFront_append_pad front others
  have hfront : dataInFront front <+: front := List.takeWhile_prefix _
  have hwhole := dataInFront_append front values
  rw [hput]
  refine ⟨?_, ⟨fun h => h ▸ hfront.length_le, fun h => ?_⟩, fun h => ?_⟩
  · rw [hwhole]
    split
    · exact hfront.trans (List.prefix_append _ _)
    · exact List.prefix_refl _
  · rw [hwhole] at h ⊢
    split at h
    · next hall =>
        rw [if_pos hall]
        rw [List.length_append] at h
        rw [List.eq_nil_of_length_eq_zero (l := dataInFront values) (by omega), List.append_nil]
        exact hfront.eq_of_length hall
    · next hall => rw [if_neg hall]
  · obtain ⟨behind, hbehind⟩ := hfront
    have hothers : front ++ 64 :: others =
        dataInFront (front ++ 64 :: others) ++ (behind ++ 64 :: others) := by
      rw [hput, ← List.append_assoc, hbehind]
    have hvalues : front ++ values = dataInFront (front ++ values) ++ (behind ++ values) := by
      rw [← h, ← List.append_assoc, hbehind]
    have hlength : front.length = (dataInFront (front ++ values)).length + behind.length := by
      rw [← h, ← List.length_append, hbehind]
    have hrun : padRun behind ≤ behind.length := (List.takeWhile_prefix _).length_le
    rw [padsBehind_eq hothers, padsBehind_eq hvalues, padRun_append, padRun_append, padRun_cons_pad,
      hlength]
    split <;> omega

/-- No octet above 127 adds padding that is noticed: there is none, or the first one stands behind
all data in front of the padding, and the text is closed without it, or data stands between padding
and it. Characters without a value do not count. -/
def HighHarmless (s : List Octet) : Prop :=
  let low := s.takeWhile (· < 128)
  let data := (dataInFront (b64Values s)).length
  let pads := padsBehind (b64Values s)
  low = s ∨ data ≤ (b64Values low).length ∧
    (padsToClose data ≤ pads ∨ data + pads < (b64Values low).length)

instance (s : List Octet) : Decidable (HighHarmless s) :=
  inferInstanceAs (Decidable (_ ∨ _ ∧ (_ ∨ _)))

theorem dataInFront_charValues (s : List Octet) :
    dataInFront (charValues s) <+: dataInFront (b64Values s) := by
  have hsplit : s.takeWhile (· < 128) ++ s.dropWhile (· < 128) = s := List.takeWhile_append_dropWhile
  have hlow : ∀ c ∈ s.takeWhile (· < 128), c < 128 := fun c hc => by
    simpa using List.mem_takeWhile_imp hc
  cases hrest : s.dropWhile (· < 128) with
  | nil =>
      rw [hrest, List.append_nil] at hsplit
      rw [hsplit] at hlow
      rw [charValues_of_low hlow]
  | cons x t =>
      have hx : ¬ x < 128 := by
        have := List.head?_dropWhile_not (· < 128) s
        rw [hrest] at this
        simpa using this
      rw [← hsplit, hrest, charValues_append, b64Values_append, charValues_of_low hlow,
        charValues_cons_high hx, b64Values_cons_high hx]
      exact (padding_put_in (padRun_b64Values_le t)).1

theorem readings_agree_iff {b64 : B64} (hposition : quantumPosition b64.state = some 0)
    (s : List Octet) :
    (b64DecodeValues b64 (charValues s)).1 = (b64DecodeValues b64 (b64Values s)).1 ∧
        (b64DecodeValues b64 (charValues s)).2.1 = (b64DecodeValues b64 (b64Values s)).2.1 ↔
      HighHarmless s := by
  rw [b64DecodeValues_eq_iff hposition (b64Values_le s) (charValues_le s) (dataInFront_charValues s)]
  have hsplit : s.takeWhile (· < 128) ++ s.dropWhile (· < 128) = s := List.takeWhile_append_dropWhile
  have hlow : ∀ c ∈ s.takeWhile (· < 128), c < 128 := fun c hc => by
    simpa using List.mem_takeWhile_imp hc
  cases hrest : s.dropWhile (· < 128) with
  | nil =>
      rw [hrest, List.append_nil] at hsplit
      have hall : charValues s = b64Values s := charValues_of_low (hsplit ▸ hlow)
      rw [hall]
      exact iff_of_true ⟨rfl, rfl⟩ (.inl hsplit)
  | cons x t =>
      have hx : ¬ x < 128 := by
        have := List.head?_dropWhile_not (· < 128) s
        rw [hrest] at this
        simpa using this
      have hne : s.takeWhile (· < 128) ≠ s := fun h => by
        rw [h, hrest] at hsplit
        exact absurd hsplit (by simp)
      have hchars : charValues s = b64Values (s.takeWhile (· < 128)) ++ 64 :: charValues t := by
        conv_lhs => rw [← hsplit, hrest]
        rw [charValues_append, charValues_of_low hlow, charValues_cons_high hx]
      have hvalues : b64Values s = b64Values (s.takeWhile (· < 128)) ++ b64Values t := by
        conv_lhs => rw [← hsplit, hrest]
        rw [b64Values_append, b64Values_cons_high hx]
      obtain ⟨-, hsame, hpads⟩ := @padding_put_in (b64Values (s.takeWhile (· < 128))) _ _
        (padRun_b64Values_le t)
      rw [← hchars, ← hvalues] at hsame hpads
      rw [HighHarmless, or_iff_right hne, hsame]
      refine and_congr_right fun hbehind => ?_
      obtain ⟨hpassed, hmore⟩ := hpads (hsame.mpr hbehind)
      omega

theorem length_charValues_le {b64 : B64} (hposition : quantumPosition b64.state = some 0)
    (s : List Octet) : (b64DecodeValues b64 (charValues s)).2.1.length ≤
      (b64DecodeValues b64 (b64Values s)).2.1.length := by
  have hdata (l : List Nat) : ∀ v ∈ dataInFront l, v < 64 := fun v hv => by
    simpa using List.mem_takeWhile_imp hv
  obtain ⟨_, os, -, hcount, hrun⟩ :=
    b64DecodeValues_front (j := 0) (hdata (charValues s)) hposition
  obtain ⟨_, os', -, hcount', hrun'⟩ :=
    b64DecodeValues_front (j := 0) (hdata (b64Values s)) hposition
  rw [(hrun _ (charValues_le s) rfl).2, (hrun' _ (b64Values_le s) rfl).2]
  have hle := (dataInFront_charValues s).length_le
  omega

/-! ### Buffers -/

theorem b64DecodeInput_yields (input : List Octet) : ∀ {b64 : B64} {output : Buffer n}
    {outSize olen : Nat}, outSize ≤ n →
    olen + (b64DecodeCharacters b64 (input.map signedChar)).2.1.length < outSize →
    (b64DecodeInput b64 output outSize olen input).Yields
      ((b64DecodeCharacters b64 (input.map signedChar)).1,
        output.splice olen (b64DecodeCharacters b64 (input.map signedChar)).2.1,
        olen + (b64DecodeCharacters b64 (input.map signedChar)).2.1.length,
        (b64DecodeCharacters b64 (input.map signedChar)).2.2) := by
  induction input with
  | nil =>
      intro b64 output outSize olen _ _
      rw [b64DecodeInput, List.map_nil, b64DecodeCharacters, Buffer.splice_nil]
      exact yields_pure _
  | cons c input ih =>
      intro b64 output outSize olen hsize hroom
      have hopen : ¬ outSize ≤ olen := by omega
      rw [b64DecodeInput, if_neg hopen]
      rw [List.map_cons, b64DecodeCharacters] at hroom ⊢
      cases hdecode : b64Decode b64 (signedChar c) with
      | mk b64' result =>
        rw [hdecode] at hroom
        cases result with
        | octet octet =>
            dsimp only [List.length_cons] at hroom ⊢
            have hfits : olen + [octet].length ≤ n := by
              rw [List.length_singleton]
              omega
            refine (output.yields_write [octet] hfits).bind ?_
            have hrest := @ih b64' (output.splice olen [octet]) outSize (olen + 1)
              hsize (by omega)
            have hputs := Buffer.splice_splice output [octet]
              (b64DecodeCharacters b64' (input.map signedChar)).2.1 (i := olen) (by
                rw [List.length_singleton]
                omega)
            rw [List.length_singleton, List.singleton_append] at hputs
            rwa [hputs, Nat.add_assoc olen, Nat.add_comm 1] at hrest
        | next => exact ih hsize hroom
        | error | eof =>
            dsimp only
            rw [Buffer.splice_nil]
            exact yields_pure _

theorem b64Step_eof {b64 : B64} {v : Nat} (h : (b64Step b64 v).2 = .eof) :
    (b64Step b64 v).1.state = .eof := by
  obtain ⟨hold, state⟩ := b64
  by_cases hv : v = 64
  · cases state <;> simp_all [b64Step]
  · cases state <;> simp_all [b64Step]

theorem b64Decode_eof {b64 b64' : B64} {x : Ch} (h : b64Decode b64 x = (b64', .eof)) :
    b64'.state = .eof := by
  rw [b64Decode] at h
  cases hvalue : b64Value x with
  | none =>
      rw [hvalue] at h
      exact absurd (congrArg Prod.snd h) (by simp)
  | some v =>
      rw [hvalue] at h
      have hstep : b64Step b64 v = (b64', .eof) := h
      have heof := @b64Step_eof b64 v (by rw [hstep])
      rwa [hstep] at heof

theorem b64DecodeCharacters_of_eof (input : List Ch) {b64 : B64} (h : b64.state = .eof) :
    b64DecodeCharacters b64 input = (b64, [], false) := by
  obtain ⟨hold, state⟩ := b64
  subst h
  induction input with
  | nil => rfl
  | cons x input ih =>
      rw [b64DecodeCharacters, b64Decode]
      cases b64Value x with
      | none => exact ih
      | some v => rfl

theorem b64DecodeCharacters_append (input input' : List Ch) : ∀ b64 : B64,
    b64DecodeCharacters b64 (input ++ input') =
      let r := b64DecodeCharacters b64 input
      if r.2.2 then r
      else
        let r' := b64DecodeCharacters r.1 input'
        (r'.1, r.2.1 ++ r'.2.1, r'.2.2) := by
  induction input with
  | nil => exact fun _ => rfl
  | cons x input ih =>
      intro b64
      rw [List.cons_append, b64DecodeCharacters, b64DecodeCharacters]
      cases hdecode : b64Decode b64 x with
      | mk b64' result =>
        cases result with
        | next => exact ih b64'
        | error => rfl
        | eof =>
            dsimp only
            rw [b64DecodeCharacters_of_eof input' (b64Decode_eof hdecode)]
            rfl
        | octet c =>
            dsimp only
            rw [ih b64']
            dsimp only
            split <;> rfl

theorem b64DecodeChunks_ends (chunks : List (List Octet)) : ∀ {b64 : B64} {output : Buffer n}
    {front rest : List Octet}, output.octets = front ++ rest →
    front.length + (b64DecodeCharacters b64 (chunks.flatten.map signedChar)).2.1.length + 2 ≤ n →
    (b64DecodeChunks b64 output front.length chunks).Ends fun r =>
      (r.1, r.2.1.octets.take r.2.2) =
        ((b64DecodeCharacters b64 (chunks.flatten.map signedChar)).1,
          front ++ (b64DecodeCharacters b64 (chunks.flatten.map signedChar)).2.1) := by
  induction chunks with
  | nil =>
      intro b64 output front rest houtput _
      rw [b64DecodeChunks, ends_pure, houtput, List.take_left]
      simp [b64DecodeCharacters]
  | cons input chunks ih =>
      intro b64 output front rest houtput hroom
      have hn := output.length_octets
      rw [houtput, List.length_append] at hn
      rw [List.flatten_cons, List.map_append, b64DecodeCharacters_append] at hroom ⊢
      dsimp only at hroom ⊢
      set r := b64DecodeCharacters b64 (input.map signedChar) with hr
      have hrlength : front.length + r.2.1.length + 2 ≤ n := by
        split at hroom
        · exact hroom
        · rw [List.length_append] at hroom
          omega
      have hinput := @b64DecodeInput_yields _ input b64 output (n - 1)
        front.length (Nat.sub_le _ _) (by rw [← hr]; omega)
      rw [← hr] at hinput
      have hstored := @Buffer.octets_splice_append _ _ _ _ r.2.1 houtput (by omega)
      rw [b64DecodeChunks, b64DecodeBuffer, if_neg (by omega), bind_assoc, hinput.bind_ends_iff]
      by_cases herror : r.2.2 = true
      · simp only [herror, if_true, pure_bind, ends_pure]
        rw [hstored, ← List.length_append, List.take_left]
      · simp only [herror, if_false, Bool.false_eq_true]
        rw [bind_assoc]
        have hlength : front.length + r.2.1.length = (front ++ r.2.1).length :=
          List.length_append.symm
        have hwrite := (output.splice front.length r.2.1).yields_write [0]
          (i := front.length + r.2.1.length) (by rw [List.length_singleton]; omega)
        rw [hwrite.bind_ends_iff, Run.pure_bind]
        have hended := @Buffer.octets_splice_append _ (output.splice front.length r.2.1)
          (front ++ r.2.1) _ [0] hstored (by simp; omega)
        rw [← hlength, List.append_assoc (front ++ r.2.1)] at hended
        have hnext := @ih r.1 _ _ _ hended (by
          rw [if_neg herror, List.length_append] at hroom
          rw [List.length_append]
          omega)
        rw [List.length_append, List.append_assoc] at hnext
        have hgoes : ¬ (if r.1.state = .decodeA ∨ r.1.state = .eof then B64Return.ok else .next) =
            .error := by
          split <;> simp
        rw [if_neg hgoes]
        exact hnext

/-- Decoded by buffers, a string gives the octets and the state that it gives octet by octet. -/
def B64BufferAgrees (b64 : B64) (output : Buffer n) (chunks : List (List Octet)) : Prop :=
  (b64DecodeChunks (b64Reset b64) output 0 chunks).Ends fun r =>
    (r.1, r.2.1.octets.take r.2.2) = b64DecodeAll (b64Reset b64) chunks.flatten

/-- However a string is split, and with room for its octets and a NUL behind them, decoding by
buffers agrees with decoding its octets exactly if those above 127 are harmless. -/
theorem b64DecodeBuffer_agrees_iff (b64 : B64) (output : Buffer n) (chunks : List (List Octet))
    (hroom : (b64DecodeAll (b64Reset b64) chunks.flatten).2.length + 2 ≤ n) :
    B64BufferAgrees b64 output chunks ↔ HighHarmless chunks.flatten := by
  have hall : b64DecodeCharacters (b64Reset b64) (chunks.flatten.map some) =
      b64DecodeValues (b64Reset b64) (b64Values chunks.flatten) := by
    rw [b64DecodeCharacters_eq, List.filterMap_map]
    rfl
  have hchars : b64DecodeCharacters (b64Reset b64) (chunks.flatten.map signedChar) =
      b64DecodeValues (b64Reset b64) (charValues chunks.flatten) := b64DecodeCharacters_eq _ _
  have hposition : quantumPosition (b64Reset b64).state = some 0 := rfl
  rw [b64DecodeAll, hall] at hroom
  dsimp only at hroom
  have hends := @b64DecodeChunks_ends _ chunks (b64Reset b64) output []
    output.octets rfl (by
      rw [hchars, List.length_nil]
      have := length_charValues_le hposition chunks.flatten
      omega)
  rw [hchars, List.nil_append] at hends
  rw [← readings_agree_iff hposition, B64BufferAgrees, b64DecodeAll, hall]
  refine hends.ends_iff fun r hr => ?_
  rw [hr, Prod.mk.injEq]

/-- A text in two pieces, with nothing above 127 in it. -/
theorem b64DecodeBuffer_agrees_ascii :
    (b64DecodeAll (b64Reset ⟨0, .start⟩) [ascii "TW", ascii "Fu"].flatten).2.length + 2 ≤ 5 ∧
      (B64BufferAgrees ⟨0, .start⟩ (.replicate 5 0) [ascii "TW", ascii "Fu"] ↔
        HighHarmless [ascii "TW", ascii "Fu"].flatten) :=
  ⟨by decide, b64DecodeBuffer_agrees_iff _ _ _ (by decide)⟩

/-- The octet 160 in front of the text of `Man`: as a `char` it is padding, and the text is
refused. -/
theorem b64DecodeBuffer_disagrees : ¬ ∀ (n : Nat) (b64 : B64) (output : Buffer n)
    (chunks : List (List Octet)),
    (b64DecodeAll (b64Reset b64) chunks.flatten).2.length + 2 ≤ n →
      B64BufferAgrees b64 output chunks := by
  intro h
  have hrun := h 5 ⟨0, .start⟩ (.replicate 5 0) [[160] ++ ascii "TWFu"] (by decide)
  obtain ⟨-, r, hdone, hr⟩ := hrun
  have hstopped : (b64DecodeChunks (b64Reset ⟨0, .start⟩) (.replicate 5 0) 0
      [[160] ++ ascii "TWFu"]).result = some (⟨0, .decodePad3⟩, .replicate 5 0, 0) := by
    decide
  rw [result_eq_some, hdone] at hstopped
  cases hstopped
  exact absurd hr (by decide)

end Snert
