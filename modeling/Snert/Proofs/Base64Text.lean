/-
Module: Snert.Proofs.Base64Text
Purpose: The Base64 text of an octet string, and how the encoders of util/b64.c arrive at it. What an
  encoder has written and what it holds are at all times those of the octets it has taken, so the
  quanta it returns, and the buffer it fills over any number of calls, give the same text.
Trusted boundary: none
Main exports: base64_eq, b64EncodeOctets_yields, b64EncodeChunks_ends
-/
import Snert.Lists.OctetBits
import Snert.Lists.Sextets
import Snert.Util.Base64Encode

namespace Snert

open CModel CModel.Run Lists

/-! ### The text -/

/-- The Base64 form of an octet string: a character for every sextet, and padding that fills up the
last quantum. -/
def paddedText (pad : Octet) (octets : List Octet) : List Octet :=
  (sextets octets).map encodeChar ++ List.replicate ((3 - octets.length % 3) % 3) pad

/-- The Base64 text of an octet string. -/
def base64 (octets : List Octet) : List Octet :=
  paddedText padCharacter octets

/-- The characters that are certain once octets have been taken. -/
def encoded (octets : List Octet) : List Octet :=
  (Held.none.feed octets).1.map encodeChar

/-- What is held when octets have been taken. -/
def heldOf (octets : List Octet) : Held :=
  (Held.none.feed octets).2

/-- The characters that close a text. -/
def closing (pad : Octet) : Held → List Octet
  | .none => []
  | .two value => [encodeChar value, pad, pad]
  | .four value => [encodeChar value, pad]

theorem encoded_append (octets : List Octet) (x : Octet) :
    encoded (octets ++ [x]) = encoded octets ++ ((heldOf octets).put x).1.map encodeChar := by
  simp [encoded, heldOf, Held.feed_append, Held.feed_cons]

theorem heldOf_append (octets : List Octet) (x : Octet) :
    heldOf (octets ++ [x]) = ((heldOf octets).put x).2 := by
  simp [heldOf, Held.feed_append, Held.feed_cons]

theorem taken_heldOf (octets : List Octet) : (heldOf octets).taken = octets.length % 3 := by
  have htaken := Held.taken_feed octets .none
  rwa [Held.taken, Nat.zero_add] at htaken

theorem length_encoded (octets : List Octet) : (encoded octets).length = octets.length * 4 / 3 := by
  have hlength := Held.length_feed octets .none
  rw [Held.taken, Nat.zero_add, Nat.zero_add] at hlength
  rw [encoded, List.length_map, hlength]

theorem closing_eq (pad : Octet) (held : Held) : closing pad held =
    held.flush.map encodeChar ++ List.replicate ((3 - held.taken) % 3) pad := by
  cases held <;> rfl

theorem paddedText_eq (pad : Octet) (octets : List Octet) :
    paddedText pad octets = encoded octets ++ closing pad (heldOf octets) := by
  rw [paddedText, ← Held.feed_flush, closing_eq, taken_heldOf, List.map_append, List.append_assoc]
  rfl

theorem base64_eq (octets : List Octet) :
    base64 octets = encoded octets ++ closing padCharacter (heldOf octets) :=
  paddedText_eq padCharacter octets

/-! ### One octet -/

/-- The state of an encoder that holds bits. -/
def HoldsBits (b64 : B64Coder) : Held → Prop
  | .none => b64.state = .decoding .start ∨ b64.state = .encoding .encodeA
  | .two value => b64.state = .encoding .encodeB ∧ b64.hold = value ∧ ∃ k < 4, value = 2 ^ 4 * k
  | .four value => b64.state = .encoding .encodeC ∧ b64.hold = value ∧ ∃ k < 16, value = 2 ^ 2 * k

theorem b64PartialLength_of_holds {b64 : B64Coder} {held : Held} (h : HoldsBits b64 held) :
    b64PartialLength b64 = held.taken := by
  cases held with
  | none => rcases h with h | h <;> rw [b64PartialLength, h] <;> rfl
  | two value => rw [b64PartialLength, h.1]; rfl
  | four value => rw [b64PartialLength, h.1]; rfl

theorem octet_cuts (x : Octet) :
    x.toNat >>> 2 &&& 0x3f = x.toNat / 4 ∧ x.toNat <<< 4 &&& 0x30 = 2 ^ 4 * (x.toNat % 4) ∧
      x.toNat >>> 4 &&& 0xf = x.toNat / 16 ∧ x.toNat <<< 2 &&& 0x3c = 2 ^ 2 * (x.toNat % 16) ∧
      x.toNat >>> 6 &&& 0x3 = x.toNat / 64 ∧ x.toNat &&& 0x3f = x.toNat % 64 :=
  forall_octet (P := fun x => x.toNat >>> 2 &&& 0x3f = x.toNat / 4 ∧
      x.toNat <<< 4 &&& 0x30 = 2 ^ 4 * (x.toNat % 4) ∧ x.toNat >>> 4 &&& 0xf = x.toNat / 16 ∧
      x.toNat <<< 2 &&& 0x3c = 2 ^ 2 * (x.toNat % 16) ∧ x.toNat >>> 6 &&& 0x3 = x.toNat / 64 ∧
      x.toNat &&& 0x3f = x.toNat % 64) (by decide +kernel) x

theorem hold_or {k v : Nat} {i : Nat} (h : v < 2 ^ i) : 2 ^ i * k ||| v = 2 ^ i * k + v :=
  (Nat.two_pow_add_eq_or_of_lt h k).symm

variable {n : Nat}

theorem b64EncodeQuantum_yields {b64 : B64Coder} {held : Held} (hholds : HoldsBits b64 held) (x : Octet)
    (quantum : Buffer n) (start : Nat)
    (hroom : start + held.taken + (held.put x).1.length ≤ n) :
    ∃ b64', HoldsBits b64' (held.put x).2 ∧
      (b64EncodeQuantum b64 x.toNat quantum start).Yields
        (b64', quantum.splice (start + held.taken) ((held.put x).1.map encodeChar),
          decide ((held.put x).2 = .none)) := by
  obtain ⟨h2, h4, h4', h2', h6, h63⟩ := octet_cuts x
  have hx := x.toNat_lt
  have hnot : ¬ (x.toNat : Int) < -1 := by omega
  have hnot' : ¬ (x.toNat : Int) < 0 := by omega
  have hwrite := fun os h => quantum.yields_write os (i := start + held.taken) h
  cases held with
  | none =>
      refine ⟨⟨x.toNat <<< 4 &&& 0x30, .encoding .encodeB⟩, ?_, ?_⟩
      · exact ⟨rfl, by rw [h4, Nat.mul_comm]; rfl, x.toNat % 4, Nat.mod_lt _ (by decide),
          Nat.mul_comm _ _⟩
      · rcases hholds with hstate | hstate
        all_goals
          simp only [b64EncodeQuantum, hstate, if_neg hnot, if_neg hnot', Int.toNat_natCast, h2]
          exact (hwrite _ hroom).bind (yields_pure _)
  | two value =>
      obtain ⟨hstate, hhold, k, -, hk⟩ := hholds
      refine ⟨⟨x.toNat <<< 2 &&& 0x3c, .encoding .encodeC⟩, ?_, ?_⟩
      · exact ⟨rfl, by rw [h2', Nat.mul_comm]; rfl, x.toNat % 16, Nat.mod_lt _ (by decide),
          Nat.mul_comm _ _⟩
      · have hor : b64.hold ||| x.toNat / 16 = value + x.toNat / 16 := by
          rw [hhold, hk, hold_or (by omega)]
        simp only [b64EncodeQuantum, hstate, if_neg hnot', Int.toNat_natCast, h4', hor]
        exact (hwrite _ hroom).bind (yields_pure _)
  | four value =>
      obtain ⟨hstate, hhold, k, -, hk⟩ := hholds
      refine ⟨{ b64 with state := .encoding .encodeA }, .inr rfl, ?_⟩
      have hor : b64.hold ||| x.toNat / 64 = value + x.toNat / 64 := by
        rw [hhold, hk, hold_or (by omega)]
      simp only [b64EncodeQuantum, hstate, if_neg hnot', Int.toNat_natCast, h6, h63, hor]
      exact (hwrite _ hroom).bind (yields_pure _)

/-! ### Octet by octet -/

/-- The text of the octets still to come, from what is held. -/
def base64From (held : Held) (octets : List Octet) : List Octet :=
  (held.feed octets).1.map encodeChar ++ closing padCharacter (held.feed octets).2

theorem base64From_none (octets : List Octet) : base64From .none octets = base64 octets :=
  (base64_eq octets).symm

theorem base64From_cons (held : Held) (x : Octet) (octets : List Octet) :
    base64From held (x :: octets) =
      (held.put x).1.map encodeChar ++ base64From (held.put x).2 octets := by
  simp [base64From, Held.feed_cons]

theorem encodeChar_eq {v : Nat} (h : v < 64) : encodeSet[v]? = some (encodeChar v) := by
  have hlength : v < encodeSet.length := h
  rw [encodeChar, List.getD_eq_getElem?_getD, List.getElem?_append_left hlength,
    List.getElem?_eq_getElem hlength]
  rfl

theorem encodeChar_mem {v : Nat} (h : v < 64) : encodeChar v ∈ encodeSet :=
  List.mem_of_getElem? (encodeChar_eq h)

theorem encodeChar_ne_zero {v : Nat} (h : v < 64) : encodeChar v ≠ 0 := fun hzero => by
  have hoff : 0 ∉ encodeSet := by decide
  exact hoff (hzero ▸ encodeChar_mem h)

theorem zero_notMem_encodeChars {values : List Nat} (h : ∀ v ∈ values, v < 64) :
    0 ∉ values.map encodeChar := by
  intro hmem
  obtain ⟨v, hv, hzero⟩ := List.mem_map.mp hmem
  exact encodeChar_ne_zero (h v hv) hzero

theorem put_lt {b64 : B64Coder} {held : Held} (h : HoldsBits b64 held) (x : Octet) :
    ∀ v ∈ (held.put x).1, v < 64 := by
  have hx := x.toNat_lt
  cases held with
  | none =>
      simp only [Held.put, List.forall_mem_singleton]
      omega
  | two value =>
      obtain ⟨-, -, k, hk, rfl⟩ := h
      simp only [Held.put, List.forall_mem_singleton]
      omega
  | four value =>
      obtain ⟨-, -, k, hk, rfl⟩ := h
      simp only [Held.put, List.forall_mem_cons]
      exact ⟨by omega, by omega, by simp⟩

/-- The array `_quantum` holds the characters of the quantum that are certain, and ends in a NUL. -/
structure QuantumBegun (quantum : Buffer 5) (front : List Octet) (held : Held) : Prop where
  octets : ∃ rest, quantum.octets = front ++ (rest ++ [0])
  length_front : front.length = held.taken
  noNul : 0 ∉ front

namespace QuantumBegun

variable {quantum : Buffer 5} {front : List Octet} {held : Held}

theorem octets_splice (h : QuantumBegun quantum front held) (os : List Octet)
    (hos : held.taken + os.length ≤ 4) :
    ∃ rest, (quantum.splice held.taken os).octets = front ++ os ++ (rest ++ [0]) ∧
      held.taken + os.length + rest.length = 4 := by
  obtain ⟨rest, hrest⟩ := h.octets
  have hlen := quantum.length_octets
  rw [hrest] at hlen
  simp only [List.length_append, List.length_singleton, h.length_front] at hlen
  refine ⟨rest.drop os.length, ?_, by rw [List.length_drop]; omega⟩
  rw [← h.length_front, Buffer.octets_splice_append hrest (by
    rw [List.length_append, List.length_singleton]; omega),
    List.drop_append_of_le_length (by omega)]

theorem cstring_splice (h : QuantumBegun quantum front held) (os : List Octet)
    (hos : held.taken + os.length = 4) (hnul : 0 ∉ os) :
    (quantum.splice held.taken os).cstring = front ++ os := by
  obtain ⟨rest, hrest, hlen⟩ := h.octets_splice os (Nat.le_of_eq hos)
  obtain rfl : rest = [] := List.eq_nil_of_length_eq_zero (by omega)
  exact Buffer.cstring_of_octets hrest (by simp [h.noNul, hnul])

end QuantumBegun

/-- What ending the encoding puts into a quantum. -/
def ending : Held → List Octet
  | .none => [0]
  | held => closing padCharacter held

theorem b64EncodeQuantum_end_yields {b64 : B64Coder} {held : Held} (hholds : HoldsBits b64 held)
    (quantum : Buffer n) {start : Nat} (hroom : start + held.taken + (ending held).length ≤ n) :
    (b64EncodeQuantum b64 (-1) quantum start).Yields
      (b64, quantum.splice (start + held.taken) (ending held), true) := by
  have hwrite := quantum.yields_write _ hroom
  cases held with
  | none =>
      rcases hholds with hstate | hstate
      all_goals
        simp only [b64EncodeQuantum, hstate, Int.reduceNeg, Int.reduceLT, if_false, if_true]
        exact hwrite.bind (yields_pure _)
  | two value =>
      obtain ⟨hstate, rfl, -⟩ := hholds
      simp only [b64EncodeQuantum, hstate, Int.reduceNeg, Int.reduceLT, if_true]
      exact hwrite.bind (yields_pure _)
  | four value =>
      obtain ⟨hstate, rfl, -⟩ := hholds
      simp only [b64EncodeQuantum, hstate, Int.reduceNeg, Int.reduceLT, if_true]
      exact hwrite.bind (yields_pure _)

theorem cstring_ending {b64 : B64Coder} {held : Held} (hholds : HoldsBits b64 held)
    {quantum : Buffer 5} {front : List Octet} (hbegun : QuantumBegun quantum front held) :
    (quantum.splice held.taken (ending held)).cstring = front ++ closing padCharacter held := by
  cases held with
  | none =>
      obtain rfl : front = [] := List.eq_nil_of_length_eq_zero hbegun.length_front
      obtain ⟨rest, hrest, -⟩ := hbegun.octets_splice [0] (by decide)
      exact Buffer.cstring_of_octets (s := []) hrest nofun
  | two value =>
      obtain ⟨-, -, k, hk, rfl⟩ := hholds
      have hchar : encodeChar (2 ^ 4 * k) ≠ 0 := encodeChar_ne_zero (by omega)
      exact hbegun.cstring_splice _ rfl (by
        simpa [closing, ending] using ⟨hchar.symm, by decide⟩)
  | four value =>
      obtain ⟨-, -, k, hk, rfl⟩ := hholds
      have hchar : encodeChar (2 ^ 2 * k) ≠ 0 := encodeChar_ne_zero (by omega)
      exact hbegun.cstring_splice _ rfl (by
        simpa [closing, ending] using ⟨hchar.symm, by decide⟩)

theorem length_put (held : Held) (x : Octet) :
    (held.put x).2 ≠ .none ∧ (held.put x).1.length = 1 ∧
        (held.put x).2.taken = held.taken + 1 ∧ held.taken < 2 ∨
      (held.put x).2 = .none ∧ (held.put x).1.length = 2 ∧ held.taken = 2 := by
  cases held with
  | none => exact .inl ⟨nofun, rfl, rfl, by decide⟩
  | two => exact .inl ⟨nofun, rfl, rfl, Nat.lt_succ_self 1⟩
  | four => exact .inr ⟨rfl, rfl, rfl⟩

theorem b64Encode_yields {b64 : B64Coder} {quantum : Buffer 5} {x : Int}
    {r : B64Coder × Buffer 5 × Bool} (h : (b64EncodeQuantum b64 x quantum 0).Yields r) :
    (b64Encode b64 quantum x).Yields
      (r.1, r.2.1, if r.2.2 then some r.2.1.cstring else none) :=
  h.bind (yields_pure _)

/-- Joined, the quanta that `b64Encode` returns are the text. -/
theorem b64EncodeOctets_yields (input : List Octet) : ∀ {b64 : B64Coder} {held : Held}
    {quantum : Buffer 5} {front : List Octet}, HoldsBits b64 held → QuantumBegun quantum front held →
    (b64EncodeOctets b64 quantum input).Yields (front ++ base64From held input) := by
  induction input with
  | nil =>
      intro b64 held quantum front hholds hbegun
      have hroom : 0 + held.taken + (ending held).length ≤ 5 := by
        cases held <;> simp [Held.taken, ending, closing]
      have hend := b64EncodeQuantum_end_yields hholds quantum hroom
      rw [Nat.zero_add] at hend
      refine (b64Encode_yields hend).bind ?_
      simp only [if_true, Option.getD_some, cstring_ending hholds hbegun]
      exact yields_pure _
  | cons x input ih =>
      intro b64 held quantum front hholds hbegun
      have hlen := length_put held x
      obtain ⟨b64', hholds', hput⟩ := b64EncodeQuantum_yields hholds x quantum 0 (by omega)
      rw [Nat.zero_add] at hput
      obtain ⟨rest, hoctets, hrest⟩ := hbegun.octets_splice ((held.put x).1.map encodeChar)
        (by rw [List.length_map]; omega)
      have hnul := zero_notMem_encodeChars (put_lt hholds x)
      rw [List.length_map] at hrest
      rw [b64EncodeOctets, base64From_cons]
      refine (b64Encode_yields hput).bind ?_
      rcases hlen with ⟨hnone, hone, htaken, -⟩ | ⟨hnone, htwo, htaken⟩
      · -- The quantum is not full: nothing is returned yet.
        have hbegun' : QuantumBegun (quantum.splice held.taken ((held.put x).1.map encodeChar))
            (front ++ (held.put x).1.map encodeChar) (held.put x).2 :=
          ⟨⟨rest, hoctets⟩, by simp [hbegun.length_front, hone, htaken], by simp [hbegun.noNul, hnul]⟩
        refine (ih hholds' hbegun').bind ?_
        simp [hnone]
      · -- The quantum is full: it is returned, and the next one begins.
        have hbegun' : QuantumBegun (quantum.splice held.taken ((held.put x).1.map encodeChar))
            [] (held.put x).2 :=
          ⟨⟨_, hoctets.trans (List.append_assoc _ _ _).symm⟩, by rw [hnone]; rfl, by simp⟩
        have hcstring := hbegun.cstring_splice ((held.put x).1.map encodeChar)
          (by rw [List.length_map]; omega) hnul
        refine (ih hholds' hbegun').bind ?_
        simp [hnone, hcstring]

/-! ### Buffer by buffer -/

/-- An encoder has taken octets, and the characters that are certain stand at the start of its
output. -/
structure Written (b64 : B64Coder) (output : Buffer n) (octets : List Octet) : Prop where
  holds : HoldsBits b64 (heldOf octets)
  output : ∃ rest, output.octets = encoded octets ++ rest

theorem Written.splice {b64 : B64Coder} {output : Buffer n} {octets : List Octet}
    (h : Written b64 output octets) (os : List Octet) (hos : octets.length * 4 / 3 + os.length ≤ n) :
    ∃ rest, (output.splice (octets.length * 4 / 3) os).octets = encoded octets ++ os ++ rest := by
  obtain ⟨rest, hrest⟩ := h.output
  have hlen := output.length_octets
  rw [hrest, List.length_append, length_encoded] at hlen
  rw [← length_encoded]
  exact ⟨_, Buffer.octets_splice_append hrest (by omega)⟩

theorem Written.step {b64 : B64Coder} {output : Buffer n} {octets : List Octet}
    (h : Written b64 output octets) (x : Octet) (hroom : (octets.length + 1) * 4 / 3 ≤ n) :
    (b64EncodeQuantum b64 x.toNat output (octets.length / 3 * 4)).Ends fun r =>
      Written r.1 r.2.1 (octets ++ [x]) ∧
        (if r.2.2 then octets.length / 3 * 4 + 4 else octets.length / 3 * 4) =
          (octets ++ [x]).length / 3 * 4 := by
  have htaken := taken_heldOf octets
  have hlen := length_put (heldOf octets) x
  obtain ⟨b64', hholds', hput⟩ := b64EncodeQuantum_yields h.holds x output
    (octets.length / 3 * 4) (by omega)
  rw [show octets.length / 3 * 4 + (heldOf octets).taken = octets.length * 4 / 3 by omega] at hput
  rw [hput.ends_iff]
  obtain ⟨rest, hrest⟩ := h.splice (((heldOf octets).put x).1.map encodeChar)
    (by rw [List.length_map]; omega)
  refine ⟨⟨by rwa [heldOf_append], rest, by rw [encoded_append]; exact hrest⟩, ?_⟩
  rw [List.length_append, List.length_singleton]
  rcases hlen with ⟨hnone, -, -, hlt⟩ | ⟨hnone, -, htwo⟩
  · simp only [hnone, decide_false, Bool.false_eq_true, if_false]
    omega
  · simp only [hnone, decide_true, if_true]
    omega

theorem b64EncodeInput_ends (input : List Octet) : ∀ {b64 : B64Coder} {output : Buffer n}
    {octets : List Octet}, Written b64 output octets →
    (octets.length + input.length) * 4 / 3 ≤ n →
    (b64EncodeInput b64 output (octets.length / 3 * 4) input).Ends fun r =>
      Written r.1 r.2.1 (octets ++ input) ∧ r.2.2 = (octets ++ input).length / 3 * 4 := by
  induction input with
  | nil =>
      intro b64 output octets hwritten hroom
      rw [b64EncodeInput, ends_pure, List.append_nil]
      exact ⟨hwritten, rfl⟩
  | cons x input ih =>
      intro b64 output octets hwritten hroom
      rw [List.length_cons] at hroom
      rw [b64EncodeInput, ends_bind]
      refine (hwritten.step x (by omega)).mono ?_
      rintro ⟨b64', output', full⟩ ⟨hwritten', holen⟩
      dsimp only at holen ⊢
      rw [holen, show octets ++ x :: input = octets ++ [x] ++ input by simp]
      refine ih hwritten' ?_
      rw [List.length_append, List.length_singleton]
      omega

theorem b64EncodeBuffer_ends {b64 : B64Coder} {output : Buffer n} {octets : List Octet}
    (hwritten : Written b64 output octets) (input : List Octet)
    (hroom : (octets.length + input.length) * 4 / 3 + 1 ≤ n) :
    (b64EncodeBuffer b64 input output n (octets.length * 4 / 3)).Ends fun r =>
      Written r.1 r.2.1 (octets ++ input) ∧ r.2.2.1 = (octets ++ input).length * 4 / 3 := by
  have hrolled : octets.length * 4 / 3 - octets.length * 4 / 3 % 4 = octets.length / 3 * 4 := by
    omega
  rw [b64EncodeBuffer, if_neg (by omega), hrolled, ends_bind]
  refine (b64EncodeInput_ends input hwritten (by omega)).mono ?_
  rintro ⟨b64', output', olen⟩ ⟨hwritten', rfl⟩
  have htaken := taken_heldOf (octets ++ input)
  have hlen : (octets ++ input).length = octets.length + input.length := List.length_append
  have holen : (octets ++ input).length / 3 * 4 + (heldOf (octets ++ input)).taken =
      (octets ++ input).length * 4 / 3 := by omega
  have hnul : (octets ++ input).length * 4 / 3 + 1 ≤ n := by omega
  dsimp only at hwritten' ⊢
  rw [b64PartialLength_of_holds hwritten'.holds, holen,
    (output'.yields_write [0] hnul).bind_ends_iff, ends_pure]
  obtain ⟨rest, hrest⟩ := hwritten'.splice [0] hnul
  exact ⟨⟨hwritten'.holds, _, hrest.trans (List.append_assoc _ _ _)⟩, rfl⟩

/-- The output holds a text and its length, and the text ends in a NUL. -/
def HoldsText (r : B64Coder × Buffer n × Nat × B64Return) (text : List Octet) : Prop :=
  (∃ rest, r.2.1.octets = text ++ 0 :: rest) ∧ r.2.2.1 = text.length ∧ r.2.2.2 = .ok

theorem b64FinishAt_ends {b64 : B64Coder} {output : Buffer n} {text rest : List Octet}
    (houtput : output.octets = text ++ rest) (hroom : text.length + 1 ≤ n) (olen : Nat)
    (holen : olen = text.length) :
    (b64FinishAt b64 output olen).Ends (HoldsText · text) := by
  subst holen
  have hlen := output.length_octets
  rw [houtput, List.length_append] at hlen
  rw [b64FinishAt, (output.yields_write [0] hroom).bind_ends_iff, ends_pure]
  refine ⟨⟨_, (Buffer.octets_splice_append houtput ?_).trans (List.append_assoc _ _ _)⟩, rfl, rfl⟩
  rw [List.length_singleton]
  omega

theorem closing_finish_ends {b64 : B64Coder} {output : Buffer n} {octets : List Octet}
    (hwritten : Written b64 output octets)
    (hroom : octets.length * 4 / 3 + (closing padCharacter (heldOf octets)).length + 1 ≤ n) :
    (output.write (octets.length * 4 / 3 : Nat) (closing padCharacter (heldOf octets)) >>= fun output =>
      b64FinishAt b64 output (octets.length * 4 / 3 + (closing padCharacter (heldOf octets)).length)).Ends
      (HoldsText · (base64 octets)) := by
  have hfull : (base64 octets).length =
      octets.length * 4 / 3 + (closing padCharacter (heldOf octets)).length := by
    rw [base64_eq, List.length_append, length_encoded]
  obtain ⟨rest, hrest⟩ := hwritten.splice (closing padCharacter (heldOf octets)) (by omega)
  rw [← base64_eq] at hrest
  rw [(output.yields_write _ (by omega)).bind_ends_iff]
  exact b64FinishAt_ends hrest (by omega) _ hfull.symm

theorem b64EncodeFinish_ends {b64 : B64Coder} {output : Buffer n} {octets : List Octet}
    (hwritten : Written b64 output octets)
    (hsize : n = b64EncodeGetOutputSize octets.length) :
    (b64EncodeFinish b64 output n (octets.length * 4 / 3) false).Ends
      (HoldsText · (base64 octets)) := by
  have htaken := taken_heldOf octets
  have hholds := hwritten.holds
  have hclose := closing_finish_ends hwritten
  rw [b64EncodeGetOutputSize] at hsize
  rw [b64EncodeFinish, if_neg (by omega)]
  cases hheld : heldOf octets with
  | none =>
      rw [hheld] at hholds htaken
      have hmod : octets.length % 3 = 0 := htaken.symm
      have htext : base64 octets = encoded octets := by
        rw [base64_eq, hheld, closing, List.append_nil]
      obtain ⟨rest, hrest⟩ := hwritten.output
      have hlength := length_encoded octets
      rw [← htext] at hrest hlength
      have hends : (b64FinishAt b64 output (octets.length * 4 / 3)).Ends
          (HoldsText · (base64 octets)) :=
        b64FinishAt_ends hrest (by omega) _ hlength.symm
      rcases hholds with hstate | hstate
      all_goals
        rw [hstate]
        simpa [show ¬ n < octets.length * 4 / 3 + 5 by omega] using hends
  | two value =>
      rw [hheld] at hholds htaken hclose
      have hmod : octets.length % 3 = 1 := htaken.symm
      obtain ⟨hstate, rfl, -⟩ := hholds
      simp only [hstate, if_neg (show ¬ n < octets.length * 4 / 3 + 3 by omega)]
      exact hclose (show _ + 3 + 1 ≤ n by omega)
  | four value =>
      rw [hheld] at hholds htaken hclose
      have hmod : octets.length % 3 = 2 := htaken.symm
      obtain ⟨hstate, rfl, -⟩ := hholds
      simp only [hstate, if_neg (show ¬ n < octets.length * 4 / 3 + 3 by omega)]
      exact hclose (show _ + 2 + 1 ≤ n by omega)

/-- However a string is cut into chunks, the buffer holds its text in the end. -/
theorem b64EncodeChunks_ends (chunks : List (List Octet)) : ∀ {b64 : B64Coder} {output : Buffer n}
    {octets : List Octet}, Written b64 output octets →
    n = b64EncodeGetOutputSize (octets ++ chunks.flatten).length →
    (b64EncodeChunks b64 output (octets.length * 4 / 3) chunks).Ends
      (HoldsText · (base64 (octets ++ chunks.flatten))) := by
  induction chunks with
  | nil =>
      intro b64 output octets hwritten hsize
      rw [List.flatten_nil, List.append_nil] at hsize ⊢
      exact b64EncodeFinish_ends hwritten hsize
  | cons input chunks ih =>
      intro b64 output octets hwritten hsize
      rw [List.flatten_cons, ← List.append_assoc] at hsize ⊢
      have hroom : (octets.length + input.length) * 4 / 3 + 1 ≤ n := by
        rw [hsize, b64EncodeGetOutputSize]
        simp only [List.length_append]
        omega
      rw [b64EncodeChunks, ends_bind]
      refine (b64EncodeBuffer_ends hwritten input hroom).mono ?_
      rintro ⟨b64', output', olen, ret⟩ ⟨hwritten', rfl⟩
      exact ih hwritten' hsize

end Snert
