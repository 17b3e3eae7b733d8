/-
Module: Snert.Proofs.Base64RoundTrip
Purpose: Base64 text read back. The decoder of util/b64.c gives the octets a text was made from, with
  any octets of no meaning put in between, up to one slip: its table gives NUL the value of the padding
  character, so a NUL among the characters of the text ends the decoding there.
Trusted boundary: none
Main exports: b64_roundTrips_iff
-/
import Mathlib.Data.List.TakeWhile
import Snert.Proofs.Base64Text

namespace Snert

open CModel CModel.Run Lists

/-! ### Decoding values -/

/-- Take values one by one: all that is returned. -/
def b64StepAll (b64 : B64) : List Nat → List B64Result
  | [] => []
  | v :: values => (b64Step b64 v).2 :: b64StepAll (b64Step b64 v).1 values

/-- What is returned other than `BASE64_NEXT`. -/
def told (b64 : B64) (values : List Nat) : List B64Result :=
  (b64StepAll b64 values).filter (· ≠ .next)

theorem told_cons (b64 : B64) (v : Nat) (values : List Nat) :
    told b64 (v :: values) =
      ([(b64Step b64 v).2].filter (· ≠ .next)) ++ told (b64Step b64 v).1 values := by
  rw [told, b64StepAll, told, List.filter_cons, List.filter_cons]
  split <;> simp

/-- How many characters of a quantum the decoder has taken. -/
def quantumPosition : B64State → Option Nat
  | .start | .decodeA => some 0
  | .decodeB => some 1
  | .decodeC => some 2
  | .decodeD => some 3
  | _ => none

theorem b64Step_first {b64 : B64} {v : Nat} (hv : v < 64)
    (hstate : quantumPosition b64.state = some 0) : b64Step b64 v = (⟨v, .decodeB⟩, .next) := by
  have hne : v ≠ 64 := by omega
  unfold b64Step
  cases hs : b64.state with
  | start | decodeA => simp [hne]
  | _ => simp [hs, quantumPosition] at hstate

theorem b64Step_second {w x : Nat} (hx : x < 64) :
    b64Step ⟨w, .decodeB⟩ x = (⟨x, .decodeC⟩, .octet (firstOctet w x)) := by
  have hor : w * 4 ||| x / 16 = w * 4 + x / 16 := by
    rw [Nat.mul_comm]
    exact hold_or (i := 2) (by omega)
  simp [b64Step, hor, firstOctet, show x ≠ 64 by omega]

theorem b64Step_third {x y : Nat} (hy : y < 64) :
    b64Step ⟨x, .decodeC⟩ y = (⟨y, .decodeD⟩, .octet (secondOctet x y)) := by
  have hor : x * 16 ||| y / 4 = x * 16 + y / 4 := by
    rw [Nat.mul_comm]
    exact hold_or (i := 4) (by omega)
  simp [b64Step, hor, secondOctet, show y ≠ 64 by omega]

theorem b64Step_fourth {y z : Nat} (hz : z < 64) :
    b64Step ⟨y, .decodeD⟩ z = (⟨y, .decodeA⟩, .octet (thirdOctet y z)) := by
  have hor : y * 64 ||| z = y * 64 + z := by
    rw [Nat.mul_comm]
    exact hold_or (i := 6) hz
  simp [b64Step, hor, thirdOctet, show z ≠ 64 by omega]

theorem told_next {b64 b64' : B64} {v : Nat} (h : b64Step b64 v = (b64', .next))
    (values : List Nat) : told b64 (v :: values) = told b64' values := by
  rw [told_cons, h]
  rfl

theorem told_octet {b64 b64' : B64} {v : Nat} {c : Octet} (h : b64Step b64 v = (b64', .octet c))
    (values : List Nat) : told b64 (v :: values) = .octet c :: told b64' values := by
  rw [told_cons, h]
  rfl

theorem told_data (values : List Nat) : ∀ {b64 : B64}, (∀ v ∈ values, v < 64) →
    quantumPosition b64.state = some 0 →
    ∃ b64', quantumPosition b64'.state = some (values.length % 4) ∧ ∀ rest,
      told b64 (values ++ rest) = (octetsOf values).map .octet ++ told b64' rest := by
  induction values using octetsOf.induct with
  | case1 w x y z values ih =>
      intro b64 hvalues hstate
      simp only [List.forall_mem_cons] at hvalues
      obtain ⟨hw, hx, hy, hz, hvalues⟩ := hvalues
      obtain ⟨b64', hstate', htold⟩ := @ih ⟨y, .decodeA⟩ hvalues rfl
      refine ⟨b64', ?_, fun rest => ?_⟩
      · rw [hstate']
        simp only [List.length_cons]
        exact congrArg some (by omega)
      · simp only [List.cons_append, told_next (b64Step_first hw hstate),
          told_octet (b64Step_second hx), told_octet (b64Step_third hy),
          told_octet (b64Step_fourth hz), htold, octetsOf, List.map_cons]
  | case2 w x y =>
      intro b64 hvalues hstate
      simp only [List.forall_mem_cons] at hvalues
      obtain ⟨hw, hx, hy, -⟩ := hvalues
      refine ⟨⟨y, .decodeD⟩, rfl, fun rest => ?_⟩
      simp only [List.cons_append, told_next (b64Step_first hw hstate),
        told_octet (b64Step_second hx), told_octet (b64Step_third hy), octetsOf, List.map_cons,
        List.map_nil, List.nil_append]
  | case3 w x =>
      intro b64 hvalues hstate
      simp only [List.forall_mem_cons] at hvalues
      obtain ⟨hw, hx, -⟩ := hvalues
      refine ⟨⟨x, .decodeC⟩, rfl, fun rest => ?_⟩
      simp only [List.cons_append, told_next (b64Step_first hw hstate),
        told_octet (b64Step_second hx), octetsOf, List.map_cons, List.map_nil, List.nil_append]
  | case4 w =>
      intro b64 hvalues hstate
      have hw : w < 64 := hvalues w (List.mem_singleton_self w)
      refine ⟨⟨w, .decodeB⟩, rfl, fun rest => ?_⟩
      simp only [List.cons_append, List.nil_append, told_next (b64Step_first hw hstate), octetsOf,
        List.map_nil]
  | case5 => exact fun _ hstate => ⟨_, hstate, fun _ => rfl⟩

/-! ### Padding -/

theorem told_padding (k : Nat) : ∀ {b64 : B64}, b64.state ≠ .decodeB →
    ∀ r ∈ told b64 (List.replicate k 64), r = .eof := by
  induction k with
  | zero => exact fun _ => nofun
  | succ k ih =>
      intro b64 hstate
      rw [List.replicate_succ, told_cons]
      have hstep : (b64Step b64 64).1.state ≠ .decodeB ∧
          ((b64Step b64 64).2 = .next ∨ (b64Step b64 64).2 = .eof) := by
        unfold b64Step
        cases hs : b64.state with
        | decodeB => exact absurd hs hstate
        | eof => exact ⟨by simp [hs], .inr rfl⟩
        | decodeD | decodePad1 => exact ⟨nofun, .inr rfl⟩
        | _ => exact ⟨nofun, .inl rfl⟩
      rw [List.forall_mem_append]
      refine ⟨?_, ih hstep.1⟩
      rcases hstep.2 with hnext | heof
      · simp [hnext]
      · simp [heof]

/-- Padding has been seen. -/
def Padded : B64State → Prop
  | .decodePad3 | .decodePad2 | .decodePad1 | .eof => True
  | _ => False

theorem told_padded (values : List Nat) : ∀ {b64 : B64}, Padded b64.state →
    ∀ c, B64Result.octet c ∉ told b64 values := by
  induction values with
  | nil => exact fun _ _ => nofun
  | cons v values ih =>
      intro b64 hpadded c
      have hstep : Padded (b64Step b64 v).1.state ∧ (b64Step b64 v).2 ≠ .octet c := by
        unfold b64Step
        cases hs : b64.state with
        | decodePad3 | decodePad2 | decodePad1 =>
            dsimp only
            split
            · exact ⟨trivial, nofun⟩
            · exact ⟨by rwa [hs] at hpadded ⊢, nofun⟩
        | eof => exact ⟨by rwa [hs] at hpadded ⊢, nofun⟩
        | _ =>
            rw [hs] at hpadded
            exact hpadded.elim
      rw [told_cons, List.mem_append, not_or]
      exact ⟨fun hmem => hstep.2 (List.mem_singleton.mp (List.mem_of_mem_filter hmem)).symm,
        ih hstep.1 c⟩

/-! ### When a text is read back exactly -/

/-- What is told before `BASE64_EOF`. -/
def toldToEof (b64 : B64) (values : List Nat) : List B64Result :=
  (told b64 values).takeWhile (· ≠ .eof)

theorem pairwise_padding_iff (values : List Nat) :
    values.Pairwise (fun v w => v = 64 → w = 64) ↔ ∀ v ∈ values.dropWhile (· ≠ 64), v = 64 := by
  induction values with
  | nil => simp
  | cons v values ih =>
      rw [List.pairwise_cons]
      by_cases hv : v = 64
      · subst hv
        simp only [ne_eq, decide_not, List.dropWhile_cons, Bool.false_eq_true, if_false,
          List.forall_mem_cons, true_and, forall_const, decide_true, Bool.not_true]
        refine ⟨And.left, fun hall => ⟨hall, ih.mpr fun w hw => ?_⟩⟩
        exact hall w ((List.dropWhile_sublist _).mem hw)
      · simp [hv, ih]

theorem takeWhile_octets (octets : List Octet) (results : List B64Result) :
    (octets.map B64Result.octet ++ results).takeWhile (· ≠ .eof) =
      octets.map B64Result.octet ++ results.takeWhile (· ≠ .eof) :=
  List.takeWhile_append_of_pos fun r hr => by
    obtain ⟨c, -, rfl⟩ := List.mem_map.mp hr
    rfl

theorem toldToEof_of_padded {b64 : B64} (hstate : quantumPosition b64.state = some 0)
    (octets : List Octet) (k : Nat) :
    toldToEof b64 (sextets octets ++ List.replicate k 64) = octets.map .octet := by
  obtain ⟨b64', hstate', htold⟩ := told_data (sextets octets) (sextets_lt octets) hstate
  have hnotB : b64'.state ≠ .decodeB := by
    intro hB
    rw [hB] at hstate'
    exact length_sextets_mod octets (Option.some.inj hstate').symm
  have heof := told_padding k hnotB
  rw [toldToEof, htold, takeWhile_octets, octetsOf_sextets]
  have hnone : (told b64' (List.replicate k 64)).takeWhile (· ≠ .eof) = [] := by
    cases hr : told b64' (List.replicate k 64) with
    | nil => rfl
    | cons r results =>
        obtain rfl := heof r (by rw [hr]; exact List.mem_cons_self)
        rfl
  rw [hnone, List.append_nil]

theorem toldToEof_ne_of_early {b64 : B64} (hstate : quantumPosition b64.state = some 0)
    {octets : List Octet} {front rest : List Nat} (hfront : ∀ v ∈ front, v < 64)
    (hshort : front.length < (sextets octets).length) :
    toldToEof b64 (front ++ 64 :: rest) ≠ octets.map .octet := by
  obtain ⟨b64', hstate', htold⟩ := told_data front hfront hstate
  intro heq
  rw [toldToEof, htold, takeWhile_octets] at heq
  have hoctets : ∀ r ∈ (told b64' (64 :: rest)).takeWhile (· ≠ .eof), ∃ c, r = .octet c := by
    intro r hr
    have hmem : r ∈ octets.map B64Result.octet := heq ▸ List.mem_append_right _ hr
    obtain ⟨c, -, rfl⟩ := List.mem_map.mp hmem
    exact ⟨c, rfl⟩
  have hlen := congrArg List.length heq
  rw [List.length_append, List.length_map, List.length_map, length_octetsOf] at hlen
  have htotal : octets.length = (sextets octets).length * 3 / 4 := by
    rw [← length_octetsOf, octetsOf_sextets]
  have hmod := length_sextets_mod octets
  -- Where the padding stands decides: an error at once, or no octet any more.
  have hstep : (b64'.state = .decodeB → (b64Step b64' 64).2 = .error) ∧
      (b64'.state ≠ .decodeB → Padded (b64Step b64' 64).1.state ∧
        ∀ c, (b64Step b64' 64).2 ≠ .octet c) := by
    unfold b64Step
    cases hs : b64'.state with
    | decodeB => exact ⟨fun _ => rfl, fun h => absurd rfl h⟩
    | start | decodeA | decodeC | decodeD => exact ⟨nofun, fun _ => ⟨trivial, nofun⟩⟩
    | _ => simp [hs, quantumPosition] at hstate'
  by_cases hB : b64'.state = .decodeB
  · obtain ⟨c, hc⟩ := hoctets .error (by rw [told_cons, hstep.1 hB]; simp)
    cases hc
  · obtain ⟨hpadded, hno⟩ := hstep.2 hB
    have hnone : (told b64' (64 :: rest)).takeWhile (· ≠ .eof) = [] := by
      refine List.eq_nil_iff_forall_not_mem.mpr fun r hr => ?_
      obtain ⟨c, rfl⟩ := hoctets r hr
      have hmem := (List.takeWhile_sublist _).mem hr
      rw [told_cons, List.mem_append] at hmem
      rcases hmem with hmem | hmem
      · exact hno c (List.mem_singleton.mp (List.mem_of_mem_filter hmem)).symm
      · exact told_padded rest hpadded c hmem
    have hposition : front.length % 4 ≠ 1 := by
      intro hone
      rw [hone] at hstate'
      cases hs : b64'.state with
      | decodeB => exact hB hs
      | _ => simp [hs, quantumPosition] at hstate'
    rw [hnone, List.length_nil] at hlen
    have hthree : front.length % 4 = 0 ∨ front.length % 4 = 2 ∨ front.length % 4 = 3 := by omega
    rcases hthree with h | h | h
    · omega
    · omega
    · omega

theorem toldToEof_eq_iff {b64 : B64} (hstate : quantumPosition b64.state = some 0)
    {octets : List Octet} {values : List Nat} (hvalues : values.filter (· ≠ 64) = sextets octets) :
    toldToEof b64 values = octets.map .octet ↔
      values.Pairwise fun v w => v = 64 → w = 64 := by
  rw [pairwise_padding_iff]
  have hsplit := List.takeWhile_append_dropWhile (p := (· ≠ 64)) (l := values)
  have hfront : ∀ v ∈ values.takeWhile (· ≠ 64), v ≠ 64 := fun v hv => by
    simpa using List.mem_takeWhile_imp hv
  generalize values.takeWhile (· ≠ 64) = front at hsplit hfront
  generalize hback : values.dropWhile (· ≠ 64) = back at hsplit
  subst hsplit
  have hfilter : front.filter (· ≠ 64) = front :=
    List.filter_eq_self.mpr fun v hv => by simpa using hfront v hv
  rw [List.filter_append, hfilter] at hvalues
  have hlt : ∀ v ∈ front, v < 64 := fun v hv =>
    sextets_lt octets v (hvalues ▸ List.mem_append_left _ hv)
  by_cases hall : ∀ v ∈ back, v = 64
  · have hnone : back.filter (· ≠ 64) = [] :=
      List.filter_eq_nil_iff.mpr fun v hv => by simpa using hall v hv
    rw [hnone, List.append_nil] at hvalues
    rw [hvalues, List.eq_replicate_of_mem hall]
    exact ⟨fun _ v hv => (List.mem_replicate.mp hv).2, fun _ => toldToEof_of_padded hstate octets _⟩
  · refine iff_of_false ?_ hall
    obtain ⟨v, hv, hne⟩ : ∃ v ∈ back, v ≠ 64 := by simpa using hall
    cases back with
    | nil => cases hv
    | cons w rest =>
        obtain rfl : w = 64 := by
          have hhead := List.head?_dropWhile_not (fun v => decide (v ≠ 64)) (front ++ w :: rest)
          rw [hback] at hhead
          simpa using hhead
        refine toldToEof_ne_of_early hstate hlt ?_
        have hlen := congrArg List.length hvalues
        have hpos : 0 < ((64 :: rest).filter (· ≠ 64)).length :=
          List.length_pos_of_mem (List.mem_filter.mpr ⟨hv, by simpa using hne⟩)
        rw [List.length_append] at hlen
        omega

/-! ### What the octets of a text mean -/

/-- An octet of Base64 text: one of the alphabet, or padding. -/
def isBase64 (c : Octet) : Bool :=
  c ∈ encodeSet || c = padCharacter

/-- The values of the octets that have one. -/
def b64Values (input : List Octet) : List Nat :=
  input.filterMap fun c => b64Value (some c)

theorem b64Values_cons (c : Octet) (input : List Octet) :
    b64Values (c :: input) = (b64Value (some c)).toList ++ b64Values input := by
  rw [b64Values, List.filterMap_cons]
  cases b64Value (some c) <;> rfl

theorem b64Value_meaning (c : Octet) :
    (b64Value (some c) = some 64 ↔ c = 0 ∨ c = padCharacter) ∧
      (c ∈ encodeSet ↔ ∃ v ∈ b64Value (some c), v ≠ 64) := by
  have hoff : padCharacter ∉ encodeSet ∧ 0 ∉ encodeSet := by decide
  have hvalue : b64Value (some c) =
      if c = padCharacter then some 64 else if c = 0 then some 64 else encodeSet.idxOf? c := rfl
  rw [hvalue]
  by_cases hpad : c = padCharacter
  · simp [hpad, hoff.1]
  by_cases hzero : c = 0
  · simp [hzero, hoff.2]
  have hlt {v : Nat} (h : encodeSet.idxOf? c = some v) : v < 64 := by
    obtain ⟨hlength, -⟩ := List.idxOf?_eq_some_iff.mp h
    exact hlength
  rw [if_neg hpad, if_neg hzero]
  refine ⟨iff_of_false (fun h => absurd (hlt h) (by decide)) (not_or.mpr ⟨hzero, hpad⟩), ?_⟩
  rw [← List.isSome_idxOf?, Option.isSome_iff_exists]
  exact exists_congr fun v => (and_iff_left_of_imp fun h => Nat.ne_of_lt (hlt h)).symm

theorem b64Value_encodeChar {v : Nat} (h : v < 64) : b64Value (some (encodeChar v)) = some v := by
  have hnodup : encodeSet.Nodup := by decide +kernel
  have hoff : padCharacter ∉ encodeSet := by decide
  have hmem := encodeChar_mem h
  have hpad : encodeChar v ≠ padCharacter := fun heq => hoff (heq ▸ hmem)
  obtain ⟨hlength, hget⟩ := List.getElem?_eq_some_iff.mp (encodeChar_eq h)
  rw [b64Value, if_neg (show ¬ encodeChar v = ch '=' from hpad), decodeSet, if_neg (encodeChar_ne_zero h), List.idxOf?_eq_some_iff]
  refine ⟨hlength, hget, fun j hj heq => ?_⟩
  exact absurd ((List.Nodup.getElem_inj_iff hnodup).mp (heq.trans hget.symm)) (Nat.ne_of_lt hj)

theorem b64Decoded_eq (input : List Octet) (b64 : B64) :
    b64Decoded b64 input = toldToEof b64 (b64Values input) := by
  have hresults : ∀ b64, (b64DecodeOctets b64 input).filter (· ≠ .next) =
      told b64 (b64Values input) := by
    induction input with
    | nil => exact fun _ => rfl
    | cons c input ih =>
        intro b64
        cases hvalue : b64Value (some c) with
        | none =>
            have hdecode : b64Decode b64 (some c) = (b64, .next) := by rw [b64Decode, hvalue]
            rw [b64DecodeOctets, hdecode, b64Values_cons, hvalue]
            exact ih b64
        | some v =>
            have hdecode : b64Decode b64 (some c) = b64Step b64 v := by rw [b64Decode, hvalue]
            rw [b64DecodeOctets, hdecode, b64Values_cons, hvalue, Option.toList_some,
              List.singleton_append, told_cons, List.filter_cons, List.filter_cons, ih]
            split <;> rfl
  rw [b64Decoded, hresults, toldToEof]

theorem filter_b64Values {octets junked : List Octet}
    (hjunked : junked.filter isBase64 = base64 octets) :
    (b64Values junked).filter (· ≠ 64) = sextets octets := by
  have hvalue : ∀ c, isBase64 c = false → (b64Value (some c)).filter (· ≠ 64) = none := by
    intro c hc
    have hmeaning := (b64Value_meaning c).2
    rw [isBase64, Bool.or_eq_false_iff] at hc
    have hnot := (not_congr hmeaning).mp (by simpa using hc.1)
    cases hv : b64Value (some c) with
    | none => rfl
    | some v =>
        rw [hv] at hnot
        simpa using hnot
  have hskip : ∀ l : List Octet, (b64Values l).filter (· ≠ 64) =
      (l.filter isBase64).filterMap fun c => (b64Value (some c)).filter (· ≠ 64) := by
    intro l
    rw [b64Values, List.filter_filterMap, List.filterMap_filter]
    refine List.filterMap_congr fun c _ => ?_
    cases hc : isBase64 c with
    | false => simpa using hvalue c hc
    | true => simp
  have hpad : (List.replicate ((3 - octets.length % 3) % 3) padCharacter).filterMap
      (fun c => (b64Value (some c)).filter (· ≠ 64)) = [] :=
    List.filterMap_eq_nil_iff.mpr fun c hc => by
      rw [(List.mem_replicate.mp hc).2]
      rfl
  rw [hskip, hjunked, base64, paddedText, List.filterMap_append, hpad, List.append_nil, List.filterMap_map]
  conv_rhs => rw [← List.filterMap_some (l := sextets octets)]
  refine List.filterMap_congr fun v hv => ?_
  have hlt := sextets_lt octets v hv
  rw [Function.comp_apply, b64Value_encodeChar hlt]
  simp [show v ≠ 64 by omega]

theorem padCharacter_notMem : padCharacter ∉ encodeSet := by
  decide

theorem pairwise_base64 (octets : List Octet) :
    (base64 octets).Pairwise fun c d => c = padCharacter → d ∉ encodeSet := by
  rw [base64, paddedText, List.pairwise_append]
  have hchars : ∀ c ∈ (sextets octets).map encodeChar, c ≠ padCharacter := by
    intro c hc hpad
    obtain ⟨v, hv, rfl⟩ := List.mem_map.mp hc
    exact padCharacter_notMem (hpad ▸ encodeChar_mem (sextets_lt octets v hv))
  have hpads : ∀ k, ∀ d ∈ List.replicate k padCharacter, d ∉ encodeSet := by
    intro k d hd
    rw [(List.mem_replicate.mp hd).2]
    exact padCharacter_notMem
  refine ⟨?_, ?_, ?_⟩
  · exact List.pairwise_of_forall_mem_list fun c hc _ _ hpad => absurd hpad (hchars c hc)
  · exact List.pairwise_of_forall_mem_list fun _ _ d hd _ => hpads _ d hd
  · exact fun c hc _ _ hpad => absurd hpad (hchars c hc)

theorem pairwise_b64Values_iff {octets junked : List Octet}
    (hjunked : junked.filter isBase64 = base64 octets) :
    (b64Values junked).Pairwise (fun v w => v = 64 → w = 64) ↔
      junked.Pairwise fun c d => c = 0 → d ∉ encodeSet := by
  have hpad : junked.Pairwise fun c d => c = padCharacter → d ∉ encodeSet := by
    have htext := hjunked ▸ pairwise_base64 octets
    rw [List.pairwise_filter] at htext
    refine htext.imp fun {c d} h hc hd => ?_
    exact h (by simp [isBase64, hc]) (by simp [isBase64, hd]) hc hd
  rw [b64Values, List.pairwise_filterMap]
  have hmeaning : ∀ c d : Octet, (∀ v, b64Value (some c) = some v → ∀ w, b64Value (some d) = some w →
      v = 64 → w = 64) ↔ (c = 0 → d ∉ encodeSet) ∧ (c = padCharacter → d ∉ encodeSet) := by
    intro c d
    rw [← or_imp, ← (b64Value_meaning c).1, (b64Value_meaning d).2]
    simp only [not_exists, not_and, not_not, Option.mem_def]
    constructor
    · exact fun h hc w hw => h 64 hc w hw rfl
    · rintro h v hv w hw rfl
      exact h hv w hw
  simp only [hmeaning, List.pairwise_and_iff, hpad, and_true]

/-! ### Round trips -/

/-- Encoded octet by octet, and in chunks into a buffer, a string gives its Base64 text, all writes
staying in the buffer; and decoding that text, with octets put in between, gives the string back. -/
def B64RoundTrips (b64 : B64Coder) (quantum : Buffer 5) (chunks : List (List Octet))
    (output : Buffer (b64EncodeGetOutputSize chunks.flatten.length)) (decoder : B64)
    (junked : List Octet) : Prop :=
  (b64ResetCoder b64 quantum >>= fun r => b64EncodeOctets r.1 r.2 chunks.flatten).Yields
      (base64 chunks.flatten) ∧
    (b64ResetCoder b64 quantum >>= fun r => b64EncodeChunks r.1 output 0 chunks).Ends
      (HoldsText · (base64 chunks.flatten)) ∧
    b64Decoded (b64Reset decoder) junked = chunks.flatten.map .octet

theorem b64ResetCoder_yields (b64 : B64Coder) (quantum : Buffer 5) :
    ∃ quantum', QuantumBegun quantum' [] .none ∧ (b64ResetCoder b64 quantum).Yields
      ({ b64 with state := .decoding .start }, quantum') := by
  refine ⟨quantum.splice 4 [0], ⟨⟨quantum.octets.take 4, ?_⟩, rfl, nofun⟩,
    (quantum.yields_write [0] (i := 4) (by decide)).bind (yields_pure _)⟩
  have hlen := quantum.length_octets
  rw [Buffer.octets_splice _ (by decide), List.drop_of_length_le (by rw [hlen]; decide)]
  simp

theorem b64_encodes (b64 : B64Coder) (quantum : Buffer 5) (chunks : List (List Octet))
    (output : Buffer (b64EncodeGetOutputSize chunks.flatten.length)) :
    (b64ResetCoder b64 quantum >>= fun r => b64EncodeOctets r.1 r.2 chunks.flatten).Yields
        (base64 chunks.flatten) ∧
      (b64ResetCoder b64 quantum >>= fun r => b64EncodeChunks r.1 output 0 chunks).Ends
        (HoldsText · (base64 chunks.flatten)) := by
  obtain ⟨quantum', hbegun, hreset⟩ := b64ResetCoder_yields b64 quantum
  refine ⟨hreset.bind ?_, hreset.bind_ends_iff.mpr ?_⟩
  · have hholds : HoldsBits { b64 with state := .decoding .start } .none := .inl rfl
    have hquanta := b64EncodeOctets_yields chunks.flatten hholds hbegun
    rwa [base64From_none] at hquanta
  · have hwritten : Written { b64 with state := .decoding .start } output [] :=
      ⟨.inl rfl, output.octets, rfl⟩
    exact b64EncodeChunks_ends chunks hwritten rfl

theorem b64Decoded_eq_iff (decoder : B64) {octets junked : List Octet}
    (hjunked : junked.filter isBase64 = base64 octets) :
    b64Decoded (b64Reset decoder) junked = octets.map .octet ↔
      junked.Pairwise fun c d => c = 0 → d ∉ encodeSet := by
  rw [b64Decoded_eq, ← pairwise_b64Values_iff hjunked]
  exact toldToEof_eq_iff rfl (filter_b64Values hjunked)

/-- A string goes through the encoders and the decoder unharmed exactly if no NUL is put in before an
octet of the alphabet. -/
theorem b64_roundTrips_iff (b64 : B64Coder) (quantum : Buffer 5) (chunks : List (List Octet))
    (output : Buffer (b64EncodeGetOutputSize chunks.flatten.length)) (decoder : B64)
    (junked : List Octet) (hjunked : junked.filter isBase64 = base64 chunks.flatten) :
    B64RoundTrips b64 quantum chunks output decoder junked ↔
      junked.Pairwise fun c d => c = 0 → d ∉ encodeSet := by
  obtain ⟨hquanta, hbuffer⟩ := b64_encodes b64 quantum chunks output
  rw [B64RoundTrips, ← b64Decoded_eq_iff decoder hjunked]
  exact ⟨fun h => h.2.2, fun h => ⟨hquanta, hbuffer, h⟩⟩

/-- The text of `M`, with a blank in it. -/
theorem b64_roundTrips_blank :
    B64RoundTrips ⟨0, .decoding .start⟩ (.replicate 5 0) [[ch 'M']] (.replicate 5 0) ⟨0, .start⟩
        (ascii "T Q==") ↔
      (ascii "T Q==").Pairwise fun c d => c = 0 → d ∉ encodeSet :=
  b64_roundTrips_iff _ _ _ _ _ _ (by decide)

/-- The text of `M`, with a NUL in it: decoding stops with an error. -/
theorem b64_not_roundTrips : ¬ ∀ (b64 : B64Coder) (quantum : Buffer 5) (chunks : List (List Octet))
    (output : Buffer (b64EncodeGetOutputSize chunks.flatten.length)) (decoder : B64)
    (junked : List Octet), junked.filter isBase64 = base64 chunks.flatten →
    B64RoundTrips b64 quantum chunks output decoder junked := by
  intro h
  have hjunked := h ⟨0, .decoding .start⟩ (.replicate 5 0) [[ch 'M']] (.replicate 5 0) ⟨0, .start⟩
    [ch 'T', 0, ch 'Q', ch '=', ch '='] (by decide)
  exact absurd hjunked.2.2 (by decide)

end Snert
