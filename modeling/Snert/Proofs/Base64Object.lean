/-
Module: Snert.Proofs.Base64Object
Purpose: The Base64 object over any number of calls. What a call writes is what the octets of the call
  add to the text, so the joined output is the text. The memory allocated for a call is enough but for
  one case: a last call that finds two octets of a quantum taken and brings two more than it has full
  quanta. Decoding the text gives the octets back.
Trusted boundary: none
Main exports: Base64_roundTrips_iff
-/
import Snert.Proofs.Base64RoundTrip
import Snert.Util.Base64Object

namespace Snert

open CModel CModel.Run Lists

variable {n : Nat}

/-! ### Characters put -/

/-- Code puts characters behind the `length` ones that are there and goes on as `self`: it stays in
bounds exactly if there is room for them too. -/
def Base64Puts (x : Run (Base64 × Buffer n × Nat)) (octets : Buffer n) (length : Nat) (self : Base64)
    (os : List Octet) : Prop :=
  length ≤ n → ∀ Q, x.Ends Q ↔
    length + os.length ≤ n ∧ Q (self, octets.splice length os, length + os.length)

theorem ends_write_nat (b : Buffer n) (i : Nat) (os : List Octet) {Q : Buffer n → Prop} :
    (b.write i os).Ends Q ↔ i + os.length ≤ n ∧ Q (b.splice i os) := by
  rw [Buffer.ends_write, Int.toNat_natCast]
  refine and_congr_left fun _ => ?_
  omega

theorem puts_write (self : Base64) (octets : Buffer n) (length : Nat) (os : List Octet) :
    Base64Puts (octets.write length os >>= fun octets => pure (self, octets, length + os.length)) octets
      length self os := by
  intro _ Q
  rw [ends_bind, ends_write_nat, ends_pure]

theorem Base64Puts.bind {x : Run (Base64 × Buffer n × Nat)} {octets : Buffer n} {length : Nat}
    {self self' : Base64} {os os' : List Octet} {f : Base64 × Buffer n × Nat →
      Run (Base64 × Buffer n × Nat)} (hx : Base64Puts x octets length self os)
    (hf : ∀ octets, Base64Puts (f (self, octets, length + os.length)) octets (length + os.length) self' os') :
    Base64Puts (x >>= f) octets length self' (os ++ os') := by
  intro hlength Q
  rw [ends_bind, hx hlength, List.length_append, ← Nat.add_assoc]
  constructor
  · rintro ⟨hfirst, hrest⟩
    obtain ⟨hfit, hQ⟩ := (hf _ hfirst Q).mp hrest
    rw [Buffer.splice_splice _ _ _ hfit] at hQ
    exact ⟨hfit, hQ⟩
  · rintro ⟨hfit, hQ⟩
    have hfirst : length + os.length ≤ n := by omega
    refine ⟨hfirst, (hf _ hfirst Q).mpr ⟨hfit, ?_⟩⟩
    rwa [Buffer.splice_splice _ _ _ hfit]

/-! ### Encoding -/

/-- What the object keeps of an encoding. -/
def Base64.coder (self : Base64) : B64Coder :=
  ⟨self.hold, self.state⟩

theorem Base64EncodeOctet_puts {self : Base64} {held : Held} (hholds : HoldsBits self.coder held)
    (x : Octet) : ∃ self', HoldsBits self'.coder (held.put x).2 ∧ self'.pad = self.pad ∧
      ∀ (octets : Buffer n) (length : Nat), Base64Puts (Base64EncodeOctet self x octets length) octets
        length self' ((held.put x).1.map encodeChar) := by
  obtain ⟨h2, h4, h4', h2', h6, h63⟩ := octet_cuts x
  have hx := x.toNat_lt
  cases held with
  | none =>
      refine ⟨{ self with hold := x.toNat <<< 4 &&& 0x30, state := .encoding .encodeB },
        ⟨rfl, by rw [Base64.coder, h4, Nat.mul_comm]; rfl, x.toNat % 4, Nat.mod_lt _ (by decide),
          Nat.mul_comm _ _⟩, rfl, fun octets length => ?_⟩
      rcases hholds with hstate | hstate
      all_goals
        change self.state = _ at hstate
        simp only [Base64EncodeOctet, hstate, h2]
        exact puts_write _ _ _ _
  | two value =>
      obtain ⟨hstate, hhold, k, -, hk⟩ := hholds
      refine ⟨{ self with hold := x.toNat <<< 2 &&& 0x3c, state := .encoding .encodeC },
        ⟨rfl, by rw [Base64.coder, h2', Nat.mul_comm]; rfl, x.toNat % 16, Nat.mod_lt _ (by decide),
          Nat.mul_comm _ _⟩, rfl, fun octets length => ?_⟩
      have hor : self.hold ||| x.toNat / 16 = value + x.toNat / 16 := by
        rw [show self.hold = value from hhold, hk, hold_or (by omega)]
      change self.state = _ at hstate
      simp only [Base64EncodeOctet, hstate, h4', hor]
      exact puts_write _ _ _ _
  | four value =>
      obtain ⟨hstate, hhold, k, -, hk⟩ := hholds
      refine ⟨{ self with state := .encoding .encodeA }, .inr rfl, rfl, fun octets length => ?_⟩
      have hor : self.hold ||| x.toNat / 64 = value + x.toNat / 64 := by
        rw [show self.hold = value from hhold, hk, hold_or (by omega)]
      change self.state = _ at hstate
      simp only [Base64EncodeOctet, hstate, h6, h63, hor]
      exact puts_write _ _ _ _

theorem Base64EncodeInput_puts (s : List Octet) : ∀ {self : Base64} {held : Held},
    HoldsBits self.coder held → ∃ self', HoldsBits self'.coder (held.feed s).2 ∧
      self'.pad = self.pad ∧ ∀ (octets : Buffer n) (length : Nat),
        Base64Puts (Base64EncodeInput self octets length s) octets length self'
          ((held.feed s).1.map encodeChar) := by
  induction s with
  | nil =>
      intro self held hholds
      refine ⟨self, hholds, rfl, fun octets length hlength Q => ?_⟩
      rw [Base64EncodeInput, ends_pure, Held.feed_nil, List.map_nil, Buffer.splice_nil]
      exact ⟨fun hQ => ⟨hlength, hQ⟩, fun h => h.2⟩
  | cons x s ih =>
      intro self held hholds
      obtain ⟨self', hholds', hpad, hputs⟩ := Base64EncodeOctet_puts (n := n) hholds x
      obtain ⟨self'', hholds'', hpad', hputs'⟩ := ih hholds'
      refine ⟨self'', hholds'', hpad'.trans hpad, fun octets length => ?_⟩
      rw [Held.feed_cons, List.map_append]
      exact (hputs octets length).bind fun octets => hputs' octets _

theorem Base64Closing_eq {self : Base64} {held : Held} (hholds : HoldsBits self.coder held) :
    Base64Closing self false = closing self.pad held := by
  cases held with
  | none =>
      rcases hholds with hstate | hstate
      all_goals
        change self.state = _ at hstate
        rw [Base64Closing, hstate]
        rfl
  | two value =>
      obtain ⟨hstate, hhold, -⟩ := hholds
      change self.state = _ at hstate
      rw [Base64Closing, hstate, closing, show self.hold = value from hhold]
  | four value =>
      obtain ⟨hstate, hhold, -⟩ := hholds
      change self.state = _ at hstate
      rw [Base64Closing, hstate, closing, show self.hold = value from hhold]

theorem Base64Puts.ends_return_iff {x : Run (Base64 × Buffer n × Nat)} {octets : Buffer n}
    {self : Base64} {os : List Octet} (hx : Base64Puts x octets 0 self os)
    {Q : Base64 → List Octet → Prop} :
    ((x >>= Base64EncodeReturn).Ends fun r => Q r.1 (r.2.1.octets.take r.2.2.1)) ↔
      os.length + 1 ≤ n ∧ Q self os := by
  have htake : os.length + 1 ≤ n →
      ((octets.splice 0 os).splice os.length [0]).octets.take os.length = os := by
    intro hfit
    have hput := octets.splice_splice os [0] (i := 0) (by rw [List.length_singleton]; omega)
    rw [Nat.zero_add] at hput
    rw [hput, Buffer.octets_splice _ (by simpa using hfit)]
    simp
  rw [ends_bind, hx (Nat.zero_le n), Nat.zero_add, Base64EncodeReturn, ends_bind, ends_write_nat,
    ends_pure, List.length_singleton]
  constructor
  · rintro ⟨-, hfit, hQ⟩
    rw [htake hfit] at hQ
    exact ⟨hfit, hQ⟩
  · rintro ⟨hfit, hQ⟩
    refine ⟨by omega, hfit, ?_⟩
    rwa [htake hfit]

theorem Base64EncodeBuffer_ends_iff {self : Base64} {held : Held}
    (hholds : HoldsBits self.coder held) (s : List Octet)
    (octets : Buffer (Base64EncodeSize s.length)) :
    ∃ self', HoldsBits self'.coder (held.feed s).2 ∧ self'.pad = self.pad ∧
      ∀ Q : Base64 → List Octet → Prop,
        ((Base64EncodeBuffer self (some s) false octets).Ends fun r =>
            Q r.1 (r.2.1.octets.take r.2.2.1)) ↔
          (held.feed s).1.length + 1 ≤ Base64EncodeSize s.length ∧
            Q self' ((held.feed s).1.map encodeChar) := by
  obtain ⟨self', hholds', hpad, hputs⟩ :=
    Base64EncodeInput_puts (n := Base64EncodeSize s.length) s hholds
  refine ⟨self', hholds', hpad, fun Q => ?_⟩
  have hreturn := (hputs octets 0).ends_return_iff (Q := Q)
  rwa [List.length_map] at hreturn

theorem Base64EncodeBuffer_eof_ends_iff {self : Base64} {held : Held}
    (hholds : HoldsBits self.coder held) (s : List Octet)
    (octets : Buffer (Base64EncodeSize s.length)) :
    ∃ self', HoldsBits self'.coder .none ∧ self'.pad = self.pad ∧
      ∀ Q : Base64 → List Octet → Prop,
        ((Base64EncodeBuffer self (some s) true octets).Ends fun r =>
            Q r.1 (r.2.1.octets.take r.2.2.1)) ↔
          (held.feed s).1.length + (closing self.pad (held.feed s).2).length + 1 ≤
              Base64EncodeSize s.length ∧
            Q self' ((held.feed s).1.map encodeChar ++ closing self.pad (held.feed s).2) := by
  obtain ⟨self', hholds', hpad, hputs⟩ :=
    Base64EncodeInput_puts (n := Base64EncodeSize s.length) s hholds
  have hclosing := Base64Closing_eq hholds'
  rw [hpad] at hclosing
  have heof : ∀ octets length, Base64Puts (Base64EncodeEof (n := Base64EncodeSize s.length) self' octets
      length false) octets length { self' with state := .encoding .encodeA }
      (closing self.pad (held.feed s).2) := by
    intro octets length
    rw [Base64EncodeEof, hclosing]
    exact puts_write _ _ _ _
  have hboth := (hputs octets 0).bind (f := fun r => Base64EncodeEof r.1 r.2.1 r.2.2 false)
    fun octets => heof octets _
  refine ⟨{ self' with state := .encoding .encodeA }, .inr rfl, hpad, fun Q => ?_⟩
  have hreturn := hboth.ends_return_iff (Q := Q)
  rw [List.length_append, List.length_map] at hreturn
  simp only [ends_bind] at hreturn
  simp only [Base64EncodeBuffer, Option.isNone_some, Bool.true_or, if_true, ends_bind]
  exact hreturn

/-- The one case in which the memory of the last call is too small. -/
def LastOverflows (taken last : Nat) : Prop :=
  taken % 3 = 2 ∧ last % 3 = 2

instance (taken last : Nat) : Decidable (LastOverflows taken last) :=
  inferInstanceAs (Decidable (_ ∧ _))

theorem length_closing (pad : Octet) (held : Held) :
    held.taken = 0 ∧ (closing pad held).length = 0 ∨ held.taken = 1 ∧ (closing pad held).length = 3 ∨
      held.taken = 2 ∧ (closing pad held).length = 2 := by
  cases held with
  | none => exact .inl ⟨rfl, rfl⟩
  | two => exact .inr (.inl ⟨rfl, rfl⟩)
  | four => exact .inr (.inr ⟨rfl, rfl⟩)

theorem chunk_fits (held : Held) (s : List Octet) :
    (held.feed s).1.length + 1 ≤ Base64EncodeSize s.length := by
  have hlength := Held.length_feed s held
  have hlt : held.taken < 3 := by cases held <;> simp [Held.taken]
  rw [Base64EncodeSize]
  omega

theorem last_fits_iff (pad : Octet) (held : Held) (s : List Octet) :
    (held.feed s).1.length + (closing pad (held.feed s).2).length + 1 ≤ Base64EncodeSize s.length ↔
      ¬ LastOverflows held.taken s.length := by
  have hlength := Held.length_feed s held
  have htaken := Held.taken_feed s held
  have hlt : held.taken < 3 := by cases held <;> simp [Held.taken]
  rw [Base64EncodeSize, LastOverflows]
  rcases length_closing pad (held.feed s).2 with h | h | h
  · omega
  · omega
  · omega

theorem Base64EncodeChunks_ends_iff (fresh : (n : Nat) → Buffer n) (last : List Octet)
    (chunks : List (List Octet)) : ∀ (self : Base64) (held : Held) {Q : List Octet → Prop},
    HoldsBits self.coder held →
    ((Base64EncodeChunks self fresh last chunks).Ends Q ↔
      ¬ LastOverflows (held.taken + chunks.flatten.length) last.length ∧
        Q ((held.feed (chunks.flatten ++ last)).1.map encodeChar ++
          closing self.pad (held.feed (chunks.flatten ++ last)).2)) := by
  induction chunks with
  | nil =>
      intro self held Q hholds
      rw [Base64EncodeChunks, ends_bind]
      simp only [ends_pure]
      obtain ⟨self', -, -, hends⟩ := Base64EncodeBuffer_eof_ends_iff hholds last (fresh _)
      refine (hends fun _ => Q).trans ?_
      rw [last_fits_iff]
      rfl
  | cons s chunks ih =>
      intro self held Q hholds
      obtain ⟨self', hholds', hpad, hends⟩ := Base64EncodeBuffer_ends_iff hholds s (fresh _)
      rw [Base64EncodeChunks, ends_bind]
      simp only [ends_bind, ends_pure]
      refine (hends fun self out => (Base64EncodeChunks self fresh last chunks).Ends fun rest =>
        Q (out ++ rest)).trans ?_
      rw [ih self' _ hholds', hpad, Held.taken_feed, List.flatten_cons, List.append_assoc,
        Held.feed_append held s, List.map_append, List.append_assoc]
      have hmod : LastOverflows ((held.taken + s.length) % 3 + chunks.flatten.length) last.length ↔
          LastOverflows (held.taken + (s ++ chunks.flatten).length) last.length := by
        rw [LastOverflows, LastOverflows, List.length_append]
        omega
      rw [hmod]
      exact ⟨fun h => h.2, fun h => ⟨chunk_fits held s, h⟩⟩

/-! ### Decoding -/

/-- The values of the characters of a text. -/
def Base64.values (self : Base64) (s : List Octet) : List Nat :=
  s.filterMap fun c => self.value (signedChar c)

theorem Base64.values_cons (self : Base64) (c : Octet) (s : List Octet) :
    self.values (c :: s) = (self.value (signedChar c)).toList ++ self.values s := by
  rw [values, List.filterMap_cons]
  cases self.value (signedChar c) <;> rfl

theorem toldToEof_cons (b64 : B64) (v : Nat) (values : List Nat) : toldToEof b64 (v :: values) =
    match (b64Step b64 v).2 with
    | .next => toldToEof (b64Step b64 v).1 values
    | .eof => []
    | r => r :: toldToEof (b64Step b64 v).1 values := by
  rw [toldToEof, told_cons]
  cases (b64Step b64 v).2 <;> simp [toldToEof]

theorem Base64DecodeInput_ends (s : List Octet) : ∀ {self : Base64} {state : B64State}
    (octets : Buffer n) {tlength : Nat} {out : List Octet}, self.state = .decoding state →
    toldToEof ⟨self.hold, state⟩ (self.values s) = out.map .octet → tlength + out.length ≤ n →
    (Base64DecodeInput self octets tlength s).Ends fun r =>
      r.2.1 = octets.splice tlength out ∧ r.2.2.1 = tlength + out.length := by
  induction s with
  | nil =>
      intro self state octets tlength out hstate htold hroom
      obtain rfl : out = [] := List.map_eq_nil_iff.mp htold.symm
      rw [Base64DecodeInput, ends_pure, Buffer.splice_nil]
      exact ⟨rfl, rfl⟩
  | cons c s ih =>
      intro self state octets tlength out hstate htold hroom
      rw [Base64.values_cons] at htold
      cases hvalue : self.value (signedChar c) with
      | none =>
          rw [hvalue] at htold
          have hdecode : Base64Decode self (signedChar c) = (self, .next) := by
            rw [Base64Decode, hvalue]
          rw [Base64DecodeInput, hdecode]
          exact ih octets hstate htold hroom
      | some v =>
          rw [hvalue, Option.toList_some, List.singleton_append, toldToEof_cons] at htold
          have hdecode : Base64Decode self (signedChar c) =
              ({ self with hold := (b64Step ⟨self.hold, state⟩ v).1.hold,
                           state := .decoding (b64Step ⟨self.hold, state⟩ v).1.state },
                (b64Step ⟨self.hold, state⟩ v).2) := by
            rw [Base64Decode, hvalue, hstate]
          rw [Base64DecodeInput, hdecode]
          cases hresult : (b64Step ⟨self.hold, state⟩ v).2 with
          | next =>
              rw [hresult] at htold
              exact ih octets rfl htold hroom
          | eof =>
              rw [hresult] at htold
              obtain rfl : out = [] := List.map_eq_nil_iff.mp htold.symm
              rw [ends_pure, Buffer.splice_nil]
              exact ⟨rfl, rfl⟩
          | error =>
              rw [hresult] at htold
              cases out with
              | nil => cases htold
              | cons d out => cases htold
          | octet d =>
              rw [hresult] at htold
              cases out with
              | nil => cases htold
              | cons d' out =>
                  rw [List.map_cons, List.cons.injEq, B64Result.octet.injEq] at htold
                  obtain ⟨rfl, htold⟩ := htold
                  rw [List.length_cons] at hroom
                  rw [(octets.yields_write [d] (i := tlength) (by simp; omega)).bind_ends_iff]
                  refine (ih _ rfl htold (by omega)).mono ?_
                  rintro r ⟨hoctets, hlength⟩
                  refine ⟨?_, by rw [hlength, List.length_cons]; omega⟩
                  rw [hoctets]
                  exact octets.splice_splice [d] out (by rw [List.length_singleton]; omega)

theorem value_encodeChar (self : Base64) {v : Nat} (h : v < 64) :
    self.value (signedChar (encodeChar v)) = some v := by
  have hsigned : ∀ i : Fin 64, signedChar (encodeChar i) = some (encodeChar i) := by decide +kernel
  have hpad : encodeChar v ≠ self.pad := fun heq => self.pad_notMem (heq ▸ encodeChar_mem h)
  have hvalue := b64Value_encodeChar h
  have hnot : encodeChar v ≠ padCharacter := fun heq =>
    padCharacter_notMem (heq ▸ encodeChar_mem h)
  rw [b64Value, if_neg hnot] at hvalue
  rw [hsigned ⟨v, h⟩, Base64.value]
  exact (if_neg hpad).trans hvalue

theorem value_pad (self : Base64) {pad : Octet} (h : pad ∉ encodeSet) :
    ∀ v ∈ self.value (signedChar pad), v = 64 := by
  intro v hv
  unfold signedChar at hv
  split at hv
  · rw [Base64.value] at hv
    split at hv
    · simpa using hv.symm
    · by_cases hpad : pad = padCharacter
      · subst hpad
        cases hv
      · have hmeaning := (not_congr (b64Value_meaning pad).2).mp h
        rw [b64Value, if_neg hpad] at hmeaning
        by_contra hne
        exact hmeaning ⟨v, hv, hne⟩
  · simpa [Base64.value] using hv.symm

theorem values_paddedText (self : Base64) {pad : Octet} (h : pad ∉ encodeSet)
    (octets : List Octet) :
    ∃ k, self.values (paddedText pad octets) = sextets octets ++ List.replicate k 64 := by
  have hchars : ((sextets octets).map encodeChar).filterMap
      (fun c => self.value (signedChar c)) = sextets octets := by
    rw [List.filterMap_map]
    conv_rhs => rw [← List.filterMap_some (l := sextets octets)]
    exact List.filterMap_congr fun v hv => value_encodeChar self (sextets_lt octets v hv)
  rw [Base64.values, paddedText, List.filterMap_append, hchars]
  refine ⟨_, congrArg _ (List.eq_replicate_of_mem fun v hv => ?_)⟩
  obtain ⟨c, hc, hvalue⟩ := List.mem_filterMap.mp hv
  rw [(List.mem_replicate.mp hc).2] at hvalue
  exact value_pad self h v hvalue

theorem length_paddedText (pad : Octet) (octets : List Octet) :
    (paddedText pad octets).length = (octets.length + 2) / 3 * 4 := by
  have htaken := taken_heldOf octets
  rw [paddedText_eq, List.length_append, length_encoded]
  rcases length_closing pad (heldOf octets) with h | h | h
  · omega
  · omega
  · omega

theorem Base64DecodeBuffer_ends_of_values (self : Base64) {octets s : List Octet} {k : Nat}
    (hlength : 4 ≤ s.length) (hsize : octets.length + 1 ≤ Base64DecodeSize s.length)
    (hvalues : (Base64Reset self).values s = sextets octets ++ List.replicate k 64)
    (memory : Buffer (Base64DecodeSize s.length)) :
    (Base64DecodeBuffer (Base64Reset self) s memory).Ends fun r =>
      r.2.2.2 ≠ .error ∧ r.2.1.octets.take r.2.2.1 = octets := by
  have htold : toldToEof ⟨(Base64Reset self).hold, .start⟩ ((Base64Reset self).values s) =
      octets.map .octet := by
    rw [hvalues]
    exact toldToEof_of_padded rfl octets k
  have htake : ∀ rest, octets.length + rest.length ≤ Base64DecodeSize s.length →
      (memory.splice 0 (octets ++ rest)).octets.take octets.length = octets := by
    intro rest hrest
    rw [Buffer.octets_splice _ (by rw [List.length_append]; omega)]
    simp
  rw [Base64DecodeBuffer, if_neg (by omega), ends_bind]
  refine (Base64DecodeInput_ends _ memory rfl htold (by omega)).mono ?_
  rintro ⟨self', memory', tlength, eof⟩ ⟨rfl, rfl⟩
  dsimp only
  rw [Nat.zero_add]
  cases eof with
  | true =>
      have hall := htake [] (by rw [List.length_nil]; omega)
      rw [List.append_nil] at hall
      exact ends_pure.mpr ⟨nofun, hall⟩
  | false =>
      have hput := memory.splice_splice octets [0] (i := 0) (by rw [List.length_singleton]; omega)
      rw [Nat.zero_add] at hput
      have hend : ((memory.splice 0 octets).write octets.length [0]).Yields
          ((memory.splice 0 octets).splice octets.length [0]) :=
        Buffer.yields_write _ _ (by rw [List.length_singleton]; omega)
      rw [if_neg Bool.false_ne_true, hend.bind_ends_iff, ends_pure, hput]
      refine ⟨?_, htake [0] (by rw [List.length_singleton]; omega)⟩
      dsimp only
      split <;> nofun

theorem Base64DecodeBuffer_ends (self : Base64) {pad : Octet} (hpad : pad ∉ encodeSet)
    {octets : List Octet} (hne : octets ≠ [])
    (memory : Buffer (Base64DecodeSize (paddedText pad octets).length)) :
    (Base64DecodeBuffer (Base64Reset self) (paddedText pad octets) memory).Ends fun r =>
      r.2.1.octets.take r.2.2.1 = octets := by
  have hpos := List.length_pos_of_ne_nil hne
  have hlength := length_paddedText pad octets
  have hsize : octets.length + 1 ≤ Base64DecodeSize (paddedText pad octets).length := by
    rw [Base64DecodeSize]
    omega
  obtain ⟨k, hvalues⟩ := values_paddedText (Base64Reset self) hpad octets
  exact (Base64DecodeBuffer_ends_of_values self (by omega) hsize hvalues memory).mono
    fun _ h => h.2

/-! ### Round trips -/

/-- Encoded in chunks, with `eof` on the last, a string gives its padded Base64 form, all writes staying
in the memory allocated for them, and an object that has been reset decodes it to the string. -/
def Base64RoundTrips (self reader : Base64) (fresh : (n : Nat) → Buffer n)
    (chunks : List (List Octet)) (last : List Octet) : Prop :=
  (Base64EncodeChunks (Base64Reset self) fresh last chunks).Ends fun text =>
    text = paddedText self.pad (chunks.flatten ++ last) ∧
      (Base64DecodeBuffer (Base64Reset reader) text (fresh _)).Ends fun r =>
        r.2.1.octets.take r.2.2.1 = chunks.flatten ++ last

theorem Base64RoundTrips_iff_not_overflows (self reader : Base64) (fresh : (n : Nat) → Buffer n)
    (chunks : List (List Octet)) {last : List Octet} (hlast : last ≠ []) :
    Base64RoundTrips self reader fresh chunks last ↔
      ¬ LastOverflows chunks.flatten.length last.length := by
  have hends := Base64EncodeChunks_ends_iff fresh last chunks (Base64Reset self) .none
    (Q := fun text => text = paddedText self.pad (chunks.flatten ++ last) ∧
      (Base64DecodeBuffer (Base64Reset reader) text (fresh _)).Ends fun r =>
        r.2.1.octets.take r.2.2.1 = chunks.flatten ++ last) (.inl rfl)
  have htext : (Held.none.feed (chunks.flatten ++ last)).1.map encodeChar ++
      closing (Base64Reset self).pad (Held.none.feed (chunks.flatten ++ last)).2 =
        paddedText self.pad (chunks.flatten ++ last) :=
    (paddedText_eq self.pad (chunks.flatten ++ last)).symm
  rw [htext, Held.taken, Nat.zero_add] at hends
  refine hends.trans (and_iff_left ⟨rfl, ?_⟩)
  exact Base64DecodeBuffer_ends reader self.pad_notMem
    (List.append_ne_nil_of_right_ne_nil _ hlast) _

/-- The object encodes and decodes any chunks unharmed unless the last chunk overflows the memory
allocated for it: two octets more than full quanta, with two octets of a quantum pending. -/
theorem Base64_roundTrips_iff (self reader : Base64) (fresh : (n : Nat) → Buffer n)
    (chunks : List (List Octet)) (last : List Octet) (hlast : last ≠ []) :
    Base64RoundTrips self reader fresh chunks last ↔
      ¬ (chunks.flatten.length % 3 = 2 ∧ last.length % 3 = 2) :=
  Base64RoundTrips_iff_not_overflows self reader fresh chunks hlast

theorem Base64_roundTrips_two_one :
    Base64RoundTrips Base64Create Base64Create (fun n => .replicate n 0) [ascii "ab"] (ascii "c") ↔
      ¬ ([ascii "ab"].flatten.length % 3 = 2 ∧ (ascii "c").length % 3 = 2) :=
  Base64_roundTrips_iff _ _ _ _ _ (by decide)

/-- Two chunks of two octets: the second call writes seven octets into five. -/
theorem Base64_not_roundTrips : ¬ ∀ (self reader : Base64) (fresh : (n : Nat) → Buffer n)
    (chunks : List (List Octet)) (last : List Octet), (∀ s ∈ chunks, s ≠ []) → last ≠ [] →
    Base64RoundTrips self reader fresh chunks last := by
  intro h
  have htrips := h Base64Create Base64Create (fun n => .replicate n 0) [ascii "ab"] (ascii "cd")
    (by decide) (by decide)
  exact absurd ((Base64RoundTrips_iff_not_overflows _ _ _ _ (by decide)).mp htrips) (by decide)

end Snert
