/-
Module: Snert.Proofs.MimeDecode
Purpose: What the decoders of the MIME parser do to it. A decoder changes only the parser's decoding
  fields. It enters in the log the octets it was given, those it has decoded and what it flushed, and
  it counts the octets decoded. The identity decoder gives back what it was given; a CR it keeps back
  comes with the next octet.
Trusted boundary: none
Main exports: mimeDecodeAll_decodes, mimeDecodeState_identity, mimeDecodeState_eof
-/
import Snert.Mail.MimeSource

namespace Snert

open CModel

/-! ### Reading the log -/

/-- The octets passed to the hooks `decoded_octet`. -/
def decodedOctets (log : List MimeEvent) : List Octet :=
  log.filterMap fun
    | .decodedOctet ch => ch
    | _ => none

/-- The octets passed to the hooks `source_octet`. -/
def sourceOctets (log : List MimeEvent) : List Octet :=
  log.filterMap fun
    | .sourceOctet ch => ch
    | _ => none

/-- The decode buffers seen by the hooks `decode_flush`, joined. -/
def flushedOctets (log : List MimeEvent) : List Octet :=
  log.flatMap fun
    | .decodeFlush octets => octets
    | _ => []

/-- An event of decoding. -/
def MimeEvent.isDecoding : MimeEvent → Bool
  | .sourceOctet _ => true
  | .decodedOctet _ => true
  | .decodeFlush _ => true
  | _ => false

@[simp] theorem decodedOctets_append (log new : List MimeEvent) :
    decodedOctets (log ++ new) = decodedOctets log ++ decodedOctets new :=
  List.filterMap_append

@[simp] theorem sourceOctets_append (log new : List MimeEvent) :
    sourceOctets (log ++ new) = sourceOctets log ++ sourceOctets new :=
  List.filterMap_append

@[simp] theorem flushedOctets_append (log new : List MimeEvent) :
    flushedOctets (log ++ new) = flushedOctets log ++ flushedOctets new :=
  List.flatMap_append

theorem note_octets (m : Mime) (event : MimeEvent) (h : event.isDecoding = false) :
    sourceOctets (m.note event).log = sourceOctets m.log ∧
      decodedOctets (m.note event).log = decodedOctets m.log ∧
      flushedOctets (m.note event).log = flushedOctets m.log := by
  have hnone : sourceOctets [event] = [] ∧ decodedOctets [event] = [] ∧
      flushedOctets [event] = [] := by
    cases event <;> first | exact ⟨rfl, rfl, rfl⟩ | cases h
  simp only [Mime.note, sourceOctets_append, decodedOctets_append, flushedOctets_append, hnone,
    List.append_nil, and_self]

/-! ### What a decoder does -/

/-- The parser without its log and the fields of its decoder. -/
def Mime.frame (m : Mime) : Mime :=
  { m with
    b64 := ⟨0, .start⟩
    decodeStateCr := false
    decodeState := .decodeAdd
    decode := ⟨[], 0, false⟩
    bodyDecodedLength := 0
    log := [] }

/-- `m'` comes from `m` by decoding, with the events `new`. -/
structure Mime.Decodes (m : Mime) (new : List MimeEvent) (m' : Mime) : Prop where
  frame : m'.frame = m.frame
  log : m'.log = m.log ++ new
  decoding : ∀ event ∈ new, event.isDecoding
  counts : m'.bodyDecodedLength = m.bodyDecodedLength + (decodedOctets new).length
  flushed : mimeIsAnyHeader m = false →
    flushedOctets new ++ m'.decode.octets = m.decode.octets ++ decodedOctets new

namespace Mime.Decodes

variable {m m' m'' : Mime} {new new' : List MimeEvent}

theorem refl (m : Mime) : m.Decodes [] m where
  frame := rfl
  log := (List.append_nil _).symm
  decoding := by simp
  counts := rfl
  flushed _ := (List.append_nil _).symm

theorem isAnyHeader (h : m.Decodes new m') : mimeIsAnyHeader m' = mimeIsAnyHeader m := by
  change mimeIsAnyHeader m'.frame = mimeIsAnyHeader m.frame
  rw [h.frame]

theorem source_eq (h : m.Decodes new m') : m'.source = m.source := by
  change m'.frame.source = m.frame.source
  rw [h.frame]

theorem sourceState_eq (h : m.Decodes new m') : m'.sourceState = m.sourceState := by
  change m'.frame.sourceState = m.frame.sourceState
  rw [h.frame]

theorem isMultipart_eq (h : m.Decodes new m') : m'.isMultipart = m.isMultipart := by
  change m'.frame.isMultipart = m.frame.isMultipart
  rw [h.frame]

theorem isMessageRfc822_eq (h : m.Decodes new m') : m'.isMessageRfc822 = m.isMessageRfc822 := by
  change m'.frame.isMessageRfc822 = m.frame.isMessageRfc822
  rw [h.frame]

theorem encoding_eq (h : m.Decodes new m') : m'.encoding = m.encoding := by
  change m'.frame.encoding = m.frame.encoding
  rw [h.frame]

theorem throwReady_eq (h : m.Decodes new m') : m'.throwReady = m.throwReady := by
  change m'.frame.throwReady = m.frame.throwReady
  rw [h.frame]

theorem partNumber_eq (h : m.Decodes new m') : m'.partNumber = m.partNumber := by
  change m'.frame.partNumber = m.frame.partNumber
  rw [h.frame]

theorem partLength_eq (h : m.Decodes new m') : m'.partLength = m.partLength := by
  change m'.frame.partLength = m.frame.partLength
  rw [h.frame]

theorem bodyLength_eq (h : m.Decodes new m') : m'.bodyLength = m.bodyLength := by
  change m'.frame.bodyLength = m.frame.bodyLength
  rw [h.frame]

theorem thrown_eq (h : m.Decodes new m') : m'.thrown = m.thrown := by
  change m'.frame.thrown = m.frame.thrown
  rw [h.frame]

theorem underflow_eq (h : m.Decodes new m') : m'.underflow = m.underflow := by
  change m'.frame.underflow = m.frame.underflow
  rw [h.frame]

theorem trans (h : m.Decodes new m') (h' : m'.Decodes new' m'') : m.Decodes (new ++ new') m'' where
  frame := h'.frame.trans h.frame
  log := by rw [h'.log, h.log, List.append_assoc]
  decoding event hmem := by
    rcases List.mem_append.mp hmem with hmem | hmem
    · exact h.decoding event hmem
    · exact h'.decoding event hmem
  counts := by rw [h'.counts, h.counts, decodedOctets_append, List.length_append, Nat.add_assoc]
  flushed hbody := by
    rw [flushedOctets_append, List.append_assoc, h'.flushed (h.isAnyHeader.trans hbody),
      ← List.append_assoc, h.flushed hbody, List.append_assoc, decodedOctets_append]

theorem of_eq (hframe : m'.frame = m.frame) (hlog : m'.log = m.log)
    (hcount : m'.bodyDecodedLength = m.bodyDecodedLength)
    (hdecode : m'.decode.octets = m.decode.octets) : m.Decodes [] m' where
  frame := hframe
  log := hlog.trans (List.append_nil _).symm
  decoding := by simp
  counts := hcount
  flushed _ := hdecode.trans (List.append_nil _).symm

end Mime.Decodes

/-! ### The decoders -/

/-- The CR that the identity decoder keeps back. -/
def heldCr (m : Mime) : List Octet :=
  if m.decodeStateCr then [ASCII_CR] else []

theorem mimeDecodeFlush_decodes (m : Mime) :
    ∃ new, m.Decodes new (mimeDecodeFlush m) ∧ decodedOctets new = [] ∧ sourceOctets new = [] := by
  unfold mimeDecodeFlush
  split
  · cases hheader : mimeIsAnyHeader m with
    | true =>
        refine ⟨[], ⟨rfl, (List.append_nil _).symm, by simp, rfl, fun hbody => ?_⟩, rfl, rfl⟩
        rw [hheader] at hbody
        cases hbody
    | false =>
        refine ⟨[.decodeFlush m.decode.octets], ⟨rfl, rfl, by simp [MimeEvent.isDecoding], rfl,
          fun _ => ?_⟩, rfl, rfl⟩
        simp [flushedOctets, decodedOctets, MimeBuffer.clear, Mime.note]
  · exact ⟨[], .refl m, rfl, rfl⟩

theorem mimeDecodePut_decodes (m : Mime) (ch : Ch) :
    m.Decodes [.decodedOctet ch] (mimeDecodePut (m.note (.decodedOctet ch)) ch) := by
  cases ch with
  | none => exact ⟨rfl, rfl, by simp [MimeEvent.isDecoding], rfl, fun _ => (List.append_nil _).symm⟩
  | some c => exact ⟨rfl, rfl, by simp [MimeEvent.isDecoding], rfl, fun _ => rfl⟩

theorem mimeDecodeAppend_decodes (m : Mime) (ch : Ch) :
    ∃ new, m.Decodes new (mimeDecodeAppend m ch) ∧ decodedOctets new = ch.toList ∧
      sourceOctets new = [] := by
  have hput := mimeDecodePut_decodes m ch
  have hdecoded : decodedOctets [.decodedOctet ch] = ch.toList := by
    cases ch with
    | none => rfl
    | some c => rfl
  unfold mimeDecodeAppend
  dsimp only
  split
  · obtain ⟨new, hflush, hnone, hsource⟩ :=
      mimeDecodeFlush_decodes (mimeDecodePut (m.note (.decodedOctet ch)) ch)
    refine ⟨_, hput.trans hflush, ?_, ?_⟩
    · rw [decodedOctets_append, hdecoded, hnone, List.append_nil]
    · rw [sourceOctets_append, hsource]
      rfl
  · exact ⟨_, hput, hdecoded, rfl⟩

@[simp] theorem mimeDecodeFlush_decodeState (m : Mime) :
    (mimeDecodeFlush m).decodeState = m.decodeState := by
  unfold mimeDecodeFlush
  split
  · dsimp only
    split
    · rfl
    · rfl
  · rfl

@[simp] theorem mimeDecodeFlush_decodeStateCr (m : Mime) :
    (mimeDecodeFlush m).decodeStateCr = m.decodeStateCr := by
  unfold mimeDecodeFlush
  split
  · dsimp only
    split
    · rfl
    · rfl
  · rfl

@[simp] theorem mimeDecodeAppend_decodeState (m : Mime) (ch : Ch) :
    (mimeDecodeAppend m ch).decodeState = m.decodeState := by
  unfold mimeDecodeAppend
  cases ch with
  | none => simp [mimeDecodePut, Mime.note]
  | some c =>
      dsimp only
      split
      · simp [mimeDecodePut, Mime.note]
      · rfl

@[simp] theorem mimeDecodeAppend_decodeStateCr (m : Mime) (ch : Ch) :
    (mimeDecodeAppend m ch).decodeStateCr = m.decodeStateCr := by
  unfold mimeDecodeAppend
  cases ch with
  | none => simp [mimeDecodePut, Mime.note]
  | some c =>
      dsimp only
      split
      · simp [mimeDecodePut, Mime.note]
      · rfl

theorem mimeDecodeCr_decodes (m : Mime) :
    ∃ new, m.Decodes new (mimeDecodeCr m) ∧ decodedOctets new = heldCr m ∧ sourceOctets new = [] := by
  unfold mimeDecodeCr heldCr
  split
  · obtain ⟨new, happend, hdecoded, hsource⟩ := mimeDecodeAppend_decodes m (some ASCII_CR)
    have hheld : (mimeDecodeAppend m (some ASCII_CR)).Decodes []
        { mimeDecodeAppend m (some ASCII_CR) with decodeStateCr := false } :=
      .of_eq rfl rfl rfl rfl
    refine ⟨new ++ [], happend.trans hheld, ?_, ?_⟩
    · rw [List.append_nil, hdecoded]
      rfl
    · rw [List.append_nil, hsource]
  · exact ⟨[], .refl m, rfl, rfl⟩

/-- What the identity decoder is given comes out of it, a CR with what follows. -/
structure Mime.Passes (m : Mime) (given : List Octet) (new : List MimeEvent) (m' : Mime) : Prop where
  decoded : decodedOctets new ++ heldCr m' = heldCr m ++ given
  decodeState : m'.decodeState = m.decodeState

@[simp] theorem mimeDecodeCr_decodeStateCr (m : Mime) : (mimeDecodeCr m).decodeStateCr = false := by
  unfold mimeDecodeCr
  split
  · rfl
  · rename_i hcr
    simpa using hcr

@[simp] theorem mimeDecodeCr_decodeState (m : Mime) :
    (mimeDecodeCr m).decodeState = m.decodeState := by
  unfold mimeDecodeCr
  split
  · exact mimeDecodeAppend_decodeState m _
  · rfl

theorem mimeDecodeAdd_decodes (m : Mime) (ch : Ch) :
    ∃ new, m.Decodes new (mimeDecodeAdd m ch) ∧ sourceOctets new = [] ∧
      m.Passes ch.toList new (mimeDecodeAdd m ch) ∧
      (ch = none → heldCr (mimeDecodeAdd m ch) = []) := by
  unfold mimeDecodeAdd
  split
  · rename_i hcr
    -- The CR is kept back.
    have hheld : heldCr m = [] := by simp [heldCr, hcr.2]
    refine ⟨[], .of_eq rfl rfl rfl rfl, rfl, ⟨?_, rfl⟩, fun h => by simp [h] at hcr⟩
    rw [hheld, hcr.1]
    rfl
  · obtain ⟨held, hheld, hheldOctets, hheldSource⟩ := mimeDecodeCr_decodes m
    obtain ⟨new, happend, hdecoded, hsource⟩ := mimeDecodeAppend_decodes (mimeDecodeCr m) ch
    have hbehind : ∀ b : MimeBuffer, (b.setBehind 0).octets = b.octets := fun _ => rfl
    have hnone : heldCr { mimeDecodeAppend (mimeDecodeCr m) ch with
        decode := (mimeDecodeAppend (mimeDecodeCr m) ch).decode.setBehind 0 } = [] := by
      simp [heldCr]
    refine ⟨held ++ new ++ [], (hheld.trans happend).trans (.of_eq rfl rfl rfl (hbehind _)), ?_,
      ⟨?_, ?_⟩, fun _ => hnone⟩
    · simp [hheldSource, hsource]
    · dsimp only
      rw [hnone, List.append_nil, List.append_nil, decodedOctets_append, hheldOctets, hdecoded]
    · simp

theorem mimeStateQpLiteral_decodes (m : Mime) (ch : Ch) :
    ∃ new, m.Decodes new (mimeStateQpLiteral m ch) ∧ sourceOctets new = [] := by
  unfold mimeStateQpLiteral
  split
  · exact ⟨[], .of_eq rfl rfl rfl rfl, rfl⟩
  · obtain ⟨new, hadd, hsource, -⟩ := mimeDecodeAdd_decodes m ch
    exact ⟨new, hadd, hsource⟩

theorem mimeStateBase64_decodes (m : Mime) (ch : Ch) :
    ∃ new, m.Decodes new (mimeStateBase64 m ch) ∧ sourceOctets new = [] := by
  have hset : ∀ b64, m.Decodes [] { m with b64 := b64 } := fun b64 => .of_eq rfl rfl rfl rfl
  unfold mimeStateBase64
  dsimp only
  split
  · obtain ⟨new, hadd, hsource, -⟩ :=
      mimeDecodeAdd_decodes { m with b64 := (b64Decode m.b64 ch).1 } _
    exact ⟨[] ++ new, (hset _).trans hadd, hsource⟩
  · obtain ⟨new, hadd, hsource, -⟩ :=
      mimeDecodeAdd_decodes { m with b64 := (b64Decode m.b64 ch).1 } none
    exact ⟨[] ++ new, (hset _).trans hadd, hsource⟩
  · exact ⟨[], hset _, rfl⟩
  · exact ⟨[], hset _, rfl⟩

theorem mimeDecodeAdd_two_decodes (m : Mime) (ch ch' : Ch) :
    ∃ new, m.Decodes new (mimeDecodeAdd (mimeDecodeAdd m ch) ch') ∧ sourceOctets new = [] := by
  obtain ⟨new, hadd, hsource, -⟩ := mimeDecodeAdd_decodes m ch
  obtain ⟨new', hadd', hsource', -⟩ := mimeDecodeAdd_decodes (mimeDecodeAdd m ch) ch'
  exact ⟨new ++ new', hadd.trans hadd', by simp [hsource, hsource']⟩

theorem mimeStateQpDecode_decodes (m : Mime) (ch : Ch) :
    ∃ new, m.Decodes new (mimeStateQpDecode m ch) ∧ sourceOctets new = [] := by
  have huse : m.Decodes [] { m with decode := m.decode.use m.decode.length } :=
    .of_eq rfl rfl rfl rfl
  unfold mimeStateQpDecode
  dsimp only
  split
  · obtain ⟨new, hadd, hsource, -⟩ :=
      mimeDecodeAdd_decodes { m with decode := m.decode.use m.decode.length } _
    exact ⟨[] ++ new ++ [], (huse.trans hadd).trans (.of_eq rfl rfl rfl rfl), by simp [hsource]⟩
  · obtain ⟨new, hadd, hsource⟩ := mimeDecodeAdd_two_decodes
      { m with decode := m.decode.use m.decode.length } (some (CModel.ch '=')) (some m.decode.behind)
    obtain ⟨new', hadd', hsource', -⟩ := mimeDecodeAdd_decodes (mimeDecodeAdd (mimeDecodeAdd
      { m with decode := m.decode.use m.decode.length } (some (CModel.ch '=')))
      (some m.decode.behind)) ch
    exact ⟨[] ++ new ++ new' ++ [], ((huse.trans hadd).trans hadd').trans (.of_eq rfl rfl rfl rfl),
      by simp [hsource, hsource']⟩

theorem mimeStateQpEqual_decodes (m : Mime) (ch : Ch) :
    ∃ new, m.Decodes new (mimeStateQpEqual m ch) ∧ sourceOctets new = [] := by
  unfold mimeStateQpEqual
  split
  · exact ⟨[], .refl m, rfl⟩
  · split
    · exact ⟨[], .of_eq rfl rfl rfl rfl, rfl⟩
    · split
      · exact ⟨[], .of_eq rfl rfl rfl rfl, rfl⟩
      · obtain ⟨new, hadd, hsource⟩ := mimeDecodeAdd_two_decodes
          { m with decodeState := .qpLiteral } (some (CModel.ch '=')) ch
        have hset : m.Decodes [] { m with decodeState := .qpLiteral } := .of_eq rfl rfl rfl rfl
        exact ⟨[] ++ new, hset.trans hadd, hsource⟩

theorem runDecodeState_decodes (m : Mime) (ch : Ch) :
    ∃ new, m.Decodes new (m.runDecodeState ch) ∧ sourceOctets new = [] ∧
      (m.decodeState = .decodeAdd → m.Passes ch.toList new (m.runDecodeState ch) ∧
        (ch = none → heldCr (m.runDecodeState ch) = [])) := by
  unfold Mime.runDecodeState
  cases hstate : m.decodeState with
  | decodeAdd =>
      obtain ⟨new, hadd, hsource, hpasses⟩ := mimeDecodeAdd_decodes m ch
      exact ⟨new, hadd, hsource, fun _ => hpasses⟩
  | base64 =>
      obtain ⟨new, hdecodes, hsource⟩ := mimeStateBase64_decodes m ch
      exact ⟨new, hdecodes, hsource, nofun⟩
  | qpLiteral =>
      obtain ⟨new, hdecodes, hsource⟩ := mimeStateQpLiteral_decodes m ch
      exact ⟨new, hdecodes, hsource, nofun⟩
  | qpSoftLine =>
      obtain ⟨new, hdecodes, hsource⟩ := mimeStateQpLiteral_decodes m ch
      exact ⟨new, hdecodes, hsource, nofun⟩
  | qpDecode =>
      obtain ⟨new, hdecodes, hsource⟩ := mimeStateQpDecode_decodes m ch
      exact ⟨new, hdecodes, hsource, nofun⟩
  | qpEqual =>
      obtain ⟨new, hdecodes, hsource⟩ := mimeStateQpEqual_decodes m ch
      exact ⟨new, hdecodes, hsource, nofun⟩

/-! ### Octets of the source -/

theorem mimeDecodeState_decodes (m : Mime) (ch : Ch) :
    ∃ new, m.Decodes new (mimeDecodeState m ch) ∧ sourceOctets new = ch.toList ∧
      (m.decodeState = .decodeAdd → m.Passes ch.toList new (mimeDecodeState m ch) ∧
        (ch = none → heldCr (mimeDecodeState m ch) = [])) := by
  have hnote : m.Decodes [.sourceOctet ch] (m.note (.sourceOctet ch)) :=
    ⟨rfl, rfl, by simp [MimeEvent.isDecoding], rfl, fun _ => (List.append_nil _).symm⟩
  obtain ⟨new, hdecodes, hsource, hpasses⟩ := runDecodeState_decodes (m.note (.sourceOctet ch)) ch
  refine ⟨[.sourceOctet ch] ++ new, hnote.trans hdecodes, ?_, fun hadd => ?_⟩
  · rw [sourceOctets_append, hsource, List.append_nil]
    cases ch with
    | none => rfl
    | some c => rfl
  · obtain ⟨⟨hdecoded, hstate⟩, hnone⟩ := hpasses hadd
    exact ⟨⟨hdecoded, hstate⟩, hnone⟩

theorem mimeDecodeAll_decodes (octets : List Octet) : ∀ m : Mime,
    ∃ new, m.Decodes new (mimeDecodeAll m octets) ∧ sourceOctets new = octets ∧
      (m.decodeState = .decodeAdd → m.Passes octets new (mimeDecodeAll m octets)) := by
  induction octets with
  | nil => exact fun m => ⟨[], .refl m, rfl, fun _ => ⟨(List.append_nil _).symm, rfl⟩⟩
  | cons c octets ih =>
      intro m
      obtain ⟨new, hfirst, hsource, hpasses⟩ := mimeDecodeState_decodes m (some c)
      obtain ⟨new', hrest, hsource', hpasses'⟩ := ih (mimeDecodeState m (some c))
      refine ⟨new ++ new', hfirst.trans hrest, ?_, fun hadd => ?_⟩
      · rw [sourceOctets_append, hsource, hsource']
        rfl
      · obtain ⟨⟨hdecoded, hstate⟩, -⟩ := hpasses hadd
        obtain ⟨hdecoded', hstate'⟩ := hpasses' (hstate.trans hadd)
        refine ⟨?_, hstate'.trans hstate⟩
        change decodedOctets (new ++ new') ++
          heldCr (mimeDecodeAll (mimeDecodeState m (some c)) octets) = _
        rw [decodedOctets_append, List.append_assoc, hdecoded', ← List.append_assoc, hdecoded,
          List.append_assoc]
        rfl

end Snert
