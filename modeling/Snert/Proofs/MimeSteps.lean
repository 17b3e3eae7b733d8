/-
Module: Snert.Proofs.MimeSteps
Purpose: What a step of the MIME parser does, part by part: a flush of the source buffer, the end of a
  header line, the start and the end of a body. Each is given by the fields it changes, so that the
  proofs about whole steps do not unfold it. A step within a body is quiet, which means that it decodes
  and flushes and keeps all counters, unless it comes upon a boundary.
Trusted boundary: none
Main exports: Mime.Quiet, runBodyState_cases, mimeReplay_bodyStep
-/
import Snert.Proofs.MimeDecode

namespace Snert

open CModel

/-! ### Flushes -/

theorem mimeSourceFlush_octets (m : Mime) : (mimeSourceFlush m).source.octets = [] := by
  unfold mimeSourceFlush
  split
  · rfl
  · rename_i hempty
    exact List.eq_nil_of_length_eq_zero (Nat.eq_zero_of_not_pos hempty)

theorem mimeSourceFlush_eq (m : Mime) : mimeSourceFlush m =
    { m with source := (mimeSourceFlush m).source, log := (mimeSourceFlush m).log } := by
  unfold mimeSourceFlush
  split
  · rfl
  · rfl

theorem mimeDecodeFlush_octets (m : Mime) : (mimeDecodeFlush m).decode.octets = [] := by
  unfold mimeDecodeFlush
  split
  · rfl
  · rename_i hempty
    exact List.eq_nil_of_length_eq_zero (Nat.eq_zero_of_not_pos hempty)

/-! ### The end of a body -/

theorem mimeBodyFinish_source (m : Mime) : (mimeBodyFinish m).source = m.source := by
  unfold mimeBodyFinish
  split
  · rfl
  · rfl

/-! ### The end of a header line -/

/-- The text of the header stands in the source buffer. -/
def Mime.endHeaderLine (m : Mime) : Mime :=
  { m with sourceState := .hdr, source := m.source.shrink.setBehind 0 }

/-- The parser's fields are set for the header in the source buffer. -/
def Mime.checkedHeader (m : Mime) : Mime :=
  mimeCheckHeader m m.source.octets

theorem mimeCheckHeader_eq (m : Mime) (header : List Octet) : mimeCheckHeader m header =
    { m with
      b64 := (mimeCheckHeader m header).b64
      isMultipart := (mimeCheckHeader m header).isMultipart
      hasContentType := (mimeCheckHeader m header).hasContentType
      isMessageRfc822 := (mimeCheckHeader m header).isMessageRfc822
      encoding := (mimeCheckHeader m header).encoding
      decodeState := (mimeCheckHeader m header).decodeState } := by
  unfold mimeCheckHeader
  repeat' split
  all_goals rfl

/-- The hook has seen the header, and the source buffer was flushed. -/
def Mime.flushedHeader (m : Mime) : Mime :=
  mimeSourceFlush (m.endHeaderLine.checkedHeader.note (.header m.source.octets.dropLast))

theorem mimeEndHeader_eq (m : Mime) (c : Octet) : mimeEndHeader m c =
    { m.flushedHeader with source := m.flushedHeader.source.append c } :=
  rfl

/-! ### The end of the headers -/

/-- The headers end, and a body starts. -/
def Mime.startBody (m : Mime) : Mime :=
  let m := mimeDecodeFlush (mimeSourceFlush m)
  { mimeBodyStart (mimeHdrFinish { m with bodyLength := 0, bodyDecodedLength := 0 }) with
    sourceState := .hdrBdy }

theorem startBody_source (m : Mime) :
    m.startBody.source = (mimeDecodeFlush (mimeSourceFlush m)).source := by
  simp only [Mime.startBody, mimeBodyStart, mimeHdrFinish, Mime.note]

theorem startBody_decode (m : Mime) :
    m.startBody.decode = (mimeDecodeFlush (mimeSourceFlush m)).decode := by
  simp only [Mime.startBody, mimeBodyStart, mimeHdrFinish, Mime.note]

theorem startBody_underflow (m : Mime) :
    m.startBody.underflow = (mimeDecodeFlush (mimeSourceFlush m)).underflow := by
  simp only [Mime.startBody, mimeBodyStart, mimeHdrFinish, Mime.note]

theorem mimeStateEOH_eq (m : Mime) : mimeStateEOH m =
    if m.startBody.isMessageRfc822 then (mimeBodyFinish m.startBody).nextPart else m.startBody :=
  rfl

/-! ### A reset -/

/-- The states and the decoder of a parser that is reset. -/
def Mime.resetStates (m : Mime) : Mime :=
  { mimeHeadersFirst { m with b64 := b64Reset m.b64 } true with
    decodeStateCr := false, decodeState := .decodeAdd }

theorem mimeReset_source (m : Mime) :
    (mimeReset m).source = (mimeDecodeFlush (mimeSourceFlush m.resetStates)).source := by
  simp only [mimeReset, Mime.resetStates]

theorem mimeReset_decode (m : Mime) :
    (mimeReset m).decode = (mimeDecodeFlush (mimeSourceFlush m.resetStates)).decode := by
  simp only [mimeReset, Mime.resetStates]

theorem mimeReset_underflow (m : Mime) :
    (mimeReset m).underflow = (mimeDecodeFlush (mimeSourceFlush m.resetStates)).underflow := by
  simp only [mimeReset, Mime.resetStates]

theorem mimeReset_octets (m : Mime) : (mimeReset m).source.octets = [] := by
  obtain ⟨new, hd, -⟩ := mimeDecodeFlush_decodes (mimeSourceFlush m.resetStates)
  rw [mimeReset_source, hd.source_eq, mimeSourceFlush_octets]

theorem mimeReset_sourceState (m : Mime) : (mimeReset m).sourceState = .hdrStart := by
  obtain ⟨new, hd, -⟩ := mimeDecodeFlush_decodes (mimeSourceFlush m.resetStates)
  have hreset : (mimeReset m).sourceState = (mimeDecodeFlush (mimeSourceFlush m.resetStates)).sourceState := by
    unfold mimeReset
    rfl
  rw [hreset, hd.sourceState_eq, mimeSourceFlush_eq]
  rfl

theorem mimeReset_decodeState (m : Mime) : (mimeReset m).decodeState = .decodeAdd := by
  have hreset : (mimeReset m).decodeState =
      (mimeDecodeFlush (mimeSourceFlush m.resetStates)).decodeState := by
    unfold mimeReset
    rfl
  rw [hreset, mimeDecodeFlush_decodeState, mimeSourceFlush_eq]
  rfl

theorem mimeReset_decodeStateCr (m : Mime) : (mimeReset m).decodeStateCr = false := by
  have hreset : (mimeReset m).decodeStateCr =
      (mimeDecodeFlush (mimeSourceFlush m.resetStates)).decodeStateCr := by
    unfold mimeReset
    rfl
  rw [hreset, mimeDecodeFlush_decodeStateCr, mimeSourceFlush_eq]
  rfl

theorem mimeReset_throwReady (m : Mime) : (mimeReset m).throwReady = m.throwReady := by
  obtain ⟨new, hd, -⟩ := mimeDecodeFlush_decodes (mimeSourceFlush m.resetStates)
  have hreset : (mimeReset m).throwReady = (mimeDecodeFlush (mimeSourceFlush m.resetStates)).throwReady := by
    unfold mimeReset
    rfl
  rw [hreset, hd.throwReady_eq, mimeSourceFlush_eq]
  rfl

/-! ### Quiet steps -/

/-- The states within a body. -/
def SourceState.isBody : SourceState → Bool
  | .hdrStart | .hdr | .hdrValue | .hdrLF => false
  | .hdrBdy | .bdy | .bdyLF | .dash1 | .dash2 | .boundary => true

/-- An event of decoding, or a flush of the source buffer. -/
def MimeEvent.isQuiet : MimeEvent → Bool
  | .sourceFlush _ => true
  | event => event.isDecoding

theorem MimeEvent.isQuiet_of_isDecoding {event : MimeEvent} (h : event.isDecoding) :
    event.isQuiet := by
  cases event <;> first | rfl | exact h

/-- The parser without its log, the fields of its decoder, the source buffer and its state. -/
def Mime.outer (m : Mime) : Mime :=
  { m.frame with source := ⟨[], 0, false⟩, sourceState := .hdrStart }

/-- `m'` comes from `m` within a body by decoding and flushes, with the events `new`. -/
structure Mime.Quiet (m : Mime) (new : List MimeEvent) (m' : Mime) : Prop where
  outer : m'.outer = m.outer
  log : m'.log = m.log ++ new
  quiet : ∀ event ∈ new, event.isQuiet
  counts : m'.bodyDecodedLength = m.bodyDecodedLength + (decodedOctets new).length
  flushed : flushedOctets new ++ m'.decode.octets = m.decode.octets ++ decodedOctets new
  body : m'.sourceState.isBody

namespace Mime.Quiet

variable {m m' m'' : Mime} {new new' : List MimeEvent}

theorem isMultipart_eq (h : m.Quiet new m') : m'.isMultipart = m.isMultipart := by
  change m'.outer.isMultipart = m.outer.isMultipart
  rw [h.outer]

theorem isMessageRfc822_eq (h : m.Quiet new m') : m'.isMessageRfc822 = m.isMessageRfc822 := by
  change m'.outer.isMessageRfc822 = m.outer.isMessageRfc822
  rw [h.outer]

theorem encoding_eq (h : m.Quiet new m') : m'.encoding = m.encoding := by
  change m'.outer.encoding = m.outer.encoding
  rw [h.outer]

theorem throwReady_eq (h : m.Quiet new m') : m'.throwReady = m.throwReady := by
  change m'.outer.throwReady = m.outer.throwReady
  rw [h.outer]

theorem partNumber_eq (h : m.Quiet new m') : m'.partNumber = m.partNumber := by
  change m'.outer.partNumber = m.outer.partNumber
  rw [h.outer]

theorem partLength_eq (h : m.Quiet new m') : m'.partLength = m.partLength := by
  change m'.outer.partLength = m.outer.partLength
  rw [h.outer]

theorem bodyLength_eq (h : m.Quiet new m') : m'.bodyLength = m.bodyLength := by
  change m'.outer.bodyLength = m.outer.bodyLength
  rw [h.outer]

theorem thrown_eq (h : m.Quiet new m') : m'.thrown = m.thrown := by
  change m'.outer.thrown = m.outer.thrown
  rw [h.outer]

theorem underflow_eq (h : m.Quiet new m') : m'.underflow = m.underflow := by
  change m'.outer.underflow = m.outer.underflow
  rw [h.outer]

theorem refl (h : m.sourceState.isBody) : m.Quiet [] m where
  outer := rfl
  log := (List.append_nil _).symm
  quiet := by simp
  counts := rfl
  flushed := (List.append_nil _).symm
  body := h

theorem trans (h : m.Quiet new m') (h' : m'.Quiet new' m'') : m.Quiet (new ++ new') m'' where
  outer := h'.outer.trans h.outer
  log := by rw [h'.log, h.log, List.append_assoc]
  quiet event hmem := by
    rcases List.mem_append.mp hmem with hmem | hmem
    · exact h.quiet event hmem
    · exact h'.quiet event hmem
  counts := by rw [h'.counts, h.counts, decodedOctets_append, List.length_append, Nat.add_assoc]
  flushed := by
    rw [flushedOctets_append, List.append_assoc, h'.flushed, ← List.append_assoc, h.flushed,
      List.append_assoc, decodedOctets_append]
  body := h'.body

theorem set {m : Mime} {state : SourceState} (source : MimeBuffer) (h : state.isBody) :
    m.Quiet [] { m with source := source, sourceState := state } where
  outer := rfl
  log := (List.append_nil _).symm
  quiet := by simp
  counts := rfl
  flushed := (List.append_nil _).symm
  body := h

theorem of_decodes (hd : m.Decodes new m') (h : m.sourceState.isBody) : m.Quiet new m' where
  outer := by
    unfold Mime.outer
    rw [hd.frame]
  log := hd.log
  quiet event hmem := MimeEvent.isQuiet_of_isDecoding (hd.decoding event hmem)
  counts := hd.counts
  flushed := by
    apply hd.flushed
    unfold mimeIsAnyHeader
    cases hstate : m.sourceState <;> rw [hstate] at h <;> first | rfl | cases h
  body := by rw [hd.sourceState_eq]; exact h

end Mime.Quiet

variable {m : Mime}

theorem mimeDecodeState_quiet (ch : Ch) (h : m.sourceState.isBody) :
    ∃ new, m.Quiet new (mimeDecodeState m ch) :=
  have ⟨new, hd, _⟩ := mimeDecodeState_decodes m ch
  ⟨new, .of_decodes hd h⟩

theorem mimeDecodeAll_quiet (octets : List Octet) (h : m.sourceState.isBody) :
    ∃ new, m.Quiet new (mimeDecodeAll m octets) :=
  have ⟨new, hd, _⟩ := mimeDecodeAll_decodes octets m
  ⟨new, .of_decodes hd h⟩

theorem mimeSourceFlush_quiet (h : m.sourceState.isBody) :
    ∃ new, m.Quiet new (mimeSourceFlush m) ∧ decodedOctets new = [] ∧ sourceOctets new = [] := by
  unfold mimeSourceFlush
  split
  · exact ⟨[.sourceFlush m.source.octets], ⟨rfl, rfl, by simp [MimeEvent.isQuiet], rfl,
      (List.append_nil _).symm, h⟩, rfl, rfl⟩
  · exact ⟨[], .refl h, rfl, rfl⟩

theorem mimeSourceFlush_set_quiet (h : m.sourceState.isBody) (source source' : MimeBuffer) :
    ∃ new, m.Quiet new { mimeSourceFlush { m with source := source } with source := source' } ∧
      decodedOctets new = [] ∧ sourceOctets new = [] := by
  obtain ⟨new, hflush, hdecoded, hsource⟩ :=
    mimeSourceFlush_quiet (m := { m with source := source }) h
  have hquiet := ((Mime.Quiet.set source h).trans hflush).trans (.set source' hflush.body)
  refine ⟨[] ++ new ++ [], hquiet, ?_, ?_⟩
  · rw [List.append_nil, List.nil_append, hdecoded]
  · rw [List.append_nil, List.nil_append, hsource]

theorem flushLine_quiet (h : m.sourceState.isBody) :
    ∃ new, m.Quiet new m.flushLine ∧ decodedOctets new = [] ∧ sourceOctets new = [] := by
  unfold Mime.flushLine
  dsimp only
  split
  · exact mimeSourceFlush_set_quiet h _ _
  · exact mimeSourceFlush_set_quiet h _ _

theorem flushBegun_quiet (c : Octet) (h : m.sourceState.isBody) :
    ∃ new, m.Quiet new (m.flushBegun c) ∧ decodedOctets new = [] ∧ sourceOctets new = [] := by
  unfold Mime.flushBegun
  split
  · exact mimeSourceFlush_set_quiet h _ _
  · exact mimeSourceFlush_quiet h

theorem flushBegun_octets (m : Mime) (c : Octet) :
    (m.flushBegun c).source.octets = if c = ASCII_CR then [ASCII_CR] else [] := by
  unfold Mime.flushBegun
  split
  · change (mimeSourceFlush { m with source := m.source.shrink }).source.octets ++ [ASCII_CR] = _
    rw [mimeSourceFlush_octets, List.nil_append]
  · exact mimeSourceFlush_octets m

/-! ### Steps within a body -/

theorem mimeStateBdy_quiet (c : Octet) (h : m.sourceState.isBody) :
    ∃ new, m.Quiet new (mimeStateBdy m c) := by
  unfold mimeStateBdy
  split
  · obtain ⟨new, hline, -⟩ := flushLine_quiet h
    dsimp only
    split
    · exact ⟨new ++ [], hline.trans (.set m.flushLine.source rfl)⟩
    · obtain ⟨new', hdecoded⟩ := mimeDecodeState_quiet (some ASCII_LF) hline.body
      exact ⟨new ++ new', hline.trans hdecoded⟩
  · exact mimeDecodeState_quiet (some c) h

theorem mimeStateBdyLF_quiet (c : Octet) (h : m.sourceState.isBody) :
    ∃ new, m.Quiet new (mimeStateBdyLF m c) := by
  unfold mimeStateBdyLF
  split
  · exact ⟨[], .set m.source rfl⟩
  · split
    · obtain ⟨new, hdecoded⟩ := mimeDecodeState_quiet (some ASCII_LF) h
      obtain ⟨new', hbody⟩ := mimeStateBdy_quiet ASCII_LF hdecoded.body
      exact ⟨new ++ new', hdecoded.trans hbody⟩
    · obtain ⟨new, hflush, -⟩ := flushBegun_quiet c h
      obtain ⟨new', hdecoded⟩ := mimeDecodeAll_quiet [ASCII_LF, c] hflush.body
      exact ⟨new ++ new' ++ [], (hflush.trans hdecoded).trans (.set _ rfl)⟩

theorem mimeStateHdrBdy_quiet (m : Mime) (c : Octet) : ∃ new, m.Quiet new (mimeStateHdrBdy m c) := by
  have hset : m.Quiet [] { m with sourceState := .bdy } := .set m.source rfl
  unfold mimeStateHdrBdy
  dsimp only
  split
  · obtain ⟨new, hbody⟩ := mimeStateBdyLF_quiet c hset.body
    exact ⟨[] ++ new, hset.trans hbody⟩
  · obtain ⟨new, hbody⟩ := mimeStateBdy_quiet c hset.body
    exact ⟨[] ++ new, hset.trans hbody⟩

theorem mimeStateDash1_quiet (c : Octet) (h : m.sourceState.isBody) :
    ∃ new, m.Quiet new (mimeStateDash1 m c) := by
  unfold mimeStateDash1
  split
  · exact ⟨[], .set m.source rfl⟩
  · obtain ⟨new, hdecoded⟩ := mimeDecodeAll_quiet [ASCII_LF, CModel.ch '-', c] h
    exact ⟨new ++ [], hdecoded.trans (.set _ rfl)⟩

theorem mimeStateDash2_quiet (c : Octet) (h : m.sourceState.isBody) :
    ∃ new, m.Quiet new (mimeStateDash2 m c) := by
  unfold mimeStateDash2
  split
  · obtain ⟨new, hdecoded⟩ :=
      mimeDecodeAll_quiet [ASCII_LF, CModel.ch '-', CModel.ch '-', c] h
    exact ⟨new ++ [], hdecoded.trans (.set _ rfl)⟩
  · exact ⟨[], .set m.source rfl⟩

theorem mimeBoundaryNotFound_quiet (m : Mime) (c : Octet) :
    ∃ new, m.Quiet new (mimeBoundaryNotFound m c) := by
  have hset : m.Quiet [] { m with
      decodeStateCr := false, sourceState := .bdy, source := m.source.useAll } :=
    ⟨rfl, (List.append_nil _).symm, by simp, rfl, (List.append_nil _).symm, rfl⟩
  obtain ⟨new, hreplayed⟩ := mimeDecodeAll_quiet m.source.octets hset.body
  unfold mimeBoundaryNotFound
  dsimp only
  split
  · obtain ⟨new', hdecoded⟩ := mimeDecodeState_quiet (some c) hreplayed.body
    exact ⟨[] ++ new ++ new', (hset.trans hreplayed).trans hdecoded⟩
  · exact ⟨[] ++ new, hset.trans hreplayed⟩

/-- The source buffer was read. -/
def Mime.readSource (m : Mime) : Mime :=
  { m with source := m.source.useAll }

/-- The line in the source buffer is a boundary, and ends here. -/
structure Mime.AtBoundary (m : Mime) (c : Octet) : Prop where
  state : m.sourceState = .boundary
  ends : c = ASCII_LF ∨ MIME_BUFFER_SIZE ≤ m.source.length
  line : isBoundaryLine m.encoding m.source.octets

theorem mimeStateBoundary_cases (c : Octet) (h : m.sourceState = .boundary) :
    (∃ new, m.Quiet new (mimeStateBoundary m c)) ∨
      (m.AtBoundary c ∧
        mimeStateBoundary m c = mimeBoundaryFound m.readSource) := by
  unfold mimeStateBoundary
  split
  · rename_i hends
    dsimp only
    split
    · rename_i hline
      exact .inr ⟨⟨h, hends, hline⟩, rfl⟩
    · obtain ⟨new, hquiet⟩ := mimeBoundaryNotFound_quiet m.readSource c
      exact .inl ⟨new, hquiet.outer, hquiet.log, hquiet.quiet, hquiet.counts, hquiet.flushed,
        hquiet.body⟩
  · exact .inl ⟨[], .refl (by rw [h]; rfl)⟩

/-- A step within a body is quiet, unless it finds a boundary. -/
theorem runBodyState_cases (c : Octet) (h : m.sourceState.isBody) :
    (∃ new, m.Quiet new (m.runBodyState c)) ∨
      (m.AtBoundary c ∧
        m.runBodyState c = mimeBoundaryFound m.readSource) := by
  cases hstate : m.sourceState with
  | boundary =>
      have hrun : m.runBodyState c = mimeStateBoundary m c := by
        simp only [Mime.runBodyState, hstate]
      rw [hrun]
      exact mimeStateBoundary_cases c hstate
  | hdrBdy =>
      simp only [Mime.runBodyState, hstate]
      exact .inl (mimeStateHdrBdy_quiet m c)
  | bdy =>
      simp only [Mime.runBodyState, hstate]
      exact .inl (mimeStateBdy_quiet c h)
  | bdyLF =>
      simp only [Mime.runBodyState, hstate]
      exact .inl (mimeStateBdyLF_quiet c h)
  | dash1 =>
      simp only [Mime.runBodyState, hstate]
      exact .inl (mimeStateDash1_quiet c h)
  | dash2 =>
      simp only [Mime.runBodyState, hstate]
      exact .inl (mimeStateDash2_quiet c h)
  | hdrStart | hdr | hdrValue | hdrLF =>
      rw [hstate] at h
      cases h

/-! ### A boundary -/

/-- The decoder is ended, and the octets of the boundary are taken off the counters. -/
def Mime.endDecoding (m : Mime) : Mime :=
  mimeDecodeState { m with decodeStateCr := false, decodeState := .decodeAdd } none

theorem endDecoding_decodes (m : Mime) :
    ∃ new, ({ m with decodeStateCr := false, decodeState := .decodeAdd } : Mime).Decodes new
        m.endDecoding ∧ decodedOctets new = [] ∧ m.endDecoding.decodeState = .decodeAdd := by
  obtain ⟨new, hd, -, hpasses⟩ :=
    mimeDecodeState_decodes { m with decodeStateCr := false, decodeState := .decodeAdd } none
  obtain ⟨⟨hdecoded, hstate⟩, -⟩ := hpasses rfl
  exact ⟨new, hd, List.append_eq_nil_iff.mp hdecoded |>.1, hstate⟩

/-- A boundary was found by `m`, and `m'` is at the start of the next part. -/
structure Mime.Found (m m' : Mime) : Prop where
  log : ∃ new, (∀ event ∈ new, event.isQuiet) ∧ decodedOctets new = [] ∧
    m'.log = m.log ++ new ++
      [.bodyFinish (m.bodyLength - m.source.length) m.bodyDecodedLength]
  state : m'.sourceState = .hdrStart
  decodeState : m'.decodeState = .decodeAdd
  encoding : m'.encoding = .none
  source : m'.source.octets = []
  bodyLength : m'.bodyLength = m.bodyLength - m.source.length
  bodyDecodedLength : m'.bodyDecodedLength = m.bodyDecodedLength
  isMessageRfc822 : m'.isMessageRfc822 = false
  throwReady : m'.throwReady = m.throwReady
  thrown : m'.thrown = m.thrown

/-- The boundary is discarded. -/
def Mime.dropBoundary (m : Mime) : Mime :=
  { m.discount m.source.length with source := m.source.clear }

theorem mimeBoundaryFound_eq (m : Mime) :
    mimeBoundaryFound m = (mimeBodyFinish m.endDecoding.dropBoundary).nextPart :=
  rfl

theorem mimeBodyFinish_body {m : Mime} (h : mimeIsAnyHeader m = false) :
    mimeBodyFinish m = m.note (.bodyFinish m.bodyLength m.bodyDecodedLength) := by
  rw [mimeBodyFinish, h]
  rfl

theorem mimeBoundaryFound_found (h : m.sourceState = .boundary) :
    m.Found (mimeBoundaryFound m) := by
  obtain ⟨new, hd, hdecoded, hstate⟩ := endDecoding_decodes m
  rw [mimeBoundaryFound_eq]
  generalize m.endDecoding = ended at hd hstate
  have hfinish : mimeIsAnyHeader ended.dropBoundary = false := by
    change mimeIsAnyHeader ended = false
    rw [hd.isAnyHeader]
    simp only [mimeIsAnyHeader, h]
    rfl
  rw [mimeBodyFinish_body hfinish]
  exact
    { log := by
        refine ⟨new, fun event hmem => MimeEvent.isQuiet_of_isDecoding (hd.decoding event hmem),
          hdecoded, ?_⟩
        change ended.log ++ [.bodyFinish (ended.bodyLength - ended.source.length)
          ended.bodyDecodedLength] = _
        rw [hd.log, hd.bodyLength_eq, hd.source_eq, hd.counts, hdecoded]
        rfl
      state := rfl
      decodeState := hstate
      encoding := rfl
      source := rfl
      bodyLength := by
        change ended.bodyLength - ended.source.length = _
        rw [hd.bodyLength_eq, hd.source_eq]
      bodyDecodedLength := by
        change ended.bodyDecodedLength = _
        rw [hd.counts, hdecoded]
        rfl
      isMessageRfc822 := rfl
      throwReady := hd.throwReady_eq
      thrown := hd.thrown_eq }

/-- What a call of a state within a body comes to: a quiet step, or one up to a boundary. -/
inductive Mime.BodyStep (m m' : Mime) : Prop where
  | quiet {new : List MimeEvent} (h : m.Quiet new m')
  | found {new : List MimeEvent} {m₁ : Mime} (h : m.Quiet new m₁) (hfound : m₁.Found m')

theorem runBodyState_bodyStep (c : Octet) (h : m.sourceState.isBody) :
    m.BodyStep (m.runBodyState c) := by
  rcases runBodyState_cases c h with ⟨new, hquiet⟩ | ⟨hat, hfound⟩
  · exact .quiet hquiet
  · have hread : m.Quiet [] m.readSource := .set m.source.useAll h
    rw [hfound]
    exact .found hread (mimeBoundaryFound_found hat.state)

theorem mimeReplay_found {m m' : Mime} (h : m.Found m') (rounds i : Nat) :
    mimeReplay rounds i m' = m' := by
  cases rounds with
  | zero => rfl
  | succ rounds =>
      have hempty : ¬ i < m'.source.length := by
        simp [MimeBuffer.length, h.source]
      rw [mimeReplay, if_neg hempty]

theorem mimeReplay_bodyStep (rounds : Nat) : ∀ (i : Nat) {m : Mime}, m.sourceState.isBody →
    m.BodyStep (mimeReplay rounds i m) := by
  induction rounds with
  | zero => exact fun _ _ h => .quiet (.refl h)
  | succ rounds ih =>
      intro i m h
      unfold mimeReplay
      split
      · have hused : m.Quiet [] { m with source := m.source.use i } := .set (m.source.use i) h
        cases runBodyState_bodyStep (m.source.octets.getD i 0) hused.body with
        | quiet hstep =>
            cases ih (i + 1) hstep.body with
            | quiet hrest => exact .quiet ((hused.trans hstep).trans hrest)
            | found hrest hfound => exact .found ((hused.trans hstep).trans hrest) hfound
        | found hstep hfound =>
            rw [mimeReplay_found hfound]
            exact .found (hused.trans hstep) hfound
      · exact .quiet (.refl h)

/-- A line that is no header ends the headers, and stands at the start of a body. -/
def Mime.headerlessBody (m : Mime) (c : Octet) : Mime :=
  { mimeBodyStart (mimeHdrFinish { m with source := dropEmptyLine m.source c }) with
    sourceState := .hdrBdy }

theorem mimeHeaderless_eq (m : Mime) (c : Octet) : mimeHeaderless m c =
    mimeReplay (m.headerlessBody c).source.length 0 (m.headerlessBody c) :=
  rfl

theorem mimeHeaderless_bodyStep (m : Mime) (c : Octet) :
    (m.headerlessBody c).BodyStep (mimeHeaderless m c) :=
  mimeReplay_bodyStep _ 0 rfl

/-- The headers of `m` end, and `m'` is at the start of the body. -/
structure Mime.Starts (m m' : Mime) : Prop where
  log : ∃ new, (∀ event ∈ new, event.isQuiet) ∧
    m'.log = m.log ++ new ++ [.hdrFinish, .bodyStart m.decodeState []]
  state : m'.sourceState = .hdrBdy
  decodeState : m'.decodeState = m.decodeState
  encoding : m'.encoding = m.encoding
  source : m'.source.octets = []
  bodyLength : m'.bodyLength = 0
  bodyDecodedLength : m'.bodyDecodedLength = 0
  isMessageRfc822 : m'.isMessageRfc822 = m.isMessageRfc822
  throwReady : m'.throwReady = m.throwReady
  thrown : m'.thrown = m.thrown

theorem mimeSourceFlush_log (m : Mime) : ∃ new, (∀ event ∈ new, event.isQuiet) ∧
    decodedOctets new = [] ∧ (mimeSourceFlush m).log = m.log ++ new := by
  unfold mimeSourceFlush
  split
  · exact ⟨[.sourceFlush m.source.octets], by simp [MimeEvent.isQuiet], rfl, rfl⟩
  · exact ⟨[], by simp, rfl, (List.append_nil _).symm⟩

theorem startBody_starts (m : Mime) : m.Starts m.startBody := by
  obtain ⟨new, hquiet, -, hlog⟩ := mimeSourceFlush_log m
  obtain ⟨new', hd, -⟩ := mimeDecodeFlush_decodes (mimeSourceFlush m)
  have hempty := mimeSourceFlush_octets m
  have hstate : (mimeDecodeFlush (mimeSourceFlush m)).decodeState = m.decodeState := by
    rw [mimeDecodeFlush_decodeState, mimeSourceFlush_eq]
  have hfields := mimeSourceFlush_eq m
  unfold Mime.startBody
  generalize mimeSourceFlush m = flushed at hd hlog hempty hstate hfields
  generalize mimeDecodeFlush flushed = flushed' at hd hstate
  have hencoding : flushed'.encoding = m.encoding := hd.encoding_eq.trans (by rw [hfields])
  have hrfc822 : flushed'.isMessageRfc822 = m.isMessageRfc822 :=
    hd.isMessageRfc822_eq.trans (by rw [hfields])
  have hready : flushed'.throwReady = m.throwReady := hd.throwReady_eq.trans (by rw [hfields])
  have hthrown : flushed'.thrown = m.thrown := hd.thrown_eq.trans (by rw [hfields])
  exact
    { log := by
        refine ⟨new ++ new', fun event hmem => ?_, ?_⟩
        · rcases List.mem_append.mp hmem with hmem | hmem
          · exact hquiet event hmem
          · exact MimeEvent.isQuiet_of_isDecoding (hd.decoding event hmem)
        · change flushed'.log ++ [.hdrFinish] ++
            [.bodyStart flushed'.decodeState flushed'.source.octets] = _
          rw [hd.log, hlog, hstate, hd.source_eq, hempty]
          simp
      state := rfl
      decodeState := hstate
      encoding := hencoding
      source := by
        change flushed'.source.octets = []
        rw [hd.source_eq, hempty]
      bodyLength := rfl
      bodyDecodedLength := rfl
      isMessageRfc822 := hrfc822
      throwReady := hready
      thrown := hthrown }

/-- The header of `m` ends, and `m'` stands at the first octet of the next line. -/
structure Mime.EndsHeader (m : Mime) (c : Octet) (m' : Mime) : Prop where
  log : ∃ new, (∀ event ∈ new, event.isQuiet) ∧
    m'.log = m.log ++ .header m.source.octets.dropLast :: new
  state : m'.sourceState = .hdr
  source : m'.source.octets = [c]
  decodeState : m'.decodeState = m.endHeaderLine.checkedHeader.decodeState
  encoding : m'.encoding = m.endHeaderLine.checkedHeader.encoding
  isMessageRfc822 : m'.isMessageRfc822 = m.endHeaderLine.checkedHeader.isMessageRfc822
  bodyLength : m'.bodyLength = m.bodyLength
  bodyDecodedLength : m'.bodyDecodedLength = m.bodyDecodedLength
  throwReady : m'.throwReady = m.throwReady
  thrown : m'.thrown = m.thrown

theorem flushedHeader_fields (m : Mime) :
    m.flushedHeader.sourceState = .hdr ∧
      m.flushedHeader.decodeState = m.endHeaderLine.checkedHeader.decodeState ∧
      m.flushedHeader.encoding = m.endHeaderLine.checkedHeader.encoding ∧
      m.flushedHeader.isMessageRfc822 = m.endHeaderLine.checkedHeader.isMessageRfc822 ∧
      m.flushedHeader.bodyLength = m.bodyLength ∧
      m.flushedHeader.bodyDecodedLength = m.bodyDecodedLength ∧
      m.flushedHeader.throwReady = m.throwReady ∧ m.flushedHeader.thrown = m.thrown := by
  have hchecked := mimeCheckHeader_eq m.endHeaderLine m.endHeaderLine.source.octets
  change m.endHeaderLine.checkedHeader = _ at hchecked
  rw [Mime.flushedHeader, mimeSourceFlush_eq]
  refine ⟨?_, rfl, rfl, rfl, ?_, ?_, ?_, ?_⟩ <;> simp only [Mime.note] <;> rw [hchecked] <;> rfl

theorem mimeEndHeader_endsHeader (m : Mime) (c : Octet) : m.EndsHeader c (mimeEndHeader m c) := by
  obtain ⟨new, hquiet, -, hlog⟩ := mimeSourceFlush_log
    (m.endHeaderLine.checkedHeader.note (.header m.source.octets.dropLast))
  have hempty := mimeSourceFlush_octets
    (m.endHeaderLine.checkedHeader.note (.header m.source.octets.dropLast))
  have hlogged : m.endHeaderLine.checkedHeader.log = m.log := by
    rw [Mime.checkedHeader, mimeCheckHeader_eq]
    rfl
  obtain ⟨hstate, hdecode, hencoding, hrfc822, hbody, hcount, hready, hthrown⟩ :=
    flushedHeader_fields m
  change m.flushedHeader.log = m.endHeaderLine.checkedHeader.log ++ [_] ++ new at hlog
  change m.flushedHeader.source.octets = [] at hempty
  rw [mimeEndHeader_eq]
  generalize m.flushedHeader = flushed at *
  exact
    { log := ⟨new, hquiet, by
        change flushed.log = _
        rw [hlog, hlogged, List.append_assoc]
        rfl⟩
      state := hstate
      source := by
        change flushed.source.octets ++ [c] = [c]
        rw [hempty, List.nil_append]
      decodeState := hdecode
      encoding := hencoding
      isMessageRfc822 := hrfc822
      bodyLength := hbody
      bodyDecodedLength := hcount
      throwReady := hready
      thrown := hthrown }

/-! ### The end of a message -/

theorem mimeNextEof_log (m : Mime) : ∃ new, (∀ event ∈ new, event.isQuiet) ∧
    (mimeNextEof m).log = m.log ++ .next none :: new ++
      (if mimeIsAnyHeader m then []
      else [.bodyFinish m.bodyLength (m.bodyDecodedLength + (decodedOctets new).length)]) := by
  obtain ⟨new, hd, -⟩ := mimeDecodeState_decodes (m.note (.next none)) none
  obtain ⟨new', hd', -⟩ :=
    mimeDecodeFlush_decodes (mimeDecodeState (m.note (.next none)) none)
  have hall := hd.trans hd'
  unfold mimeNextEof
  dsimp only
  generalize mimeDecodeFlush (mimeDecodeState (m.note (.next none)) none) = decoded at hall
  obtain ⟨flushed, hquiet, hnone, hlog⟩ := mimeSourceFlush_log decoded
  have hheader : mimeIsAnyHeader (mimeSourceFlush decoded) = mimeIsAnyHeader m := by
    rw [mimeSourceFlush_eq]
    exact hall.isAnyHeader
  have hbody : (mimeSourceFlush decoded).bodyLength = m.bodyLength := by
    rw [mimeSourceFlush_eq]
    exact hall.bodyLength_eq
  have hcount : (mimeSourceFlush decoded).bodyDecodedLength =
      m.bodyDecodedLength + (decodedOctets (new ++ new' ++ flushed)).length := by
    rw [mimeSourceFlush_eq, decodedOctets_append, hnone, List.append_nil]
    exact hall.counts
  refine ⟨new ++ new' ++ flushed, fun event hmem => ?_, ?_⟩
  · rcases List.mem_append.mp hmem with hmem | hmem
    · exact MimeEvent.isQuiet_of_isDecoding (hall.decoding event hmem)
    · exact hquiet event hmem
  · have hevents : (mimeSourceFlush decoded).log =
        m.log ++ .next none :: (new ++ new' ++ flushed) := by
      rw [hlog, hall.log]
      simp [Mime.note]
    rw [mimeBodyFinish, hheader]
    split
    · rw [hevents, List.append_nil]
    · rw [Mime.note, hbody, hcount]
      exact congrArg (· ++ [_]) hevents

/-! ### Logs -/

/-- Each event of a log has a property, which may depend on the events before it. -/
def EachEvent (holds : List MimeEvent → MimeEvent → Prop) (log : List MimeEvent) : Prop :=
  ∀ before event after, log = before ++ event :: after → holds before event

theorem EachEvent.append {holds : List MimeEvent → MimeEvent → Prop} {log new : List MimeEvent}
    (h : EachEvent holds log)
    (hnew : ∀ before event after, new = before ++ event :: after → holds (log ++ before) event) :
    EachEvent holds (log ++ new) := by
  intro before event after hsplit
  rcases List.append_eq_append_iff.mp hsplit with ⟨rest, rfl, hrest⟩ | ⟨rest, hlog, hrest⟩
  · exact hnew rest event after hrest
  · cases rest with
    | nil =>
        rw [List.append_nil] at hlog
        have hfirst := hnew [] event after hrest.symm
        rwa [List.append_nil, hlog] at hfirst
    | cons first rest =>
        obtain ⟨rfl, -⟩ := List.cons.inj hrest
        exact h before event rest hlog

theorem EachEvent.append_all {holds : List MimeEvent → MimeEvent → Prop} {log new : List MimeEvent}
    (h : EachEvent holds log) (hnew : ∀ event ∈ new, ∀ before, holds before event) :
    EachEvent holds (log ++ new) :=
  h.append fun before event after hsplit => hnew event (by simp [hsplit]) _

theorem EachEvent.append_one {holds : List MimeEvent → MimeEvent → Prop} {log : List MimeEvent}
    {event : MimeEvent} (h : EachEvent holds log) (hlast : holds log event) :
    EachEvent holds (log ++ [event]) := by
  refine h.append fun before event' after hsplit => ?_
  obtain ⟨rfl, hnil⟩ | ⟨tail, -, hnil⟩ := List.cons_eq_append_iff.mp hsplit
  · obtain ⟨rfl, -⟩ := List.cons.inj hnil
    rwa [List.append_nil]
  · exact absurd hnil (by simp)

/-! ### The state that is called -/

theorem runSourceState_hdrStart (c : Octet) (h : m.sourceState = .hdrStart) :
    m.runSourceState c = mimeStateHdrStart m c := by
  simp only [Mime.runSourceState, h]

theorem runSourceState_hdr (c : Octet) (h : m.sourceState = .hdr) :
    m.runSourceState c = mimeStateHdr m c := by
  simp only [Mime.runSourceState, h]

theorem runSourceState_hdrValue (c : Octet) (h : m.sourceState = .hdrValue) :
    m.runSourceState c = mimeStateHdrValue m c := by
  simp only [Mime.runSourceState, h]

theorem runSourceState_hdrLF (c : Octet) (h : m.sourceState = .hdrLF) :
    m.runSourceState c = mimeStateHdrLF m c := by
  simp only [Mime.runSourceState, h]

theorem runSourceState_body (c : Octet) (h : m.sourceState.isBody) :
    m.runSourceState c = m.runBodyState c := by
  unfold Mime.runSourceState
  cases hstate : m.sourceState <;> first | rfl | (rw [hstate] at h; cases h)

/-! ### Runs -/

theorem mimeFeed_append (m : Mime) (input input' : List Ch) :
    mimeFeed m (input ++ input') = mimeFeed (mimeFeed m input) input' :=
  List.foldl_append

theorem mimeFeed_cons {m : Mime} (h : m.thrown = none) (c : Octet) (octets : List Octet) :
    mimeFeed m ((c :: octets).map some) = mimeFeed (mimeNextOctet m c) (octets.map some) := by
  simp [mimeFeed, h, mimeNextCh]

theorem mimeFeed_concat {m : Mime} {octets : List Octet}
    (h : (mimeFeed m (octets.map some)).thrown = none) (c : Octet) :
    mimeFeed m ((octets ++ [c]).map some) = mimeNextOctet (mimeFeed m (octets.map some)) c := by
  rw [List.map_append, mimeFeed_append]
  exact mimeFeed_cons h c []

theorem mimeFeed_eof {m : Mime} {octets : List Octet}
    (h : (mimeFeed m (octets.map some)).thrown = none) :
    mimeFeed m (octets.map some ++ [none]) = mimeNextEof (mimeFeed m (octets.map some)) := by
  rw [mimeFeed_append]
  change (if (mimeFeed m (octets.map some)).thrown.isSome then _ else _) = _
  rw [h]
  rfl

/-- Every octet given to the parser meets the condition, in the state that the parser is then in. -/
def Mime.Along (safe : Mime → Octet → Prop) (m : Mime) (octets : List Octet) : Prop :=
  ∀ before c after, octets = before ++ c :: after →
    (mimeFeed m (before.map some)).thrown = none → safe (mimeFeed m (before.map some)) c

theorem along_cons {safe : Mime → Octet → Prop} {m : Mime} {c : Octet} {octets : List Octet} :
    m.Along safe (c :: octets) ↔
      (m.thrown = none → safe m c) ∧ (mimeFeed m [some c]).Along safe octets := by
  constructor
  · refine fun h => ⟨h [] c octets rfl, fun before c' after hoctets => ?_⟩
    have hrest := h (c :: before) c' after (by rw [hoctets]; rfl)
    rwa [List.map_cons, ← List.singleton_append, mimeFeed_append] at hrest
  · rintro ⟨hfirst, hrest⟩ before c' after hoctets
    cases before with
    | nil =>
        obtain ⟨rfl, -⟩ := List.cons.inj hoctets
        exact hfirst
    | cons first before =>
        obtain ⟨rfl, rfl⟩ := List.cons.inj hoctets
        have hbefore := hrest before c' after rfl
        rwa [← mimeFeed_append] at hbefore

theorem along_append {safe : Mime → Octet → Prop} {m : Mime} {octets octets' : List Octet}
    (h : m.Along safe (octets ++ octets')) :
    m.Along safe octets ∧ (mimeFeed m (octets.map some)).Along safe octets' := by
  constructor
  · intro before c after hoctets
    exact h before c (after ++ octets') (by rw [hoctets, List.append_assoc]; rfl)
  · intro before c after hoctets
    have hrest := h (octets ++ before) c after (by rw [hoctets, List.append_assoc])
    rwa [List.map_append, mimeFeed_append] at hrest

/-- The condition can be tested along a message. -/
instance decidableAlong {safe : Mime → Octet → Prop} [∀ m c, Decidable (safe m c)] :
    ∀ (m : Mime) (octets : List Octet), Decidable (m.Along safe octets)
  | _, [] => .isTrue fun before _ _ hoctets => absurd hoctets (by simp)
  | m, c :: octets =>
      have : Decidable ((mimeFeed m [some c]).Along safe octets) := decidableAlong _ octets
      decidable_of_iff' _ along_cons

theorem mimeFeed_invariant {inv : Mime → Prop} {safe : Mime → Octet → Prop}
    (hstep : ∀ m c, inv m → m.thrown = none → safe m c → inv (mimeNextOctet m c)) {m : Mime}
    (hinit : inv m) (octets : List Octet) :
    m.Along safe octets → inv (mimeFeed m (octets.map some)) := by
  induction octets using List.reverseRecOn with
  | nil => exact fun _ => hinit
  | append_singleton octets c ih =>
      intro halong
      have hbefore : inv (mimeFeed m (octets.map some)) := ih fun before c' after hoctets =>
        halong before c' (after ++ [c]) (by rw [hoctets, List.append_assoc]; rfl)
      rw [List.map_append, mimeFeed_append]
      change inv (if (mimeFeed m (octets.map some)).thrown.isSome then _ else _)
      split
      · exact hbefore
      · rename_i hthrown
        have hnone := Option.not_isSome_iff_eq_none.mp hthrown
        exact hstep _ c hbefore hnone (halong octets c [] rfl hnone)

end Snert
