/-
Module: Snert.Proofs.MimeBodySteps
Purpose: What each state within a body gives to the decoder, what it keeps in the source buffer, and the
  state it leaves the parser in. Octets given to the decoder are seen by the hooks `source_octet`, and
  come out of the identity decoder as they are, a CR with the octet behind it.
Trusted boundary: none
Main exports: mimeStateDash1_fails, mimeStateDash2_fails, mimeBoundaryNotFound_gives
-/
import Snert.Proofs.MimeSteps

namespace Snert

open CModel

/-! ### The decoder in use -/

theorem mimeDecodeAdd_decodeState (m : Mime) (ch : Ch) :
    (mimeDecodeAdd m ch).decodeState = m.decodeState := by
  unfold mimeDecodeAdd
  split
  · rfl
  · exact (mimeDecodeAppend_decodeState _ ch).trans (mimeDecodeCr_decodeState m)

theorem mimeStateQpLiteral_decodeState {m : Mime} (ch : Ch) (h : m.decodeState ≠ .decodeAdd) :
    (mimeStateQpLiteral m ch).decodeState ≠ .decodeAdd := by
  unfold mimeStateQpLiteral
  split
  · exact nofun
  · rwa [mimeDecodeAdd_decodeState]

theorem mimeStateBase64_decodeState (m : Mime) (ch : Ch) :
    (mimeStateBase64 m ch).decodeState = m.decodeState := by
  unfold mimeStateBase64
  dsimp only
  split
  · exact mimeDecodeAdd_decodeState _ _
  · exact mimeDecodeAdd_decodeState _ _
  · rfl
  · rfl

theorem mimeStateQpEqual_decodeState {m : Mime} (ch : Ch) (h : m.decodeState ≠ .decodeAdd) :
    (mimeStateQpEqual m ch).decodeState ≠ .decodeAdd := by
  unfold mimeStateQpEqual
  split
  · exact h
  · split
    · exact nofun
    · split
      · exact nofun
      · rw [mimeDecodeAdd_decodeState, mimeDecodeAdd_decodeState]
        exact nofun

theorem runDecodeState_decodeState {m : Mime} (ch : Ch) (h : m.decodeState ≠ .decodeAdd) :
    (m.runDecodeState ch).decodeState ≠ .decodeAdd := by
  unfold Mime.runDecodeState
  split
  · rename_i hstate
    exact absurd hstate h
  · rwa [mimeStateBase64_decodeState]
  · exact mimeStateQpLiteral_decodeState ch h
  · exact mimeStateQpLiteral_decodeState ch h
  · exact nofun
  · exact mimeStateQpEqual_decodeState ch h

theorem mimeDecodeState_identity (m : Mime) (ch : Ch) :
    (mimeDecodeState m ch).decodeState = .decodeAdd ↔ m.decodeState = .decodeAdd := by
  constructor
  · exact fun h => by_contra fun hne =>
      runDecodeState_decodeState (m := m.note (.sourceOctet ch)) ch hne h
  · intro h
    obtain ⟨new, -, -, hpasses⟩ := mimeDecodeState_decodes m ch
    exact (hpasses h).1.decodeState.trans h

/-! ### What is given to the decoder -/

/-- `m'` comes from `m` within a body, and the decoder was given some octets. -/
structure Mime.Gives (m : Mime) (given : List Octet) (m' : Mime) : Prop where
  outer : m'.outer = m.outer
  log : m.log <+: m'.log
  sources : sourceOctets m'.log = sourceOctets m.log ++ given
  decoded : m.decodeState = .decodeAdd →
    decodedOctets m'.log ++ heldCr m' = decodedOctets m.log ++ heldCr m ++ given
  identity : m'.decodeState = .decodeAdd ↔ m.decodeState = .decodeAdd
  flushed : flushedOctets m.log ++ m.decode.octets = decodedOctets m.log →
    flushedOctets m'.log ++ m'.decode.octets = decodedOctets m'.log

namespace Mime.Gives

variable {m m' m'' : Mime} {given given' : List Octet}

theorem trans (h : m.Gives given m') (h' : m'.Gives given' m'') :
    m.Gives (given ++ given') m'' where
  outer := h'.outer.trans h.outer
  log := h.log.trans h'.log
  sources := by rw [h'.sources, h.sources, List.append_assoc]
  decoded hadd := by
    rw [h'.decoded (h.identity.mpr hadd), h.decoded hadd, List.append_assoc]
  identity := h'.identity.trans h.identity
  flushed hflushed := h'.flushed (h.flushed hflushed)

theorem of_quiet {new : List MimeEvent} (h : m.Quiet new m') (hsource : sourceOctets new = given)
    (hdecoded : m.decodeState = .decodeAdd → decodedOctets new ++ heldCr m' = heldCr m ++ given)
    (hidentity : m'.decodeState = .decodeAdd ↔ m.decodeState = .decodeAdd) :
    m.Gives given m' where
  outer := h.outer
  log := h.log ▸ List.prefix_append _ _
  sources := by rw [h.log, sourceOctets_append, hsource]
  decoded hadd := by
    rw [h.log, decodedOctets_append, List.append_assoc, hdecoded hadd, List.append_assoc]
  identity := hidentity
  flushed hflushed := by
    rw [h.log, flushedOctets_append, decodedOctets_append, List.append_assoc, h.flushed,
      ← List.append_assoc, hflushed]

theorem of_quiet_none {new : List MimeEvent} (h : m.Quiet new m') (hsource : sourceOctets new = [])
    (hdecoded : decodedOctets new = []) (hcr : heldCr m' = heldCr m)
    (hstate : m'.decodeState = m.decodeState) : m.Gives [] m' :=
  of_quiet h hsource (fun _ => by rw [hdecoded, hcr, List.append_nil, List.nil_append])
    (by rw [hstate])

end Mime.Gives

variable {m : Mime}

theorem mimeDecodeState_gives (c : Octet) (h : m.sourceState.isBody) :
    m.Gives [c] (mimeDecodeState m (some c)) := by
  obtain ⟨new, hd, hsource, hpasses⟩ := mimeDecodeState_decodes m (some c)
  exact .of_quiet (.of_decodes hd h) hsource (fun hadd => (hpasses hadd).1.decoded)
    (mimeDecodeState_identity m (some c))

theorem mimeDecodeAll_identity (octets : List Octet) : ∀ m : Mime,
    (mimeDecodeAll m octets).decodeState = .decodeAdd ↔ m.decodeState = .decodeAdd := by
  induction octets with
  | nil => exact fun _ => Iff.rfl
  | cons c octets ih =>
      exact fun m => (ih (mimeDecodeState m (some c))).trans (mimeDecodeState_identity m (some c))

theorem mimeDecodeAll_gives (octets : List Octet) (h : m.sourceState.isBody) :
    m.Gives octets (mimeDecodeAll m octets) := by
  obtain ⟨new, hd, hsource, hpasses⟩ := mimeDecodeAll_decodes octets m
  exact .of_quiet (.of_decodes hd h) hsource (fun hadd => (hpasses hadd).decoded)
    (mimeDecodeAll_identity octets m)

/-! ### Flushes -/

/-- The newline at the end of some octets. -/
def newlineOf (octets : List Octet) : List Octet :=
  if octets.dropLast.getLast? = some ASCII_CR then [ASCII_CR, ASCII_LF] else [ASCII_LF]

theorem flushLine_eq (m : Mime) :
    m.flushLine = { m with source := m.flushLine.source, log := m.flushLine.log } := by
  unfold Mime.flushLine
  dsimp only
  split
  · rw [mimeSourceFlush_eq]
  · rw [mimeSourceFlush_eq]

theorem flushLine_octets (m : Mime) :
    m.flushLine.source.octets = newlineOf m.source.octets := by
  unfold Mime.flushLine newlineOf
  dsimp only
  split
  · rename_i hcr
    have hcr : m.source.octets.dropLast.getLast? = some ASCII_CR := of_decide_eq_true hcr
    rw [if_pos hcr]
    change (mimeSourceFlush _).source.octets ++ [ASCII_CR] ++ [ASCII_LF] = _
    rw [mimeSourceFlush_octets]
    rfl
  · rename_i hcr
    have hcr : ¬ m.source.octets.dropLast.getLast? = some ASCII_CR :=
      fun heq => hcr (decide_eq_true heq)
    rw [if_neg hcr]
    change (mimeSourceFlush _).source.octets ++ [ASCII_LF] = _
    rw [mimeSourceFlush_octets]
    rfl

theorem flushBegun_eq (m : Mime) (c : Octet) :
    m.flushBegun c = { m with source := (m.flushBegun c).source, log := (m.flushBegun c).log } := by
  unfold Mime.flushBegun
  split
  · dsimp only
    rw [mimeSourceFlush_eq]
  · exact mimeSourceFlush_eq m

theorem flushLine_gives (h : m.sourceState.isBody) : m.Gives [] m.flushLine := by
  obtain ⟨new, hquiet, hdecoded, hsource⟩ := flushLine_quiet h
  refine .of_quiet_none hquiet hsource hdecoded ?_ ?_
  · rw [flushLine_eq]
    rfl
  · rw [flushLine_eq]

theorem flushBegun_gives (c : Octet) (h : m.sourceState.isBody) : m.Gives [] (m.flushBegun c) := by
  obtain ⟨new, hquiet, hdecoded, hsource⟩ := flushBegun_quiet c h
  refine .of_quiet_none hquiet hsource hdecoded ?_ ?_
  · rw [flushBegun_eq]
    rfl
  · rw [flushBegun_eq]

theorem set_gives (m : Mime) (source : MimeBuffer) (state : SourceState) (h : state.isBody) :
    m.Gives [] { m with source := source, sourceState := state } :=
  .of_quiet_none (.set source h) rfl rfl rfl rfl

/-! ### The states -/

/-- What a step within a body gives to the decoder, the state it comes to, and what it leaves in the
source buffer. -/
structure Mime.BodyGives (m : Mime) (given : List Octet) (state : SourceState)
    (source : List Octet) (m' : Mime) : Prop where
  gives : m.Gives given m'
  state : m'.sourceState = state
  source : m'.source.octets = source

theorem mimeStateBdy_octet {c : Octet} (h : m.sourceState.isBody) (hc : c ≠ ASCII_LF) :
    m.BodyGives [c] m.sourceState m.source.octets (mimeStateBdy m c) := by
  obtain ⟨new, hd, -⟩ := mimeDecodeState_decodes m (some c)
  unfold mimeStateBdy
  rw [if_neg hc]
  exact ⟨mimeDecodeState_gives c h, hd.sourceState_eq, congrArg MimeBuffer.octets hd.source_eq⟩

theorem mimeStateBdy_newline (h : m.sourceState.isBody) (hmultipart : m.isMultipart) :
    m.BodyGives [] .bdyLF (newlineOf m.source.octets) (mimeStateBdy m ASCII_LF) := by
  have hline := flushLine_gives h
  have hmultipart' : m.flushLine.isMultipart = true := by
    rw [flushLine_eq]
    exact hmultipart
  unfold mimeStateBdy
  rw [if_pos rfl]
  dsimp only
  rw [if_pos hmultipart']
  exact ⟨hline.trans (set_gives m.flushLine m.flushLine.source .bdyLF rfl), rfl, flushLine_octets m⟩

theorem mimeStateBdy_newline_single (h : m.sourceState.isBody) (hsingle : m.isMultipart = false) :
    m.BodyGives [ASCII_LF] m.sourceState (newlineOf m.source.octets) (mimeStateBdy m ASCII_LF) := by
  have hline := flushLine_gives h
  have hsingle' : ¬ m.flushLine.isMultipart = true := by
    rw [flushLine_eq]
    exact Bool.eq_false_iff.mp hsingle
  have hstate : m.flushLine.sourceState = m.sourceState := by rw [flushLine_eq]
  obtain ⟨new, hd, -⟩ := mimeDecodeState_decodes m.flushLine (some ASCII_LF)
  unfold mimeStateBdy
  rw [if_pos rfl]
  dsimp only
  rw [if_neg hsingle']
  refine ⟨hline.trans (mimeDecodeState_gives ASCII_LF (by rw [hstate, h])),
    hd.sourceState_eq.trans hstate, ?_⟩
  rw [hd.source_eq, flushLine_octets]

theorem mimeStateBdyLF_hyphen (hmultipart : m.isMultipart) :
    m.BodyGives [] .dash1 m.source.octets (mimeStateBdyLF m (ch '-')) := by
  unfold mimeStateBdyLF
  rw [if_pos ⟨hmultipart, rfl⟩]
  exact ⟨set_gives m m.source .dash1 rfl, rfl, rfl⟩

theorem mimeStateBdyLF_newline (h : m.sourceState.isBody) (hmultipart : m.isMultipart) :
    m.BodyGives [ASCII_LF] .bdyLF (newlineOf m.source.octets) (mimeStateBdyLF m ASCII_LF) := by
  obtain ⟨new, hd, -⟩ := mimeDecodeState_decodes m (some ASCII_LF)
  have hnewline := mimeStateBdy_newline (m := mimeDecodeState m (some ASCII_LF))
    (by rw [hd.sourceState_eq, h]) (by rw [hd.isMultipart_eq, hmultipart])
  have hhyphen : ¬ (m.isMultipart = true ∧ ASCII_LF = ch '-') := fun hc => absurd hc.2 (by decide)
  unfold mimeStateBdyLF
  rw [if_neg hhyphen, if_pos rfl]
  refine ⟨(mimeDecodeState_gives ASCII_LF h).trans hnewline.gives, hnewline.state, ?_⟩
  rw [hnewline.source, hd.source_eq]

theorem mimeStateBdyLF_octet {c : Octet} (h : m.sourceState.isBody) (hc : c ≠ ASCII_LF)
    (hhyphen : ¬ (m.isMultipart = true ∧ c = ch '-')) :
    m.BodyGives [ASCII_LF, c] .bdy (if c = ASCII_CR then [ASCII_CR] else []) (mimeStateBdyLF m c) := by
  have hbegun := flushBegun_gives c h
  have hbody : (m.flushBegun c).sourceState.isBody := by
    rw [flushBegun_eq]
    exact h
  have hgives := mimeDecodeAll_gives [ASCII_LF, c] hbody
  obtain ⟨new, hd, -⟩ := mimeDecodeAll_decodes [ASCII_LF, c] (m.flushBegun c)
  unfold mimeStateBdyLF
  rw [if_neg hhyphen, if_neg hc]
  refine ⟨(hbegun.trans hgives).trans (set_gives _ _ .bdy rfl), rfl, ?_⟩
  dsimp only
  rw [hd.source_eq, flushBegun_octets]

theorem mimeStateDash1_hyphen (m : Mime) :
    m.BodyGives [] .dash2 m.source.octets (mimeStateDash1 m (ch '-')) := by
  unfold mimeStateDash1
  rw [if_pos rfl]
  exact ⟨set_gives m m.source .dash2 rfl, rfl, rfl⟩

/-- A line that begins with a hyphen is let go of, with a newline before it. -/
theorem mimeStateDash1_fails {c : Octet} (h : m.sourceState.isBody) (hc : c ≠ ch '-') :
    m.BodyGives [ASCII_LF, ch '-', c] .bdy m.source.octets (mimeStateDash1 m c) := by
  have hgives := mimeDecodeAll_gives [ASCII_LF, ch '-', c] h
  obtain ⟨new, hd, -⟩ := mimeDecodeAll_decodes [ASCII_LF, ch '-', c] m
  unfold mimeStateDash1
  rw [if_neg hc]
  exact ⟨hgives.trans (set_gives _ _ .bdy rfl), rfl, congrArg MimeBuffer.octets hd.source_eq⟩

/-- May the octet be the first of a boundary? -/
def leadsBoundary (c : Octet) : Bool :=
  !isspace c && mimeNoSpaceBoundary c

theorem mimeStateDash2_leads {c : Octet} (hc : leadsBoundary c) :
    m.BodyGives [] .boundary m.source.octets (mimeStateDash2 m c) := by
  have hleads : ¬ (isspace c = true ∨ ¬ mimeNoSpaceBoundary c = true) := by
    simpa [leadsBoundary, not_or] using hc
  unfold mimeStateDash2
  rw [if_neg hleads]
  exact ⟨set_gives m m.source .boundary rfl, rfl, rfl⟩

theorem mimeStateDash2_fails {c : Octet} (h : m.sourceState.isBody) (hc : leadsBoundary c = false) :
    m.BodyGives [ASCII_LF, ch '-', ch '-', c] .bdy m.source.octets (mimeStateDash2 m c) := by
  have hfails : isspace c = true ∨ ¬ mimeNoSpaceBoundary c = true := by
    rw [leadsBoundary, Bool.and_eq_false_iff] at hc
    simpa using hc
  have hgives := mimeDecodeAll_gives [ASCII_LF, ch '-', ch '-', c] h
  obtain ⟨new, hd, -⟩ := mimeDecodeAll_decodes [ASCII_LF, ch '-', ch '-', c] m
  unfold mimeStateDash2
  rw [if_pos hfails]
  exact ⟨hgives.trans (set_gives _ _ .bdy rfl), rfl, congrArg MimeBuffer.octets hd.source_eq⟩

theorem mimeStateBoundary_octet {c : Octet} (hc : c ≠ ASCII_LF)
    (hroom : m.source.octets.length < MIME_BUFFER_SIZE) : mimeStateBoundary m c = m := by
  have hgoes : ¬ (c = ASCII_LF ∨ MIME_BUFFER_SIZE ≤ m.source.length) :=
    not_or.mpr ⟨hc, Nat.not_le.mpr hroom⟩
  unfold mimeStateBoundary
  rw [if_neg hgoes]

/-- The CR that the decoder has kept back is dropped. -/
def Mime.dropCr (m : Mime) : Mime :=
  { m with decodeStateCr := false, sourceState := .bdy, source := m.source.useAll.useAll }

theorem mimeStateBoundary_fails (m : Mime)
    (hline : isBoundaryLine m.encoding m.source.octets = false) :
    m.dropCr.BodyGives m.source.octets .bdy m.source.octets (mimeStateBoundary m ASCII_LF) := by
  have hgives := mimeDecodeAll_gives (m := m.dropCr) m.source.octets rfl
  obtain ⟨new, hd, -⟩ := mimeDecodeAll_decodes m.source.octets m.dropCr
  have hline : ¬ isBoundaryLine m.encoding m.source.useAll.octets = true :=
    fun htrue => Bool.false_ne_true (hline.symm.trans htrue)
  have hfails : mimeStateBoundary m ASCII_LF = mimeDecodeAll m.dropCr m.source.octets := by
    unfold mimeStateBoundary
    rw [if_pos (.inl rfl)]
    dsimp only
    rw [if_neg hline]
    unfold mimeBoundaryNotFound
    dsimp only
    rw [if_neg (fun hne => hne rfl)]
    rfl
  rw [hfails]
  refine ⟨hgives, hd.sourceState_eq, ?_⟩
  rw [hd.source_eq]
  rfl

theorem mimeStateHdrBdy_hyphen (hmultipart : m.isMultipart) :
    m.BodyGives [] .dash1 m.source.octets (mimeStateHdrBdy m (ch '-')) := by
  have hstep := mimeStateBdyLF_hyphen (m := { m with sourceState := .bdy }) hmultipart
  unfold mimeStateHdrBdy
  dsimp only
  rw [if_pos rfl]
  exact ⟨(set_gives m m.source .bdy rfl).trans hstep.gives, hstep.state, hstep.source⟩

theorem mimeStateHdrBdy_hyphen_single (hsingle : m.isMultipart = false) :
    m.BodyGives [ASCII_LF, ch '-'] .bdy [] (mimeStateHdrBdy m (ch '-')) := by
  have hhyphen : ¬ (m.isMultipart = true ∧ ch '-' = ch '-') :=
    fun hc => Bool.eq_false_iff.mp hsingle hc.1
  have hstep := mimeStateBdyLF_octet (m := { m with sourceState := .bdy }) (c := ch '-') rfl
    (by decide) hhyphen
  rw [if_neg (by decide)] at hstep
  unfold mimeStateHdrBdy
  dsimp only
  rw [if_pos rfl]
  exact ⟨(set_gives m m.source .bdy rfl).trans hstep.gives, hstep.state, hstep.source⟩

theorem mimeStateHdrBdy_other {c : Octet} (hc : c ≠ ch '-') :
    mimeStateHdrBdy m c = mimeStateBdy { m with sourceState := .bdy } c := by
  unfold mimeStateHdrBdy
  dsimp only
  rw [if_neg hc]

/-! ### An octet that is given to the parser -/

theorem take_octets (m : Mime) (c : Octet) :
    sourceOctets (m.take c).log = sourceOctets m.log ∧
      decodedOctets (m.take c).log = decodedOctets m.log ∧
      flushedOctets (m.take c).log = flushedOctets m.log :=
  note_octets m (.next (some c)) rfl

/-- What is left of a source buffer that is flushed when it is full. -/
def unlessFull (source : List Octet) : List Octet :=
  if MIME_BUFFER_SIZE - 1 ≤ source.length then [] else source

theorem unlessFull_of_lt {source : List Octet} (h : source.length < MIME_BUFFER_SIZE - 1) :
    unlessFull source = source :=
  if_neg (Nat.not_le.mpr h)

theorem unlessFull_newlineOf (held : List Octet) : unlessFull (newlineOf held) = newlineOf held := by
  unfold newlineOf
  split
  · exact unlessFull_of_lt (by decide)
  · exact unlessFull_of_lt (by decide)

theorem flushFull_gives (h : m.sourceState.isBody) :
    m.BodyGives [] m.sourceState (unlessFull m.source.octets) m.flushFull := by
  have hlength : m.source.length = m.source.octets.length := rfl
  unfold Mime.flushFull unlessFull
  rw [hlength]
  by_cases hfull : MIME_BUFFER_SIZE - 1 ≤ m.source.octets.length
  · obtain ⟨new, hquiet, hdecoded, hsource⟩ := mimeSourceFlush_quiet h
    rw [if_pos hfull, if_pos hfull]
    refine ⟨.of_quiet_none hquiet hsource hdecoded ?_ ?_, ?_, mimeSourceFlush_octets m⟩
    · rw [mimeSourceFlush_eq]
      rfl
    · rw [mimeSourceFlush_eq]
    · rw [mimeSourceFlush_eq]
  · rw [if_neg hfull, if_neg hfull]
    exact ⟨.of_quiet_none (.refl h) rfl rfl rfl rfl, rfl, rfl⟩

theorem mimeNextOctet_bodyGives {begun : Mime} {c : Octet} {given source : List Octet}
    {state : SourceState} (hbody : m.sourceState.isBody) (hstate : state.isBody)
    (h : begun.BodyGives given state source ((m.take c).runBodyState c))
    (hthrown : begun.thrown = none) :
    begun.BodyGives given state (unlessFull source) (mimeNextOctet m c) := by
  have hrun := runSourceState_body (m := m.take c) c hbody
  have hnone : ((m.take c).runBodyState c).thrown = none := by
    have houter : ((m.take c).runBodyState c).outer.thrown = begun.outer.thrown := by
      rw [h.gives.outer]
    exact houter.trans hthrown
  have hflush := flushFull_gives (m := (m.take c).runBodyState c) (by rw [h.state, hstate])
  unfold mimeNextOctet
  dsimp only
  rw [hrun, if_neg (by rw [hnone]; exact Bool.false_ne_true)]
  refine ⟨?_, hflush.state.trans h.state, ?_⟩
  · have hgives := h.gives.trans hflush.gives
    rwa [List.append_nil] at hgives
  · rw [hflush.source, h.source]

/-! ### The end of a message -/

theorem endBody_octets (m : Mime) :
    sourceOctets (mimeBodyFinish (mimeSourceFlush m)).log = sourceOctets m.log ∧
      decodedOctets (mimeBodyFinish (mimeSourceFlush m)).log = decodedOctets m.log ∧
      flushedOctets (mimeBodyFinish (mimeSourceFlush m)).log = flushedOctets m.log := by
  have hflush : sourceOctets (mimeSourceFlush m).log = sourceOctets m.log ∧
      decodedOctets (mimeSourceFlush m).log = decodedOctets m.log ∧
      flushedOctets (mimeSourceFlush m).log = flushedOctets m.log := by
    unfold mimeSourceFlush
    split
    · exact note_octets m (.sourceFlush m.source.octets) rfl
    · exact ⟨rfl, rfl, rfl⟩
  unfold mimeBodyFinish
  split
  · exact hflush
  · obtain ⟨hsources, hdecoded, hflushed⟩ := note_octets (mimeSourceFlush m)
      (.bodyFinish (mimeSourceFlush m).bodyLength (mimeSourceFlush m).bodyDecodedLength) rfl
    exact ⟨hsources.trans hflush.1, hdecoded.trans hflush.2.1, hflushed.trans hflush.2.2⟩

theorem mimeNextEof_octets (hbody : m.sourceState.isBody) :
    sourceOctets (mimeNextEof m).log = sourceOctets m.log ∧
      (m.decodeState = .decodeAdd →
        decodedOctets (mimeNextEof m).log = decodedOctets m.log ++ heldCr m) ∧
      (flushedOctets m.log ++ m.decode.octets = decodedOctets m.log →
        flushedOctets (mimeNextEof m).log = decodedOctets (mimeNextEof m).log) := by
  have hnoted : (m.note (.next none)).sourceState.isBody := hbody
  obtain ⟨new, hd, hsource, hpasses⟩ := mimeDecodeState_decodes (m.note (.next none)) none
  obtain ⟨new', hd', hnone', hsource'⟩ :=
    mimeDecodeFlush_decodes (mimeDecodeState (m.note (.next none)) none)
  have hall := Mime.Quiet.of_decodes (hd.trans hd') hnoted
  have hempty := mimeDecodeFlush_octets (mimeDecodeState (m.note (.next none)) none)
  obtain ⟨hsources, hdecoded, hflushed⟩ :=
    endBody_octets (mimeDecodeFlush (mimeDecodeState (m.note (.next none)) none))
  obtain ⟨hsourceNoted, hdecodedNoted, hflushedNoted⟩ := note_octets m (.next none) rfl
  unfold mimeNextEof
  dsimp only
  rw [hsources, hdecoded, hflushed, hall.log, sourceOctets_append, decodedOctets_append,
    flushedOctets_append, hsourceNoted, hdecodedNoted, hflushedNoted]
  refine ⟨?_, fun hadd => ?_, fun hbefore => ?_⟩
  · rw [sourceOctets_append, hsource, hsource']
    exact List.append_nil _
  · obtain ⟨⟨hgiven, -⟩, hheld⟩ := hpasses hadd
    rw [hheld rfl, List.append_nil] at hgiven
    rw [decodedOctets_append, hgiven, hnone', List.append_nil]
    exact congrArg (decodedOctets m.log ++ ·) (List.append_nil _)
  · have hquiet := hall.flushed
    rw [hempty, List.append_nil] at hquiet
    rw [hquiet, ← hbefore, List.append_assoc]
    rfl

end Snert
