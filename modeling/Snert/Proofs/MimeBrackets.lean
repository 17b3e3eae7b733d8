/-
Module: Snert.Proofs.MimeBrackets
Purpose: The order of the hooks that a MIME parser calls. They are to come in blocks, one for each part,
  of which the last may be cut short. An automaton of four phases tells whether they do, and the parser
  follows it from the start of a message on. At the end of the message it leaves it exactly where EOF
  comes right behind the newline of a header line.
Trusted boundary: none
Main exports: mimeFeed_bracketed_iff
-/
import Snert.Proofs.MimeSteps

namespace Snert

open CModel

/-! ### Blocks of hooks -/

/-- The calls of the hooks for the headers and the bodies. -/
def MimeEvent.isCallback : MimeEvent → Bool
  | .hdrStart | .header _ | .hdrFinish | .bodyStart _ _ | .bodyFinish _ _ => true
  | _ => false

/-- The hooks of a log, in order. -/
def callbacks (log : List MimeEvent) : List MimeEvent :=
  log.filter MimeEvent.isCallback

/-- The hooks of one part. -/
def IsBlock (block : List MimeEvent) : Prop :=
  ∃ (headers : List (List Octet)) (decodeState : DecodeState) (source : List Octet)
    (bodyLength bodyDecodedLength : Nat),
    block = .hdrStart :: headers.map .header ++
      [.hdrFinish, .bodyStart decodeState source, .bodyFinish bodyLength bodyDecodedLength]

/-- Blocks, of which the last may be cut short. -/
def Bracketed (trace : List MimeEvent) : Prop :=
  ∃ (blocks : List (List MimeEvent)) (last : List MimeEvent),
    trace = blocks.flatten ++ last ∧ (∀ block ∈ blocks, IsBlock block) ∧
      ∃ block, IsBlock block ∧ last <+: block

/-! ### The automaton -/

/-- Where the hooks stand in a block. -/
inductive MimePhase where
  | between
  | headers
  | starting
  | body
deriving DecidableEq, Repr

/-- The phase behind a hook, unless the hook is out of order. -/
def MimePhase.next : MimePhase → MimeEvent → Option MimePhase
  | .between, .hdrStart => some .headers
  | .headers, .header _ => some .headers
  | .headers, .hdrFinish => some .starting
  | .starting, .bodyStart _ _ => some .body
  | .body, .bodyFinish _ _ => some .between
  | _, _ => none

/-- The phase behind some hooks. -/
def runPhases (phase : MimePhase) (trace : List MimeEvent) : Option MimePhase :=
  trace.foldlM MimePhase.next phase

@[simp] theorem runPhases_nil (phase : MimePhase) : runPhases phase [] = some phase :=
  rfl

theorem runPhases_append (phase : MimePhase) (trace trace' : List MimeEvent) :
    runPhases phase (trace ++ trace') = (runPhases phase trace).bind (runPhases · trace') := by
  simp [runPhases, List.foldlM_append]

theorem runPhases_cons (phase : MimePhase) (event : MimeEvent) (trace : List MimeEvent) :
    runPhases phase (event :: trace) = (phase.next event).bind (runPhases · trace) :=
  rfl

theorem runPhases_headers (headers : List (List Octet)) (trace : List MimeEvent) :
    runPhases .headers (headers.map .header ++ trace) = runPhases .headers trace := by
  induction headers with
  | nil => rfl
  | cons header headers ih => simpa [runPhases_cons, MimePhase.next] using ih

theorem runPhases_block {block : List MimeEvent} (h : IsBlock block) :
    runPhases .between block = some .between := by
  obtain ⟨headers, decodeState, source, bodyLength, bodyDecodedLength, rfl⟩ := h
  rw [List.cons_append, runPhases_cons]
  exact runPhases_headers headers _

theorem runPhases_blocks {blocks : List (List MimeEvent)} (h : ∀ block ∈ blocks, IsBlock block) :
    runPhases .between blocks.flatten = some .between := by
  induction blocks with
  | nil => rfl
  | cons block blocks ih =>
      rw [List.flatten_cons, runPhases_append, runPhases_block (h block List.mem_cons_self)]
      exact ih fun block hmem => h block (List.mem_cons_of_mem _ hmem)

/-- A trace that stands in a phase: what has begun of a block. -/
def InPhase (trace : List MimeEvent) : MimePhase → Prop
  | .between => ∃ blocks : List (List MimeEvent), trace = blocks.flatten ∧
      ∀ block ∈ blocks, IsBlock block
  | .headers => ∃ (blocks : List (List MimeEvent)) (headers : List (List Octet)),
      trace = blocks.flatten ++ .hdrStart :: headers.map .header ∧ ∀ block ∈ blocks, IsBlock block
  | .starting => ∃ (blocks : List (List MimeEvent)) (headers : List (List Octet)),
      trace = blocks.flatten ++ (.hdrStart :: headers.map .header ++ [.hdrFinish]) ∧
        ∀ block ∈ blocks, IsBlock block
  | .body => ∃ (blocks : List (List MimeEvent)) (headers : List (List Octet))
      (decodeState : DecodeState) (source : List Octet),
      trace = blocks.flatten ++
        (.hdrStart :: headers.map .header ++ [.hdrFinish, .bodyStart decodeState source]) ∧
        ∀ block ∈ blocks, IsBlock block

theorem inPhase_next {trace : List MimeEvent} {phase phase' : MimePhase} {event : MimeEvent}
    (h : InPhase trace phase) (hnext : phase.next event = some phase') :
    InPhase (trace ++ [event]) phase' := by
  cases phase with
  | between =>
      cases event <;> cases hnext
      obtain ⟨blocks, rfl, hblocks⟩ := h
      exact ⟨blocks, [], rfl, hblocks⟩
  | headers =>
      cases event <;> cases hnext
      · obtain ⟨blocks, headers, rfl, hblocks⟩ := h
        rename_i header
        exact ⟨blocks, headers ++ [header], by simp, hblocks⟩
      · obtain ⟨blocks, headers, rfl, hblocks⟩ := h
        exact ⟨blocks, headers, by simp, hblocks⟩
  | starting =>
      cases event <;> cases hnext
      obtain ⟨blocks, headers, rfl, hblocks⟩ := h
      rename_i decodeState source
      exact ⟨blocks, headers, decodeState, source, by simp, hblocks⟩
  | body =>
      cases event <;> cases hnext
      obtain ⟨blocks, headers, decodeState, source, rfl, hblocks⟩ := h
      rename_i bodyLength bodyDecodedLength
      refine ⟨blocks ++ [.hdrStart :: headers.map .header ++ [.hdrFinish,
        .bodyStart decodeState source, .bodyFinish bodyLength bodyDecodedLength]], by simp, ?_⟩
      intro block hmem
      rcases List.mem_append.mp hmem with hmem | hmem
      · exact hblocks block hmem
      · rw [List.mem_singleton.mp hmem]
        exact ⟨headers, decodeState, source, bodyLength, bodyDecodedLength, rfl⟩

theorem inPhase_of_runPhases {trace : List MimeEvent} :
    ∀ {phase : MimePhase}, runPhases .between trace = some phase → InPhase trace phase := by
  induction trace using List.reverseRecOn with
  | nil =>
      rintro phase ⟨⟩
      exact ⟨[], rfl, by simp⟩
  | append_singleton trace event ih =>
      intro phase hrun
      rw [runPhases_append] at hrun
      obtain ⟨before, hbefore, hlast⟩ := Option.bind_eq_some_iff.mp hrun
      obtain ⟨after, hafter, hnil⟩ := Option.bind_eq_some_iff.mp hlast
      cases hnil
      exact inPhase_next (ih hbefore) hafter

theorem InPhase.bracketed {trace : List MimeEvent} {phase : MimePhase} (h : InPhase trace phase) :
    Bracketed trace := by
  have hblock : ∀ (headers : List (List Octet)) (decodeState : DecodeState) (source : List Octet),
      IsBlock (.hdrStart :: headers.map .header ++
        [.hdrFinish, .bodyStart decodeState source, .bodyFinish 0 0]) :=
    fun headers decodeState source => ⟨headers, decodeState, source, 0, 0, rfl⟩
  cases phase with
  | between =>
      obtain ⟨blocks, rfl, hblocks⟩ := h
      exact ⟨blocks, [], (List.append_nil _).symm, hblocks, _, hblock [] .decodeAdd [],
        List.nil_prefix⟩
  | headers =>
      obtain ⟨blocks, headers, rfl, hblocks⟩ := h
      exact ⟨blocks, _, rfl, hblocks, _, hblock headers .decodeAdd [], List.prefix_append _ _⟩
  | starting =>
      obtain ⟨blocks, headers, rfl, hblocks⟩ := h
      refine ⟨blocks, _, rfl, hblocks, _, hblock headers .decodeAdd [], ?_⟩
      exact ⟨[.bodyStart .decodeAdd [], .bodyFinish 0 0], by simp⟩
  | body =>
      obtain ⟨blocks, headers, decodeState, source, rfl, hblocks⟩ := h
      refine ⟨blocks, _, rfl, hblocks, _, hblock headers decodeState source, ?_⟩
      exact ⟨[.bodyFinish 0 0], by simp⟩

theorem bracketed_iff_runPhases (trace : List MimeEvent) :
    Bracketed trace ↔ ∃ phase, runPhases .between trace = some phase := by
  constructor
  · rintro ⟨blocks, last, rfl, hblocks, block, hblock, rest, rfl⟩
    have hrun := runPhases_block hblock
    rw [runPhases_append] at hrun
    obtain ⟨phase, hphase, -⟩ := Option.bind_eq_some_iff.mp hrun
    refine ⟨phase, ?_⟩
    rw [runPhases_append, runPhases_blocks hblocks]
    exact hphase
  · rintro ⟨phase, hphase⟩
    exact (inPhase_of_runPhases hphase).bracketed

/-! ### The parser follows the automaton -/

/-- The phase that goes with a state of the source. -/
def SourceState.phase : SourceState → MimePhase
  | .hdrStart => .between
  | .hdr | .hdrValue | .hdrLF => .headers
  | .hdrBdy | .bdy | .bdyLF | .dash1 | .dash2 | .boundary => .body

theorem SourceState.phase_of_isBody {state : SourceState} (h : state.isBody) :
    state.phase = .body := by
  cases state <;> first | rfl | cases h

theorem callbacks_quiet {new : List MimeEvent} (h : ∀ event ∈ new, event.isQuiet) :
    callbacks new = [] := by
  apply List.filter_eq_nil_iff.mpr
  intro event hmem
  have hquiet := h event hmem
  cases event <;> first | exact Bool.false_ne_true | cases hquiet

/-- `m'` comes from `m`, without an error, by hooks that the automaton takes. -/
structure Mime.Follows (m m' : Mime) : Prop where
  log : ∃ new, m'.log = m.log ++ new ∧
    runPhases m.sourceState.phase (callbacks new) = some m'.sourceState.phase
  throwReady : m'.throwReady = m.throwReady
  thrown : m'.thrown = m.thrown

namespace Mime.Follows

variable {m m' m'' : Mime}

theorem trans (h : m.Follows m') (h' : m'.Follows m'') : m.Follows m'' := by
  obtain ⟨new, hlog, hrun⟩ := h.log
  obtain ⟨new', hlog', hrun'⟩ := h'.log
  refine ⟨⟨new ++ new', by rw [hlog', hlog, List.append_assoc], ?_⟩,
    h'.throwReady.trans h.throwReady, h'.thrown.trans h.thrown⟩
  rw [callbacks, List.filter_append, runPhases_append]
  change (runPhases _ (callbacks new)).bind (runPhases · (callbacks new')) = _
  rw [hrun]
  exact hrun'

theorem still (hlog : m'.log = m.log) (hphase : m'.sourceState.phase = m.sourceState.phase)
    (hready : m'.throwReady = m.throwReady) (hthrown : m'.thrown = m.thrown) : m.Follows m' :=
  ⟨⟨[], by rw [hlog, List.append_nil], by rw [hphase]; rfl⟩, hready, hthrown⟩

theorem of_quiet {new : List MimeEvent} (h : m.Quiet new m') (hbody : m.sourceState.isBody) :
    m.Follows m' := by
  refine ⟨⟨new, h.log, ?_⟩, ?_, ?_⟩
  · rw [callbacks_quiet h.quiet, SourceState.phase_of_isBody hbody,
      SourceState.phase_of_isBody h.body]
    rfl
  · exact h.throwReady_eq
  · exact h.thrown_eq

theorem of_found (h : m.Found m') (hbody : m.sourceState.isBody) : m.Follows m' := by
  obtain ⟨new, hquiet, -, hlog⟩ := h.log
  refine ⟨⟨_, hlog.trans (List.append_assoc _ _ _), ?_⟩, h.throwReady, h.thrown⟩
  rw [callbacks, List.filter_append, SourceState.phase_of_isBody hbody, h.state]
  change runPhases .body (callbacks new ++ _) = _
  rw [callbacks_quiet hquiet]
  rfl

theorem of_bodyStep (h : m.BodyStep m') (hbody : m.sourceState.isBody) : m.Follows m' := by
  cases h with
  | quiet hquiet => exact .of_quiet hquiet hbody
  | found hquiet hfound => exact (of_quiet hquiet hbody).trans (.of_found hfound hquiet.body)

theorem of_starts (h : m.Starts m') (hheaders : m.sourceState.phase = .headers) : m.Follows m' := by
  obtain ⟨new, hquiet, hlog⟩ := h.log
  refine ⟨⟨_, hlog.trans (List.append_assoc _ _ _), ?_⟩, h.throwReady, h.thrown⟩
  rw [callbacks, List.filter_append, hheaders, h.state]
  change runPhases .headers (callbacks new ++ _) = _
  rw [callbacks_quiet hquiet]
  rfl

end Mime.Follows

variable {m : Mime}

theorem mimeStateEOH_follows (h : m.sourceState.phase = .headers) : m.Follows (mimeStateEOH m) := by
  have hstarts := startBody_starts m
  rw [mimeStateEOH_eq]
  split
  · have hfinish : mimeIsAnyHeader m.startBody = false := by
      simp only [mimeIsAnyHeader, hstarts.state]
      rfl
    rw [mimeBodyFinish_body hfinish]
    have hnext : m.startBody.Follows
        (m.startBody.note (.bodyFinish m.startBody.bodyLength m.startBody.bodyDecodedLength)).nextPart := by
      refine ⟨⟨_, rfl, ?_⟩, rfl, rfl⟩
      rw [hstarts.state]
      rfl
    exact (Mime.Follows.of_starts hstarts h).trans hnext
  · exact .of_starts hstarts h

theorem mimeEndHeader_follows (c : Octet) (h : m.sourceState.phase = .headers) :
    m.Follows (mimeEndHeader m c) := by
  have hends := mimeEndHeader_endsHeader m c
  obtain ⟨new, hquiet, hlog⟩ := hends.log
  refine ⟨⟨_, hlog, ?_⟩, hends.throwReady, hends.thrown⟩
  rw [h, hends.state]
  change runPhases .headers (.header m.source.octets.dropLast :: callbacks new) = _
  rw [callbacks_quiet hquiet]
  rfl

theorem mimeHeaderless_follows (c : Octet) (h : m.sourceState.phase = .headers) :
    m.Follows (mimeHeaderless m c) := by
  have hstart : m.Follows (m.headerlessBody c) := by
    refine ⟨⟨[.hdrFinish, .bodyStart m.decodeState (dropEmptyLine m.source c).octets], ?_, ?_⟩,
      rfl, rfl⟩
    · exact List.append_assoc m.log [_] [_]
    · rw [h]
      rfl
  exact hstart.trans (.of_bodyStep (mimeHeaderless_bodyStep m c) rfl)

theorem mimeStateHdr_follows (c : Octet) (h : m.sourceState = .hdr) (hready : m.throwReady = false) :
    m.Follows (mimeStateHdr m c) := by
  have herror : headerError m c = none := by simp [headerError, hready]
  have hphase : m.sourceState.phase = .headers := by rw [h]; rfl
  unfold mimeStateHdr
  split
  · exact .still rfl (by rw [h]; rfl) rfl rfl
  · split
    · exact .still rfl rfl rfl rfl
    · split
      · rw [herror]
        exact mimeHeaderless_follows c hphase
      · exact .still rfl rfl rfl rfl

theorem mimeStateHdrStart_follows (c : Octet) (h : m.sourceState = .hdrStart)
    (hready : m.throwReady = false) : m.Follows (mimeStateHdrStart m c) := by
  have hstart : m.Follows ({ m with sourceState := .hdr }.note .hdrStart) := by
    refine ⟨⟨_, rfl, ?_⟩, rfl, rfl⟩
    rw [h]
    rfl
  exact hstart.trans (mimeStateHdr_follows c rfl hready)

theorem mimeStateHdrValue_follows (c : Octet) (h : m.sourceState = .hdrValue) :
    m.Follows (mimeStateHdrValue m c) := by
  unfold mimeStateHdrValue
  split
  · dsimp only
    split
    · exact .still rfl (by rw [h]; rfl) rfl rfl
    · exact .still rfl (by rw [h]; rfl) rfl rfl
  · exact .still rfl rfl rfl rfl

theorem mimeStateHdrLF_follows (c : Octet) (h : m.sourceState = .hdrLF) :
    m.Follows (mimeStateHdrLF m c) := by
  have hphase : m.sourceState.phase = .headers := by rw [h]; rfl
  unfold mimeStateHdrLF
  split
  · exact .still rfl rfl rfl rfl
  · split
    · exact .still rfl (by rw [h]; rfl) rfl rfl
    · obtain ⟨hended, hheaders⟩ :
          m.Follows (if 0 < m.source.length then mimeEndHeader m c else m) ∧
            (if 0 < m.source.length then mimeEndHeader m c else m).sourceState.phase = .headers := by
        split
        · refine ⟨mimeEndHeader_follows c hphase, ?_⟩
          rw [(mimeEndHeader_endsHeader m c).state]
          rfl
        · exact ⟨.still rfl rfl rfl rfl, hphase⟩
      dsimp only
      split
      · exact hended.trans (mimeStateEOH_follows hheaders)
      · exact hended

theorem runSourceState_follows (c : Octet) (hready : m.throwReady = false) :
    m.Follows (m.runSourceState c) := by
  unfold Mime.runSourceState
  split
  · rename_i hstate
    exact mimeStateHdrStart_follows c hstate hready
  · rename_i hstate
    exact mimeStateHdr_follows c hstate hready
  · rename_i hstate
    exact mimeStateHdrValue_follows c hstate
  · rename_i hstate
    exact mimeStateHdrLF_follows c hstate
  · rename_i hstart hhdr hvalue hlf
    have hbody : m.sourceState.isBody := by
      cases hstate : m.sourceState <;> first | rfl | contradiction
    exact .of_bodyStep (runBodyState_bodyStep c hbody) hbody

theorem mimeNextOctet_follows (c : Octet) (hready : m.throwReady = false) :
    m.Follows (mimeNextOctet m c) := by
  have htaken : m.Follows (m.take c) := ⟨⟨[.next (some c)], rfl, rfl⟩, rfl, rfl⟩
  have hrun := htaken.trans (runSourceState_follows c hready)
  unfold mimeNextOctet
  dsimp only
  split
  · exact hrun
  · refine hrun.trans ?_
    unfold Mime.flushFull
    split
    · obtain ⟨new, hquiet, -, hlog⟩ := mimeSourceFlush_log ((m.take c).runSourceState c)
      refine ⟨⟨new, hlog, ?_⟩, ?_, ?_⟩
      · rw [callbacks_quiet hquiet, mimeSourceFlush_eq]
        rfl
      · rw [mimeSourceFlush_eq]
      · rw [mimeSourceFlush_eq]
    · exact .still rfl rfl rfl rfl

theorem mimeFeed_follows (octets : List Octet) : ∀ {m : Mime}, m.throwReady = false →
    m.thrown = none → m.Follows (mimeFeed m (octets.map some)) := by
  induction octets with
  | nil => exact fun _ _ => .still rfl rfl rfl rfl
  | cons c octets ih =>
      intro m hready hthrown
      have hnext := mimeNextOctet_follows c hready
      rw [mimeFeed_cons hthrown]
      exact hnext.trans (ih (hnext.throwReady.trans hready) (hnext.thrown.trans hthrown))

theorem mimeNextEof_phases (m : Mime) : ∃ new, (mimeNextEof m).log = m.log ++ new ∧
    ((∃ phase, runPhases m.sourceState.phase (callbacks new) = some phase) ↔
      m.sourceState ≠ .hdrLF) := by
  obtain ⟨new, hquiet, hlog⟩ := mimeNextEof_log m
  refine ⟨_, hlog.trans (List.append_assoc _ _ _), ?_⟩
  rw [callbacks, List.filter_append]
  change (∃ phase, runPhases _ (callbacks new ++ callbacks _) = _) ↔ _
  rw [callbacks_quiet hquiet, List.nil_append]
  unfold mimeIsAnyHeader
  cases hstate : m.sourceState with
  | hdrLF =>
      constructor
      · rintro ⟨phase, hphase⟩
        cases hphase
      · exact fun hne => absurd rfl hne
  | hdrStart | hdr | hdrValue => exact ⟨fun _ => nofun, fun _ => ⟨_, rfl⟩⟩
  | hdrBdy | bdy | bdyLF | dash1 | dash2 | boundary => exact ⟨fun _ => nofun, fun _ => ⟨_, rfl⟩⟩

/-- The hooks called for a message come in blocks, of which the last may be cut short, exactly if
`EOF` does not come between the newline of a header line and the octet that follows it. -/
theorem mimeFeed_bracketed_iff (m : Mime) (octets : List Octet) (hready : m.throwReady = false) :
    Bracketed (callbacks (mimeFeed (mimeMsgStart m) (octets.map some ++ [none])).log) ↔
      (mimeFeed (mimeMsgStart m) (octets.map some)).sourceState ≠ .hdrLF := by
  have hreset : (mimeMsgStart m).throwReady = false := (mimeReset_throwReady m).trans hready
  have hfollows := mimeFeed_follows octets hreset rfl
  obtain ⟨new, hlog, hrun⟩ := hfollows.log
  have hnone : (mimeFeed (mimeMsgStart m) (octets.map some)).thrown = none := hfollows.thrown
  obtain ⟨last, hlast, hphases⟩ :=
    mimeNextEof_phases (mimeFeed (mimeMsgStart m) (octets.map some))
  rw [bracketed_iff_runPhases, mimeFeed_eof hnone, hlast, hlog, ← hphases]
  have hstart : callbacks ((mimeMsgStart m).log ++ new ++ last) = callbacks new ++ callbacks last := by
    rw [callbacks, List.filter_append, List.filter_append]
    rfl
  have hstate : (mimeMsgStart m).sourceState = .hdrStart := mimeReset_sourceState m
  rw [hstate] at hrun
  change runPhases .between _ = _ at hrun
  rw [hstart, runPhases_append, hrun]
  rfl

/-- A message that may end in a body. -/
theorem mimeFeed_bracketed_body :
    Bracketed (callbacks (mimeFeed (mimeMsgStart (mimeCreate false))
      ((ascii "A: b\n\nc").map some ++ [none])).log) :=
  (mimeFeed_bracketed_iff (mimeCreate false) (ascii "A: b\n\nc") rfl).mpr (by decide)

/-- Behind the newline of a header line, `EOF` ends a body that was never started. -/
theorem mimeFeed_not_bracketed :
    ¬ Bracketed (callbacks (mimeFeed (mimeMsgStart (mimeCreate false))
      ((ascii "A: b\n").map some ++ [none])).log) := by
  rw [bracketed_iff_runPhases]
  have hrun : runPhases .between (callbacks (mimeFeed (mimeMsgStart (mimeCreate false))
      ((ascii "A: b\n").map some ++ [none])).log) = none := by decide
  rw [hrun]
  rintro ⟨phase, hphase⟩
  cases hphase

end Snert
