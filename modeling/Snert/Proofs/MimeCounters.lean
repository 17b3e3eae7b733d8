/-
Module: Snert.Proofs.MimeCounters
Purpose: The lengths that a MIME parser has counted at the end of a body. What they are to be is read
  off the log: the octets of the body are those in the source buffer when it starts and those given
  since, up to the delimiter before the next part. They are right in every run in which a body without
  headers starts with its counters at zero, and a delimiter is whole in the source buffer at its end.
Trusted boundary: none
Main exports: mimeFeed_countersExact
-/
import Mathlib.Data.List.GetD
import Mathlib.Data.List.TakeWhile
import Snert.Proofs.MimeBuffers

namespace Snert

open CModel

/-! ### Bodies -/

/-- A body that has started, read off a log: its octets, how many octets were decoded, and whether
`EOF` was given. -/
structure OpenBody where
  octets : List Octet
  decoded : Nat
  ended : Bool
deriving DecidableEq

/-- Go past an event. -/
def OpenBody.read (body : Option OpenBody) : MimeEvent → Option OpenBody
  | .bodyStart _ source => some ⟨source, 0, false⟩
  | .bodyFinish _ _ => none
  | .next (some c) => body.map fun body => { body with octets := body.octets ++ [c] }
  | .next none => body.map fun body => { body with ended := true }
  | .decodedOctet (some _) => body.map fun body => { body with decoded := body.decoded + 1 }
  | _ => body

/-- The body at the end of a log. -/
def openBody (log : List MimeEvent) : Option OpenBody :=
  log.foldl OpenBody.read none

/-- The length of the delimiter at the end of some octets: the last line, and the newline before it. -/
def delimiterLength (octets : List Octet) : Nat :=
  let back := octets.reverse.tail
  (back.takeWhile (· ≠ ASCII_LF)).length +
    match back.dropWhile (· ≠ ASCII_LF) with
    | [] => 1
    | _ :: c :: _ => if c = ASCII_CR then 3 else 2
    | _ => 2

/-- How many octets the body has. It ends with the message, or before a delimiter; that of an embedded
message ends where it starts. -/
def OpenBody.length (body : OpenBody) : Nat :=
  if body.ended then body.octets.length else body.octets.length - delimiterLength body.octets

/-- At the end of a body that was started, both counters are right. -/
def CountersExact (log : List MimeEvent) : Prop :=
  EachEvent (fun before event => ∀ bodyLength bodyDecodedLength,
    event = .bodyFinish bodyLength bodyDecodedLength → ∀ body, openBody before = some body →
      bodyDecodedLength = body.decoded ∧ bodyLength = body.length) log

theorem openBody_append (log new : List MimeEvent) :
    openBody (log ++ new) = new.foldl OpenBody.read (openBody log) :=
  List.foldl_append

theorem read_quiet_body (new : List MimeEvent) : ∀ body : OpenBody,
    (∀ event ∈ new, event.isQuiet) → new.foldl OpenBody.read (some body) =
      some { body with decoded := body.decoded + (decodedOctets new).length } := by
  induction new with
  | nil => exact fun _ _ => rfl
  | cons event new ih =>
      intro body h
      have hquiet := h event List.mem_cons_self
      have hrest := fun body' : OpenBody =>
        ih body' fun event hmem => h event (List.mem_cons_of_mem _ hmem)
      cases event with
      | decodedOctet ch =>
          cases ch with
          | none => exact hrest body
          | some c =>
              refine (hrest _).trans ?_
              simp [decodedOctets, Nat.add_assoc, Nat.add_comm]
      | sourceFlush | sourceOctet | decodeFlush => exact hrest body
      | _ => cases hquiet

theorem read_quiet_none (new : List MimeEvent) (h : ∀ event ∈ new, event.isQuiet) :
    new.foldl OpenBody.read none = none := by
  induction new with
  | nil => rfl
  | cons event new ih =>
      have hquiet := h event List.mem_cons_self
      have hrest := ih fun event hmem => h event (List.mem_cons_of_mem _ hmem)
      cases event with
      | decodedOctet ch =>
          cases ch with
          | none => exact hrest
          | some c => exact hrest
      | sourceFlush | sourceOctet | decodeFlush => exact hrest
      | _ => cases hquiet

/-- An event that ends no body. -/
def MimeEvent.isBodyFinish : MimeEvent → Bool
  | .bodyFinish _ _ => true
  | _ => false

theorem CountersExact.append {log new : List MimeEvent} (h : CountersExact log)
    (hnew : ∀ event ∈ new, event.isBodyFinish = false) : CountersExact (log ++ new) := by
  refine EachEvent.append_all h fun event hmem before bodyLength bodyDecodedLength hfinish => ?_
  have hnone := hnew event hmem
  rw [hfinish] at hnone
  cases hnone

theorem MimeEvent.isBodyFinish_of_isQuiet {event : MimeEvent} (h : event.isQuiet) :
    event.isBodyFinish = false := by
  cases event <;> first | rfl | cases h

theorem delimiterLength_line {line : List Octet} (h : ASCII_LF ∉ line) :
    delimiterLength (line ++ [ASCII_LF]) = line.length + 1 := by
  have hall : ∀ c ∈ line.reverse, decide (c ≠ ASCII_LF) = true := by
    intro c hmem
    have hne : c ≠ ASCII_LF := fun heq => h (heq ▸ List.mem_reverse.mp hmem)
    simpa using hne
  have hback : (line ++ [ASCII_LF]).reverse.tail = line.reverse := by simp
  unfold delimiterLength
  simp only [hback]
  rw [List.takeWhile_eq_self_iff.mpr hall, List.dropWhile_eq_nil_iff.mpr hall, List.length_reverse]

/-! ### The invariant -/

/-- The bodies that have ended, and the counters of a body that has started. -/
structure Mime.CountersInv (m : Mime) : Prop where
  kept : CountersExact m.log
  outside : m.sourceState.isBody = false → openBody m.log = none
  body : m.sourceState.isBody → ∃ body, openBody m.log = some body ∧ body.ended = false ∧
    body.decoded = m.bodyDecodedLength ∧ body.octets.length = m.bodyLength

namespace Mime.CountersInv

variable {m m' : Mime}

theorem of_quiet {new : List MimeEvent} (h : m.CountersInv) (hbody : m.sourceState.isBody)
    (hquiet : m.Quiet new m') : m'.CountersInv ∧
      ∀ body, openBody m.log = some body → ∃ body', openBody m'.log = some body' ∧
        body'.octets = body.octets := by
  have hread : ∀ body, openBody m.log = some body → openBody m'.log =
      some { body with decoded := body.decoded + (decodedOctets new).length } := by
    intro body hopen
    rw [hquiet.log, openBody_append, hopen, read_quiet_body new body hquiet.quiet]
  obtain ⟨body, hopen, hended, hdecoded, hoctets⟩ := h.body hbody
  refine ⟨⟨?_, fun hout => ?_, fun _ => ⟨_, hread body hopen, hended, ?_, ?_⟩⟩,
    fun body hopen => ⟨_, hread body hopen, rfl⟩⟩
  · rw [hquiet.log]
    exact h.kept.append fun event hmem =>
      MimeEvent.isBodyFinish_of_isQuiet (hquiet.quiet event hmem)
  · rw [hquiet.body] at hout
    cases hout
  · dsimp only
    rw [hdecoded, hquiet.counts]
  · dsimp only
    rw [hoctets, hquiet.bodyLength_eq]

theorem of_found {body : OpenBody} (h : m.CountersInv) (hbody : m.sourceState.isBody)
    (hfound : m.Found m') (hopen : openBody m.log = some body)
    (hdelimiter : m.source.length = delimiterLength body.octets) : m'.CountersInv := by
  obtain ⟨new, hquiet, hnone, hlog⟩ := hfound.log
  obtain ⟨body', hopen', hended, hdecoded, hoctets⟩ := h.body hbody
  obtain rfl : body' = body := Option.some.inj (hopen'.symm.trans hopen)
  have hread : openBody (m.log ++ new) = some body' := by
    rw [openBody_append, hopen, read_quiet_body new body' hquiet, hnone]
    rfl
  refine ⟨?_, fun _ => ?_, fun hin => ?_⟩
  · rw [hlog]
    refine EachEvent.append_one (h.kept.append fun event hmem =>
      MimeEvent.isBodyFinish_of_isQuiet (hquiet event hmem)) ?_
    rintro bodyLength bodyDecodedLength ⟨⟩ body hbefore
    obtain rfl : body' = body := Option.some.inj (hread.symm.trans hbefore)
    refine ⟨hdecoded.symm, ?_⟩
    rw [OpenBody.length, hended, hdelimiter, hoctets]
    rfl
  · rw [hlog, openBody_append]
    rfl
  · rw [hfound.state] at hin
    cases hin

end Mime.CountersInv

variable {m : Mime}

/-! ### Bodies without headers -/

theorem runBodyState_length_le (c : Octet) (h : m.Bounded (MIME_BUFFER_SIZE - 1))
    (hpos : 0 < m.source.octets.length) :
    (m.runBodyState c).source.octets.length ≤ m.source.octets.length := by
  have hbounded : m.Bounded m.source.octets.length := { h with length := le_rfl }
  exact (runBodyState_bounded c hbounded (h.length.trans_lt (by decide)) hpos).length

theorem mimeStateBdyLF_octets {c : Octet} (hc : c ≠ ASCII_LF) :
    (mimeStateBdyLF m c).source.octets = m.source.octets ∨
      (mimeStateBdyLF m c).source.octets.length ≤ 1 := by
  unfold mimeStateBdyLF
  split
  · exact .inl rfl
  · obtain ⟨new, hd, -⟩ := mimeDecodeAll_decodes [ASCII_LF, c] (m.flushBegun c)
    right
    change (mimeDecodeAll (m.flushBegun c) [ASCII_LF, c]).source.octets.length ≤ 1
    rw [hd.source_eq, flushBegun_octets]
    split
    · exact le_rfl
    · exact Nat.zero_le _

theorem mimeStateBdy_octets {c : Octet} (hc : c ≠ ASCII_LF) :
    (mimeStateBdy m c).source.octets = m.source.octets := by
  obtain ⟨new, hd, -⟩ := mimeDecodeState_decodes m (some c)
  unfold mimeStateBdy
  rw [if_neg hc, hd.source_eq]

theorem runBodyState_octets {c : Octet} (hbody : m.sourceState.isBody) (hc : c ≠ ASCII_LF)
    (hroom : m.source.octets.length < MIME_BUFFER_SIZE) :
    (m.runBodyState c).source.octets = m.source.octets ∨
      (m.runBodyState c).source.octets.length ≤ 1 := by
  cases hstate : m.sourceState with
  | hdrBdy =>
      simp only [Mime.runBodyState, hstate]
      unfold mimeStateHdrBdy
      dsimp only
      split
      · exact mimeStateBdyLF_octets hc
      · exact .inl (mimeStateBdy_octets hc)
  | bdy =>
      simp only [Mime.runBodyState, hstate]
      exact .inl (mimeStateBdy_octets hc)
  | bdyLF =>
      simp only [Mime.runBodyState, hstate]
      exact mimeStateBdyLF_octets hc
  | dash1 =>
      simp only [Mime.runBodyState, hstate]
      unfold mimeStateDash1
      split
      · exact .inl rfl
      · obtain ⟨new, hd, -⟩ := mimeDecodeAll_decodes [ASCII_LF, CModel.ch '-', c] m
        exact .inl (congrArg MimeBuffer.octets hd.source_eq)
  | dash2 =>
      simp only [Mime.runBodyState, hstate]
      unfold mimeStateDash2
      split
      · obtain ⟨new, hd, -⟩ :=
          mimeDecodeAll_decodes [ASCII_LF, CModel.ch '-', CModel.ch '-', c] m
        exact .inl (congrArg MimeBuffer.octets hd.source_eq)
      · exact .inl rfl
  | boundary =>
      simp only [Mime.runBodyState, hstate]
      have hgoes : ¬ (c = ASCII_LF ∨ MIME_BUFFER_SIZE ≤ m.source.length) :=
        not_or.mpr ⟨hc, Nat.not_le.mpr hroom⟩
      unfold mimeStateBoundary
      rw [if_neg hgoes]
      exact .inl rfl
  | hdrStart | hdr | hdrValue | hdrLF =>
      rw [hstate] at hbody
      cases hbody

theorem line_ends {line : List Octet} {i : Nat} (hline : ASCII_LF ∉ line.dropLast)
    (hi : i < line.length) (hc : line.getD i 0 = ASCII_LF) :
    line.length = i + 1 ∧ delimiterLength line = line.length := by
  rcases List.eq_nil_or_concat' line with rfl | ⟨init, last, rfl⟩
  · simp at hi
  · rw [List.dropLast_concat] at hline
    rcases Nat.lt_or_ge i init.length with hlt | hge
    · rw [List.getD_append _ _ _ _ hlt] at hc
      have hmem : init.getD i 0 ∈ init := by
        rw [List.getD_eq_getElem _ _ hlt]
        exact List.getElem_mem hlt
      exact absurd (hc ▸ hmem) hline
    · have hlength : (init ++ [last]).length = init.length + 1 := by simp
      obtain rfl : i = init.length := by omega
      have hlast : last = ASCII_LF := by simpa using hc
      rw [hlast] at hlength ⊢
      rw [delimiterLength_line hline]
      exact ⟨hlength, hlength.symm⟩

/-- Where the loop of `mimeStateHdr` stands: the source buffer still has the whole line, or what is
left of it has been gone past. -/
structure Mime.Replays (m : Mime) (pending : List Octet) (i : Nat) : Prop where
  inv : m.CountersInv
  body : m.sourceState.isBody
  bounded : m.Bounded (MIME_BUFFER_SIZE - 1)
  opened : ∃ body, openBody m.log = some body ∧ body.octets = pending
  source : m.source.octets = pending ∨ m.source.octets.length ≤ i

/-- The octet of the source buffer at an index was read. -/
def Mime.readOctet (m : Mime) (i : Nat) : Mime :=
  { m with source := m.source.use i }

theorem Mime.Replays.read {pending : List Octet} {i : Nat} (h : m.Replays pending i)
    (hi : i < m.source.octets.length) : (m.readOctet i).Replays pending i := by
  have hindex : i < MIME_BUFFER_SIZE := hi.trans (h.bounded.length.trans_lt (by decide))
  exact ⟨⟨h.inv.kept, h.inv.outside, h.inv.body⟩, h.body,
    h.bounded.of_source h.bounded.decode le_rfl
      (Mime.Bounded.use_fault h.bounded.fault hindex) rfl, h.opened, h.source⟩

theorem replay_found {pending : List Octet} {i : Nat} (hline : ASCII_LF ∉ pending.dropLast)
    (h : m.Replays pending i) (hi : i < m.source.octets.length)
    (hat : m.AtBoundary (m.source.octets.getD i 0)) :
    (mimeBoundaryFound m.readSource).CountersInv := by
  have hsource : m.source.octets = pending := h.source.resolve_right (Nat.not_le.mpr hi)
  obtain ⟨body, hopen, hoctets⟩ := h.opened
  have hc : m.source.octets.getD i 0 = ASCII_LF :=
    hat.ends.resolve_right (Nat.not_le.mpr (h.bounded.length.trans_lt (by decide)))
  have hdelimiter := (line_ends (hsource ▸ hline) hi hc).2
  have hread : m.readSource.CountersInv := ⟨h.inv.kept, h.inv.outside, h.inv.body⟩
  refine hread.of_found h.body (mimeBoundaryFound_found hat.state) hopen ?_
  rw [hoctets, ← hsource, hdelimiter]
  rfl

theorem replay_quiet {pending : List Octet} {i : Nat} {new : List MimeEvent} {m' : Mime}
    (hline : ASCII_LF ∉ pending.dropLast) (h : m.Replays pending i)
    (hi : i < m.source.octets.length) (hstep : m.runBodyState (m.source.octets.getD i 0) = m')
    (hquiet : m.Quiet new m') : m'.Replays pending (i + 1) := by
  have hsource : m.source.octets = pending := h.source.resolve_right (Nat.not_le.mpr hi)
  have hpos := Nat.zero_lt_of_lt hi
  obtain ⟨body, hopen, hoctets⟩ := h.opened
  obtain ⟨hinv, hopens⟩ := h.inv.of_quiet h.body hquiet
  obtain ⟨body', hopen', hoctets'⟩ := hopens body hopen
  refine ⟨hinv, hquiet.body, ?_, ⟨body', hopen', hoctets'.trans hoctets⟩, ?_⟩
  · rw [← hstep]
    exact runBodyState_bounded _ h.bounded (by decide) hpos
  · rw [← hstep]
    by_cases hc : m.source.octets.getD i 0 = ASCII_LF
    · -- The newline is the last octet of the line.
      have hend := (line_ends (hsource ▸ hline) hi hc).1
      exact .inr ((runBodyState_length_le _ h.bounded hpos).trans hend.le)
    · rcases runBodyState_octets h.body hc (h.bounded.length.trans_lt (by decide)) with
        hsame | hshort
      · exact .inl (hsame.trans hsource)
      · exact .inr (hshort.trans (Nat.succ_le_succ (Nat.zero_le i)))

theorem mimeReplay_countersInv {pending : List Octet} (hline : ASCII_LF ∉ pending.dropLast)
    (rounds : Nat) : ∀ (i : Nat) {m : Mime}, m.Replays pending i →
      (mimeReplay rounds i m).CountersInv := by
  induction rounds with
  | zero => exact fun _ _ h => h.inv
  | succ rounds ih =>
      intro i m h
      unfold mimeReplay
      split
      · rename_i hi
        have hread := h.read hi
        change (mimeReplay rounds (i + 1)
          ((m.readOctet i).runBodyState ((m.readOctet i).source.octets.getD i 0))).CountersInv
        change i < (m.readOctet i).source.octets.length at hi
        generalize m.readOctet i = read at hread hi
        rcases runBodyState_cases (read.source.octets.getD i 0) hread.body with
          ⟨new, hquiet⟩ | ⟨hat, hfound⟩
        · exact ih (i + 1) (replay_quiet hline hread hi rfl hquiet)
        · have hfinds := mimeBoundaryFound_found (m := read.readSource) hat.state
          rw [hfound, mimeReplay_found hfinds]
          exact replay_found hline hread hi hat
      · exact h.inv

theorem dropEmptyLine_octets (source : MimeBuffer) (c : Octet) :
    (dropEmptyLine source c).octets = source.octets ∨ (dropEmptyLine source c).octets = [] := by
  unfold dropEmptyLine
  split
  · exact .inl rfl
  · split
    · rename_i hlength
      right
      change source.octets.dropLast = []
      apply List.eq_nil_of_length_eq_zero
      rw [List.length_dropLast]
      exact Nat.sub_eq_zero_of_le hlength.le
    · split
      · rename_i hlength
        right
        change source.octets.dropLast.dropLast = []
        apply List.eq_nil_of_length_eq_zero
        rw [List.length_dropLast, List.length_dropLast]
        have : source.octets.length = 2 := hlength.1
        omega
      · exact .inl rfl

/-! ### The condition -/

/-- The octet ends the headers, at a line that is no header. -/
def Mime.EndsHeaderless (m : Mime) (c : Octet) : Prop :=
  isHeaderDelimiter m c = false ∧ c ≠ ASCII_CR ∧ (isspace c ∨ iscntrl c) ∧ headerError m c = none

/-- A step keeps the counters: at a boundary the whole delimiter is in the source buffer, and where a
body starts without headers the counters stand at zero, but for what is left of the line. -/
def Mime.KeepsCounters (m : Mime) (c : Octet) : Prop :=
  (m.sourceState = .boundary → c = ASCII_LF → isBoundaryLine m.encoding (m.source.octets ++ [c]) →
    ∀ body ∈ openBody m.log, m.source.length + 1 = delimiterLength (body.octets ++ [c])) ∧
  (m.sourceState = .hdrStart ∨ m.sourceState = .hdr → (m.take c).EndsHeaderless c →
    m.bodyDecodedLength = 0 ∧ m.bodyLength + 1 = (dropEmptyLine (m.take c).source c).length)

instance (m : Mime) (c : Octet) : Decidable (m.EndsHeaderless c) := by
  unfold Mime.EndsHeaderless
  infer_instance

instance (m : Mime) (c : Octet) : Decidable (m.KeepsCounters c) := by
  unfold Mime.KeepsCounters
  infer_instance

/-! ### The steps -/

theorem mimeHeaderless_countersInv (c : Octet) (h : m.CountersInv)
    (hbounded : m.Bounded (MIME_BUFFER_SIZE - 1)) (hpos : 0 < m.source.octets.length)
    (hline : ASCII_LF ∉ m.source.octets.dropLast) (hdecoded : m.bodyDecodedLength = 0)
    (hlength : m.bodyLength = (dropEmptyLine m.source c).length) :
    (mimeHeaderless m c).CountersInv := by
  have hpending : ASCII_LF ∉ (dropEmptyLine m.source c).octets.dropLast := by
    rcases dropEmptyLine_octets m.source c with hsame | hempty
    · rwa [hsame]
    · rw [hempty]
      simp
  have hopen : openBody (m.headerlessBody c).log =
      some ⟨(dropEmptyLine m.source c).octets, 0, false⟩ := by
    change openBody (m.log ++ [.hdrFinish] ++ [.bodyStart _ (dropEmptyLine m.source c).octets]) = _
    rw [openBody_append]
    rfl
  have hdropped := dropEmptyLine_bounded c hbounded hpos
  rw [mimeHeaderless_eq]
  refine mimeReplay_countersInv hpending _ 0 ⟨⟨?_, nofun, fun _ => ⟨_, hopen, rfl, hdecoded.symm,
    hlength.symm⟩⟩, rfl, ?_, ⟨_, hopen, rfl⟩, .inl rfl⟩
  · have hfinished : CountersExact (m.log ++ [.hdrFinish]) :=
      h.kept.append (by simp [MimeEvent.isBodyFinish])
    exact hfinished.append (by simp [MimeEvent.isBodyFinish])
  · exact hdropped.of_source hdropped.decode le_rfl hdropped.fault rfl

theorem Mime.CountersInv.of_headers {m' : Mime} {new : List MimeEvent} (h : m.CountersInv)
    (hheader : m.sourceState.isBody = false) (hlog : m'.log = m.log ++ new)
    (hnew : ∀ event ∈ new, event.isBodyFinish = false)
    (hopen : new.foldl OpenBody.read none = none) (hheader' : m'.sourceState.isBody = false) :
    m'.CountersInv := by
  refine ⟨?_, fun _ => ?_, fun hin => ?_⟩
  · rw [hlog]
    exact h.kept.append hnew
  · rw [hlog, openBody_append, h.outside hheader, hopen]
  · rw [hheader'] at hin
    cases hin

theorem mimeStateHdr_countersInv (c : Octet) (h : m.CountersInv) (hstate : m.sourceState = .hdr)
    (hbounded : m.Bounded (MIME_BUFFER_SIZE - 1)) (hpos : 0 < m.source.octets.length)
    (hline : ASCII_LF ∉ m.source.octets.dropLast)
    (hsafe : m.EndsHeaderless c → m.bodyDecodedLength = 0 ∧
      m.bodyLength = (dropEmptyLine m.source c).length) :
    (mimeStateHdr m c).CountersInv := by
  have hheader : m.sourceState.isBody = false := by rw [hstate]; rfl
  unfold mimeStateHdr
  split
  · exact h.of_headers hheader (List.append_nil _).symm (by simp) rfl rfl
  · rename_i hdelimiter
    split
    · exact h
    · rename_i hcr
      split
      · rename_i hspace
        cases herror : headerError m c with
        | some error => exact h.of_headers hheader (List.append_nil _).symm (by simp) rfl hheader
        | none =>
            obtain ⟨hdecoded, hlength⟩ :=
              hsafe ⟨Bool.not_eq_true _ ▸ hdelimiter, hcr, hspace, herror⟩
            exact mimeHeaderless_countersInv c h hbounded hpos hline hdecoded hlength
      · exact h

theorem mimeStateHdrStart_countersInv (c : Octet) (h : m.CountersInv)
    (hstate : m.sourceState = .hdrStart) (hbounded : m.Bounded (MIME_BUFFER_SIZE - 1))
    (hpos : 0 < m.source.octets.length) (hline : ASCII_LF ∉ m.source.octets.dropLast)
    (hsafe : m.EndsHeaderless c → m.bodyDecodedLength = 0 ∧
      m.bodyLength = (dropEmptyLine m.source c).length) :
    (mimeStateHdrStart m c).CountersInv := by
  have hheader : m.sourceState.isBody = false := by rw [hstate]; rfl
  have hstart : ({ m with sourceState := .hdr }.note .hdrStart).CountersInv := by
    have hnew : ∀ event ∈ [MimeEvent.hdrStart], event.isBodyFinish = false := by
      simp [MimeEvent.isBodyFinish]
    exact h.of_headers hheader rfl hnew rfl rfl
  exact mimeStateHdr_countersInv c hstart rfl
    (hbounded.of_source hbounded.decode le_rfl hbounded.fault rfl) hpos hline hsafe

theorem mimeStateHdrValue_countersInv (c : Octet) (h : m.CountersInv)
    (hstate : m.sourceState = .hdrValue) : (mimeStateHdrValue m c).CountersInv := by
  have hheader : m.sourceState.isBody = false := by rw [hstate]; rfl
  unfold mimeStateHdrValue
  split
  · dsimp only
    split
    · exact h.of_headers hheader (List.append_nil _).symm (by simp) rfl rfl
    · exact h.of_headers hheader (List.append_nil _).symm (by simp) rfl rfl
  · exact h

theorem mimeStateEOH_countersInv (h : m.CountersInv) : (mimeStateEOH m).CountersInv := by
  have hstarts := startBody_starts m
  obtain ⟨new, hquiet, hlog⟩ := hstarts.log
  have hopen : openBody m.startBody.log = some ⟨[], 0, false⟩ := by
    rw [hlog, openBody_append]
    rfl
  have hbody : m.startBody.sourceState.isBody := by rw [hstarts.state]; rfl
  have hstart : m.startBody.CountersInv := by
    refine ⟨?_, fun hout => ?_, fun _ => ⟨_, hopen, rfl, hstarts.bodyDecodedLength.symm,
      hstarts.bodyLength.symm⟩⟩
    · rw [hlog]
      refine (h.kept.append fun event hmem =>
        MimeEvent.isBodyFinish_of_isQuiet (hquiet event hmem)).append ?_
      simp [MimeEvent.isBodyFinish]
    · rw [hbody] at hout
      cases hout
  rw [mimeStateEOH_eq]
  split
  · have hfinish : mimeIsAnyHeader m.startBody = false := by
      simp only [mimeIsAnyHeader, hstarts.state]
      rfl
    rw [mimeBodyFinish_body hfinish]
    refine ⟨EachEvent.append_one hstart.kept ?_, fun _ => ?_, by rintro ⟨⟩⟩
    · rintro bodyLength bodyDecodedLength ⟨⟩ body hbefore
      obtain rfl : (⟨[], 0, false⟩ : OpenBody) = body := Option.some.inj (hopen.symm.trans hbefore)
      exact ⟨hstarts.bodyDecodedLength, hstarts.bodyLength.trans (Nat.zero_sub _).symm⟩
    · change openBody (m.startBody.log ++ [_]) = none
      rw [openBody_append]
      rfl
  · exact hstart

theorem mimeStateHdrLF_countersInv (c : Octet) (h : m.CountersInv)
    (hstate : m.sourceState = .hdrLF) : (mimeStateHdrLF m c).CountersInv := by
  have hheader : m.sourceState.isBody = false := by rw [hstate]; rfl
  unfold mimeStateHdrLF
  split
  · exact h.of_headers hheader (List.append_nil _).symm (by simp) rfl hheader
  · split
    · exact h.of_headers hheader (List.append_nil _).symm (by simp) rfl rfl
    · have hended : (if 0 < m.source.length then mimeEndHeader m c else m).CountersInv := by
        split
        · have hends := mimeEndHeader_endsHeader m c
          obtain ⟨new, hquiet, hlog⟩ := hends.log
          refine h.of_headers hheader hlog (fun event hmem => ?_) (read_quiet_none new hquiet)
            (by rw [hends.state]; rfl)
          rcases List.mem_cons.mp hmem with rfl | hmem
          · rfl
          · exact MimeEvent.isBodyFinish_of_isQuiet (hquiet event hmem)
        · exact h
      dsimp only
      split
      · exact mimeStateEOH_countersInv hended
      · exact hended

theorem take_countersInv (c : Octet) (h : m.CountersInv) : (m.take c).CountersInv := by
  refine ⟨h.kept.append (by simp [MimeEvent.isBodyFinish]), fun hout => ?_, fun hin => ?_⟩
  · change openBody (m.log ++ [.next (some c)]) = none
    rw [openBody_append, h.outside hout]
    rfl
  · obtain ⟨body, hopen, hended, hdecoded, hoctets⟩ := h.body hin
    refine ⟨{ body with octets := body.octets ++ [c] }, ?_, hended, hdecoded, ?_⟩
    · change openBody (m.log ++ [.next (some c)]) = _
      rw [openBody_append, hopen]
      rfl
    · change (body.octets ++ [c]).length = m.bodyLength + 1
      rw [List.length_append, hoctets]
      rfl

theorem runBodyState_countersInv (c : Octet) (h : m.CountersInv) (hbody : m.sourceState.isBody)
    (hbounded : (m.take c).Bounded (MIME_BUFFER_SIZE - 1)) (hsafe : m.KeepsCounters c) :
    ((m.take c).runBodyState c).CountersInv := by
  have htaken := take_countersInv c h
  rcases runBodyState_cases (m := m.take c) c hbody with ⟨new, hquiet⟩ | ⟨hat, hfound⟩
  · exact (htaken.of_quiet hbody hquiet).1
  · obtain ⟨body, hopen, -⟩ := h.body hbody
    have hc : c = ASCII_LF :=
      hat.ends.resolve_right (Nat.not_le.mpr (hbounded.length.trans_lt (by decide)))
    have hlength := hsafe.1 hat.state hc hat.line body hopen
    have hopen' : openBody (m.take c).readSource.log =
        some { body with octets := body.octets ++ [c] } := by
      change openBody (m.log ++ [.next (some c)]) = _
      rw [openBody_append, hopen]
      rfl
    have hread : (m.take c).readSource.CountersInv :=
      ⟨htaken.kept, htaken.outside, htaken.body⟩
    rw [hfound]
    refine hread.of_found hbody (mimeBoundaryFound_found hat.state) hopen' ?_
    rw [← hlength]
    exact List.length_append

theorem runSourceState_countersInv (c : Octet) (h : m.CountersInv)
    (hbounded : (m.take c).Bounded (MIME_BUFFER_SIZE - 1))
    (hline : m.sourceState = .hdrStart ∨ m.sourceState = .hdr → ASCII_LF ∉ m.source.octets)
    (hsafe : m.KeepsCounters c) : ((m.take c).runSourceState c).CountersInv := by
  have htaken := take_countersInv c h
  have hoctets : (m.take c).source.octets = m.source.octets ++ [c] := rfl
  have hpos : 0 < (m.take c).source.octets.length := by simp [hoctets]
  have hlast : (m.take c).source.octets.dropLast = m.source.octets := by simp [hoctets]
  unfold Mime.runSourceState
  split
  · rename_i hstate
    exact mimeStateHdrStart_countersInv c htaken hstate hbounded hpos
      (hlast ▸ hline (.inl hstate)) (hsafe.2 (.inl hstate))
  · rename_i hstate
    exact mimeStateHdr_countersInv c htaken hstate hbounded hpos
      (hlast ▸ hline (.inr hstate)) (hsafe.2 (.inr hstate))
  · rename_i hstate
    exact mimeStateHdrValue_countersInv c htaken hstate
  · rename_i hstate
    exact mimeStateHdrLF_countersInv c htaken hstate
  · rename_i hstart hhdr hvalue hlf
    have hbody : m.sourceState.isBody := by
      cases hstate : m.sourceState <;> first | rfl | contradiction
    exact runBodyState_countersInv c h hbody hbounded hsafe

/-! ### The line in a header -/

/-- Before the colon of a header, there is no newline in the source buffer. -/
def Mime.HeaderLine (m : Mime) : Prop :=
  m.sourceState = .hdrStart ∨ m.sourceState = .hdr → ASCII_LF ∉ m.source.octets

theorem headerLine_of_bodyStep {m' : Mime} (h : m.BodyStep m') : m'.HeaderLine := by
  cases h with
  | quiet hquiet =>
      have hbody := hquiet.body
      rintro (hstate | hstate)
      · rw [hstate] at hbody
        cases hbody
      · rw [hstate] at hbody
        cases hbody
  | found _ hfound =>
      intro _
      rw [hfound.source]
      simp

theorem mimeStateEOH_headerLine (m : Mime) : (mimeStateEOH m).HeaderLine := by
  have hstarts := startBody_starts m
  rw [mimeStateEOH_eq]
  split
  · intro _
    change ASCII_LF ∉ (mimeBodyFinish m.startBody).source.octets
    rw [mimeBodyFinish_source, hstarts.source]
    simp
  · rintro (hstate | hstate)
    · rw [hstarts.state] at hstate
      cases hstate
    · rw [hstarts.state] at hstate
      cases hstate

theorem mimeStateHdr_headerLine {c : Octet} (hline : ASCII_LF ∉ m.source.octets.dropLast)
    (hlast : m.source.octets = m.source.octets.dropLast ++ [c])
    (hthrown : (mimeStateHdr m c).thrown = none) : (mimeStateHdr m c).HeaderLine := by
  have hstays : c ≠ ASCII_LF → m.HeaderLine := fun hc _ hmem => by
    rw [hlast, List.mem_append, List.mem_singleton] at hmem
    exact hmem.elim hline fun heq => hc heq.symm
  unfold mimeStateHdr at hthrown ⊢
  split at hthrown
  · rename_i hdelimiter
    rw [if_pos hdelimiter]
    rintro (hstate | hstate) <;> cases hstate
  · rename_i hdelimiter
    rw [if_neg hdelimiter]
    split at hthrown
    · rename_i hcr
      rw [if_pos hcr]
      exact hstays (by rw [hcr]; decide)
    · rename_i hcr
      rw [if_neg hcr]
      split at hthrown
      · rename_i hspace
        rw [if_pos hspace]
        cases herror : headerError m c with
        | some error => rw [herror] at hthrown; cases hthrown
        | none => exact headerLine_of_bodyStep (mimeHeaderless_bodyStep m c)
      · rename_i hspace
        rw [if_neg hspace]
        refine hstays fun hc => hspace ?_
        rw [hc]
        decide

theorem mimeStateHdrValue_headerLine (c : Octet) (hstate : m.sourceState = .hdrValue) :
    (mimeStateHdrValue m c).HeaderLine := by
  have hvalue : (mimeStateHdrValue m c).sourceState = .hdrLF ∨
      (mimeStateHdrValue m c).sourceState = .hdrValue := by
    unfold mimeStateHdrValue
    split
    · dsimp only
      split
      · exact .inl rfl
      · exact .inl rfl
    · exact .inr hstate
  rintro (hstart | hhdr) <;> rcases hvalue with hvalue | hvalue
  · cases hvalue.symm.trans hstart
  · cases hvalue.symm.trans hstart
  · cases hvalue.symm.trans hhdr
  · cases hvalue.symm.trans hhdr

theorem mimeStateHdrLF_headerLine (c : Octet) (hstate : m.sourceState = .hdrLF)
    (hpos : 0 < m.source.length) : (mimeStateHdrLF m c).HeaderLine := by
  unfold mimeStateHdrLF
  split
  · rintro (hstate' | hstate')
    · cases hstate.symm.trans hstate'
    · cases hstate.symm.trans hstate'
  · split
    · rintro (hstate' | hstate') <;> cases hstate'
    · dsimp only
      split
      · exact mimeStateEOH_headerLine _
      · rename_i hc
        intro _
        rw [(mimeEndHeader_endsHeader m c).source, List.mem_singleton]
        exact fun heq => hc heq.symm

theorem runSourceState_headerLine (c : Octet) (h : m.HeaderLine)
    (hthrown : ((m.take c).runSourceState c).thrown = none) :
    ((m.take c).runSourceState c).HeaderLine := by
  have hoctets : (m.take c).source.octets = m.source.octets ++ [c] := rfl
  have hlast : (m.take c).source.octets.dropLast = m.source.octets := by simp [hoctets]
  have happend : (m.take c).source.octets = (m.take c).source.octets.dropLast ++ [c] := by
    rw [hlast]
    exact hoctets
  unfold Mime.runSourceState at hthrown ⊢
  cases hstate : (m.take c).sourceState with
  | hdrStart =>
      simp only [hstate] at hthrown ⊢
      exact mimeStateHdr_headerLine (hlast ▸ h (.inl hstate)) happend hthrown
  | hdr =>
      simp only [hstate] at hthrown ⊢
      exact mimeStateHdr_headerLine (hlast ▸ h (.inr hstate)) happend hthrown
  | hdrValue => exact mimeStateHdrValue_headerLine c hstate
  | hdrLF => exact mimeStateHdrLF_headerLine c hstate (by simp [MimeBuffer.length, hoctets])
  | hdrBdy | bdy | bdyLF | dash1 | dash2 | boundary =>
      exact headerLine_of_bodyStep (runBodyState_bodyStep c (by rw [hstate]; rfl))

/-! ### Whole messages -/

/-- All that a run keeps. -/
structure Mime.CountsParts (m : Mime) : Prop where
  inv : m.CountersInv
  inBounds : m.InBounds
  line : m.thrown = none → m.HeaderLine

theorem mimeSourceFlush_countersInv (h : m.CountersInv) : (mimeSourceFlush m).CountersInv := by
  obtain ⟨new, hquiet, hnone, hlog⟩ := mimeSourceFlush_log m
  have hfields := mimeSourceFlush_eq m
  have hstate : (mimeSourceFlush m).sourceState = m.sourceState := by rw [hfields]
  have hdecoded : (mimeSourceFlush m).bodyDecodedLength = m.bodyDecodedLength := by rw [hfields]
  have hlength : (mimeSourceFlush m).bodyLength = m.bodyLength := by rw [hfields]
  refine ⟨?_, fun hout => ?_, fun hin => ?_⟩
  · rw [hlog]
    exact h.kept.append fun event hmem => MimeEvent.isBodyFinish_of_isQuiet (hquiet event hmem)
  · rw [hlog, openBody_append, h.outside (hstate ▸ hout), read_quiet_none new hquiet]
  · obtain ⟨body, hopen, hrest⟩ := h.body (hstate ▸ hin)
    refine ⟨body, ?_, by rwa [hdecoded, hlength]⟩
    rw [hlog, openBody_append, hopen, read_quiet_body new body hquiet, hnone]
    rfl

theorem flushFull_countersInv (h : m.CountersInv) : m.flushFull.CountersInv := by
  unfold Mime.flushFull
  split
  · exact mimeSourceFlush_countersInv h
  · exact h

theorem flushFull_headerLine (h : m.HeaderLine) : m.flushFull.HeaderLine := by
  unfold Mime.flushFull
  split
  · intro _
    rw [mimeSourceFlush_octets]
    simp
  · exact h

theorem flushFull_thrown (m : Mime) : m.flushFull.thrown = m.thrown := by
  unfold Mime.flushFull
  split
  · rw [mimeSourceFlush_eq]
  · rfl

theorem mimeNextOctet_countsParts (c : Octet) (h : m.CountsParts) (hthrown : m.thrown = none)
    (hsafe : m.KeepsCounters c) : (mimeNextOctet m c).CountsParts := by
  have hbounded := h.inBounds.2 hthrown
  have hrun := runSourceState_countersInv c h.inv (take_bounded c hbounded (by decide))
    (h.line hthrown) hsafe
  have hline := runSourceState_headerLine c (h.line hthrown)
  have hinBounds := mimeNextOctet_inBounds c hbounded
  unfold mimeNextOctet at hinBounds ⊢
  dsimp only at hinBounds ⊢
  split at hinBounds
  · rename_i hisSome
    rw [if_pos hisSome]
    exact ⟨hrun, hinBounds, hline⟩
  · rename_i hisNone
    rw [if_neg hisNone]
    exact ⟨flushFull_countersInv hrun, hinBounds, fun hnone =>
      flushFull_headerLine (hline (flushFull_thrown _ ▸ hnone))⟩

theorem mimeNextEof_countersExact (h : m.CountersInv) : CountersExact (mimeNextEof m).log := by
  obtain ⟨new, hquiet, hlog⟩ := mimeNextEof_log m
  have hsplit : m.log ++ .next none :: new = m.log ++ [.next none] ++ new := by simp
  have hkept : CountersExact (m.log ++ .next none :: new) := by
    rw [hsplit]
    refine (h.kept.append ?_).append fun event hmem =>
      MimeEvent.isBodyFinish_of_isQuiet (hquiet event hmem)
    simp [MimeEvent.isBodyFinish]
  rw [hlog]
  split
  · rwa [List.append_nil]
  · refine EachEvent.append_one hkept ?_
    rintro bodyLength bodyDecodedLength ⟨⟩ body hbefore
    rw [hsplit, openBody_append, openBody_append] at hbefore
    cases hbody : m.sourceState.isBody with
    | true =>
        obtain ⟨body', hopen, -, hdecoded, hoctets⟩ := h.body hbody
        rw [hopen] at hbefore
        change new.foldl OpenBody.read (some { body' with ended := true }) = some body at hbefore
        rw [read_quiet_body new _ hquiet] at hbefore
        obtain rfl := Option.some.inj hbefore
        exact ⟨by rw [← hdecoded], hoctets.symm⟩
    | false =>
        rw [h.outside hbody] at hbefore
        change new.foldl OpenBody.read none = some body at hbefore
        rw [read_quiet_none new hquiet] at hbefore
        cases hbefore

theorem mimeMsgStart_countsParts (hm : m.Reachable) : (mimeMsgStart m).CountsParts := by
  have hbounded := mimeReset_bounded (reachable_inBounds hm).1
  have hstart : (mimeMsgStart m).Bounded (MIME_BUFFER_SIZE - 2) :=
    hbounded.of_source hbounded.decode le_rfl hbounded.fault rfl
  have hstate : (mimeMsgStart m).sourceState = .hdrStart := mimeReset_sourceState m
  refine ⟨⟨?_, fun _ => rfl, fun hin => ?_⟩, ⟨hstart.mono (by decide), fun _ => hstart⟩, ?_⟩
  · intro before event after hlog bodyLength bodyDecodedLength hfinish
    have hmem : event ∈ [MimeEvent.msgStart] := by
      change event ∈ (mimeMsgStart m).log
      rw [hlog]
      simp
    rw [List.mem_singleton.mp hmem] at hfinish
    cases hfinish
  · rw [hstate] at hin
    cases hin
  · intro _ _
    have hempty : (mimeMsgStart m).source.octets = [] := mimeReset_octets m
    rw [hempty]
    simp

/-- In a message whose steps keep the counters, they are right at the end of each body. -/
theorem mimeFeed_countersExact (m : Mime) (octets : List Octet) (hm : m.Reachable)
    (hsafe : (mimeMsgStart m).Along Mime.KeepsCounters octets) :
    CountersExact (mimeFeed (mimeMsgStart m) (octets.map some ++ [none])).log := by
  have hinv := mimeFeed_invariant
    (fun m c h hthrown hsafe => mimeNextOctet_countsParts c h hthrown hsafe)
    (mimeMsgStart_countsParts hm) octets hsafe
  rw [mimeFeed_append]
  change CountersExact (if (mimeFeed (mimeMsgStart m) (octets.map some)).thrown.isSome then _
    else _ : Mime).log
  split
  · exact hinv.inv.kept
  · exact mimeNextEof_countersExact hinv.inv

/-- A message of two parts meets the condition. -/
theorem mimeFeed_countersExact_parts :
    CountersExact (mimeFeed (mimeMsgStart (mimeCreate false))
      ((ascii "Content-Type: multipart/\n\n--b\n:\n\nx\n").map some ++ [none])).log :=
  mimeFeed_countersExact (mimeCreate false) (ascii "Content-Type: multipart/\n\n--b\n:\n\nx\n")
    (.create false) (by decide +kernel)

/-- Where a message has no headers, the empty line in their place is counted with the body. -/
theorem mimeFeed_not_countersExact :
    ¬ CountersExact (mimeFeed (mimeMsgStart (mimeCreate false))
      ((ascii "\nabc").map some ++ [none])).log := by
  generalize hlog : (mimeFeed _ _).log = log
  intro hexact
  have hsplit : log = log.take 19 ++ .bodyFinish 4 3 :: log.drop 20 := by
    rw [← hlog]
    decide
  have hopen : openBody (log.take 19) = some ⟨ascii "abc", 3, true⟩ := by
    rw [← hlog]
    decide
  have hlength := (hexact _ _ _ hsplit 4 3 rfl _ hopen).2
  exact absurd hlength (by decide)

end Snert
