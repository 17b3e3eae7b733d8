/-
Module: Snert.Proofs.MimeEncoding
Purpose: Which decoder a body is started with. A body whose header block names neither base64 nor
  quoted-printable is to get the identity decoder. The header block is read off the log: a header line
  is what was flushed of it before its end and the text given to the hook. It holds in every run in which
  no message is embedded in a part that is decoded, and the end of a long header line is not taken for a
  header of its own.
Trusted boundary: none
Main exports: mimeFeed_decoderKept
-/
import Snert.Proofs.MimeSteps

namespace Snert

open CModel

/-! ### Header blocks -/

/-- A header block that is read off a log: its lines, what was flushed of the next line, and whether
the last event was the end of a line. -/
structure HeaderBlock where
  lines : List (List Octet)
  begun : List Octet
  ended : Bool

/-- Go past an event. The flush behind a header is the one of its own text. -/
def HeaderBlock.read (block : HeaderBlock) : MimeEvent → HeaderBlock
  | .hdrStart => ⟨[], [], false⟩
  | .header text => ⟨block.lines ++ [block.begun ++ text], [], true⟩
  | .sourceFlush source =>
      if block.ended then ⟨block.lines, [], false⟩
      else ⟨block.lines, block.begun ++ source, false⟩
  | _ => { block with ended := false }

/-- The header block at the end of a log. -/
def headerBlock (log : List MimeEvent) : HeaderBlock :=
  log.foldl HeaderBlock.read ⟨[], [], false⟩

/-- Is the line a `Content-Transfer-Encoding` header that names an encoding other than the identity? -/
def namesEncoding (line : List Octet) : Bool :=
  textFind line (ascii "Content-Transfer-Encoding:*quoted-printable*") ||
    textFind line (ascii "Content-Transfer-Encoding:*base64*")

/-- A body gets the identity decoder, unless its header block names an encoding. -/
def DecoderKept (log : List MimeEvent) : Prop :=
  EachEvent (fun before event => ∀ decodeState source, event = .bodyStart decodeState source →
    (∀ line ∈ (headerBlock before).lines, namesEncoding line = false) → decodeState = .decodeAdd) log

theorem headerBlock_append (log new : List MimeEvent) :
    headerBlock (log ++ new) = new.foldl HeaderBlock.read (headerBlock log) :=
  List.foldl_append

/-- An event that neither belongs to a header block nor starts a body. -/
def MimeEvent.isPlain : MimeEvent → Bool
  | .hdrStart | .header _ | .bodyStart _ _ => false
  | _ => true

theorem MimeEvent.isPlain_of_isQuiet {event : MimeEvent} (h : event.isQuiet) : event.isPlain := by
  cases event <;> first | rfl | cases h

theorem read_plain_lines (new : List MimeEvent) : ∀ block : HeaderBlock,
    (∀ event ∈ new, event.isPlain) → (new.foldl HeaderBlock.read block).lines = block.lines := by
  induction new with
  | nil => exact fun _ _ => rfl
  | cons event new ih =>
      intro block h
      have hlines : (block.read event).lines = block.lines := by
        have hplain := h event List.mem_cons_self
        cases event with
        | hdrStart | header | bodyStart => cases hplain
        | sourceFlush source =>
            unfold HeaderBlock.read
            dsimp only
            split
            · rfl
            · rfl
        | _ => rfl
      rw [List.foldl_cons, ih _ fun event hmem => h event (List.mem_cons_of_mem _ hmem), hlines]

theorem DecoderKept.append {log new : List MimeEvent} (h : DecoderKept log)
    (hnew : ∀ event ∈ new, event.isPlain) : DecoderKept (log ++ new) := by
  refine EachEvent.append_all h fun event hmem before decodeState source hstart => ?_
  have hnone := hnew event hmem
  rw [hstart] at hnone
  cases hnone

/-! ### The condition -/

/-- A step that ends a header keeps the decoder: where the text in the source buffer names an encoding,
so does the whole line, and where a message is embedded, its part is not decoded. -/
def Mime.KeepsDecoder (m : Mime) (c : Octet) : Prop :=
  m.sourceState = .hdrLF → c ≠ ASCII_CR → c ≠ ASCII_SPACE → c ≠ ASCII_TAB →
    (namesEncoding m.source.octets →
      namesEncoding ((headerBlock m.log).begun ++ m.source.octets)) ∧
    (c = ASCII_LF → (mimeCheckHeader m m.source.octets).isMessageRfc822 →
      (mimeCheckHeader m m.source.octets).decodeState = .decodeAdd)

instance (m : Mime) (c : Octet) : Decidable (m.KeepsDecoder c) := by
  unfold Mime.KeepsDecoder
  infer_instance

theorem mimeCheckHeader_decodeState_congr (m m' : Mime) (header : List Octet)
    (hstate : m'.decodeState = m.decodeState) (hencoding : m'.encoding = m.encoding) :
    (mimeCheckHeader m' header).decodeState = (mimeCheckHeader m header).decodeState := by
  unfold mimeCheckHeader
  repeat' split
  all_goals simp_all

theorem mimeCheckHeader_isMessageRfc822_congr (m m' : Mime) (header : List Octet)
    (h : m'.isMessageRfc822 = m.isMessageRfc822) :
    (mimeCheckHeader m' header).isMessageRfc822 = (mimeCheckHeader m header).isMessageRfc822 := by
  unfold mimeCheckHeader
  repeat' split
  all_goals simp_all

theorem mimeCheckHeader_decodeState {m : Mime} {header : List Octet}
    (h : namesEncoding header = false) (hstate : m.decodeState = .decodeAdd) :
    (mimeCheckHeader m header).decodeState = .decodeAdd := by
  obtain ⟨hqp, hbase64⟩ := Bool.or_eq_false_iff.mp h
  unfold mimeCheckHeader
  split
  · exact hstate
  · split
    · exact hstate
    · split
      · dsimp only
        split
        · rfl
        · exact hstate
      · rw [if_neg (by rw [hqp]; exact Bool.false_ne_true),
          if_neg (by rw [hbase64]; exact Bool.false_ne_true)]
        exact hstate

/-! ### The invariant -/

/-- The header block at the end of the log names no encoding. -/
def Mime.Unnamed (m : Mime) : Prop :=
  ∀ line ∈ (headerBlock m.log).lines, namesEncoding line = false

/-- The bodies so far, and the decoder for the next: between two parts it is the identity, and in
the headers of a part, unless they have named an encoding. -/
structure Mime.DecoderInv (m : Mime) : Prop where
  kept : DecoderKept m.log
  between : m.sourceState = .hdrStart → m.decodeState = .decodeAdd
  headers : m.sourceState.isBody = false → m.Unnamed → m.decodeState = .decodeAdd

namespace Mime.DecoderInv

variable {m m' : Mime}

theorem of_body {new : List MimeEvent} (h : DecoderKept m.log) (hlog : m'.log = m.log ++ new)
    (hnew : ∀ event ∈ new, event.isPlain) (hbody : m'.sourceState.isBody) : m'.DecoderInv where
  kept := by
    rw [hlog]
    exact h.append hnew
  between hstart := by
    rw [hstart] at hbody
    cases hbody
  headers hheader := by
    rw [hbody] at hheader
    cases hheader

theorem of_found (h : DecoderKept m.log) (hfound : m.Found m') : m'.DecoderInv := by
  obtain ⟨new, hquiet, -, hlog⟩ := hfound.log
  refine ⟨?_, fun _ => hfound.decodeState, fun _ _ => hfound.decodeState⟩
  rw [hlog, List.append_assoc]
  refine h.append fun event hmem => ?_
  rcases List.mem_append.mp hmem with hmem | hmem
  · exact MimeEvent.isPlain_of_isQuiet (hquiet event hmem)
  · rw [List.mem_singleton.mp hmem]
    rfl

theorem of_quiet {new : List MimeEvent} (h : DecoderKept m.log) (hquiet : m.Quiet new m') :
    m'.DecoderInv :=
  of_body h hquiet.log (fun event hmem => MimeEvent.isPlain_of_isQuiet (hquiet.quiet event hmem))
    hquiet.body

theorem of_bodyStep (h : DecoderKept m.log) (hstep : m.BodyStep m') : m'.DecoderInv := by
  cases hstep with
  | quiet hquiet => exact of_quiet h hquiet
  | found hquiet hfound => exact of_found (of_quiet h hquiet).kept hfound

theorem of_headers {new : List MimeEvent} (h : m.DecoderInv) (hlog : m'.log = m.log ++ new)
    (hnew : ∀ event ∈ new, event.isPlain) (hdecode : m'.decodeState = m.decodeState)
    (hbetween : m'.sourceState = .hdrStart → m.sourceState = .hdrStart)
    (hheader : m.sourceState.isBody = false) : m'.DecoderInv := by
  have hlines : (headerBlock m'.log).lines = (headerBlock m.log).lines := by
    rw [hlog, headerBlock_append, read_plain_lines new _ hnew]
  refine ⟨?_, fun hstart => hdecode.trans (h.between (hbetween hstart)), fun _ hunnamed => ?_⟩
  · rw [hlog]
    exact h.kept.append hnew
  · refine hdecode.trans (h.headers hheader fun line hmem => hunnamed line ?_)
    rwa [hlines]

theorem kept_bodyStart {new : List MimeEvent} {source : List Octet} (h : m.DecoderInv)
    (hheader : m.sourceState.isBody = false) (hnew : ∀ event ∈ new, event.isPlain) :
    DecoderKept (m.log ++ new ++ [.bodyStart m.decodeState source]) := by
  refine EachEvent.append_one (h.kept.append hnew) fun decodeState source' hstart hunnamed => ?_
  obtain ⟨rfl, -⟩ := MimeEvent.bodyStart.inj hstart
  refine h.headers hheader fun line hmem => hunnamed line ?_
  rwa [headerBlock_append, read_plain_lines new _ hnew]

end Mime.DecoderInv

variable {m : Mime}

/-! ### The steps -/

theorem mimeEndHeader_decoderInv (c : Octet) (h : m.DecoderInv) (hheader : m.sourceState.isBody = false)
    (hnames : namesEncoding m.source.octets.dropLast →
      namesEncoding ((headerBlock m.log).begun ++ m.source.octets.dropLast)) :
    (mimeEndHeader m c).DecoderInv := by
  have hends := mimeEndHeader_endsHeader m c
  obtain ⟨new, hquiet, hlog⟩ := hends.log
  have hplain : ∀ event ∈ new, event.isPlain :=
    fun event hmem => MimeEvent.isPlain_of_isQuiet (hquiet event hmem)
  have hlog : (mimeEndHeader m c).log = m.log ++ [.header m.source.octets.dropLast] ++ new := by
    rw [hlog, List.append_assoc]
    rfl
  have hlines : (headerBlock (mimeEndHeader m c).log).lines =
      (headerBlock m.log).lines ++ [(headerBlock m.log).begun ++ m.source.octets.dropLast] := by
    rw [hlog, headerBlock_append, read_plain_lines new _ hplain, headerBlock_append]
    rfl
  refine ⟨?_, fun hstart => ?_, fun _ hunnamed => ?_⟩
  · rw [hlog]
    refine DecoderKept.append (EachEvent.append_one h.kept ?_) hplain
    rintro decodeState source ⟨⟩
  · rw [hends.state] at hstart
    cases hstart
  · -- The line names no encoding, and so neither does what the parser has of it.
    have hline : namesEncoding ((headerBlock m.log).begun ++ m.source.octets.dropLast) = false :=
      hunnamed _ (by rw [hlines]; simp)
    have htext : namesEncoding m.source.octets.dropLast = false := by
      cases htext : namesEncoding m.source.octets.dropLast with
      | false => rfl
      | true =>
          rw [hnames htext] at hline
          cases hline
    have hbefore : m.decodeState = .decodeAdd :=
      h.headers hheader fun line hmem => hunnamed line (by rw [hlines]; simp [hmem])
    rw [hends.decodeState]
    exact mimeCheckHeader_decodeState (m := m.endHeaderLine) htext hbefore

theorem mimeStateEOH_decoderInv (h : m.DecoderInv) (hheader : m.sourceState.isBody = false)
    (hembeds : m.isMessageRfc822 → m.decodeState = .decodeAdd) : (mimeStateEOH m).DecoderInv := by
  have hstarts := startBody_starts m
  obtain ⟨new, hquiet, hlog⟩ := hstarts.log
  have hplain : ∀ event ∈ new ++ [.hdrFinish], event.isPlain := by
    intro event hmem
    rcases List.mem_append.mp hmem with hmem | hmem
    · exact MimeEvent.isPlain_of_isQuiet (hquiet event hmem)
    · rw [List.mem_singleton.mp hmem]
      rfl
  have hkept : DecoderKept m.startBody.log := by
    have hsplit : m.startBody.log = m.log ++ (new ++ [.hdrFinish]) ++ [.bodyStart m.decodeState []] := by
      rw [hlog]
      simp
    rw [hsplit]
    exact h.kept_bodyStart hheader hplain
  rw [mimeStateEOH_eq]
  split
  · rename_i hrfc822
    have hfinish : mimeIsAnyHeader m.startBody = false := by
      simp only [mimeIsAnyHeader, hstarts.state]
      rfl
    have hdecode : m.startBody.decodeState = .decodeAdd :=
      hstarts.decodeState.trans (hembeds (hstarts.isMessageRfc822 ▸ hrfc822))
    rw [mimeBodyFinish_body hfinish]
    refine ⟨?_, fun _ => hdecode, fun _ _ => hdecode⟩
    refine EachEvent.append_one hkept ?_
    rintro decodeState source ⟨⟩
  · exact .of_body hkept (List.append_nil _).symm (by simp) (by rw [hstarts.state]; rfl)

theorem mimeHeaderless_decoderInv (c : Octet) (h : m.DecoderInv)
    (hheader : m.sourceState.isBody = false) : (mimeHeaderless m c).DecoderInv := by
  refine .of_bodyStep ?_ (mimeHeaderless_bodyStep m c)
  have hplain : ∀ event ∈ [MimeEvent.hdrFinish], event.isPlain := by simp [MimeEvent.isPlain]
  exact h.kept_bodyStart hheader hplain

theorem mimeStateHdr_decoderInv (c : Octet) (h : m.DecoderInv) (hstate : m.sourceState = .hdr) :
    (mimeStateHdr m c).DecoderInv := by
  have hheader : m.sourceState.isBody = false := by rw [hstate]; rfl
  unfold mimeStateHdr
  split
  · exact h.of_headers (List.append_nil _).symm (by simp) rfl nofun hheader
  · split
    · exact h
    · split
      · cases headerError m c with
        | some error => exact h.of_headers (List.append_nil _).symm (by simp) rfl id hheader
        | none => exact mimeHeaderless_decoderInv c h hheader
      · exact h

theorem mimeStateHdrStart_decoderInv (c : Octet) (h : m.DecoderInv)
    (hstate : m.sourceState = .hdrStart) : (mimeStateHdrStart m c).DecoderInv := by
  refine mimeStateHdr_decoderInv c (m := { m with sourceState := .hdr }.note .hdrStart) ?_ rfl
  refine ⟨EachEvent.append_one h.kept ?_, nofun, fun _ _ => h.between hstate⟩
  rintro decodeState source ⟨⟩

theorem mimeStateHdrValue_decoderInv (c : Octet) (h : m.DecoderInv)
    (hstate : m.sourceState = .hdrValue) : (mimeStateHdrValue m c).DecoderInv := by
  have hheader : m.sourceState.isBody = false := by rw [hstate]; rfl
  unfold mimeStateHdrValue
  split
  · dsimp only
    split
    · exact h.of_headers (List.append_nil _).symm (by simp) rfl nofun hheader
    · exact h.of_headers (List.append_nil _).symm (by simp) rfl nofun hheader
  · exact h

theorem Mime.DecoderInv.of_plain {m' : Mime} {new : List MimeEvent} (h : m.DecoderInv)
    (hlog : m'.log = m.log ++ new) (hnew : ∀ event ∈ new, event.isPlain)
    (hdecode : m'.decodeState = m.decodeState) (hstate : m'.sourceState = m.sourceState) :
    m'.DecoderInv := by
  cases hbody : m.sourceState.isBody with
  | true => exact .of_body h.kept hlog hnew (by rw [hstate, hbody])
  | false => exact h.of_headers hlog hnew hdecode (fun hstart => hstate ▸ hstart) hbody

theorem take_decoderInv (c : Octet) (h : m.DecoderInv) : (m.take c).DecoderInv :=
  have hlog : (m.take c).log = m.log ++ [.next (some c)] := rfl
  h.of_plain hlog (by simp [MimeEvent.isPlain]) rfl rfl

theorem mimeStateHdrLF_decoderInv (c : Octet) (h : m.DecoderInv) (hstate : m.sourceState = .hdrLF)
    (hsafe : m.KeepsDecoder c) : (mimeStateHdrLF (m.take c) c).DecoderInv := by
  have htaken := take_decoderInv c h
  have hheader : (m.take c).sourceState.isBody = false := by
    change m.sourceState.isBody = false
    rw [hstate]
    rfl
  have htext : (m.take c).source.octets.dropLast = m.source.octets := List.dropLast_concat
  have hbegun : (headerBlock (m.take c).log).begun = (headerBlock m.log).begun := by
    change (headerBlock (m.log ++ [.next (some c)])).begun = _
    rw [headerBlock_append]
    rfl
  unfold mimeStateHdrLF
  split
  · exact htaken.of_headers (List.append_nil _).symm (by simp) rfl id hheader
  · rename_i hcr
    split
    · exact htaken.of_headers (List.append_nil _).symm (by simp) rfl nofun hheader
    · rename_i hblank
      obtain ⟨hnames, hembeds⟩ := hsafe hstate hcr (fun hspace => hblank (.inl hspace))
        fun htab => hblank (.inr htab)
      have hends := mimeEndHeader_endsHeader (m.take c) c
      have hended : (mimeEndHeader (m.take c) c).DecoderInv := by
        refine mimeEndHeader_decoderInv c htaken hheader ?_
        rw [htext, hbegun]
        exact hnames
      have hlength : 0 < (m.take c).source.length := by
        change 0 < (m.source.octets ++ [c]).length
        simp
      rw [if_pos hlength]
      dsimp only
      split
      · rename_i hlf
        refine mimeStateEOH_decoderInv hended (by rw [hends.state]; rfl) fun hrfc822 => ?_
        have hsource : (m.take c).endHeaderLine.source.octets = m.source.octets := htext
        rw [hends.decodeState, Mime.checkedHeader, hsource,
          mimeCheckHeader_decodeState_congr m (m.take c).endHeaderLine _ rfl rfl]
        refine hembeds hlf ?_
        rwa [hends.isMessageRfc822, Mime.checkedHeader, hsource,
          mimeCheckHeader_isMessageRfc822_congr m (m.take c).endHeaderLine _ rfl] at hrfc822
      · exact hended

theorem runSourceState_decoderInv (c : Octet) (h : m.DecoderInv) (hsafe : m.KeepsDecoder c) :
    ((m.take c).runSourceState c).DecoderInv := by
  have htaken := take_decoderInv c h
  unfold Mime.runSourceState
  split
  · rename_i hstate
    exact mimeStateHdrStart_decoderInv c htaken hstate
  · rename_i hstate
    exact mimeStateHdr_decoderInv c htaken hstate
  · rename_i hstate
    exact mimeStateHdrValue_decoderInv c htaken hstate
  · rename_i hstate
    exact mimeStateHdrLF_decoderInv c h hstate hsafe
  · rename_i hstart hhdr hvalue hlf
    have hbody : (m.take c).sourceState.isBody := by
      cases hstate : (m.take c).sourceState <;> first | rfl | contradiction
    exact .of_bodyStep htaken.kept (runBodyState_bodyStep c hbody)

theorem mimeNextOctet_decoderInv (c : Octet) (h : m.DecoderInv) (hsafe : m.KeepsDecoder c) :
    (mimeNextOctet m c).DecoderInv := by
  have hrun := runSourceState_decoderInv c h hsafe
  unfold mimeNextOctet
  dsimp only
  split
  · exact hrun
  · unfold Mime.flushFull
    split
    · obtain ⟨new, hquiet, -, hlog⟩ := mimeSourceFlush_log ((m.take c).runSourceState c)
      refine hrun.of_plain hlog
        (fun event hmem => MimeEvent.isPlain_of_isQuiet (hquiet event hmem)) ?_ ?_
      · rw [mimeSourceFlush_eq]
      · rw [mimeSourceFlush_eq]
    · exact hrun

theorem mimeNextEof_decoderKept (h : DecoderKept m.log) : DecoderKept (mimeNextEof m).log := by
  obtain ⟨new, hquiet, hlog⟩ := mimeNextEof_log m
  rw [hlog, List.append_assoc]
  refine h.append fun event hmem => ?_
  rcases List.mem_append.mp hmem with hmem | hmem
  · rcases List.mem_cons.mp hmem with rfl | hmem
    · rfl
    · exact MimeEvent.isPlain_of_isQuiet (hquiet event hmem)
  · split at hmem
    · cases hmem
    · rw [List.mem_singleton.mp hmem]
      rfl

/-- In a message whose steps keep the decoder, a body is started with the identity decoder, unless its
own header block names an encoding. -/
theorem mimeFeed_decoderKept (m : Mime) (octets : List Octet)
    (hsafe : (mimeMsgStart m).Along Mime.KeepsDecoder octets) :
    DecoderKept (mimeFeed (mimeMsgStart m) (octets.map some ++ [none])).log := by
  have hdecode : (mimeMsgStart m).decodeState = .decodeAdd := mimeReset_decodeState m
  have hkept : DecoderKept (mimeMsgStart m).log := by
    have hnil : DecoderKept [] := fun before event after hsplit => absurd hsplit (by simp)
    refine EachEvent.append_one hnil ?_
    rintro decodeState source ⟨⟩
  have hstart : (mimeMsgStart m).DecoderInv := ⟨hkept, fun _ => hdecode, fun _ _ => hdecode⟩
  have hinv := mimeFeed_invariant (fun m c h _ hsafe => mimeNextOctet_decoderInv c h hsafe) hstart
    octets hsafe
  rw [mimeFeed_append]
  change DecoderKept (if (mimeFeed (mimeMsgStart m) (octets.map some)).thrown.isSome then _
    else _ : Mime).log
  split
  · exact hinv.kept
  · exact mimeNextEof_decoderKept hinv.kept

/-- A message that is encoded itself meets the condition. -/
theorem mimeFeed_decoderKept_base64 :
    DecoderKept (mimeFeed (mimeMsgStart (mimeCreate false))
      ((ascii "Content-Transfer-Encoding: base64\n\nQQ==\n").map some ++ [none])).log :=
  mimeFeed_decoderKept (mimeCreate false) (ascii "Content-Transfer-Encoding: base64\n\nQQ==\n")
    (by decide +kernel)

/-- A message within a part that is decoded inherits the decoder. -/
theorem mimeFeed_not_decoderKept :
    ¬ DecoderKept (mimeFeed (mimeMsgStart (mimeCreate false)) ((ascii
      "Content-Type: message/rfc822\nContent-Transfer-Encoding: base64\n\nSubject: x\n\n").map some
        ++ [none])).log := by
  generalize hlog : (mimeFeed _ _).log = log
  intro hkept
  obtain ⟨hsplit, hlines⟩ : log = log.take 91 ++ .bodyStart .base64 [] :: log.drop 92 ∧
      ∀ line ∈ (headerBlock (log.take 91)).lines, namesEncoding line = false := by
    rw [← hlog]
    decide +kernel
  exact absurd (hkept _ _ _ hsplit .base64 [] rfl hlines) (by decide)

end Snert
