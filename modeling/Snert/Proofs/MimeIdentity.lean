/-
Module: Snert.Proofs.MimeIdentity
Purpose: A message that is neither multipart nor encoded. Its header block is given by its fields, with
  folded lines and either newline, and ends in an empty line. The octets decoded, and those in the
  decode buffers flushed, are the octets of its body, unless the body begins with a hyphen: this is
  taken for the lead-in of a boundary behind a newline, and the newline is given to the decoder.
Trusted boundary: none
Main exports: mimeFeed_identity_iff
-/
import Snert.Proofs.MimeBodySteps

namespace Snert

open CModel

/-! ### Header blocks -/

/-- An octet of the name of a header. -/
def isNameOctet (c : Octet) : Bool :=
  c ≠ ch ':' && !isspace c && !iscntrl c

/-- A header: its name, what is behind the colon, and the lines it is folded to, each with the blank
that it begins with. A CR before the newline belongs to what is before it. -/
structure HeaderField where
  name : List Octet
  value : List Octet
  folds : List (Octet × List Octet)
  name_ne : name ≠ []
  name_octets : ∀ c ∈ name, isNameOctet c
  value_octets : ASCII_LF ∉ value
  folds_octets : ∀ fold ∈ folds, (fold.1 = ASCII_SPACE ∨ fold.1 = ASCII_TAB) ∧ ASCII_LF ∉ fold.2

/-- The octets of a folded line. -/
def foldOctets (fold : Octet × List Octet) : List Octet :=
  fold.1 :: fold.2 ++ [ASCII_LF]

def HeaderField.octets (field : HeaderField) : List Octet :=
  field.name ++ ch ':' :: field.value ++ [ASCII_LF] ++ field.folds.flatMap foldOctets

/-- The headers of a message, up to the empty line. -/
structure MessageHeaders where
  fields : List HeaderField
  crlf : Bool

def MessageHeaders.octets (headers : MessageHeaders) : List Octet :=
  headers.fields.flatMap HeaderField.octets ++
    (if headers.crlf then [ASCII_CR, ASCII_LF] else [ASCII_LF])

/-- Is the text one of the headers that say how the body is read? -/
def setsBody (text : List Octet) : Bool :=
  textFind text (ascii "Content-Type:*multipart/*") ||
    textFind text (ascii "Content-Type:*message/rfc822") ||
    textFind text (ascii "Content-Transfer-Encoding:*quoted-printable*") ||
    textFind text (ascii "Content-Transfer-Encoding:*base64*")

/-- A header that ends at the octet does not say how the body is read. -/
def Mime.PlainHeader (m : Mime) (c : Octet) : Prop :=
  m.sourceState = .hdrLF → c ≠ ASCII_CR → c ≠ ASCII_SPACE → c ≠ ASCII_TAB →
    setsBody m.source.octets = false

instance (m : Mime) (c : Octet) : Decidable (m.PlainHeader c) := by
  unfold Mime.PlainHeader
  infer_instance

/-! ### Through the headers -/

/-- Nothing has been decoded, and nothing was said about the body. -/
structure Mime.Plain (m : Mime) : Prop where
  single : m.isMultipart = false
  alone : m.isMessageRfc822 = false
  decodeState : m.decodeState = .decodeAdd
  cr : m.decodeStateCr = false
  decode : m.decode.octets = []
  thrown : m.thrown = none
  decoded : decodedOctets m.log = []
  flushed : flushedOctets m.log = []

/-- The parser is in a state of the headers. -/
def Mime.PlainAt (m : Mime) (state : SourceState) : Prop :=
  m.Plain ∧ m.sourceState = state

theorem mimeSourceFlush_plain {m : Mime} (h : m.Plain) : (mimeSourceFlush m).Plain := by
  have hfields := mimeSourceFlush_eq m
  obtain ⟨hdecoded, hflushed⟩ : decodedOctets (mimeSourceFlush m).log = [] ∧
      flushedOctets (mimeSourceFlush m).log = [] := by
    unfold mimeSourceFlush
    split
    · refine ⟨?_, ?_⟩
      · change decodedOctets (m.log ++ [_]) = []
        rw [decodedOctets_append, h.decoded]
        rfl
      · change flushedOctets (m.log ++ [_]) = []
        rw [flushedOctets_append, h.flushed]
        rfl
    · exact ⟨h.decoded, h.flushed⟩
  generalize mimeSourceFlush m = flushed at *
  exact
    { single := by rw [hfields]; exact h.single
      alone := by rw [hfields]; exact h.alone
      decodeState := by rw [hfields]; exact h.decodeState
      cr := by rw [hfields]; exact h.cr
      decode := by rw [hfields]; exact h.decode
      thrown := by rw [hfields]; exact h.thrown
      decoded := hdecoded
      flushed := hflushed }

theorem take_plain (c : Octet) {m : Mime} (h : m.Plain) : (m.take c).Plain :=
  { h with
    decoded := (take_octets m c).2.1.trans h.decoded
    flushed := (take_octets m c).2.2.trans h.flushed }

theorem Mime.Plain.note {m : Mime} (h : m.Plain) {event : MimeEvent}
    (hevent : event.isDecoding = false) : (m.note event).Plain :=
  { h with
    decoded := (note_octets m event hevent).2.1.trans h.decoded
    flushed := (note_octets m event hevent).2.2.trans h.flushed }

theorem Mime.Plain.set {m : Mime} (h : m.Plain) (source : MimeBuffer) (state : SourceState) :
    ({ m with source := source, sourceState := state } : Mime).Plain :=
  { h with }

theorem mimeNextOctet_plainAt {m : Mime} {c : Octet} {state : SourceState}
    (h : ((m.take c).runSourceState c).PlainAt state) : (mimeNextOctet m c).PlainAt state := by
  unfold mimeNextOctet
  dsimp only
  rw [if_neg (by rw [h.1.thrown]; exact Bool.false_ne_true)]
  unfold Mime.flushFull
  split
  · refine ⟨mimeSourceFlush_plain h.1, ?_⟩
    rw [mimeSourceFlush_eq]
    exact h.2
  · exact h

theorem mimeFeed_plainAt {state : SourceState} {octets : List Octet}
    (hstep : ∀ c ∈ octets, ∀ m : Mime, m.PlainAt state → (mimeNextOctet m c).PlainAt state) :
    ∀ {m : Mime}, m.PlainAt state → (mimeFeed m (octets.map some)).PlainAt state := by
  induction octets with
  | nil => exact fun h => h
  | cons c octets ih =>
      intro m h
      rw [mimeFeed_cons h.1.thrown]
      exact ih (fun c' hmem => hstep c' (List.mem_cons_of_mem _ hmem))
        (hstep c List.mem_cons_self m h)

variable {m : Mime} {c : Octet}

theorem mimeStateHdr_name (hc : isNameOctet c) : mimeStateHdr m c = m := by
  simp only [isNameOctet, Bool.and_eq_true, decide_eq_true_eq, Bool.not_eq_true'] at hc
  obtain ⟨⟨hcolon, hspace⟩, hcontrol⟩ := hc
  have hblank : c ≠ ch ' ' := fun heq => by rw [heq] at hspace; revert hspace; decide
  have hcr : c ≠ ASCII_CR := fun heq => by rw [heq] at hspace; revert hspace; decide
  have hdelimiter : ¬ isHeaderDelimiter m c = true := by
    simp [isHeaderDelimiter, hcolon, hblank]
  unfold mimeStateHdr
  rw [if_neg hdelimiter, if_neg hcr, if_neg (by simp [hspace, hcontrol])]

theorem name_plainAt (hc : isNameOctet c) (h : m.PlainAt .hdr) : (mimeNextOctet m c).PlainAt .hdr := by
  apply mimeNextOctet_plainAt
  rw [runSourceState_hdr (m := m.take _) _ h.2]
  rw [mimeStateHdr_name hc]
  exact ⟨take_plain c h.1, h.2⟩

theorem name_plainAt_start (hc : isNameOctet c) (h : m.PlainAt .hdrStart) :
    (mimeNextOctet m c).PlainAt .hdr := by
  apply mimeNextOctet_plainAt
  rw [runSourceState_hdrStart (m := m.take _) _ h.2]
  unfold mimeStateHdrStart
  rw [mimeStateHdr_name hc]
  exact ⟨((take_plain c h.1).set (m.take c).source .hdr).note rfl, rfl⟩

theorem colon_plainAt (h : m.PlainAt .hdr) : (mimeNextOctet m (ch ':')).PlainAt .hdrValue := by
  apply mimeNextOctet_plainAt
  rw [runSourceState_hdr (m := m.take _) _ h.2]
  have hdelimiter : isHeaderDelimiter (m.take (ch ':')) (ch ':') = true := rfl
  unfold mimeStateHdr
  rw [if_pos hdelimiter]
  exact ⟨(take_plain _ h.1).set _ .hdrValue, rfl⟩

theorem value_plainAt (hc : c ≠ ASCII_LF) (h : m.PlainAt .hdrValue) :
    (mimeNextOctet m c).PlainAt .hdrValue := by
  apply mimeNextOctet_plainAt
  rw [runSourceState_hdrValue (m := m.take _) _ h.2]
  unfold mimeStateHdrValue
  rw [if_neg hc]
  exact ⟨take_plain c h.1, h.2⟩

theorem newline_plainAt (h : m.PlainAt .hdrValue) : (mimeNextOctet m ASCII_LF).PlainAt .hdrLF := by
  apply mimeNextOctet_plainAt
  rw [runSourceState_hdrValue (m := m.take _) _ h.2]
  unfold mimeStateHdrValue
  rw [if_pos rfl]
  dsimp only
  split
  · exact ⟨(take_plain _ h.1).set _ .hdrLF, rfl⟩
  · exact ⟨(take_plain _ h.1).set _ .hdrLF, rfl⟩

theorem blank_plainAt (hc : c = ASCII_SPACE ∨ c = ASCII_TAB) (h : m.PlainAt .hdrLF) :
    (mimeNextOctet m c).PlainAt .hdrValue := by
  have hcr : c ≠ ASCII_CR := by rcases hc with rfl | rfl <;> decide
  apply mimeNextOctet_plainAt
  rw [runSourceState_hdrLF (m := m.take _) _ h.2]
  unfold mimeStateHdrLF
  rw [if_neg hcr, if_pos hc]
  exact ⟨(take_plain c h.1).set _ .hdrValue, rfl⟩

theorem mimeCheckHeader_plain {header : List Octet} (h : m.Plain) (hheader : setsBody header = false) :
    (mimeCheckHeader m header).Plain := by
  simp only [setsBody, Bool.or_eq_false_iff] at hheader
  obtain ⟨⟨⟨hmultipart, hrfc822⟩, hqp⟩, hbase64⟩ := hheader
  unfold mimeCheckHeader
  rw [hmultipart, hrfc822, hqp, hbase64]
  simp only [Bool.false_eq_true, if_false]
  split
  · refine { h with decodeState := ?_ }
    dsimp only
    split
    · rfl
    · exact h.decodeState
  · exact h

theorem mimeEndHeader_plainAt (h : m.Plain) (hheader : setsBody m.source.octets.dropLast = false) :
    (mimeEndHeader m c).PlainAt .hdr := by
  have hended : m.endHeaderLine.Plain := h.set _ .hdr
  have hchecked : m.endHeaderLine.checkedHeader.Plain := mimeCheckHeader_plain hended hheader
  have hflushed : m.flushedHeader.Plain := mimeSourceFlush_plain (hchecked.note rfl)
  have hstate := (mimeEndHeader_endsHeader m c).state
  rw [mimeEndHeader_eq] at hstate ⊢
  exact ⟨{ hflushed with }, hstate⟩

theorem mimeStateEOH_plainAt (h : m.Plain) : (mimeStateEOH m).PlainAt .hdrBdy := by
  have hflushed := mimeSourceFlush_plain h
  have hnone : mimeDecodeFlush (mimeSourceFlush m) = mimeSourceFlush m := by
    unfold mimeDecodeFlush
    rw [if_neg]
    change ¬ 0 < (mimeSourceFlush m).decode.octets.length
    rw [hflushed.decode]
    exact Nat.lt_irrefl 0
  have halone : ¬ m.startBody.isMessageRfc822 = true := by
    rw [(startBody_starts m).isMessageRfc822, h.alone]
    exact Bool.false_ne_true
  rw [mimeStateEOH_eq, if_neg halone]
  refine ⟨?_, (startBody_starts m).state⟩
  unfold Mime.startBody
  rw [hnone]
  have hcleared : ({ mimeSourceFlush m with bodyLength := 0, bodyDecodedLength := 0 } : Mime).Plain :=
    { hflushed with }
  have hfinished : (mimeHdrFinish
      { mimeSourceFlush m with bodyLength := 0, bodyDecodedLength := 0 }).Plain := hcleared.note rfl
  have hstarted : (mimeBodyStart (mimeHdrFinish
      { mimeSourceFlush m with bodyLength := 0, bodyDecodedLength := 0 })).Plain :=
    hfinished.note rfl
  exact { hstarted with }

theorem endsHeader_plainAt (hplain : m.PlainHeader c) (hcr : c ≠ ASCII_CR)
    (hblank : ¬ (c = ASCII_SPACE ∨ c = ASCII_TAB)) (h : m.PlainAt .hdrLF) :
    (mimeNextOctet m c).PlainAt (if c = ASCII_LF then .hdrBdy else .hdr) := by
  have hlast : (m.take c).source.octets.dropLast = m.source.octets := List.dropLast_concat
  have hheader : setsBody (m.take c).source.octets.dropLast = false := by
    rw [hlast]
    exact hplain h.2 hcr (fun hspace => hblank (.inl hspace)) fun htab => hblank (.inr htab)
  have hended := mimeEndHeader_plainAt (c := c) (take_plain c h.1) hheader
  have hlength : 0 < (m.take c).source.length := by
    change 0 < (m.source.octets ++ [c]).length
    simp
  apply mimeNextOctet_plainAt
  rw [runSourceState_hdrLF (m := m.take _) _ h.2]
  unfold mimeStateHdrLF
  rw [if_neg hcr, if_neg hblank, if_pos hlength]
  dsimp only
  split
  · exact mimeStateEOH_plainAt hended.1
  · exact hended

theorem name_plainAt_next (hc : isNameOctet c) (hplain : m.PlainHeader c) (h : m.PlainAt .hdrLF) :
    (mimeNextOctet m c).PlainAt .hdr := by
  simp only [isNameOctet, Bool.and_eq_true, decide_eq_true_eq, Bool.not_eq_true'] at hc
  have hspace : ∀ c', isspace c' = true → c ≠ c' := fun c' hc' heq => by
    rw [← heq, hc.1.2] at hc'
    cases hc'
  have hblank : ¬ (c = ASCII_SPACE ∨ c = ASCII_TAB) :=
    not_or.mpr ⟨hspace _ (by decide), hspace _ (by decide)⟩
  have hended := endsHeader_plainAt hplain (hspace _ (by decide)) hblank h
  rwa [if_neg (hspace ASCII_LF (by decide))] at hended

theorem emptyLine_plainAt (hplain : m.PlainHeader ASCII_LF) (h : m.PlainAt .hdrLF) :
    (mimeNextOctet m ASCII_LF).PlainAt .hdrBdy := by
  have hended := endsHeader_plainAt hplain (by decide) (by decide) h
  rwa [if_pos rfl] at hended

theorem cr_plainAt (h : m.PlainAt .hdrLF) : (mimeNextOctet m ASCII_CR).PlainAt .hdrLF := by
  apply mimeNextOctet_plainAt
  rw [runSourceState_hdrLF (m := m.take _) _ h.2]
  unfold mimeStateHdrLF
  rw [if_pos rfl]
  exact ⟨(take_plain _ h.1).set _ (m.take ASCII_CR).sourceState, h.2⟩

theorem line_plainAt {line : List Octet} (hline : ASCII_LF ∉ line) (h : m.PlainAt .hdrValue) :
    (mimeFeed m ((line ++ [ASCII_LF]).map some)).PlainAt .hdrLF := by
  have hvalue : (mimeFeed m (line.map some)).PlainAt .hdrValue := by
    refine mimeFeed_plainAt (fun c hmem m h => value_plainAt ?_ h) h
    exact fun heq => hline (heq ▸ hmem)
  rw [mimeFeed_concat hvalue.1.thrown]
  exact newline_plainAt hvalue

theorem folds_plainAt {folds : List (Octet × List Octet)}
    (hfolds : ∀ fold ∈ folds, (fold.1 = ASCII_SPACE ∨ fold.1 = ASCII_TAB) ∧ ASCII_LF ∉ fold.2) :
    ∀ {m : Mime}, m.PlainAt .hdrLF →
      (mimeFeed m ((folds.flatMap foldOctets).map some)).PlainAt .hdrLF := by
  induction folds with
  | nil => exact fun h => h
  | cons fold folds ih =>
      intro m h
      obtain ⟨hblank, hline⟩ := hfolds fold List.mem_cons_self
      have hfold : (mimeFeed m ((foldOctets fold).map some)).PlainAt .hdrLF := by
        change (mimeFeed m ((fold.1 :: (fold.2 ++ [ASCII_LF])).map some)).PlainAt .hdrLF
        rw [mimeFeed_cons h.1.thrown]
        exact line_plainAt hline (blank_plainAt hblank h)
      rw [List.flatMap_cons, List.map_append, mimeFeed_append]
      exact ih (fun fold hmem => hfolds fold (List.mem_cons_of_mem _ hmem)) hfold

theorem field_plainAt (field : HeaderField) (halong : m.Along Mime.PlainHeader field.octets)
    (h : m.PlainAt .hdrStart ∨ m.PlainAt .hdrLF) :
    (mimeFeed m (field.octets.map some)).PlainAt .hdrLF := by
  obtain ⟨first, name, hname⟩ := List.exists_cons_of_ne_nil field.name_ne
  have hfirst : isNameOctet first := field.name_octets first (by rw [hname]; exact List.mem_cons_self)
  have hrest : ∀ c ∈ name, isNameOctet c := fun c hmem =>
    field.name_octets c (by rw [hname]; exact List.mem_cons_of_mem _ hmem)
  have hthrown : m.thrown = none := h.elim (fun h => h.1.thrown) fun h => h.1.thrown
  have hoctets : field.octets = first :: (name ++ ch ':' :: (field.value ++ [ASCII_LF]) ++
      field.folds.flatMap foldOctets) := by
    simp [HeaderField.octets, hname]
  rw [hoctets] at halong ⊢
  have hbegun : (mimeNextOctet m first).PlainAt .hdr := by
    rcases h with h | h
    · exact name_plainAt_start hfirst h
    · exact name_plainAt_next hfirst ((along_cons.mp halong).1 hthrown) h
  have hnamed : (mimeFeed (mimeNextOctet m first) (name.map some)).PlainAt .hdr :=
    mimeFeed_plainAt (fun c hmem m h => name_plainAt (hrest c hmem) h) hbegun
  rw [mimeFeed_cons hthrown, List.map_append, mimeFeed_append, List.map_append, mimeFeed_append,
    mimeFeed_cons hnamed.1.thrown]
  exact folds_plainAt field.folds_octets (line_plainAt field.value_octets (colon_plainAt hnamed))

theorem fields_plainAt (fields : List HeaderField) : ∀ {m : Mime},
    m.Along Mime.PlainHeader (fields.flatMap HeaderField.octets) → m.PlainAt .hdrLF →
      (mimeFeed m ((fields.flatMap HeaderField.octets).map some)).PlainAt .hdrLF := by
  induction fields with
  | nil => exact fun _ h => h
  | cons field fields ih =>
      intro m halong h
      rw [List.flatMap_cons] at halong ⊢
      obtain ⟨hfield, hfields⟩ := along_append halong
      rw [List.map_append, mimeFeed_append]
      exact ih hfields (field_plainAt field hfield (.inr h))

theorem emptyLine_crlf_plainAt {crlf : Bool} (h : m.PlainAt .hdrLF)
    (halong : m.Along Mime.PlainHeader (if crlf then [ASCII_CR, ASCII_LF] else [ASCII_LF])) :
    (mimeFeed m ((if crlf then [ASCII_CR, ASCII_LF] else [ASCII_LF]).map some)).PlainAt .hdrBdy := by
  cases crlf with
  | true =>
      have hcr := cr_plainAt h
      have hrest := (along_cons.mp halong).2
      have hfeed : mimeFeed m [some ASCII_CR] = mimeNextOctet m ASCII_CR :=
        mimeFeed_cons h.1.thrown ASCII_CR []
      rw [hfeed] at hrest
      change (mimeFeed m ((ASCII_CR :: [ASCII_LF]).map some)).PlainAt .hdrBdy
      rw [mimeFeed_cons h.1.thrown, mimeFeed_cons hcr.1.thrown]
      exact emptyLine_plainAt ((along_cons.mp hrest).1 hcr.1.thrown) hcr
  | false =>
      change (mimeFeed m ((ASCII_LF :: []).map some)).PlainAt .hdrBdy
      rw [mimeFeed_cons h.1.thrown]
      exact emptyLine_plainAt ((along_cons.mp halong).1 h.1.thrown) h

/-! ### A message without headers -/

theorem mimeHeaderless_plainAt (h : m.Plain) (hempty : (dropEmptyLine m.source c).octets = []) :
    (mimeHeaderless m c).PlainAt .hdrBdy := by
  have hlength : (m.headerlessBody c).source.length = 0 := by
    change (dropEmptyLine m.source c).octets.length = 0
    rw [hempty]
    rfl
  have hdropped : ({ m with source := dropEmptyLine m.source c } : Mime).Plain := { h with }
  have hfinished : (mimeHdrFinish { m with source := dropEmptyLine m.source c }).Plain :=
    hdropped.note rfl
  have hstarted : (mimeBodyStart (mimeHdrFinish
      { m with source := dropEmptyLine m.source c })).Plain := hfinished.note rfl
  rw [mimeHeaderless_eq, hlength]
  exact ⟨{ hstarted with }, rfl⟩

theorem mimeStateHdr_empty (h : m.Plain)
    (hline : m.source.octets = [ASCII_LF] ∨ m.source.octets = [ASCII_CR, ASCII_LF]) :
    (mimeStateHdr m ASCII_LF).PlainAt .hdrBdy := by
  have hdelimiter : ¬ isHeaderDelimiter m ASCII_LF = true := by
    have hcolon : ASCII_LF ≠ ch ':' := by decide
    have hblank : ASCII_LF ≠ ch ' ' := by decide
    simp [isHeaderDelimiter, hcolon, hblank]
  have herror : headerError m ASCII_LF = none := by
    rcases hline with hline | hline <;> simp [headerError, MimeBuffer.length, hline]
  have hempty : (dropEmptyLine m.source ASCII_LF).octets = [] := by
    rcases hline with hline | hline <;>
      simp [dropEmptyLine, MimeBuffer.length, MimeBuffer.shrink, hline]
  unfold mimeStateHdr
  rw [if_neg hdelimiter, if_neg (by decide), if_pos (.inl (by decide)), herror]
  exact mimeHeaderless_plainAt h hempty

theorem emptyLine_plainAt_start (h : m.PlainAt .hdrStart) (hsource : m.source.octets = []) :
    (mimeNextOctet m ASCII_LF).PlainAt .hdrBdy := by
  apply mimeNextOctet_plainAt
  rw [runSourceState_hdrStart (m := m.take _) _ h.2]
  refine mimeStateHdr_empty (((take_plain _ h.1).set (m.take ASCII_LF).source .hdr).note rfl) ?_
  left
  change m.source.octets ++ [ASCII_LF] = _
  rw [hsource]
  rfl

theorem cr_plainAt_start (h : m.PlainAt .hdrStart) (hsource : m.source.octets = []) :
    (mimeNextOctet m ASCII_CR).PlainAt .hdr ∧ (mimeNextOctet m ASCII_CR).source.octets = [ASCII_CR] := by
  have hrun : (m.take ASCII_CR).runSourceState ASCII_CR =
      { m.take ASCII_CR with sourceState := .hdr }.note .hdrStart := by
    rw [runSourceState_hdrStart (m := m.take _) _ h.2]
    unfold mimeStateHdrStart mimeStateHdr
    rw [if_neg, if_pos rfl]
    have hcolon : ASCII_CR ≠ ch ':' := by decide
    have hblank : ASCII_CR ≠ ch ' ' := by decide
    simp [isHeaderDelimiter, hcolon, hblank]
  have hplain : ((m.take ASCII_CR).runSourceState ASCII_CR).PlainAt .hdr := by
    rw [hrun]
    exact ⟨((take_plain _ h.1).set (m.take ASCII_CR).source .hdr).note rfl, rfl⟩
  refine ⟨mimeNextOctet_plainAt hplain, ?_⟩
  have hoctets : ((m.take ASCII_CR).runSourceState ASCII_CR).source.octets = [ASCII_CR] := by
    rw [hrun]
    change m.source.octets ++ [ASCII_CR] = _
    rw [hsource]
    rfl
  have hroom : ¬ MIME_BUFFER_SIZE - 1 ≤ ((m.take ASCII_CR).runSourceState ASCII_CR).source.length := by
    change ¬ 1023 ≤ ((m.take ASCII_CR).runSourceState ASCII_CR).source.octets.length
    rw [hoctets]
    decide
  unfold mimeNextOctet
  dsimp only
  rw [if_neg (by rw [hplain.1.thrown]; exact Bool.false_ne_true), Mime.flushFull, if_neg hroom]
  exact hoctets

theorem emptyLine_plainAt_cr (h : m.PlainAt .hdr) (hsource : m.source.octets = [ASCII_CR]) :
    (mimeNextOctet m ASCII_LF).PlainAt .hdrBdy := by
  apply mimeNextOctet_plainAt
  rw [runSourceState_hdr (m := m.take _) _ h.2]
  refine mimeStateHdr_empty (take_plain _ h.1) (.inr ?_)
  change m.source.octets ++ [ASCII_LF] = _
  rw [hsource]
  rfl

theorem mimeMsgStart_plainAt (m : Mime) :
    (mimeMsgStart m).PlainAt .hdrStart ∧ (mimeMsgStart m).source.octets = [] := by
  have hdecode : (mimeReset m).decode.octets = [] := by
    rw [mimeReset_decode, mimeDecodeFlush_octets]
  exact ⟨⟨{
      single := rfl
      alone := rfl
      decodeState := mimeReset_decodeState m
      cr := mimeReset_decodeStateCr m
      decode := hdecode
      thrown := rfl
      decoded := rfl
      flushed := rfl }, mimeReset_sourceState m⟩, mimeReset_octets m⟩

theorem mimeFeed_headers (m : Mime) (headers : MessageHeaders)
    (hplain : (mimeMsgStart m).Along Mime.PlainHeader headers.octets) :
    (mimeFeed (mimeMsgStart m) (headers.octets.map some)).PlainAt .hdrBdy := by
  obtain ⟨hstart, hsource⟩ := mimeMsgStart_plainAt m
  generalize mimeMsgStart m = m at hplain hstart hsource
  obtain ⟨fields, crlf⟩ := headers
  cases fields with
  | nil =>
      cases crlf with
      | true =>
          obtain ⟨hcr, hoctets⟩ := cr_plainAt_start hstart hsource
          change (mimeFeed m ((ASCII_CR :: [ASCII_LF]).map some)).PlainAt .hdrBdy
          rw [mimeFeed_cons hstart.1.thrown, mimeFeed_cons hcr.1.thrown]
          exact emptyLine_plainAt_cr hcr hoctets
      | false =>
          change (mimeFeed m ((ASCII_LF :: []).map some)).PlainAt .hdrBdy
          rw [mimeFeed_cons hstart.1.thrown]
          exact emptyLine_plainAt_start hstart hsource
  | cons field fields =>
      have hoctets : MessageHeaders.octets ⟨field :: fields, crlf⟩ =
          field.octets ++ (fields.flatMap HeaderField.octets ++
            (if crlf then [ASCII_CR, ASCII_LF] else [ASCII_LF])) := by
        simp [MessageHeaders.octets]
      rw [hoctets] at hplain ⊢
      obtain ⟨hfield, hrest⟩ := along_append hplain
      obtain ⟨hfields, hempty⟩ := along_append hrest
      rw [List.map_append, mimeFeed_append, List.map_append, mimeFeed_append]
      exact emptyLine_crlf_plainAt
        (fields_plainAt fields hfields (field_plainAt field hfield (.inl hstart))) hempty

/-! ### The body -/

/-- What was given to the identity decoder so far, within a body that is not multipart. -/
structure Mime.Identity (m : Mime) (given : List Octet) (state : SourceState) : Prop where
  state : m.sourceState = state
  single : m.isMultipart = false
  decodeState : m.decodeState = .decodeAdd
  thrown : m.thrown = none
  decoded : decodedOctets m.log ++ heldCr m = given
  flushed : flushedOctets m.log ++ m.decode.octets = decodedOctets m.log

theorem Mime.PlainAt.identity (h : m.PlainAt .hdrBdy) : m.Identity [] .hdrBdy where
  state := h.2
  single := h.1.single
  decodeState := h.1.decodeState
  thrown := h.1.thrown
  decoded := by
    rw [h.1.decoded, heldCr, h.1.cr]
    rfl
  flushed := by rw [h.1.flushed, h.1.decode, h.1.decoded]; rfl

theorem Mime.Identity.gives {m' : Mime} {given octets : List Octet} {state state' : SourceState}
    (h : m.Identity given state) (hgives : m.Gives octets m') (hstate : m'.sourceState = state') :
    m'.Identity (given ++ octets) state' where
  state := hstate
  single := by
    have houter : m'.outer.isMultipart = m.outer.isMultipart := by rw [hgives.outer]
    exact houter.trans h.single
  decodeState := hgives.identity.mpr h.decodeState
  thrown := by
    have houter : m'.outer.thrown = m.outer.thrown := by rw [hgives.outer]
    exact houter.trans h.thrown
  decoded := by rw [hgives.decoded h.decodeState, h.decoded]
  flushed := hgives.flushed h.flushed

theorem Mime.Identity.take {given : List Octet} {state : SourceState} (h : m.Identity given state)
    (c : Octet) : (m.take c).Identity given state :=
  { h with
    decoded := (congrArg (· ++ heldCr m) (take_octets m c).2.1).trans h.decoded
    flushed := by
      rw [(take_octets m c).2.2, (take_octets m c).2.1]
      exact h.flushed }

theorem mimeStateBdy_single {given : List Octet} (h : m.Identity given .bdy) (c : Octet) :
    ∃ source, m.BodyGives [c] .bdy source (mimeStateBdy m c) := by
  have hbody : m.sourceState.isBody := by rw [h.state]; rfl
  by_cases hc : c = ASCII_LF
  · have hstep := mimeStateBdy_newline_single hbody h.single
    rw [h.state, ← hc] at hstep
    exact ⟨_, hstep⟩
  · have hstep := mimeStateBdy_octet hbody hc
    rw [h.state] at hstep
    exact ⟨_, hstep⟩

theorem mimeNextOctet_identity {given : List Octet} (h : m.Identity given .bdy) (c : Octet) :
    (mimeNextOctet m c).Identity (given ++ [c]) .bdy := by
  have htaken := h.take c
  have hbody : m.sourceState.isBody := by rw [h.state]; rfl
  obtain ⟨source, hstep⟩ := mimeStateBdy_single htaken c
  have hrun : (m.take c).runBodyState c = mimeStateBdy (m.take c) c := by
    simp only [Mime.runBodyState, htaken.state]
  rw [← hrun] at hstep
  have hnext := mimeNextOctet_bodyGives hbody rfl hstep h.thrown
  exact htaken.gives hnext.gives hnext.state

theorem mimeNextOctet_identity_first {given : List Octet} (h : m.Identity given .hdrBdy) (c : Octet) :
    (mimeNextOctet m c).Identity (given ++ if c = ch '-' then [ASCII_LF, c] else [c]) .bdy := by
  have htaken := h.take c
  have hbody : m.sourceState.isBody := by rw [h.state]; rfl
  have hrun : (m.take c).runBodyState c = mimeStateHdrBdy (m.take c) c := by
    simp only [Mime.runBodyState, htaken.state]
  by_cases hc : c = ch '-'
  · have hstep := mimeStateHdrBdy_hyphen_single htaken.single
    rw [← hc] at hstep
    rw [← hrun] at hstep
    have hnext := mimeNextOctet_bodyGives hbody rfl hstep h.thrown
    rw [if_pos hc]
    exact htaken.gives hnext.gives hnext.state
  · have hset : (m.take c).Gives [] { m.take c with sourceState := .bdy } :=
      set_gives (m.take c) (m.take c).source .bdy rfl
    have hbdy := htaken.gives hset rfl
    rw [List.append_nil] at hbdy
    obtain ⟨source, hstep⟩ := mimeStateBdy_single hbdy c
    rw [← mimeStateHdrBdy_other hc] at hstep
    have hstep' : (m.take c).BodyGives [c] .bdy source ((m.take c).runBodyState c) := by
      rw [hrun]
      exact ⟨hset.trans hstep.gives, hstep.state, hstep.source⟩
    have hnext := mimeNextOctet_bodyGives hbody rfl hstep' h.thrown
    rw [if_neg hc]
    exact htaken.gives hnext.gives hnext.state

/-- What the decoder is given of a body. -/
def givenOf : List Octet → List Octet
  | [] => []
  | c :: body => (if c = ch '-' then [ASCII_LF, c] else [c]) ++ body

theorem mimeFeed_identity (octets : List Octet) : ∀ {m : Mime} {given : List Octet},
    m.Identity given .bdy → (mimeFeed m (octets.map some)).Identity (given ++ octets) .bdy := by
  induction octets with
  | nil => exact fun h => by rwa [List.append_nil]
  | cons c octets ih =>
      intro m given h
      have hrest := ih (mimeNextOctet_identity h c)
      rw [mimeFeed_cons h.thrown]
      rwa [List.append_assoc] at hrest

theorem mimeFeed_identity_body (body : List Octet) (h : m.Identity [] .hdrBdy) :
    ∃ state, (mimeFeed m (body.map some)).Identity (givenOf body) state ∧ state.isBody := by
  cases body with
  | nil => exact ⟨.hdrBdy, h, rfl⟩
  | cons c body =>
      rw [mimeFeed_cons h.thrown]
      exact ⟨.bdy, mimeFeed_identity body (mimeNextOctet_identity_first h c), rfl⟩

theorem givenOf_eq_iff (body : List Octet) : givenOf body = body ↔ body.head? ≠ some (ch '-') := by
  cases body with
  | nil => exact ⟨fun _ => nofun, fun _ => rfl⟩
  | cons c body =>
      change (if c = ch '-' then [ASCII_LF, c] else [c]) ++ body = c :: body ↔ _
      rw [List.head?_cons, ne_eq, Option.some_inj]
      constructor
      · intro heq hc
        rw [if_pos hc] at heq
        have hfirst : ASCII_LF = c := (List.cons.inj heq).1
        rw [hc] at hfirst
        exact absurd hfirst (by decide)
      · intro hc
        rw [if_neg hc]
        rfl

/-- A message whose headers do not say how its body is read: the octets decoded, and those in the
decode buffers flushed, are those of its body exactly if the body does not begin with a hyphen. -/
theorem mimeFeed_identity_iff (m : Mime) (headers : MessageHeaders) (body : List Octet)
    (hplain : (mimeMsgStart m).Along Mime.PlainHeader headers.octets) :
    (decodedOctets (mimeFeed (mimeMsgStart m)
        ((headers.octets ++ body).map some ++ [none])).log = body ∧
      flushedOctets (mimeFeed (mimeMsgStart m)
        ((headers.octets ++ body).map some ++ [none])).log = body) ↔
      body.head? ≠ some (ch '-') := by
  have hheaders := mimeFeed_headers m headers hplain
  obtain ⟨state, hbody, hstate⟩ := mimeFeed_identity_body body hheaders.identity
  rw [← mimeFeed_append, ← List.map_append] at hbody
  have hin : (mimeFeed (mimeMsgStart m) ((headers.octets ++ body).map some)).sourceState.isBody := by
    rw [hbody.state]
    exact hstate
  obtain ⟨-, hdecoded, hflushed⟩ := mimeNextEof_octets hin
  have hgiven := (hdecoded hbody.decodeState).trans hbody.decoded
  have hsame := hflushed hbody.flushed
  rw [mimeFeed_eof hbody.thrown, hsame, hgiven, and_self, givenOf_eq_iff]

/-- A message with a folded header. -/
theorem mimeFeed_identity_folded :
    decodedOctets (mimeFeed (mimeMsgStart (mimeCreate false))
        ((ascii "A: b\r\n c\r\n\r\n" ++ ascii "x\r\n").map some ++ [none])).log = ascii "x\r\n" ∧
      flushedOctets (mimeFeed (mimeMsgStart (mimeCreate false))
        ((ascii "A: b\r\n c\r\n\r\n" ++ ascii "x\r\n").map some ++ [none])).log = ascii "x\r\n" :=
  (mimeFeed_identity_iff (mimeCreate false)
    ⟨[⟨ascii "A", ascii " b\r", [(ASCII_SPACE, ascii "c\r")], by decide,
      by decide, by decide, by decide⟩], true⟩ (ascii "x\r\n") (by decide)).mpr (by decide)

/-- A body that begins with a hyphen gets a newline before it. -/
theorem mimeFeed_identity_hyphen :
    ¬ (decodedOctets (mimeFeed (mimeMsgStart (mimeCreate false))
        ((ascii "A: b\n\n" ++ ascii "-x").map some ++ [none])).log = ascii "-x" ∧
      flushedOctets (mimeFeed (mimeMsgStart (mimeCreate false))
        ((ascii "A: b\n\n" ++ ascii "-x").map some ++ [none])).log = ascii "-x") := by
  decide

end Snert
