/-
Module: Snert.Proofs.MimeDelimiters
Purpose: The lines of a multipart body that the parser takes for boundaries, against those that have the
  documented form of a delimiter. A line is looked at only where the state is one behind a newline: a
  line that fails as a boundary, or as its lead-in, together with its newline hides the next one. What
  is judged at its end is what the source buffer then holds, with NUL and CR taken for boundary
  characters. Elsewhere the two agree.
Trusted boundary: none
Main exports: mimeFeed_boundariesExact_iff
-/
import Snert.Proofs.MimeScan

namespace Snert

open CModel

/-! ### Lines and delimiters -/

/-- A line of a body, without its LF. -/
structure BodyLine where
  octets : List Octet
  no_newline : ASCII_LF ∉ octets

/-- The line with its LF. -/
def BodyLine.fed (line : BodyLine) : List Octet :=
  line.octets ++ [ASCII_LF]

/-- What the line says: a CR before the LF belongs to the end of the line. -/
def BodyLine.content (line : BodyLine) : List Octet :=
  if line.octets.getLast? = some ASCII_CR then line.octets.dropLast else line.octets

/-- The characters of boundaries. -/
def isBoundaryChar (c : Octet) : Bool :=
  isalnum c || c ∈ BCHARSNOSPACE

/-- Is the octet one of those that a line of nothing else is drawn with? -/
def isRuleChar (c : Octet) : Bool :=
  c = ch '-' || c = ch '='

/-- The form of a delimiter: two hyphens, and boundary characters, not all of which draw a line. -/
def isDelimiter (content : List Octet) : Bool :=
  content.take 2 = [ch '-', ch '-'] && (content.drop 2).all isBoundaryChar &&
    !(content.drop 2).all isRuleChar

/-- The octets of some lines. -/
def fedLines (lines : List BodyLine) : List Octet :=
  lines.flatMap BodyLine.fed

/-- At each line of a body, the part ends exactly if the line has the form of a delimiter. -/
def BoundariesExact (m : Mime) (lines : List BodyLine) : Prop :=
  ∀ i (_ : i < lines.length), m.StaysInBody (fedLines (lines.take i)) →
    ((mimeFeed m ((fedLines (lines.take i) ++ lines[i].fed).map some)).partNumber =
        (mimeFeed m ((fedLines (lines.take i)).map some)).partNumber + 1 ↔
      isDelimiter lines[i].content)

/-! ### How a line is read -/

/-- The parser is within a multipart body, where a line begins. -/
structure Mime.AtLine (m : Mime) : Prop where
  inMultipart : m.InMultipart
  line : (m.sourceState = .hdrBdy ∧ m.source.octets = []) ∨
    (m.sourceState = .bdyLF ∧
      (m.source.octets = [ASCII_LF] ∨ m.source.octets = [ASCII_CR, ASCII_LF])) ∨
    m.sourceState = .bdy

/-- The source buffer behind some octets that are kept there: a full one is flushed. -/
def bufferLine (source octets : List Octet) : List Octet :=
  octets.foldl (fun held c => unlessFull (held ++ [c])) source

/-- A step within a body, in which no boundary ends, on the fields that matter to lines. -/
structure Mime.Reads (m : Mime) (scanned : Scanned) (m' : Mime) : Prop where
  inMultipart : m'.InMultipart
  state : m'.sourceState = scanned.state
  source : m'.source.octets = unlessFull scanned.source
  encoding : m'.encoding = m.encoding
  partNumber : m'.partNumber = m.partNumber

variable {m : Mime} {c : Octet}

theorem mimeNextOctet_reads (h : m.InMultipart) (hline : ¬ m.Accepts c) :
    m.Reads (scanBody m.sourceState (m.source.octets ++ [c]) c) (mimeNextOctet m c) := by
  obtain ⟨hgives, hstate, hsource⟩ := mimeNextOctet_scan h hline
  have houter := hgives.outer.trans (begin_outer m c)
  exact
    { inMultipart := mimeNextOctet_inMultipart h hline
      state := hstate
      source := hsource
      encoding := by
        change (mimeNextOctet m c).outer.encoding = m.encoding
        rw [houter]
        rfl
      partNumber := by
        change (mimeNextOctet m c).outer.partNumber = m.partNumber
        rw [houter]
        rfl }

theorem not_accepts_of_ne (hc : c ≠ ASCII_LF) : ¬ m.Accepts c :=
  fun haccepts => hc haccepts.2.1

/-- The parser behind the octets of a line, before its LF. -/
structure Mime.ReadsTo (m : Mime) (state : SourceState) (m' : Mime) : Prop where
  inMultipart : m'.InMultipart
  state : m'.sourceState = state
  encoding : m'.encoding = m.encoding
  partNumber : m'.partNumber = m.partNumber

theorem Mime.Reads.readsTo {octets : List Octet} {scanned : Scanned} {state : SourceState}
    (h : m.Reads scanned (mimeNextOctet m c)) (hthrown : m.thrown = none)
    (hrest : (mimeNextOctet m c).ReadsTo state (mimeFeed (mimeNextOctet m c) (octets.map some))) :
    m.ReadsTo state (mimeFeed m ((c :: octets).map some)) := by
  rw [mimeFeed_cons hthrown]
  exact ⟨hrest.inMultipart, hrest.state, hrest.encoding.trans h.encoding,
    hrest.partNumber.trans h.partNumber⟩

theorem Mime.ReadsTo.refl (h : m.InMultipart) : m.ReadsTo m.sourceState m :=
  ⟨h, rfl, rfl, rfl⟩

theorem mimeFeed_bdy (octets : List Octet) : ∀ {m : Mime}, m.InMultipart → m.sourceState = .bdy →
    ASCII_LF ∉ octets → m.ReadsTo .bdy (mimeFeed m (octets.map some)) := by
  induction octets with
  | nil => exact fun h hstate _ => hstate ▸ .refl h
  | cons c octets ih =>
      intro m h hstate hoctets
      obtain ⟨hc, hrest⟩ := List.ne_and_not_mem_of_not_mem_cons hoctets
      have hstep := mimeNextOctet_reads h (not_accepts_of_ne hc.symm)
      have hscan : scanBody m.sourceState (m.source.octets ++ [c]) c =
          ⟨[c], .bdy, m.source.octets ++ [c]⟩ := by
        rw [hstate]
        exact if_neg hc.symm
      rw [hscan] at hstep
      exact hstep.readsTo h.thrown (ih hstep.inMultipart hstep.state hrest)

theorem mimeFeed_boundary (octets : List Octet) : ∀ {m : Mime}, m.InMultipart →
    m.sourceState = .boundary → ASCII_LF ∉ octets →
      m.ReadsTo .boundary (mimeFeed m (octets.map some)) ∧
        (mimeFeed m (octets.map some)).source.octets = bufferLine m.source.octets octets := by
  induction octets with
  | nil => exact fun h hstate _ => ⟨hstate ▸ .refl h, rfl⟩
  | cons c octets ih =>
      intro m h hstate hoctets
      obtain ⟨hc, hrest⟩ := List.ne_and_not_mem_of_not_mem_cons hoctets
      have hstep := mimeNextOctet_reads h (not_accepts_of_ne hc.symm)
      have hscan : scanBody m.sourceState (m.source.octets ++ [c]) c =
          ⟨[], .boundary, m.source.octets ++ [c]⟩ := by
        rw [hstate]
        exact if_neg hc.symm
      rw [hscan] at hstep
      obtain ⟨hreads, hsource⟩ := ih hstep.inMultipart hstep.state hrest
      refine ⟨hstep.readsTo h.thrown hreads, ?_⟩
      rw [mimeFeed_cons h.thrown, hsource, hstep.source]
      rfl

theorem Mime.Reads.bdy {given source octets : List Octet}
    (h : m.Reads ⟨given, .bdy, source⟩ (mimeNextOctet m c)) (hthrown : m.thrown = none)
    (hoctets : ASCII_LF ∉ octets) : m.ReadsTo .bdy (mimeFeed m ((c :: octets).map some)) :=
  h.readsTo hthrown (mimeFeed_bdy octets h.inMultipart h.state hoctets)

/-- Do the octets go on like a boundary, from a state in which it has begun? -/
def leadsOn : SourceState → List Octet → Bool
  | .dash2, c :: _ => leadsBoundary c
  | .dash1, c :: octets => c = ch '-' && leadsOn .dash2 octets
  | .bdyLF, c :: octets => c = ch '-' && leadsOn .dash1 octets
  | .hdrBdy, c :: octets => c = ch '-' && leadsOn .dash1 octets
  | _, _ => false

/-- Does the line begin like a boundary? -/
def BodyLine.leadsIn (line : BodyLine) : Bool :=
  leadsOn .bdyLF line.octets

/-- The parser behind some octets of a line: a line that begins like a boundary is in the source
buffer. -/
structure Mime.ReadsLine (m : Mime) (octets : List Octet) (leads : Bool) (m' : Mime) : Prop where
  inMultipart : m'.InMultipart
  encoding : m'.encoding = m.encoding
  partNumber : m'.partNumber = m.partNumber
  state : m'.sourceState = .boundary ↔ leads
  source : leads → m'.source.octets = bufferLine m.source.octets octets

theorem Mime.ReadsTo.readsLine {m' : Mime} {octets : List Octet} {state : SourceState}
    (h : m.ReadsTo state m') (hstate : state ≠ .boundary) : m.ReadsLine octets false m' where
  inMultipart := h.inMultipart
  encoding := h.encoding
  partNumber := h.partNumber
  state := by
    rw [h.state]
    exact iff_of_false hstate Bool.false_ne_true
  source := nofun

theorem Mime.Reads.readsLine {octets : List Octet} {scanned : Scanned} {leads : Bool}
    (h : m.Reads scanned (mimeNextOctet m c)) (hthrown : m.thrown = none)
    (hsource : scanned.source = m.source.octets ++ [c])
    (hrest : (mimeNextOctet m c).ReadsLine octets leads
      (mimeFeed (mimeNextOctet m c) (octets.map some))) :
    m.ReadsLine (c :: octets) leads (mimeFeed m ((c :: octets).map some)) := by
  rw [mimeFeed_cons hthrown]
  exact
    { inMultipart := hrest.inMultipart
      encoding := hrest.encoding.trans h.encoding
      partNumber := hrest.partNumber.trans h.partNumber
      state := hrest.state
      source := fun hleads => by
        rw [hrest.source hleads, h.source, hsource]
        rfl }

theorem mimeFeed_dash2 (octets : List Octet) (h : m.InMultipart) (hstate : m.sourceState = .dash2)
    (hoctets : ASCII_LF ∉ octets) :
    m.ReadsLine octets (leadsOn .dash2 octets) (mimeFeed m (octets.map some)) := by
  cases octets with
  | nil => exact (hstate ▸ Mime.ReadsTo.refl h : m.ReadsTo .dash2 m).readsLine nofun
  | cons c octets =>
      obtain ⟨hc, hrest⟩ := List.ne_and_not_mem_of_not_mem_cons hoctets
      have hstep := mimeNextOctet_reads h (not_accepts_of_ne hc.symm)
      rw [hstate, scanBody] at hstep
      by_cases hleads : leadsBoundary c
      · rw [if_pos hleads] at hstep
        obtain ⟨hreads, hsource⟩ := mimeFeed_boundary octets hstep.inMultipart hstep.state hrest
        refine hstep.readsLine h.thrown rfl ⟨hreads.inMultipart, hreads.encoding, hreads.partNumber,
          ?_, fun _ => hsource⟩
        rw [hreads.state, leadsOn, hleads]
        exact iff_of_true rfl rfl
      · rw [if_neg hleads] at hstep
        rw [leadsOn, Bool.eq_false_iff.mpr hleads]
        exact (hstep.bdy h.thrown hrest).readsLine nofun

theorem mimeFeed_dash1 (octets : List Octet) (h : m.InMultipart) (hstate : m.sourceState = .dash1)
    (hoctets : ASCII_LF ∉ octets) :
    m.ReadsLine octets (leadsOn .dash1 octets) (mimeFeed m (octets.map some)) := by
  cases octets with
  | nil => exact (hstate ▸ Mime.ReadsTo.refl h : m.ReadsTo .dash1 m).readsLine nofun
  | cons c octets =>
      obtain ⟨hc, hrest⟩ := List.ne_and_not_mem_of_not_mem_cons hoctets
      have hstep := mimeNextOctet_reads h (not_accepts_of_ne hc.symm)
      rw [hstate, scanBody] at hstep
      by_cases hhyphen : c = ch '-'
      · rw [if_pos hhyphen] at hstep
        have hline := mimeFeed_dash2 octets hstep.inMultipart hstep.state hrest
        rw [leadsOn, decide_eq_true hhyphen, Bool.true_and]
        exact hstep.readsLine h.thrown rfl hline
      · rw [if_neg hhyphen] at hstep
        rw [leadsOn, decide_eq_false hhyphen, Bool.false_and]
        exact (hstep.bdy h.thrown hrest).readsLine nofun

theorem mimeFeed_lead (octets : List Octet) (h : m.InMultipart)
    (hstate : m.sourceState = .hdrBdy ∨ m.sourceState = .bdyLF) (hoctets : ASCII_LF ∉ octets) :
    m.ReadsLine octets (leadsOn .bdyLF octets) (mimeFeed m (octets.map some)) := by
  cases octets with
  | nil =>
      refine (Mime.ReadsTo.refl h).readsLine ?_
      rcases hstate with hstate | hstate <;> rw [hstate] <;> nofun
  | cons c octets =>
      obtain ⟨hc, hrest⟩ := List.ne_and_not_mem_of_not_mem_cons hoctets
      have hstep := mimeNextOctet_reads h (not_accepts_of_ne hc.symm)
      by_cases hhyphen : c = ch '-'
      · have hscan : scanBody m.sourceState (m.source.octets ++ [c]) c =
            ⟨[], .dash1, m.source.octets ++ [c]⟩ := by
          rcases hstate with hstate | hstate <;> rw [hstate] <;> exact if_pos hhyphen
        rw [hscan] at hstep
        have hline := mimeFeed_dash1 octets hstep.inMultipart hstep.state hrest
        rw [leadsOn, decide_eq_true hhyphen, Bool.true_and]
        exact hstep.readsLine h.thrown rfl hline
      · have hscan : (scanBody m.sourceState (m.source.octets ++ [c]) c).state = .bdy := by
          rcases hstate with hstate | hstate <;>
            simp [hstate, scanBody, scanLine, hhyphen, hc.symm]
        have hreads := mimeFeed_bdy octets hstep.inMultipart (hstep.state.trans hscan) hrest
        rw [leadsOn, decide_eq_false hhyphen, Bool.false_and]
        exact (hstep.readsTo h.thrown hreads).readsLine nofun

theorem mimeFeed_line (line : BodyLine) (h : m.AtLine) :
    m.ReadsLine line.octets (m.sourceState ≠ .bdy && line.leadsIn)
      (mimeFeed m (line.octets.map some)) := by
  by_cases hbdy : m.sourceState = .bdy
  · rw [decide_eq_false (not_not.mpr hbdy), Bool.false_and]
    exact (mimeFeed_bdy line.octets h.inMultipart hbdy line.no_newline).readsLine nofun
  · have hstate : m.sourceState = .hdrBdy ∨ m.sourceState = .bdyLF := by
      rcases h.line with hline | hline | hline
      · exact .inl hline.1
      · exact .inr hline.1
      · exact absurd hline hbdy
    rw [decide_eq_true hbdy, Bool.true_and]
    exact mimeFeed_lead line.octets h.inMultipart hstate line.no_newline

/-! ### The end of a line -/

theorem mimeNextOctet_atLine (h : m.InMultipart) (hline : ¬ m.Accepts ASCII_LF) :
    (mimeNextOctet m ASCII_LF).AtLine := by
  have hstep := mimeNextOctet_reads h hline
  generalize hheld : m.source.octets ++ [ASCII_LF] = held at hstep
  have hscan : scanBody m.sourceState held ASCII_LF =
        ⟨(scanBody m.sourceState held ASCII_LF).given, .bdyLF, newlineOf held⟩ ∨
      (scanBody m.sourceState held ASCII_LF).state = .bdy := by
    have hhyphen : ¬ ASCII_LF = ch '-' := by decide
    have hleads : ¬ leadsBoundary ASCII_LF = true := by decide
    cases m.sourceState with
    | dash1 | dash2 | boundary => exact .inr (by simp [scanBody, hhyphen, hleads])
    | hdrStart | hdr | hdrValue | hdrLF | hdrBdy | bdy | bdyLF =>
        exact .inl (by simp [scanBody, scanLine, hhyphen])
  refine ⟨hstep.inMultipart, .inr ?_⟩
  rcases hscan with hscan | hscan
  · have hsource := hstep.source
    rw [hscan, unlessFull_newlineOf, newlineOf] at hsource
    refine .inl ⟨hstep.state.trans (congrArg Scanned.state hscan), ?_⟩
    rw [hsource]
    split
    · exact .inr rfl
    · exact .inl rfl
  · exact .inr (hstep.state.trans hscan)

theorem mimeFeed_fed (line : BodyLine) (h : m.AtLine) :
    mimeFeed m (line.fed.map some) = mimeNextOctet (mimeFeed m (line.octets.map some)) ASCII_LF :=
  mimeFeed_concat (mimeFeed_line line h).inMultipart.thrown ASCII_LF

theorem partNumber_iff (line : BodyLine) (h : m.AtLine) :
    (mimeFeed m (line.fed.map some)).partNumber = m.partNumber + 1 ↔
      (mimeFeed m (line.octets.map some)).Accepts ASCII_LF := by
  have hline := mimeFeed_line line h
  rw [mimeFeed_fed line h]
  by_cases haccepts : (mimeFeed m (line.octets.map some)).Accepts ASCII_LF
  · have hnumber := (mimeNextOctet_accepts hline.inMultipart haccepts).2
    rw [hline.partNumber] at hnumber
    exact iff_of_true hnumber haccepts
  · have hnumber := (mimeNextOctet_reads hline.inMultipart haccepts).partNumber
    rw [hline.partNumber] at hnumber
    refine iff_of_false (fun heq => ?_) haccepts
    rw [hnumber] at heq
    exact absurd heq (by simp)

theorem accepts_iff (line : BodyLine) (h : m.AtLine) :
    (mimeFeed m (line.octets.map some)).Accepts ASCII_LF ↔
      m.sourceState ≠ .bdy ∧ line.leadsIn ∧
        isBoundaryLine m.encoding (bufferLine m.source.octets line.octets ++ [ASCII_LF]) := by
  obtain ⟨-, hencoding, -, hstate, hsource⟩ := mimeFeed_line line h
  unfold Mime.Accepts
  rw [hstate, Bool.and_eq_true, decide_eq_true_eq, and_assoc, hencoding]
  constructor
  · rintro ⟨hbdy, hleads, -, hboundary⟩
    rw [hsource (by rw [decide_eq_true hbdy, hleads]; rfl)] at hboundary
    exact ⟨hbdy, hleads, hboundary⟩
  · rintro ⟨hbdy, hleads, hboundary⟩
    rw [hsource (by rw [decide_eq_true hbdy, hleads]; rfl)]
    exact ⟨hbdy, hleads, rfl, hboundary⟩

/-! ### Lines that are misread -/

/-- Does the line hold a NUL, or a CR other than at its end? -/
def BodyLine.stray (line : BodyLine) : Bool :=
  0 ∈ line.octets || ASCII_CR ∈ line.octets.dropLast

/-- Is the line a boundary by the rules of `mimeStateBoundary`? -/
def BodyLine.taken (line : BodyLine) : Bool :=
  !allHyphen (line.octets.drop 2) && (line.octets.drop 2).all boundaryOctet

/-! ### Boundary characters -/

theorem isBoundaryChar_spec (hc : isBoundaryChar c) :
    c ≠ 0 ∧ c ≠ ASCII_CR ∧ isspace c = false := by
  have hall : ∀ n : Fin 256, isBoundaryChar (UInt8.ofNat n) →
      UInt8.ofNat n ≠ 0 ∧ UInt8.ofNat n ≠ ASCII_CR ∧ isspace (UInt8.ofNat n) = false := by
    decide +kernel
  have hof := hall ⟨c.toNat, c.toNat_lt⟩
  rw [UInt8.ofNat_toNat] at hof
  exact hof hc

theorem leadsBoundary_of_isBoundaryChar (hc : isBoundaryChar c) : leadsBoundary c := by
  have hspace := (isBoundaryChar_spec hc).2.2
  rw [leadsBoundary, hspace, Bool.not_false, Bool.true_and, mimeNoSpaceBoundary]
  rw [isBoundaryChar, Bool.or_eq_true] at hc
  rw [strchr, Bool.or_eq_true, Bool.or_eq_true]
  exact hc.imp_right .inl

theorem boundaryOctet_eq (hnul : c ≠ 0) (hcr : c ≠ ASCII_CR) (hlf : c ≠ ASCII_LF) :
    boundaryOctet c = isBoundaryChar c := by
  simp [boundaryOctet, mimeNoSpaceBoundary, isBoundaryChar, strchr, hnul, hcr, hlf]

theorem ruleChar_eq (hnul : c ≠ 0) (hcr : c ≠ ASCII_CR) (hlf : c ≠ ASCII_LF) :
    strchr [ch '-', ch '=', ASCII_CR, ASCII_LF] c = isRuleChar c := by
  simp [isRuleChar, strchr, hnul, hcr, hlf]

theorem all_eq_of_mem {octets : List Octet} {holds holds' : Octet → Bool}
    (h : ∀ c ∈ octets, holds c = holds' c) : octets.all holds = octets.all holds' := by
  rw [Bool.eq_iff_iff, List.all_eq_true, List.all_eq_true]
  exact forall₂_congr fun c hc => by rw [h c hc]

theorem isDelimiter_form {content : List Octet} (h : isDelimiter content) :
    ∃ c rest, content = ch '-' :: ch '-' :: c :: rest ∧ ∀ c' ∈ c :: rest, isBoundaryChar c' := by
  simp only [isDelimiter, Bool.and_eq_true, decide_eq_true_eq, List.all_eq_true] at h
  obtain ⟨⟨htake, hall⟩, hrule⟩ := h
  have hsplit := List.take_append_drop 2 content
  cases hdrop : content.drop 2 with
  | nil =>
      rw [hdrop] at hrule
      cases hrule
  | cons c rest =>
      rw [htake, hdrop] at hsplit
      exact ⟨c, rest, hsplit.symm, fun c' hmem => hall c' (hdrop ▸ hmem)⟩

theorem isBoundaryChar_of_mem {content : List Octet} (h : isDelimiter content) (hc : c ∈ content) :
    isBoundaryChar c := by
  have hhyphen : isBoundaryChar (ch '-') = true := by decide
  obtain ⟨first, rest, rfl, hall⟩ := isDelimiter_form h
  simp only [List.mem_cons] at hc
  rcases hc with rfl | rfl | hc
  · exact hhyphen
  · exact hhyphen
  · exact hall c (by simpa using hc)

namespace BodyLine

variable {line : BodyLine}

theorem content_cases (line : BodyLine) :
    (line.octets = line.content ++ [ASCII_CR]) ∨
      (line.octets = line.content ∧ line.octets.getLast? ≠ some ASCII_CR) := by
  unfold content
  split
  · rename_i hcr
    obtain ⟨before, hbefore⟩ := List.getLast?_eq_some_iff.mp hcr
    rw [hbefore, List.dropLast_concat]
    exact .inl rfl
  · rename_i hcr
    exact .inr ⟨rfl, hcr⟩

theorem leadsIn_of_isDelimiter (h : isDelimiter line.content) : line.leadsIn := by
  obtain ⟨c, rest, hcontent, hall⟩ := isDelimiter_form h
  have hleads := leadsBoundary_of_isBoundaryChar (hall c List.mem_cons_self)
  unfold leadsIn
  rcases line.content_cases with hline | ⟨hline, -⟩ <;> rw [hline, hcontent] <;>
    simp [leadsOn, hleads]

theorem not_isDelimiter_of_stray (h : line.stray) : isDelimiter line.content = false := by
  rw [stray, Bool.or_eq_true, decide_eq_true_eq, decide_eq_true_eq] at h
  refine Bool.eq_false_iff.mpr fun hdelimiter => ?_
  have hmem : 0 ∈ line.content ∨ ASCII_CR ∈ line.content := by
    rcases line.content_cases with hline | ⟨hline, -⟩
    · rw [hline, List.dropLast_concat] at h
      refine h.imp_left fun hnul => (List.mem_append.mp hnul).resolve_right ?_
      exact fun hcr => absurd (List.mem_singleton.mp hcr) (by decide)
    · rw [← hline]
      exact h.imp_right List.mem_of_mem_dropLast
  rcases hmem with hnul | hcr
  · exact (isBoundaryChar_spec (isBoundaryChar_of_mem hdelimiter hnul)).1 rfl
  · exact (isBoundaryChar_spec (isBoundaryChar_of_mem hdelimiter hcr)).2.1 rfl

theorem plain_of_not_stray (h : line.stray = false) :
    ∀ c ∈ line.content, c ≠ 0 ∧ c ≠ ASCII_CR ∧ c ≠ ASCII_LF := by
  rw [stray, Bool.or_eq_false_iff, decide_eq_false_iff_not, decide_eq_false_iff_not] at h
  obtain ⟨hnul, hcr⟩ := h
  intro c hc
  rcases line.content_cases with hline | ⟨hline, hlast⟩
  · have hmem : c ∈ line.octets := by
      rw [hline]
      exact List.mem_append_left _ hc
    rw [hline, List.dropLast_concat] at hcr
    exact ⟨fun heq => hnul (heq ▸ hmem), fun heq => hcr (heq ▸ hc),
      fun heq => line.no_newline (heq ▸ hmem)⟩
  · rw [← hline] at hc
    refine ⟨fun heq => hnul (heq ▸ hc), fun heq => ?_, fun heq => line.no_newline (heq ▸ hc)⟩
    rw [heq] at hc
    exact hcr (List.mem_dropLast_of_mem_of_ne_getLast? hc hlast.symm)

theorem leadsIn_form (h : line.leadsIn) :
    ∃ c rest, line.octets = ch '-' :: ch '-' :: c :: rest := by
  unfold leadsIn at h
  match hoctets : line.octets with
  | [] =>
      rw [hoctets] at h
      cases h
  | [c] =>
      rw [hoctets] at h
      simp [leadsOn] at h
  | [c, c'] =>
      rw [hoctets] at h
      simp [leadsOn] at h
  | c :: c' :: c'' :: rest =>
      rw [hoctets] at h
      simp only [leadsOn, Bool.and_eq_true, decide_eq_true_eq] at h
      obtain ⟨rfl, rfl, -⟩ := h
      exact ⟨c'', rest, rfl⟩

theorem content_form (h : line.leadsIn) :
    line.content.take 2 = [ch '-', ch '-'] ∧
      (line.octets.drop 2 = line.content.drop 2 ∨
        line.octets.drop 2 = line.content.drop 2 ++ [ASCII_CR]) := by
  obtain ⟨c, rest, hoctets⟩ := leadsIn_form h
  rcases line.content_cases with hline | ⟨hline, -⟩
  · rw [hoctets] at hline
    have hlength : 2 ≤ line.content.length := by
      have := congrArg List.length hline
      simp only [List.length_cons, List.length_append, List.length_nil] at this
      omega
    have htake : ([ch '-', ch '-'] : List Octet) = (line.content ++ [ASCII_CR]).take 2 := by
      rw [← hline]
      rfl
    rw [List.take_append_of_le_length hlength] at htake
    refine ⟨htake.symm, .inr ?_⟩
    rw [hoctets, hline, List.drop_append_of_le_length hlength]
  · rw [← hline, hoctets]
    exact ⟨rfl, .inl rfl⟩

theorem taken_eq_of_not_stray (h : line.stray = false) (hleads : line.leadsIn) :
    line.taken = isDelimiter line.content := by
  obtain ⟨htake, hdrop⟩ := content_form hleads
  have hplain : ∀ c ∈ line.content.drop 2, c ≠ 0 ∧ c ≠ ASCII_CR ∧ c ≠ ASCII_LF :=
    fun c hc => plain_of_not_stray h c (List.mem_of_mem_drop hc)
  have hrule : (line.octets.drop 2).all (strchr [ch '-', ch '=', ASCII_CR, ASCII_LF]) =
      (line.content.drop 2).all isRuleChar := by
    have hsame := all_eq_of_mem fun c hc =>
      ruleChar_eq (hplain c hc).1 (hplain c hc).2.1 (hplain c hc).2.2
    have hcr : strchr [ch '-', ch '=', ASCII_CR, ASCII_LF] ASCII_CR = true := by decide
    rcases hdrop with hdrop | hdrop <;> rw [hdrop]
    · exact hsame
    · simp [hsame, hcr]
  have hbound : (line.octets.drop 2).all boundaryOctet =
      (line.content.drop 2).all isBoundaryChar := by
    have hsame := all_eq_of_mem fun c hc =>
      boundaryOctet_eq (hplain c hc).1 (hplain c hc).2.1 (hplain c hc).2.2
    have hcr : boundaryOctet ASCII_CR = true := by decide
    rcases hdrop with hdrop | hdrop <;> rw [hdrop]
    · exact hsame
    · simp [hsame, hcr]
  rw [taken, isDelimiter, allHyphen, hrule, hbound, htake, decide_eq_true rfl, Bool.true_and,
    Bool.and_comm]

end BodyLine

/-- Does the line fit into the source buffer, with the newline before it? -/
def Mime.Fits (m : Mime) (line : BodyLine) : Prop :=
  m.source.octets.length + line.octets.length < MIME_BUFFER_SIZE - 1

/-- The line is misread: a delimiter that nothing is looked for in, since the line before it has used up
the newline; a line with a NUL or a CR in it that are taken for boundary characters; or a line that
does not fit into the source buffer, if what is left of it there is judged other than the line. -/
def Mime.Misreads (m : Mime) (line : BodyLine) : Prop :=
  (m.sourceState = .bdy ∧ isDelimiter line.content) ∨
    (m.sourceState ≠ .bdy ∧ line.leadsIn ∧
      ((m.Fits line ∧ line.stray ∧ line.taken) ∨
        (¬ m.Fits line ∧
          isBoundaryLine m.encoding (bufferLine m.source.octets line.octets ++ [ASCII_LF]) ≠
            isDelimiter line.content)))

instance (m : Mime) (line : BodyLine) : Decidable (m.Misreads line) := by
  unfold Mime.Misreads Mime.Fits
  infer_instance

theorem bufferLine_of_fits (octets : List Octet) : ∀ source : List Octet,
    source.length + octets.length < MIME_BUFFER_SIZE - 1 →
      bufferLine source octets = source ++ octets := by
  induction octets with
  | nil => exact fun source _ => (List.append_nil source).symm
  | cons c octets ih =>
      intro source hfits
      rw [List.length_cons] at hfits
      have hheld : (source ++ [c]).length < MIME_BUFFER_SIZE - 1 := by
        rw [List.length_append, List.length_singleton]
        omega
      have hrest := ih (source ++ [c]) (by rw [List.length_append, List.length_singleton]; omega)
      rw [List.append_assoc] at hrest
      rw [← List.singleton_append, ← hrest]
      change octets.foldl _ (unlessFull (source ++ [c])) = _
      rw [unlessFull_of_lt hheld]
      rfl

theorem isBoundaryLine_of_fits {line : BodyLine} (h : m.AtLine) (hbdy : m.sourceState ≠ .bdy)
    (hencoding : m.encoding ≠ .quotedPrintable) (hleads : line.leadsIn) :
    isBoundaryLine m.encoding (m.source.octets ++ line.octets ++ [ASCII_LF]) = line.taken := by
  obtain ⟨c, rest, hoctets⟩ := line.leadsIn_form hleads
  have hcr : strchr [ch '-', ch '=', ASCII_CR, ASCII_LF] (ch '-') = true ∧
      strchr [ch '-', ch '=', ASCII_CR, ASCII_LF] ASCII_LF = true := by decide
  have hbound : boundaryOctet (ch '-') = true ∧ boundaryOctet ASCII_LF = true := by decide
  rcases h.line with ⟨-, hsource⟩ | ⟨-, hsource | hsource⟩ | hline
  · simp [isBoundaryLine, BodyLine.taken, allHyphen, hsource, hoctets, hencoding, hcr, hbound]
  · simp [isBoundaryLine, BodyLine.taken, allHyphen, hsource, hoctets, hencoding, hcr, hbound]
  · simp [isBoundaryLine, BodyLine.taken, allHyphen, hsource, hoctets, hencoding, hcr, hbound]
  · exact absurd hline hbdy

theorem accepts_isDelimiter_iff (line : BodyLine) (h : m.AtLine)
    (hencoding : m.encoding ≠ .quotedPrintable) :
    ((mimeFeed m (line.octets.map some)).Accepts ASCII_LF ↔ isDelimiter line.content) ↔
      ¬ m.Misreads line := by
  rw [accepts_iff line h]
  unfold Mime.Misreads
  by_cases hbdy : m.sourceState = .bdy
  · simp [hbdy]
  by_cases hleads : line.leadsIn
  · by_cases hfits : m.Fits line
    · rw [bufferLine_of_fits _ _ hfits, isBoundaryLine_of_fits h hbdy hencoding hleads]
      cases hstray : line.stray with
      | false =>
          rw [line.taken_eq_of_not_stray hstray hleads]
          simp [hbdy, hleads, hfits]
      | true =>
          rw [line.not_isDelimiter_of_stray hstray]
          simp [hbdy, hleads, hfits]
    · simp [hbdy, hleads, hfits]
  · have hnone : isDelimiter line.content = false :=
      Bool.eq_false_iff.mpr fun hdelimiter => hleads (line.leadsIn_of_isDelimiter hdelimiter)
    simp [hleads, hnone]

/-! ### Bodies -/

theorem mimeFeed_fedLines_concat (m : Mime) (lines : List BodyLine) (line : BodyLine) :
    mimeFeed m ((fedLines (lines ++ [line])).map some) =
      mimeFeed (mimeFeed m ((fedLines lines).map some)) (line.fed.map some) := by
  rw [fedLines, List.flatMap_append, List.map_append, mimeFeed_append]
  exact congrArg (fun octets => mimeFeed _ (octets.map some)) (List.flatMap_singleton _ line)

theorem mimeFeed_atLine (lines : List BodyLine) (h : m.AtLine) :
    m.StaysInBody (fedLines lines) →
      (mimeFeed m ((fedLines lines).map some)).AtLine ∧
        (mimeFeed m ((fedLines lines).map some)).encoding = m.encoding := by
  induction lines using List.reverseRecOn with
  | nil => exact fun _ => ⟨h, rfl⟩
  | append_singleton lines line ih =>
      intro hstays
      have hfed : fedLines (lines ++ [line]) = fedLines lines ++ line.fed := by
        rw [fedLines, List.flatMap_append]
        exact congrArg (fedLines lines ++ ·) (List.flatMap_singleton _ line)
      have hbefore := ih fun before hbefore => hstays before (hbefore.trans ⟨line.fed, hfed.symm⟩)
      obtain ⟨hat, hencoding⟩ := hbefore
      have hline := mimeFeed_line line hat
      have hrefused : ¬ (mimeFeed (mimeFeed m ((fedLines lines).map some))
          (line.octets.map some)).Accepts ASCII_LF := by
        intro haccepts
        have hin := hstays _ List.prefix_rfl
        rw [mimeFeed_fedLines_concat, mimeFeed_fed line hat,
          (mimeNextOctet_accepts hline.inMultipart haccepts).1] at hin
        cases hin
      rw [mimeFeed_fedLines_concat, mimeFeed_fed line hat]
      exact ⟨mimeNextOctet_atLine hline.inMultipart hrefused,
        ((mimeNextOctet_reads hline.inMultipart hrefused).encoding.trans hline.encoding).trans
          hencoding⟩

/-- In a multipart body whose encoding is not quoted-printable, the part ends exactly at the lines that
have the form of a delimiter, if no line is misread where it stands, and only then. -/
theorem mimeFeed_boundariesExact_iff (m : Mime) (lines : List BodyLine) (h : m.AtLine)
    (hencoding : m.encoding ≠ .quotedPrintable) :
    BoundariesExact m lines ↔
      ∀ i (_ : i < lines.length), m.StaysInBody (fedLines (lines.take i)) →
        ¬ (mimeFeed m ((fedLines (lines.take i)).map some)).Misreads lines[i] := by
  refine forall₂_congr fun i _ => ?_
  refine imp_congr_right fun hstays => ?_
  obtain ⟨hat, hsame⟩ := mimeFeed_atLine (lines.take i) h hstays
  rw [List.map_append, mimeFeed_append, partNumber_iff lines[i] hat]
  exact accepts_isDelimiter_iff lines[i] hat (hsame ▸ hencoding)

theorem multipartStart_atLine : multipartStart.AtLine :=
  ⟨multipartStart_inMultipart, .inl (by decide)⟩

/-- A delimiter behind a line that begins like one. -/
theorem mimeFeed_boundariesExact_signature :
    BoundariesExact multipartStart
      [⟨ascii "-- \r", by decide⟩, ⟨ascii "--b=1\r", by decide⟩] :=
  (mimeFeed_boundariesExact_iff multipartStart
    [⟨ascii "-- \r", by decide⟩, ⟨ascii "--b=1\r", by decide⟩] multipartStart_atLine
    (by decide)).mpr (by decide)

/-- A delimiter behind a line of two hyphens is not seen. -/
theorem mimeFeed_not_boundariesExact :
    ¬ BoundariesExact multipartStart [⟨ascii "--", by decide⟩, ⟨ascii "--b", by decide⟩] := by
  unfold BoundariesExact
  decide

end Snert
