/-
Module: Snert.Proofs.DkimHeaderRelaxed
Purpose: The relaxed canonicalisation of a header. The machine is followed along the parts of a
  header: each part leads from one state to another and puts some octets into the context. Two
  things are not as they should be: the first octet of a field name is put as it is, unless the
  field is the first one; and a fold before the first visible octet of a value puts a space.
Trusted boundary: none
Main exports: canonHeaderRelaxed_iff
-/
import Snert.Lists.OctetBits
import Snert.Proofs.DkimBodyRelaxed

namespace Snert

open CModel

/-! ### Headers, and the form that is meant -/

/-- A line of the value behind the first one. It begins with white space. -/
structure DkimFold where
  text : List Octet
  visible : ∀ c ∈ text, isPrintable c ∨ isWsp c
  folded : ∃ c ∈ text.head?, isWsp c

/-- A header field: the name, white space, the colon, the value up to the end of the line, and the
lines that belong to it too. -/
structure DkimField where
  name : List Octet
  pad : List Octet
  value : List Octet
  folds : List DkimFold
  nonempty : name ≠ []
  nameOctet : ∀ c ∈ name, isPrintable c ∧ c ≠ ch ':'
  padWsp : ∀ c ∈ pad, isWsp c
  visible : ∀ c ∈ value, isPrintable c ∨ isWsp c

namespace DkimField

/-- The field as it stands in the message. -/
def text (f : DkimField) : List Octet :=
  f.name ++ f.pad ++ [ch ':'] ++ f.value ++ crlf ++ f.folds.flatMap fun line => line.text ++ crlf

/-- The lines behind the first one, without the CRLFs between them. -/
def unfolded (f : DkimField) : List Octet :=
  f.folds.flatMap DkimFold.text

/-- The relaxed form of a field: the name in lower case, the colon, and the value without white
space at its start and at its end, where any other run of white space has been reduced to one
space. -/
def relaxed (f : DkimField) : List Octet :=
  f.name.map tolower ++ [ch ':'] ++ reduceWsp ((f.value ++ f.unfolded).dropWhile isWsp)

end DkimField

/-- The header as it stands in the message, without the empty line behind it. -/
def headerText (fields : List DkimField) : List Octet :=
  fields.flatMap DkimField.text

/-- The relaxed form of a header: the fields joined by CRLF. -/
def headerForm : List DkimField → List Octet
  | [] => []
  | f :: fields => f.relaxed ++ fields.flatMap fun f => crlf ++ f.relaxed

/-- A file: the header, and the empty line and the body if there are any. -/
def headerFile (fields : List DkimField) (body : Option (List Octet)) : List Octet :=
  headerText fields ++ body.elim [] fun body => crlf ++ body

/-- What is in the context when `canon_header_relaxed` has been given a file from the start. -/
def headerHash (ctxCrlf file : List Octet) : List Octet :=
  (dkimLoop canonHeaderRelaxed file (canonCreate file ctxCrlf [])).ctx

/-! ### From state to state -/

/-- From one state the text leads to another one, whatever follows it, and the octets are put into
the context. -/
def Leads (before : DkimState) (text : List Octet) (after : DkimState) (octets : List Octet) :
    Prop :=
  ∀ cs file, cs.state = before → ∃ next, next.state = after ∧ next.ctx = cs.ctx ++ octets ∧
    dkimLoop canonHeaderRelaxed (text ++ file) cs = dkimLoop canonHeaderRelaxed file next

theorem Leads.nil (state : DkimState) : Leads state [] state [] :=
  fun cs _ h => ⟨cs, h, (List.append_nil _).symm, rfl⟩

theorem Leads.trans {s t u : DkimState} {a b x y : List Octet} (ha : Leads s a t x)
    (hb : Leads t b u y) : Leads s (a ++ b) u (x ++ y) := by
  intro cs file hs
  obtain ⟨between, ht, hctx, hloop⟩ := ha cs (b ++ file) hs
  obtain ⟨next, hu, hnext, hrest⟩ := hb between file ht
  refine ⟨next, hu, ?_, ?_⟩
  · rw [hnext, hctx, List.append_assoc]
  · rw [List.append_assoc, hloop, hrest]

theorem Leads.octet {s t : DkimState} {c : Octet} {octets : List Octet} (herror : t ≠ .error)
    (hfinish : t ≠ .finish)
    (h : ∀ cs, cs.state = s → (canonHeaderRelaxed cs (some c)).state = t ∧
      (canonHeaderRelaxed cs (some c)).ctx = cs.ctx ++ octets) : Leads s [c] t octets := by
  intro cs file hs
  obtain ⟨hstate, hctx⟩ := h { cs with fp := file } hs
  refine ⟨_, hstate, hctx, ?_⟩
  rw [← hstate] at herror hfinish
  rw [List.singleton_append, dkimLoop, if_neg herror, if_neg hfinish]

theorem Leads.cons {s t u : DkimState} {c : Octet} {text x y : List Octet} (hc : Leads s [c] t x)
    (htext : Leads t text u y) : Leads s (c :: text) u (x ++ y) :=
  hc.trans htext

theorem Leads.strip {s : DkimState} {text : List Octet} (hwsp : ∀ c ∈ text, isWsp c)
    (h : ∀ c, isWsp c → Leads s [c] s []) : Leads s text s [] := by
  induction text with
  | nil => exact Leads.nil s
  | cons c text ih =>
      have hc := h c (hwsp c List.mem_cons_self)
      exact hc.cons (ih fun d hd => hwsp d (List.mem_cons_of_mem c hd))

/-! ### The octets -/

theorem isWsp_iff {c : Octet} : isWsp c ↔ c = ASCII_SPACE ∨ c = ASCII_TAB := by
  simp [isWsp]

theorem isWsp_not_printable {c : Octet} (h : isWsp c) : ¬ isPrintable c := by
  obtain rfl | rfl := isWsp_iff.mp h <;> decide

theorem isPrintable_not_wsp {c : Octet} (h : isPrintable c) : ¬ isWsp c := fun hwsp =>
  isWsp_not_printable hwsp h

theorem leads_start {c : Octet} (h : isPrintable c) (hcolon : c ≠ ch ':') :
    Leads .start [c] .hdr [tolower c] := by
  have hcr : c ≠ ASCII_CR := by
    rintro rfl
    exact absurd h (by decide)
  refine .octet (by decide) (by decide) fun cs hs => ?_
  simp [canonHeaderRelaxed, canonHeaderName, hs, h, hcolon, hcr, CanonState.goTo, CanonState.update]

theorem leads_next {c : Octet} (h : isPrintable c) : Leads .lf [c] .hdr (crlf ++ [c]) := by
  refine .octet (by decide) (by decide) fun cs hs => ?_
  simp [canonHeaderRelaxed, hs, h, CanonState.goTo, CanonState.update]

theorem leads_name {c : Octet} (h : isPrintable c) (hcolon : c ≠ ch ':') :
    Leads .hdr [c] .hdr [tolower c] := by
  refine .octet (by decide) (by decide) fun cs hs => ?_
  simp [canonHeaderRelaxed, canonHeaderName, hs, h, hcolon, CanonState.goTo, CanonState.update]

theorem leads_pad {s : DkimState} (hs : s = .hdr ∨ s = .hdrWsp) {c : Octet} (h : isWsp c) :
    Leads s [c] .hdrWsp [] := by
  have hcolon : c ≠ ch ':' := by
    rintro rfl
    exact absurd h (by decide)
  have hprint := isWsp_not_printable h
  refine .octet (by decide) (by decide) fun cs hcs => ?_
  obtain rfl | rfl := hs <;>
    simp [canonHeaderRelaxed, canonHeaderName, hcs, h, hcolon, hprint, CanonState.goTo]

theorem leads_colon {s : DkimState} (hs : s = .hdr ∨ s = .hdrWsp) :
    Leads s [ch ':'] .colon [ch ':'] := by
  refine .octet (by decide) (by decide) fun cs hcs => ?_
  obtain rfl | rfl := hs <;>
    simp [canonHeaderRelaxed, canonHeaderName, hcs, CanonState.goTo, CanonState.update]

theorem leads_behindColon {c : Octet} (h : isWsp c) : Leads .colon [c] .colon [] := by
  refine .octet (by decide) (by decide) fun cs hs => ?_
  simp [canonHeaderRelaxed, hs, h, isWsp_not_printable h, CanonState.goTo]

theorem leads_value {c : Octet} (h : isPrintable c) : Leads .colon [c] .text [c] := by
  refine .octet (by decide) (by decide) fun cs hs => ?_
  simp [canonHeaderRelaxed, hs, h, CanonState.goTo, CanonState.update]

theorem leads_wsp {s : DkimState} (hs : s = .text ∨ s = .wsp ∨ s = .lf) {c : Octet} (h : isWsp c) :
    Leads s [c] .wsp [] := by
  refine .octet (by decide) (by decide) fun cs hcs => ?_
  obtain rfl | rfl | rfl := hs <;>
    simp [canonHeaderRelaxed, hcs, h, isWsp_not_printable h, CanonState.goTo]

theorem leads_text {c : Octet} (h : isPrintable c) : Leads .text [c] .text [c] := by
  refine .octet (by decide) (by decide) fun cs hs => ?_
  simp [canonHeaderRelaxed, hs, h, CanonState.goTo, CanonState.update]

theorem leads_space {c : Octet} (h : isPrintable c) : Leads .wsp [c] .text [ASCII_SPACE, c] := by
  have hcr : c ≠ ASCII_CR := by
    rintro rfl
    exact absurd h (by decide)
  refine .octet (by decide) (by decide) fun cs hs => ?_
  simp [canonHeaderRelaxed, hs, isPrintable_not_wsp h, hcr, CanonState.goTo, CanonState.update]

theorem leads_crlf {s : DkimState} (hs : s = .colon ∨ s = .text ∨ s = .wsp) :
    Leads s crlf .lf [] := by
  have hcr : Leads s [ASCII_CR] .cr [] := by
    have hprint : ¬ isPrintable ASCII_CR := by decide
    have hwsp : ¬ isWsp ASCII_CR := by decide
    refine .octet (by decide) (by decide) fun cs hcs => ?_
    obtain rfl | rfl | rfl := hs <;>
      simp [canonHeaderRelaxed, hcs, hprint, hwsp, CanonState.goTo]
  have hlf : Leads .cr [ASCII_LF] .lf [] := by
    refine .octet (by decide) (by decide) fun cs hcs => ?_
    simp [canonHeaderRelaxed, hcs, CanonState.goTo]
  exact hcr.cons hlf

/-! ### The name -/

theorem leads_names {name : List Octet} (h : ∀ c ∈ name, isPrintable c ∧ c ≠ ch ':') :
    Leads .hdr name .hdr (name.map tolower) := by
  induction name with
  | nil => exact Leads.nil .hdr
  | cons c name ih =>
      obtain ⟨hc, hcolon⟩ := h c List.mem_cons_self
      exact (leads_name hc hcolon).cons (ih fun d hd => h d (List.mem_cons_of_mem c hd))

theorem leads_padColon {pad : List Octet} (h : ∀ c ∈ pad, isWsp c) :
    Leads .hdr (pad ++ [ch ':']) .colon [ch ':'] := by
  cases pad with
  | nil => exact leads_colon (.inl rfl)
  | cons c pad =>
      have hpad : Leads .hdrWsp pad .hdrWsp [] :=
        .strip (fun d hd => h d (List.mem_cons_of_mem c hd)) fun d hd => leads_pad (.inr rfl) hd
      have hc : Leads .hdr [c] .hdrWsp [] := leads_pad (.inl rfl) (h c List.mem_cons_self)
      exact hc.cons (hpad.trans (leads_colon (.inr rfl)))

/-- What the code puts for the name of a field, with what it puts before it. -/
def nameOctets (first : Bool) (name : List Octet) : List Octet :=
  if first then name.map tolower else crlf ++ name.take 1 ++ (name.drop 1).map tolower

/-- The state before a field. -/
def fieldState (first : Bool) : DkimState :=
  if first then .start else .lf

theorem leads_fieldName (first : Bool) {name : List Octet} (hne : name ≠ [])
    (h : ∀ c ∈ name, isPrintable c ∧ c ≠ ch ':') :
    Leads (fieldState first) name .hdr (nameOctets first name) := by
  obtain ⟨c, name, rfl⟩ := List.exists_cons_of_ne_nil hne
  obtain ⟨hc, hcolon⟩ := h c List.mem_cons_self
  have hname := leads_names fun d hd => h d (List.mem_cons_of_mem c hd)
  cases first with
  | true => exact (leads_start hc hcolon).cons hname
  | false => exact (leads_next hc).cons hname

/-! ### The value -/

/-- The white space that has been read but not been put. -/
def pending : DkimState → List Octet
  | .wsp => [ASCII_SPACE]
  | _ => []

/-- In a value the text leads from one state to another one, and puts what reducing the white space
of `unfolded` puts. -/
def Reduces (before : DkimState) (text unfolded : List Octet) (after : DkimState) : Prop :=
  ∃ octets, Leads before text after octets ∧
    ∀ rest, reduceWsp (pending before ++ unfolded ++ rest)
      = octets ++ reduceWsp (pending after ++ rest)

theorem Reduces.nil (state : DkimState) : Reduces state [] [] state :=
  ⟨[], Leads.nil state, fun _ => by rw [List.append_nil, List.nil_append]⟩

theorem Reduces.trans {s t u : DkimState} {a b c d : List Octet} (ha : Reduces s a c t)
    (hb : Reduces t b d u) : Reduces s (a ++ b) (c ++ d) u := by
  obtain ⟨x, hleads, hx⟩ := ha
  obtain ⟨y, hnext, hy⟩ := hb
  refine ⟨x ++ y, hleads.trans hnext, fun rest => ?_⟩
  have hsplit : pending s ++ (c ++ d) ++ rest = pending s ++ c ++ (d ++ rest) := by
    simp only [List.append_assoc]
  have hjoin : pending t ++ (d ++ rest) = pending t ++ d ++ rest := (List.append_assoc _ _ _).symm
  rw [hsplit, hx, hjoin, hy, List.append_assoc]

theorem reduces_octet {s : DkimState} (hs : s = .text ∨ s = .wsp) {c : Octet}
    (h : isPrintable c ∨ isWsp c) :
    Reduces s [c] [c] (if isWsp c then .wsp else .text) := by
  by_cases hwsp : isWsp c
  · rw [if_pos hwsp]
    refine ⟨[], leads_wsp (hs.imp_right .inl) hwsp, fun rest => ?_⟩
    obtain rfl | rfl := hs
    · exact reduceWsp_wsp hwsp rest
    · exact reduceWsp_run (by decide) hwsp rest
  · rw [if_neg hwsp]
    have hprint : isPrintable c := h.resolve_right hwsp
    have hcr : c ≠ ASCII_CR := by
      rintro rfl
      exact absurd hprint (by decide)
    obtain rfl | rfl := hs
    · exact ⟨[c], leads_text hprint, fun rest => reduceWsp_of_not hwsp rest⟩
    · refine ⟨[ASCII_SPACE, c], leads_space hprint, fun rest => ?_⟩
      have hspace := reduceWsp_space hwsp rest
      rwa [if_neg (fun h => hcr h.1)] at hspace

theorem reduces_line {s : DkimState} (hs : s = .text ∨ s = .wsp) {line : List Octet}
    (h : ∀ c ∈ line, isPrintable c ∨ isWsp c) :
    ∃ t, (t = .text ∨ t = .wsp) ∧ Reduces s line line t := by
  induction line generalizing s with
  | nil => exact ⟨s, hs, .nil s⟩
  | cons c line ih =>
      have hc := reduces_octet hs (h c List.mem_cons_self)
      have hnext : (if isWsp c then DkimState.wsp else .text) = .text ∨
          (if isWsp c then DkimState.wsp else .text) = .wsp := by
        split
        · exact .inr rfl
        · exact .inl rfl
      obtain ⟨t, ht, hline⟩ := ih hnext fun d hd => h d (List.mem_cons_of_mem c hd)
      exact ⟨t, ht, hc.trans hline⟩

theorem reduceWsp_pending {s : DkimState} : reduceWsp (pending s) = [] := by
  cases s with
  | wsp => exact reduceWsp_end (by decide)
  | _ => exact reduceWsp_nil

theorem leads_folds {s : DkimState} (hs : s = .text ∨ s = .wsp) (folds : List DkimFold) :
    Leads s (crlf ++ folds.flatMap fun line => line.text ++ crlf) .lf
      (reduceWsp (pending s ++ folds.flatMap DkimFold.text)) := by
  induction folds generalizing s with
  | nil =>
      have hend := leads_crlf (.inr hs)
      rwa [← reduceWsp_pending (s := s), ← List.append_nil (pending s)] at hend
  | cons line folds ih =>
      obtain ⟨c, hhead, hc⟩ := line.folded
      obtain ⟨text, htext⟩ := List.head?_eq_some_iff.mp hhead
      have hvisible := line.visible
      rw [htext] at hvisible
      obtain ⟨t, ht, octets, hline, hreduced⟩ :=
        reduces_line (.inr rfl) fun d hd => hvisible d (List.mem_cons_of_mem c hd)
      have hleads := ((leads_crlf (.inr hs)).trans (leads_wsp (.inr (.inr rfl)) hc)).trans
        (hline.trans (ih ht))
      have hwsp : reduceWsp (pending s ++ c :: (text ++ folds.flatMap DkimFold.text)) =
          reduceWsp (ASCII_SPACE :: (text ++ folds.flatMap DkimFold.text)) := by
        obtain rfl | rfl := hs
        · exact reduceWsp_wsp hc _
        · exact reduceWsp_run (by decide) hc _
      rw [← hreduced] at hleads
      have hpending : pending .wsp = [ASCII_SPACE] := rfl
      simpa [htext, hpending, hwsp] using hleads

/-- What the code puts for the value of a field. Where no octet of the first line is visible, the
white space that begins the next line is not left out. -/
def valueOctets (f : DkimField) : List Octet :=
  if ∃ c ∈ f.value, isPrintable c then reduceWsp ((f.value ++ f.unfolded).dropWhile isWsp)
  else reduceWsp f.unfolded

theorem leads_fieldValue (f : DkimField) :
    Leads .colon (f.value ++ crlf ++ f.folds.flatMap fun line => line.text ++ crlf) .lf
      (valueOctets f) := by
  have hstrip : ∀ text : List Octet, (∀ c ∈ text, isWsp c) → Leads .colon text .colon [] :=
    fun text h => .strip h fun c hc => leads_behindColon hc
  have hsplit := List.takeWhile_append_dropWhile (p := isWsp) (l := f.value)
  have htake : ∀ c ∈ f.value.takeWhile isWsp, isWsp c := fun c hc => List.mem_takeWhile_imp hc
  rw [valueOctets]
  cases hrest : f.value.dropWhile isWsp with
  | cons c text =>
      have hc : ¬ isWsp c := by
        have hne : f.value.dropWhile isWsp ≠ [] := by simp [hrest]
        have hhead := List.head_dropWhile_not isWsp hne
        simpa [hrest] using hhead
      rw [hrest] at hsplit
      have hmem : ∀ d ∈ c :: text, d ∈ f.value := fun d hd => by
        rw [← hsplit]
        exact List.mem_append_right _ hd
      have hprint : isPrintable c := (f.visible c (hmem c List.mem_cons_self)).resolve_right hc
      have hreduced : (f.value ++ f.unfolded).dropWhile isWsp = c :: (text ++ f.unfolded) := by
        rw [List.dropWhile_append, hrest]
        rfl
      obtain ⟨t, ht, octets, hline, hoctets⟩ :=
        reduces_line (.inl rfl) fun d hd => f.visible d (hmem d (List.mem_cons_of_mem c hd))
      have hleads := (hstrip _ htake).trans
        ((leads_value hprint).cons (hline.trans (leads_folds ht f.folds)))
      have hpending : pending .text = [] := rfl
      rw [if_pos ⟨c, hmem c List.mem_cons_self, hprint⟩, hreduced, reduceWsp_of_not hc]
      rw [← hoctets, hpending, List.nil_append, List.nil_append, List.singleton_append] at hleads
      rw [← hsplit]
      simpa [DkimField.unfolded] using hleads
  | nil =>
      rw [List.dropWhile_eq_nil_iff] at hrest
      have hnone : ¬ ∃ c ∈ f.value, isPrintable c := by
        rintro ⟨c, hc, hprint⟩
        exact isPrintable_not_wsp hprint (hrest c hc)
      rw [if_neg hnone, List.append_assoc]
      refine (hstrip f.value hrest).trans ?_
      rw [DkimField.unfolded]
      cases f.folds with
      | nil =>
          rw [List.flatMap_nil, List.flatMap_nil, reduceWsp_nil]
          exact leads_crlf (.inl rfl)
      | cons line folds =>
          obtain ⟨c, hhead, hc⟩ := line.folded
          obtain ⟨text, htext⟩ := List.head?_eq_some_iff.mp hhead
          have hvisible := line.visible
          rw [htext] at hvisible
          obtain ⟨t, ht, octets, hline, hoctets⟩ :=
            reduces_line (.inr rfl) fun d hd => hvisible d (List.mem_cons_of_mem c hd)
          have hleads := ((leads_crlf (.inl rfl)).trans (leads_wsp (.inr (.inr rfl)) hc)).trans
            (hline.trans (leads_folds ht folds))
          have hwsp := reduceWsp_wsp hc (text ++ folds.flatMap DkimFold.text)
          have hpending : pending .wsp = [ASCII_SPACE] := rfl
          rw [← hoctets] at hleads
          simpa [htext, hpending, hwsp] using hleads

/-! ### The header -/

/-- What the code puts for a field, with what it puts before it. -/
def fieldOctets (first : Bool) (f : DkimField) : List Octet :=
  nameOctets first f.name ++ [ch ':'] ++ valueOctets f

theorem leads_field (first : Bool) (f : DkimField) :
    Leads (fieldState first) f.text .lf (fieldOctets first f) := by
  have hname := leads_fieldName first f.nonempty f.nameOctet
  have hleads := (hname.trans (leads_padColon f.padWsp)).trans (leads_fieldValue f)
  simpa only [DkimField.text, fieldOctets, List.append_assoc] using hleads

theorem leads_fields (fields : List DkimField) :
    Leads .lf (headerText fields) .lf (fields.flatMap (fieldOctets false)) := by
  induction fields with
  | nil => exact Leads.nil .lf
  | cons f fields ih => exact (leads_field false f).trans ih

/-- What the code puts for a header. -/
def headerOctets : List DkimField → List Octet
  | [] => []
  | f :: fields => fieldOctets true f ++ fields.flatMap (fieldOctets false)

theorem dkimLoop_headerEnd {cs : CanonState} (hs : cs.state = .start ∨ cs.state = .lf)
    (body : Option (List Octet)) :
    (dkimLoop canonHeaderRelaxed (body.elim [] fun body => crlf ++ body) cs).state = .finish ∧
      (dkimLoop canonHeaderRelaxed (body.elim [] fun body => crlf ++ body) cs).ctx = cs.ctx := by
  have hprint : ¬ isPrintable ASCII_CR := by decide
  have hwsp : ¬ isWsp ASCII_CR := by decide
  cases body with
  | none => obtain hs | hs := hs <;> simp [dkimLoop, canonHeaderRelaxed, hs, CanonState.goTo]
  | some body =>
      obtain hs | hs := hs <;>
        simp [dkimLoop, canonHeaderRelaxed, crlf, hs, hprint, hwsp, CanonState.goTo]

theorem dkimLoop_header (cs : CanonState) (hs : cs.state = .start) (fields : List DkimField)
    (body : Option (List Octet)) :
    (dkimLoop canonHeaderRelaxed (headerFile fields body) cs).state = .finish ∧
      (dkimLoop canonHeaderRelaxed (headerFile fields body) cs).ctx
        = cs.ctx ++ headerOctets fields := by
  cases fields with
  | nil =>
      have hend := dkimLoop_headerEnd (.inl hs) body
      simpa [headerFile, headerText, headerOctets] using hend
  | cons f fields =>
      obtain ⟨next, hstate, hctx, hloop⟩ :=
        ((leads_field true f).trans (leads_fields fields)) cs
          (body.elim [] fun body => crlf ++ body) hs
      have hend := dkimLoop_headerEnd (.inr hstate) body
      rw [← hloop, hctx] at hend
      exact hend

/-! ### Where the header goes right -/

/-- No octet of the first line of the value is visible, but one of a later line is. -/
def DkimField.FoldedStart (f : DkimField) : Prop :=
  (¬ ∃ c ∈ f.value, isPrintable c) ∧ ∃ c ∈ f.unfolded, isPrintable c

/-- The name begins with a capital letter. -/
def DkimField.Capital (f : DkimField) : Prop :=
  ∃ c ∈ f.name.head?, ch 'A' ≤ c ∧ c ≤ ch 'Z'

/-- Where the canonicalisation goes right: the value of no field begins behind a fold, and no name
but the first one begins with a capital letter. -/
def HeaderFine (fields : List DkimField) : Prop :=
  (∀ f ∈ fields, ¬ f.FoldedStart) ∧ ∀ f ∈ fields.tail, ¬ f.Capital

theorem dropWhile_isWsp_eq_nil_iff {text : List Octet} (h : ∀ c ∈ text, isPrintable c ∨ isWsp c) :
    text.dropWhile isWsp = [] ↔ ¬ ∃ c ∈ text, isPrintable c := by
  rw [List.dropWhile_eq_nil_iff]
  constructor
  · rintro hwsp ⟨c, hc, hprint⟩
    exact isPrintable_not_wsp hprint (hwsp c hc)
  · intro hnone c hc
    exact (h c hc).resolve_left fun hprint => hnone ⟨c, hc, hprint⟩

theorem DkimField.unfolded_visible (f : DkimField) :
    ∀ c ∈ f.unfolded, isPrintable c ∨ isWsp c := by
  intro c hc
  obtain ⟨line, -, hline⟩ := List.mem_flatMap.mp hc
  exact line.visible c hline

theorem DkimField.unfolded_cases (f : DkimField) :
    f.unfolded = [] ∨ ∃ c text, f.unfolded = c :: text ∧ isWsp c := by
  rw [DkimField.unfolded]
  cases f.folds with
  | nil => exact .inl rfl
  | cons line folds =>
      obtain ⟨c, hhead, hc⟩ := line.folded
      obtain ⟨text, htext⟩ := List.head?_eq_some_iff.mp hhead
      exact .inr ⟨c, text ++ folds.flatMap DkimFold.text, by simp [htext], hc⟩

theorem reduceWsp_start {c : Octet} (hc : isWsp c) {text : List Octet}
    (h : ∀ d ∈ text, isPrintable d ∨ isWsp d) :
    reduceWsp (c :: text) = if text.dropWhile isWsp = [] then []
      else ASCII_SPACE :: reduceWsp (text.dropWhile isWsp) := by
  have hcrlf : ¬ crlf <+: text.dropWhile isWsp := by
    intro hbefore
    have hmem : ASCII_CR ∈ text :=
      (List.dropWhile_suffix isWsp).subset (hbefore.subset List.mem_cons_self)
    exact absurd (h _ hmem) (by decide)
  rw [reduceWsp, if_pos hc]
  by_cases hnil : text.dropWhile isWsp = []
  · rw [if_pos hnil]
    simp only [hnil, true_or, if_true, reduceWsp_nil]
  · rw [if_neg hnil]
    exact if_neg (fun h => h.elim hnil hcrlf)

theorem valueOctets_eq (f : DkimField) :
    (¬ f.FoldedStart ∧ valueOctets f = reduceWsp ((f.value ++ f.unfolded).dropWhile isWsp)) ∨
      (f.FoldedStart ∧
        valueOctets f = ASCII_SPACE :: reduceWsp ((f.value ++ f.unfolded).dropWhile isWsp)) := by
  rw [valueOctets]
  by_cases hvalue : ∃ c ∈ f.value, isPrintable c
  · exact .inl ⟨fun h => h.1 hvalue, if_pos hvalue⟩
  · have hdrop : (f.value ++ f.unfolded).dropWhile isWsp = f.unfolded.dropWhile isWsp := by
      rw [List.dropWhile_append, (dropWhile_isWsp_eq_nil_iff f.visible).mpr hvalue]
      rfl
    have hfolds := dropWhile_isWsp_eq_nil_iff f.unfolded_visible
    rw [if_neg hvalue, hdrop]
    obtain hnil | ⟨c, text, htext, hc⟩ := f.unfolded_cases
    · refine .inl ⟨?_, by rw [hnil, List.dropWhile_nil]⟩
      rintro ⟨-, d, hd, -⟩
      rw [hnil] at hd
      exact absurd hd List.not_mem_nil
    · have hvisible := f.unfolded_visible
      rw [htext] at hvisible
      have hstart := reduceWsp_start hc fun d hd => hvisible d (List.mem_cons_of_mem c hd)
      have hbehind : f.unfolded.dropWhile isWsp = text.dropWhile isWsp := by
        rw [htext, List.dropWhile_cons_of_pos hc]
      rw [hbehind] at hfolds
      rw [htext, List.dropWhile_cons_of_pos hc, hstart]
      by_cases hrest : text.dropWhile isWsp = []
      · refine .inl ⟨fun h => hfolds.mp hrest h.2, ?_⟩
        rw [if_pos hrest, hrest, reduceWsp_nil]
      · refine .inr ⟨⟨hvalue, not_not.mp fun h => hrest (hfolds.mpr h)⟩, ?_⟩
        rw [if_neg hrest]

theorem tolower_eq_self_iff (c : Octet) : tolower c = c ↔ ¬ (ch 'A' ≤ c ∧ c ≤ ch 'Z') :=
  Lists.forall_octet (P := fun c => tolower c = c ↔ ¬ (ch 'A' ≤ c ∧ c ≤ ch 'Z'))
    (by decide +kernel) c

/-- What should be put before a field. -/
def separator (first : Bool) : List Octet :=
  if first then [] else crlf

theorem nameOctets_length (first : Bool) {name : List Octet} (hne : name ≠ []) :
    (nameOctets first name).length = (separator first ++ name.map tolower).length := by
  obtain ⟨c, name, rfl⟩ := List.exists_cons_of_ne_nil hne
  cases first <;> simp [nameOctets, separator, crlf]

theorem nameOctets_eq_iff (first : Bool) (f : DkimField) :
    nameOctets first f.name = separator first ++ f.name.map tolower ↔ first ∨ ¬ f.Capital := by
  obtain ⟨c, name, hname⟩ := List.exists_cons_of_ne_nil f.nonempty
  have hcapital : f.Capital ↔ ch 'A' ≤ c ∧ c ≤ ch 'Z' := by
    simp [DkimField.Capital, hname]
  cases first with
  | true => simp [nameOctets, separator]
  | false =>
      have hlower := tolower_eq_self_iff c
      rw [hcapital, ← hlower]
      simp [nameOctets, separator, hname, eq_comm]

theorem fieldOctets_length (first : Bool) (f : DkimField) :
    (separator first ++ f.relaxed).length ≤ (fieldOctets first f).length := by
  have hname := nameOctets_length first f.nonempty
  have hvalue : (reduceWsp ((f.value ++ f.unfolded).dropWhile isWsp)).length
      ≤ (valueOctets f).length := by
    obtain ⟨-, hvalue⟩ | ⟨-, hvalue⟩ := valueOctets_eq f
    · rw [hvalue]
    · rw [hvalue, List.length_cons]
      exact Nat.le_succ _
  simp only [DkimField.relaxed, fieldOctets, List.length_append] at hname ⊢
  omega

theorem fieldOctets_eq_iff (first : Bool) (f : DkimField) :
    fieldOctets first f = separator first ++ f.relaxed ↔
      ¬ f.FoldedStart ∧ (first ∨ ¬ f.Capital) := by
  have hvalue : valueOctets f = reduceWsp ((f.value ++ f.unfolded).dropWhile isWsp) ↔
      ¬ f.FoldedStart := by
    obtain ⟨hfine, hvalue⟩ | ⟨hfolded, hvalue⟩ := valueOctets_eq f
    · exact iff_of_true hvalue hfine
    · rw [hvalue]
      exact iff_of_false (List.cons_ne_self _ _) (not_not_intro hfolded)
  have hparts : fieldOctets first f = separator first ++ f.relaxed ↔
      nameOctets first f.name = separator first ++ f.name.map tolower ∧
        valueOctets f = reduceWsp ((f.value ++ f.unfolded).dropWhile isWsp) := by
    rw [fieldOctets, DkimField.relaxed, List.append_assoc, List.append_assoc, ← List.append_assoc _
      (f.name.map tolower)]
    constructor
    · intro h
      obtain ⟨hname, hrest⟩ := List.append_inj h (nameOctets_length first f.nonempty)
      exact ⟨hname, List.append_cancel_left hrest⟩
    · rintro ⟨hname, hrest⟩
      rw [hname, hrest]
  rw [hparts, nameOctets_eq_iff, hvalue, and_comm]

theorem flatMap_eq_iff {α β : Type} {g h : α → List β} (hle : ∀ a, (h a).length ≤ (g a).length)
    (l : List α) : l.flatMap g = l.flatMap h ↔ ∀ a ∈ l, g a = h a := by
  have hlength : ∀ l : List α, (l.flatMap h).length ≤ (l.flatMap g).length := by
    intro l
    induction l with
    | nil => exact Nat.le_refl _
    | cons a l ih =>
        rw [List.flatMap_cons, List.flatMap_cons, List.length_append, List.length_append]
        exact Nat.add_le_add (hle a) ih
  induction l with
  | nil => simp
  | cons a l ih =>
      rw [List.flatMap_cons, List.flatMap_cons, List.forall_mem_cons]
      constructor
      · intro heq
        have htotal := congrArg List.length heq
        rw [List.length_append, List.length_append] at htotal
        have ha := hle a
        have hl := hlength l
        obtain ⟨hhead, htail⟩ := List.append_inj heq (by omega)
        exact ⟨hhead, ih.mp htail⟩
      · rintro ⟨ha, hl⟩
        rw [ha, ih.mpr hl]

/-- The fields of a header, with a mark on the first one. -/
def marked : List DkimField → List (Bool × DkimField)
  | [] => []
  | f :: fields => (true, f) :: fields.map fun f => (false, f)

theorem headerOctets_marked (fields : List DkimField) :
    headerOctets fields = (marked fields).flatMap fun f => fieldOctets f.1 f.2 := by
  cases fields <;> simp [headerOctets, marked, List.flatMap_map]

theorem headerForm_marked (fields : List DkimField) :
    headerForm fields = (marked fields).flatMap fun f => separator f.1 ++ f.2.relaxed := by
  cases fields <;> simp [headerForm, marked, separator, List.flatMap_map]

theorem headerFine_marked (fields : List DkimField) :
    HeaderFine fields ↔ ∀ f ∈ marked fields, ¬ f.2.FoldedStart ∧ (f.1 ∨ ¬ f.2.Capital) := by
  cases fields with
  | nil => exact iff_of_true ⟨nofun, nofun⟩ nofun
  | cons f fields => simp [HeaderFine, marked, forall_and, and_assoc]

/-- For a well-formed header, from the start of the file to its end or to the empty line,
`canon_header_relaxed` leaves the relaxed form if and only if the header goes right. -/
theorem canonHeaderRelaxed_iff (ctxCrlf : List Octet) (fields : List DkimField)
    (body : Option (List Octet)) :
    headerHash ctxCrlf (headerFile fields body) = headerForm fields ↔ HeaderFine fields := by
  have hleft : headerHash ctxCrlf (headerFile fields body) = headerOctets fields :=
    (dkimLoop_header _ rfl fields body).2
  rw [hleft, headerOctets_marked, headerForm_marked, headerFine_marked]
  exact (flatMap_eq_iff (fun f : Bool × DkimField => fieldOctets_length f.1 f.2) _).trans
    (forall₂_congr fun f _ => fieldOctets_eq_iff f.1 f.2)

/-- The fields `a:b` and `C:d`. -/
def capitalFields : List DkimField :=
  [⟨ascii "a", [], ascii "b", [], by decide, by decide, by decide,
      by decide⟩,
    ⟨ascii "C", [], ascii "d", [], by decide, by decide, by decide,
      by decide⟩]

/-- Of the second name in `a:b`, `C:d` the first octet should be put in lower case, but is not. -/
theorem canonHeaderRelaxed_capital :
    headerHash [] (headerFile capitalFields none) = ascii "a:b" ++ crlf ++ ascii "C:d" ∧
      headerHash [] (headerFile capitalFields none) ≠ headerForm capitalFields := by
  have hform : headerForm capitalFields = ascii "a:b" ++ crlf ++ ascii "c:d" := by
    have hb : reduceWsp ([ch 'b'].dropWhile isWsp) = [ch 'b'] := by
      have hdrop : [ch 'b'].dropWhile isWsp = [ch 'b'] := by decide
      rw [hdrop, reduceWsp_of_not (by decide), reduceWsp_nil]
    have hd : reduceWsp ([ch 'd'].dropWhile isWsp) = [ch 'd'] := by
      have hdrop : [ch 'd'].dropWhile isWsp = [ch 'd'] := by decide
      rw [hdrop, reduceWsp_of_not (by decide), reduceWsp_nil]
    have hparts : headerForm capitalFields =
        (ascii "a" ++ [ch ':'] ++ reduceWsp ([ch 'b'].dropWhile isWsp)) ++
          (crlf ++ (ascii "c" ++ [ch ':'] ++ reduceWsp ([ch 'd'].dropWhile isWsp)) ++ []) := rfl
    rw [hparts, hb, hd]
    decide
  rw [hform]
  decide

end Snert
