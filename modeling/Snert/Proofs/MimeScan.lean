/-
Module: Snert.Proofs.MimeScan
Purpose: The search for boundaries within a multipart body, as a scanner over octets. It has the states
  and the source buffer of the parser and nothing else of it, and says which octets are given to the
  decoder. The parser does what the scanner does, as long as no line is taken for a boundary.
Trusted boundary: none
Main exports: mimeNextOctet_accepts, Mime.StaysInBody, mimeFeed_inMultipart
-/
import Snert.Proofs.MimeBodySteps

namespace Snert

open CModel

/-! ### The scanner -/

/-- What comes of an octet: the octets given to the decoder, the next state, and what is left in the
source buffer. -/
structure Scanned where
  given : List Octet
  state : SourceState
  source : List Octet
deriving DecidableEq, Repr

/-- An octet of a line. A newline is kept back. -/
def scanLine (held : List Octet) (c : Octet) : Scanned :=
  if c = ASCII_LF then ⟨[], .bdyLF, newlineOf held⟩ else ⟨[c], .bdy, held⟩

/-- The scanner at an octet, where `held` is the source buffer with the octet at its end. -/
def scanBody (state : SourceState) (held : List Octet) (c : Octet) : Scanned :=
  match state with
  | .hdrBdy => if c = ch '-' then ⟨[], .dash1, held⟩ else scanLine held c
  | .bdyLF =>
      if c = ch '-' then ⟨[], .dash1, held⟩
      else if c = ASCII_LF then ⟨[ASCII_LF], .bdyLF, newlineOf held⟩
      else ⟨[ASCII_LF, c], .bdy, if c = ASCII_CR then [ASCII_CR] else []⟩
  | .dash1 => if c = ch '-' then ⟨[], .dash2, held⟩ else ⟨[ASCII_LF, ch '-', c], .bdy, held⟩
  | .dash2 =>
      if leadsBoundary c then ⟨[], .boundary, held⟩
      else ⟨[ASCII_LF, ch '-', ch '-', c], .bdy, held⟩
  | .boundary => if c = ASCII_LF then ⟨held, .bdy, held⟩ else ⟨[], .boundary, held⟩
  | _ => scanLine held c

theorem scanBody_isBody (state : SourceState) (held : List Octet) (c : Octet) :
    (scanBody state held c).state.isBody := by
  unfold scanBody scanLine
  cases state <;> dsimp only <;> (repeat' split) <;> rfl

/-! ### The parser in a multipart body -/

/-- The parser is within a multipart body. -/
structure Mime.InMultipart (m : Mime) : Prop where
  body : m.sourceState.isBody
  multipart : m.isMultipart
  thrown : m.thrown = none
  room : m.source.octets.length < MIME_BUFFER_SIZE - 1

/-- The octet ends a line that is taken for a boundary. -/
def Mime.Accepts (m : Mime) (c : Octet) : Prop :=
  m.sourceState = .boundary ∧ c = ASCII_LF ∧
    isBoundaryLine m.encoding (m.source.octets ++ [c])

instance (m : Mime) (c : Octet) : Decidable (m.Accepts c) := by
  unfold Mime.Accepts
  infer_instance

/-- The octet ends a line that was kept back. -/
def Mime.EndsHeld (m : Mime) (c : Octet) : Prop :=
  m.sourceState = .boundary ∧ c = ASCII_LF

instance (m : Mime) (c : Octet) : Decidable (m.EndsHeld c) := by
  unfold Mime.EndsHeld
  infer_instance

/-- The parser with the octet, as the state finds it. A line that was kept back makes the decoder drop
the CR that it has kept back itself. -/
def Mime.begin (m : Mime) (c : Octet) : Mime :=
  if m.EndsHeld c then (m.take c).dropCr else m.take c

variable {m : Mime} {c : Octet}

theorem begin_outer (m : Mime) (c : Octet) : (m.begin c).outer = (m.take c).outer := by
  unfold Mime.begin
  split
  · rfl
  · rfl

/-- A call of a state that does what the scanner does. -/
def Mime.Scans (m : Mime) (scanned : Scanned) (m' : Mime) : Prop :=
  m.BodyGives scanned.given scanned.state scanned.source m'

theorem mimeStateBdy_scans (hbody : m.sourceState.isBody) (hmultipart : m.isMultipart)
    (hstate : m.sourceState = .bdy) : m.Scans (scanLine m.source.octets c) (mimeStateBdy m c) := by
  unfold scanLine
  by_cases hc : c = ASCII_LF
  · rw [if_pos hc, hc]
    exact mimeStateBdy_newline hbody hmultipart
  · rw [if_neg hc]
    have hstep := mimeStateBdy_octet hbody hc
    rwa [hstate] at hstep

theorem mimeStateHdrBdy_scans (hmultipart : m.isMultipart) :
    m.Scans (scanBody .hdrBdy m.source.octets c) (mimeStateHdrBdy m c) := by
  unfold scanBody
  dsimp only
  by_cases hc : c = ch '-'
  · rw [if_pos hc, hc]
    exact mimeStateHdrBdy_hyphen hmultipart
  · have hset : m.Gives [] { m with sourceState := .bdy } := set_gives m m.source .bdy rfl
    have hstep := mimeStateBdy_scans (m := { m with sourceState := .bdy }) (c := c) rfl hmultipart
      rfl
    rw [if_neg hc, mimeStateHdrBdy_other hc]
    exact ⟨hset.trans hstep.gives, hstep.state, hstep.source⟩

theorem mimeStateBdyLF_scans (hbody : m.sourceState.isBody) (hmultipart : m.isMultipart) :
    m.Scans (scanBody .bdyLF m.source.octets c) (mimeStateBdyLF m c) := by
  unfold scanBody
  dsimp only
  by_cases hhyphen : c = ch '-'
  · rw [if_pos hhyphen, hhyphen]
    exact mimeStateBdyLF_hyphen hmultipart
  · rw [if_neg hhyphen]
    by_cases hc : c = ASCII_LF
    · rw [if_pos hc, hc]
      exact mimeStateBdyLF_newline hbody hmultipart
    · rw [if_neg hc]
      exact mimeStateBdyLF_octet hbody hc (fun hand => hhyphen hand.2)

theorem mimeStateDash1_scans (hbody : m.sourceState.isBody) :
    m.Scans (scanBody .dash1 m.source.octets c) (mimeStateDash1 m c) := by
  unfold scanBody
  dsimp only
  by_cases hc : c = ch '-'
  · rw [if_pos hc, hc]
    exact mimeStateDash1_hyphen m
  · rw [if_neg hc]
    exact mimeStateDash1_fails hbody hc

theorem mimeStateDash2_scans (hbody : m.sourceState.isBody) :
    m.Scans (scanBody .dash2 m.source.octets c) (mimeStateDash2 m c) := by
  unfold scanBody
  dsimp only
  by_cases hc : leadsBoundary c
  · rw [if_pos hc]
    exact mimeStateDash2_leads hc
  · rw [if_neg hc]
    exact mimeStateDash2_fails hbody (Bool.eq_false_iff.mpr hc)

theorem mimeStateBoundary_scans (hbody : m.sourceState = .boundary)
    (hroom : m.source.octets.length < MIME_BUFFER_SIZE)
    (hline : c = ASCII_LF → isBoundaryLine m.encoding m.source.octets = false) :
    (if c = ASCII_LF then m.dropCr else m).Scans (scanBody .boundary m.source.octets c)
      (mimeStateBoundary m c) := by
  unfold scanBody
  dsimp only
  by_cases hc : c = ASCII_LF
  · rw [if_pos hc, if_pos hc]
    have hfails := mimeStateBoundary_fails m (hline hc)
    rwa [← hc] at hfails
  · have hsame := set_gives m m.source m.sourceState (by rw [hbody]; rfl)
    rw [if_neg hc, if_neg hc, mimeStateBoundary_octet hc hroom]
    exact ⟨hsame, hbody, rfl⟩

theorem runBodyState_scans (h : m.InMultipart) (hline : ¬ m.Accepts c) :
    (m.begin c).Scans (scanBody m.sourceState (m.source.octets ++ [c]) c)
      ((m.take c).runBodyState c) := by
  have hbody : (m.take c).sourceState.isBody := h.body
  have hmultipart : (m.take c).isMultipart := h.multipart
  by_cases hboundary : m.sourceState = .boundary
  · have hrun : (m.take c).runBodyState c = mimeStateBoundary (m.take c) c := by
      have htaken : (m.take c).sourceState = .boundary := hboundary
      simp only [Mime.runBodyState, htaken]
    have hroom : (m.take c).source.octets.length < MIME_BUFFER_SIZE := by
      change (m.source.octets ++ [c]).length < MIME_BUFFER_SIZE
      rw [List.length_append]
      have := h.room
      exact Nat.add_lt_of_lt_sub this
    have hbegin : m.begin c = if c = ASCII_LF then (m.take c).dropCr else m.take c := by
      unfold Mime.begin Mime.EndsHeld
      simp only [hboundary, true_and]
    rw [hrun, hbegin, hboundary]
    exact mimeStateBoundary_scans hboundary hroom fun hc =>
      Bool.eq_false_iff.mpr fun htrue => hline ⟨hboundary, hc, htrue⟩
  · have hbegin : m.begin c = m.take c := if_neg fun hends => hboundary hends.1
    rw [hbegin]
    unfold Mime.runBodyState
    have hsame : (m.take c).sourceState = m.sourceState := rfl
    rw [hsame]
    cases hstate : m.sourceState with
    | hdrBdy => exact mimeStateHdrBdy_scans hmultipart
    | bdy => exact mimeStateBdy_scans hbody hmultipart hstate
    | bdyLF => exact mimeStateBdyLF_scans hbody hmultipart
    | dash1 => exact mimeStateDash1_scans hbody
    | dash2 => exact mimeStateDash2_scans hbody
    | boundary => exact absurd hstate hboundary
    | hdrStart | hdr | hdrValue | hdrLF =>
        have hin := h.body
        rw [hstate] at hin
        cases hin

theorem mimeNextOctet_scan (h : m.InMultipart) (hline : ¬ m.Accepts c) :
    let scanned := scanBody m.sourceState (m.source.octets ++ [c]) c
    (m.begin c).BodyGives scanned.given scanned.state (unlessFull scanned.source)
      (mimeNextOctet m c) := by
  have hthrown : (m.begin c).thrown = none := by
    have houter : (m.begin c).outer.thrown = (m.take c).outer.thrown := by rw [begin_outer]
    exact houter.trans h.thrown
  exact mimeNextOctet_bodyGives h.body (scanBody_isBody _ _ _) (runBodyState_scans h hline) hthrown

theorem unlessFull_length (source : List Octet) :
    (unlessFull source).length < MIME_BUFFER_SIZE - 1 := by
  unfold unlessFull
  split
  · exact Nat.zero_lt_succ _
  · rename_i hroom
    exact Nat.lt_of_not_le hroom

theorem mimeNextOctet_inMultipart (h : m.InMultipart) (hline : ¬ m.Accepts c) :
    (mimeNextOctet m c).InMultipart := by
  have hscan := mimeNextOctet_scan h hline
  have houter := hscan.gives.outer.trans (begin_outer m c)
  exact
    { body := by rw [hscan.state]; exact scanBody_isBody _ _ _
      multipart := by
        change (mimeNextOctet m c).outer.isMultipart
        rw [houter]
        exact h.multipart
      thrown := by
        change (mimeNextOctet m c).outer.thrown = none
        rw [houter]
        exact h.thrown
      room := by rw [hscan.source]; exact unlessFull_length _ }

/-- A line that is taken for a boundary ends the part. -/
theorem mimeNextOctet_accepts (h : m.InMultipart) (hline : m.Accepts c) :
    (mimeNextOctet m c).sourceState = .hdrStart ∧
      (mimeNextOctet m c).partNumber = m.partNumber + 1 := by
  obtain ⟨hstate, hc, haccepted⟩ := hline
  have hrun : (m.take c).runSourceState c = mimeBoundaryFound (m.take c).readSource := by
    have htaken : (m.take c).sourceState = .boundary := hstate
    rw [runSourceState_body (m := m.take c) c h.body]
    simp only [Mime.runBodyState, htaken]
    unfold mimeStateBoundary
    rw [if_pos (.inl hc)]
    exact if_pos haccepted
  have hfound := mimeBoundaryFound_found (m := (m.take c).readSource) hstate
  have hempty : ¬ MIME_BUFFER_SIZE - 1 ≤ (mimeBoundaryFound (m.take c).readSource).source.length := by
    change ¬ 1023 ≤ (mimeBoundaryFound (m.take c).readSource).source.octets.length
    rw [hfound.source]
    decide
  have hnext : mimeNextOctet m c = mimeBoundaryFound (m.take c).readSource := by
    unfold mimeNextOctet
    dsimp only
    rw [hrun, if_neg (by rw [hfound.thrown]; exact Option.not_isSome_iff_eq_none.mpr h.thrown),
      Mime.flushFull, if_neg hempty]
  rw [hnext]
  refine ⟨hfound.state, ?_⟩
  rw [mimeBoundaryFound_eq]
  obtain ⟨new, hd, -⟩ := endDecoding_decodes (m.take c).readSource
  generalize (m.take c).readSource.endDecoding = ended at hd
  have hnumber : ended.dropBoundary.partNumber = m.partNumber := hd.partNumber_eq
  unfold mimeBodyFinish
  split
  · exact congrArg (· + 1) hnumber
  · exact congrArg (· + 1) hnumber

/-! ### Runs -/

/-- The parser stays within the body: no line of the octets is taken for a boundary. -/
def Mime.StaysInBody (m : Mime) (octets : List Octet) : Prop :=
  ∀ before, before <+: octets → (mimeFeed m (before.map some)).sourceState.isBody

instance (m : Mime) (octets : List Octet) : Decidable (m.StaysInBody octets) :=
  decidable_of_iff
    (∀ before ∈ octets.inits, (mimeFeed m (before.map some)).sourceState.isBody)
    (forall_congr' fun before => imp_congr_left (List.mem_inits before octets))

theorem not_accepts_of_stays {c : Octet} {octets : List Octet} (hin : m.InMultipart)
    (hstays : m.StaysInBody (c :: octets)) :
    ¬ m.Accepts c ∧ (mimeNextOctet m c).StaysInBody octets := by
  constructor
  · intro haccepts
    have hnext := hstays [c] ⟨octets, rfl⟩
    have hfeed : mimeFeed m ([c].map some) = mimeNextOctet m c := mimeFeed_cons hin.thrown c []
    rw [hfeed, (mimeNextOctet_accepts hin haccepts).1] at hnext
    cases hnext
  · intro before hbefore
    have hnext := hstays (c :: before) (List.cons_prefix_cons.mpr ⟨rfl, hbefore⟩)
    rwa [mimeFeed_cons hin.thrown] at hnext

theorem mimeFeed_inMultipart (octets : List Octet) : ∀ {m : Mime}, m.InMultipart →
    m.StaysInBody octets → (mimeFeed m (octets.map some)).InMultipart := by
  induction octets with
  | nil => exact fun hin _ => hin
  | cons c octets ih =>
      intro m hin hstays
      obtain ⟨hline, hrest⟩ := not_accepts_of_stays hin hstays
      rw [mimeFeed_cons hin.thrown]
      exact ih (mimeNextOctet_inMultipart hin hline) hrest

/-- The parser at the start of a multipart body. -/
def multipartStart : Mime :=
  mimeFeed (mimeMsgStart (mimeCreate false)) ((ascii "Content-Type: multipart/\n\n").map some)

theorem multipartStart_inMultipart : multipartStart.InMultipart :=
  ⟨by decide, by decide, by decide, by decide⟩

end Snert
