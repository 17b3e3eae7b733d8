/-
Module: Snert.Proofs.MimeQuoted
Purpose: A quoted-printable body that is not multipart. A scanner over octets says what the decoder
  of mail/mime.c makes of them, and the decoder does what the scanner does, whatever it has kept
  back: a CR, and a first digit behind the octets of its buffer. The scanner reads every encoding of
  a string as that string. The body is decoded so unless it begins with a hyphen, before which the
  parser gives the decoder a newline.
Trusted boundary: none
Main exports: mimeFeed_quoted_iff
-/
import Snert.Lists.OctetBits
import Snert.Proofs.MimeBodySteps

namespace Snert

open CModel

/-! ### The scanner -/

/-- What the scanner has read of an encoded octet: nothing, the equals sign, or its first digit. -/
inductive QpState where
  | literal
  | equal
  | digit (first : Octet)
deriving DecidableEq, Repr

/-- One octet: the state behind it, and the octets decoded. -/
def qpStep : QpState → Octet → QpState × List Octet
  | .literal, c => if c = ch '=' then (.equal, []) else (.literal, [c])
  | .equal, c =>
      if c = ASCII_CR then (.equal, [])
      else if c = ASCII_LF then (.literal, [])
      else if isxdigit c then (.digit c, [])
      else (.literal, [ch '=', c])
  | .digit first, c =>
      if isxdigit c then (.literal, [UInt8.ofNat (qpHexDigit first * 16 + qpHexDigit c)])
      else (.literal, [ch '=', first, c])

/-- The octets one after the other. -/
def qpScan (state : QpState) : List Octet → QpState × List Octet
  | [] => (state, [])
  | c :: octets =>
      ((qpScan (qpStep state c).1 octets).1,
        (qpStep state c).2 ++ (qpScan (qpStep state c).1 octets).2)

theorem qpScan_append (state : QpState) (octets octets' : List Octet) :
    qpScan state (octets ++ octets') =
      ((qpScan (qpScan state octets).1 octets').1,
        (qpScan state octets).2 ++ (qpScan (qpScan state octets).1 octets').2) := by
  induction octets generalizing state with
  | nil => rfl
  | cons c octets ih =>
      rw [List.cons_append, qpScan, ih, qpScan, List.append_assoc]

/-! ### Encodings -/

/-- A piece of an encoding: an octet written with two digits, an octet that stands for itself, or a
soft line break. -/
inductive QpPiece where
  | coded (c high low : Octet) (hhigh : digitValue high = some (c.toNat / 16))
      (hlow : digitValue low = some (c.toNat % 16))
  | literal (c : Octet) (h : c ≠ ch '=')
  | softBreak (crlf : Bool)

/-- The piece in writing. -/
def QpPiece.text : QpPiece → List Octet
  | .coded _ high low _ _ => [ch '=', high, low]
  | .literal c _ => [c]
  | .softBreak crlf => if crlf then [ch '=', ASCII_CR, ASCII_LF] else [ch '=', ASCII_LF]

/-- The octets that are encoded. -/
def QpPiece.octets : QpPiece → List Octet
  | .coded c _ _ _ _ => [c]
  | .literal c _ => [c]
  | .softBreak _ => []

theorem isxdigit_of_digitValue {c : Octet} {d : Nat} (h : digitValue c = some d) (hd : d < 16) :
    isxdigit c = true ∧ c ≠ ASCII_CR ∧ c ≠ ASCII_LF ∧ qpHexDigit c = d := by
  have hall := Lists.forall_octet (P := fun c => (digitValue c).all (16 ≤ ·) = false →
    isxdigit c = true ∧ c ≠ ASCII_CR ∧ c ≠ ASCII_LF) (by decide +kernel) c
  have hlow : (digitValue c).all (16 ≤ ·) = false := by
    rw [h]
    simpa using hd
  obtain ⟨hdigit, hcr, hlf⟩ := hall hlow
  exact ⟨hdigit, hcr, hlf, by rw [qpHexDigit, h]; rfl⟩

theorem qpScan_piece (piece : QpPiece) : qpScan .literal piece.text = (.literal, piece.octets) := by
  cases piece with
  | coded c high low hhigh hlow =>
      have hlt := c.toNat_lt
      obtain ⟨hx, hcr, hlf, hvalue⟩ := isxdigit_of_digitValue hhigh (by omega)
      obtain ⟨hx', -, -, hvalue'⟩ := isxdigit_of_digitValue hlow (by omega)
      have hoctet : UInt8.ofNat (c.toNat / 16 * 16 + c.toNat % 16) = c := by
        rw [Nat.div_add_mod', UInt8.ofNat_toNat]
      simp only [QpPiece.text, QpPiece.octets, qpScan, qpStep, if_true, if_neg hcr, if_neg hlf,
        if_pos hx, if_pos hx', hvalue, hvalue', hoctet, List.nil_append, List.append_nil]
  | literal c hc =>
      simp only [QpPiece.text, QpPiece.octets, qpScan, qpStep, if_neg hc, List.append_nil]
  | softBreak crlf =>
      cases crlf with
      | true => rfl
      | false => rfl

theorem qpScan_encoding (pieces : List QpPiece) :
    qpScan .literal (pieces.flatMap QpPiece.text) = (.literal, pieces.flatMap QpPiece.octets) := by
  induction pieces with
  | nil => rfl
  | cons piece pieces ih =>
      rw [List.flatMap_cons, List.flatMap_cons, qpScan_append, qpScan_piece, ih]

/-! ### The decoder -/

/-- The decoder is in the state of the scanner. -/
def QpState.At (m : Mime) : QpState → Prop
  | .literal => m.decodeState = .qpLiteral ∨ m.decodeState = .qpSoftLine
  | .equal => m.decodeState = .qpEqual
  | .digit first => m.decodeState = .qpDecode ∧ m.decode.behind = first

/-- Within a body that is not multipart, the octets `given` have been decoded since the parser was
`start`; a CR among them may still be kept back. -/
structure Mime.Quoted (start m : Mime) (given : List Octet) (state : QpState) : Prop where
  body : m.sourceState.isBody
  single : m.isMultipart = false
  thrown : m.thrown = none
  state : state.At m
  decoded : decodedOctets m.log ++ heldCr m = decodedOctets start.log ++ given
  flushed : flushedOctets m.log ++ m.decode.octets ++ heldCr m =
    flushedOctets start.log ++ start.decode.octets ++ given

section

variable {start m m' : Mime} {given octets : List Octet} {state state' : QpState}
  {new : List MimeEvent}

theorem Mime.Quoted.quiet (h : start.Quoted m given state) (hquiet : m.Quiet new m')
    (hoctets : decodedOctets new ++ heldCr m' = heldCr m ++ octets) (hstate : state'.At m') :
    start.Quoted m' (given ++ octets) state' where
  body := hquiet.body
  single := hquiet.isMultipart_eq.trans h.single
  thrown := hquiet.thrown_eq.trans h.thrown
  state := hstate
  decoded := by
    rw [hquiet.log, decodedOctets_append, List.append_assoc, hoctets, ← List.append_assoc,
      h.decoded, List.append_assoc]
  flushed := by
    rw [hquiet.log, flushedOctets_append, List.append_assoc (flushedOctets m.log), hquiet.flushed,
      List.append_assoc, List.append_assoc, hoctets, ← List.append_assoc m.decode.octets,
      ← List.append_assoc, ← List.append_assoc, h.flushed, List.append_assoc]

theorem Mime.Quoted.flush (h : start.Quoted m given state) (hquiet : m.Quiet new m')
    (hdecoded : decodedOctets new = []) (hcr : m'.decodeStateCr = m.decodeStateCr)
    (hdecodeState : m'.decodeState = m.decodeState) (hdecode : m'.decode = m.decode) :
    start.Quoted m' given state := by
  have hheld : heldCr m' = heldCr m := by rw [heldCr, heldCr, hcr]
  have hstate : state.At m' := by
    have hat := h.state
    unfold QpState.At at hat ⊢
    rwa [hdecodeState, hdecode]
  have hnone : decodedOctets new ++ heldCr m' = heldCr m ++ [] := by
    rw [hdecoded, hheld, List.append_nil, List.nil_append]
  have hnext := h.quiet hquiet hnone hstate
  rwa [List.append_nil] at hnext

theorem mimeDecodeAdd_octets (octets : List Octet) : ∀ m : Mime, ∃ new,
    m.Decodes new (octets.foldl (fun m c => mimeDecodeAdd m (some c)) m) ∧
      m.Passes octets new (octets.foldl (fun m c => mimeDecodeAdd m (some c)) m) := by
  induction octets with
  | nil => exact fun m => ⟨[], .refl m, (List.append_nil _).symm, rfl⟩
  | cons c octets ih =>
      intro m
      obtain ⟨new, hfirst, -, ⟨hdecoded, hstate⟩, -⟩ := mimeDecodeAdd_decodes m (some c)
      obtain ⟨new', hrest, hdecoded', hstate'⟩ := ih (mimeDecodeAdd m (some c))
      refine ⟨new ++ new', hfirst.trans hrest, ?_, hstate'.trans hstate⟩
      rw [List.foldl_cons, decodedOctets_append, List.append_assoc, hdecoded', ← List.append_assoc,
        hdecoded, List.append_assoc]
      rfl

theorem Mime.Quoted.adds {m₁ : Mime} (h : start.Quoted m given state) (m₀ : Mime)
    (octets : List Octet) (hfrom : m.Decodes [] m₀)
    (hcr : m₀.decodeStateCr = m.decodeStateCr)
    (hto : (octets.foldl (fun m c => mimeDecodeAdd m (some c)) m₀).Decodes [] m₁)
    (hcr' : m₁.decodeStateCr =
      (octets.foldl (fun m c => mimeDecodeAdd m (some c)) m₀).decodeStateCr)
    (hstate : state'.At m₁) : start.Quoted m₁ (given ++ octets) state' := by
  obtain ⟨new, hd, hdecoded, -⟩ := mimeDecodeAdd_octets octets m₀
  refine h.quiet (.of_decodes ((hfrom.trans hd).trans hto) h.body) ?_ hstate
  have hheld : heldCr m₁ = heldCr (octets.foldl (fun m c => mimeDecodeAdd m (some c)) m₀) := by
    rw [heldCr, heldCr, hcr']
  have hheld₀ : heldCr m₀ = heldCr m := by rw [heldCr, heldCr, hcr]
  rw [List.append_nil, List.nil_append, hheld, hdecoded, hheld₀]

theorem runDecodeState_quoted (h : start.Quoted m given state) (c : Octet) :
    start.Quoted (m.runDecodeState (some c)) (given ++ (qpStep state c).2) (qpStep state c).1 := by
  have hat := h.state
  cases state with
  | literal =>
      have hrun : m.runDecodeState (some c) = mimeStateQpLiteral m (some c) := by
        unfold Mime.runDecodeState
        rcases hat with hstate | hstate
        · rw [hstate]
        · rw [hstate]
          rfl
      rw [hrun, mimeStateQpLiteral, qpStep]
      by_cases hequal : c = ch '='
      · rw [if_pos (congrArg some hequal), if_pos hequal]
        exact h.adds m [] (.refl m) rfl (.of_eq rfl rfl rfl rfl) rfl rfl
      · rw [if_neg (fun heq => hequal (Option.some.inj heq)), if_neg hequal]
        obtain ⟨new, hd, hpasses⟩ := mimeDecodeAdd_octets [c] m
        exact h.adds m [c] (.refl m) rfl (.refl _) rfl
          (hat.imp hpasses.decodeState.trans hpasses.decodeState.trans)
  | equal =>
      have hrun : m.runDecodeState (some c) = mimeStateQpEqual m (some c) := by
        unfold Mime.runDecodeState
        rw [show m.decodeState = .qpEqual from hat]
      rw [hrun, mimeStateQpEqual, qpStep]
      by_cases hcr : c = ASCII_CR
      · rw [if_pos (congrArg some hcr), if_pos hcr, List.append_nil]
        exact h
      · rw [if_neg (fun heq => hcr (Option.some.inj heq)), if_neg hcr]
        by_cases hlf : c = ASCII_LF
        · rw [if_pos (congrArg some hlf), if_pos hlf]
          exact h.adds m [] (.refl m) rfl (.of_eq rfl rfl rfl rfl) rfl (.inr rfl)
        · rw [if_neg (fun heq => hlf (Option.some.inj heq)), if_neg hlf]
          by_cases hdigit : isxdigit c = true
          · rw [if_pos (show isxdigitCh (some c) = true from hdigit), if_pos hdigit]
            exact h.adds m [] (.refl m) rfl (.of_eq rfl rfl rfl rfl) rfl ⟨rfl, rfl⟩
          · rw [if_neg (show ¬ isxdigitCh (some c) = true from hdigit), if_neg hdigit]
            obtain ⟨new, hd, hpasses⟩ :=
              mimeDecodeAdd_octets [ch '=', c] { m with decodeState := .qpLiteral }
            exact h.adds { m with decodeState := .qpLiteral } [ch '=', c]
              (.of_eq rfl rfl rfl rfl) rfl (.refl _) rfl (.inl hpasses.decodeState)
  | digit first =>
      have hrun : m.runDecodeState (some c) = mimeStateQpDecode m (some c) := by
        unfold Mime.runDecodeState
        rw [hat.1]
      rw [hrun, mimeStateQpDecode, qpStep, hat.2]
      by_cases hdigit : isxdigit c = true
      · rw [if_pos (show isxdigitCh (some c) = true from hdigit), if_pos hdigit]
        exact h.adds { m with decode := m.decode.use m.decode.length } [_]
          (.of_eq rfl rfl rfl rfl) rfl (.of_eq rfl rfl rfl rfl) rfl (.inl rfl)
      · rw [if_neg (show ¬ isxdigitCh (some c) = true from hdigit), if_neg hdigit]
        exact h.adds { m with decode := m.decode.use m.decode.length } [ch '=', first, c]
          (.of_eq rfl rfl rfl rfl) rfl (.of_eq rfl rfl rfl rfl) rfl (.inl rfl)

theorem mimeDecodeState_quoted (h : start.Quoted m given state) (c : Octet) :
    start.Quoted (mimeDecodeState m (some c)) (given ++ (qpStep state c).2) (qpStep state c).1 := by
  have hnoted : m.Quiet [.sourceOctet (some c)] (m.note (.sourceOctet (some c))) :=
    .of_decodes ⟨rfl, rfl, by simp [MimeEvent.isDecoding], rfl, fun _ => (List.append_nil _).symm⟩
      h.body
  exact runDecodeState_quoted (h.flush hnoted rfl rfl rfl rfl) c

theorem mimeDecodeAll_quoted (octets : List Octet) : ∀ {m : Mime} {given : List Octet}
    {state : QpState}, start.Quoted m given state →
    start.Quoted (mimeDecodeAll m octets) (given ++ (qpScan state octets).2)
      (qpScan state octets).1 := by
  induction octets with
  | nil =>
      intro m given state h
      rw [qpScan, List.append_nil]
      exact h
  | cons c octets ih =>
      intro m given state h
      have hrest := ih (mimeDecodeState_quoted h c)
      rw [List.append_assoc] at hrest
      exact hrest

/-! ### The parser -/

theorem take_quoted (h : start.Quoted m given state) (c : Octet) :
    start.Quoted (m.take c) given state :=
  { h with
    decoded := (congrArg (· ++ heldCr m) (take_octets m c).2.1).trans h.decoded
    flushed :=
      (congrArg (· ++ m.decode.octets ++ heldCr m) (take_octets m c).2.2).trans h.flushed }

theorem mimeStateBdy_quoted (h : start.Quoted m given state) (c : Octet) :
    start.Quoted (mimeStateBdy m c) (given ++ (qpStep state c).2) (qpStep state c).1 ∧
      (mimeStateBdy m c).sourceState = m.sourceState := by
  unfold mimeStateBdy
  by_cases hc : c = ASCII_LF
  · obtain ⟨new, hquiet, hdecoded, -⟩ := flushLine_quiet h.body
    have hsame := flushLine_eq m
    have hline : start.Quoted m.flushLine given state := h.flush hquiet hdecoded
      (by rw [hsame]) (by rw [hsame]) (by rw [hsame])
    obtain ⟨new', hd, -⟩ := mimeDecodeState_decodes m.flushLine (some c)
    rw [if_pos hc]
    dsimp only
    rw [if_neg (by rw [hline.single]; exact Bool.false_ne_true), ← hc]
    exact ⟨mimeDecodeState_quoted hline c, hd.sourceState_eq.trans (by rw [hsame])⟩
  · obtain ⟨new, hd, -⟩ := mimeDecodeState_decodes m (some c)
    rw [if_neg hc]
    exact ⟨mimeDecodeState_quoted h c, hd.sourceState_eq⟩

theorem mimeStateHdrBdy_quoted (h : start.Quoted m given state) :
    start.Quoted (mimeStateHdrBdy m (ch '-')) (given ++ (qpScan state [ASCII_LF, ch '-']).2)
      (qpScan state [ASCII_LF, ch '-']).1 := by
  have hset : start.Quoted { m with sourceState := .bdy } given state :=
    h.flush (.set m.source rfl) rfl rfl rfl rfl
  obtain ⟨new, hquiet, hdecoded, -⟩ := flushBegun_quiet (ch '-') hset.body
  have hsame := flushBegun_eq { m with sourceState := .bdy } (ch '-')
  have hbegun : start.Quoted ({ m with sourceState := .bdy }.flushBegun (ch '-')) given state :=
    hset.flush hquiet hdecoded (by rw [hsame]) (by rw [hsame]) (by rw [hsame])
  have hgiven := mimeDecodeAll_quoted [ASCII_LF, ch '-'] hbegun
  have hsingle : ¬ m.isMultipart = true := by rw [h.single]; exact Bool.false_ne_true
  unfold mimeStateHdrBdy mimeStateBdyLF
  dsimp only
  rw [if_pos rfl, if_neg (fun hc => hsingle hc.1), if_neg (by decide)]
  exact hgiven.flush (.set _ rfl) rfl rfl rfl rfl

theorem mimeNextOctet_quoted_of {c : Octet} (hbody : m.sourceState.isBody)
    (h : start.Quoted ((m.take c).runBodyState c) given state) :
    start.Quoted (mimeNextOctet m c) given state ∧
      (mimeNextOctet m c).sourceState = ((m.take c).runBodyState c).sourceState := by
  have hrun := runSourceState_body (m := m.take c) c hbody
  unfold mimeNextOctet
  dsimp only
  rw [hrun, if_neg (by rw [h.thrown]; exact Bool.false_ne_true), Mime.flushFull]
  split
  · obtain ⟨new, hquiet, hdecoded, -⟩ := mimeSourceFlush_quiet h.body
    have hsame := mimeSourceFlush_eq ((m.take c).runBodyState c)
    refine ⟨h.flush hquiet hdecoded ?_ ?_ ?_, ?_⟩
    · rw [hsame]
    · rw [hsame]
    · rw [hsame]
    · rw [hsame]
  · exact ⟨h, rfl⟩

theorem mimeNextOctet_quoted (h : start.Quoted m given state) (hbdy : m.sourceState = .bdy)
    (c : Octet) :
    start.Quoted (mimeNextOctet m c) (given ++ (qpStep state c).2) (qpStep state c).1 ∧
      (mimeNextOctet m c).sourceState = .bdy := by
  obtain ⟨hstep, hstate⟩ := mimeStateBdy_quoted (take_quoted h c) c
  have hrun : (m.take c).runBodyState c = mimeStateBdy (m.take c) c := by
    simp only [Mime.runBodyState, show (m.take c).sourceState = .bdy from hbdy]
  rw [← hrun] at hstep hstate
  obtain ⟨hnext, hsource⟩ := mimeNextOctet_quoted_of h.body hstep
  exact ⟨hnext, hsource.trans (hstate.trans hbdy)⟩

theorem mimeFeed_quoted (octets : List Octet) : ∀ {m : Mime} {given : List Octet} {state : QpState},
    start.Quoted m given state → m.sourceState = .bdy →
    start.Quoted (mimeFeed m (octets.map some)) (given ++ (qpScan state octets).2)
      (qpScan state octets).1 := by
  induction octets with
  | nil =>
      intro m given state h _
      rw [qpScan, List.append_nil]
      exact h
  | cons c octets ih =>
      intro m given state h hbdy
      obtain ⟨hnext, hstate⟩ := mimeNextOctet_quoted h hbdy c
      have hrest := ih hnext hstate
      rw [List.append_assoc] at hrest
      rw [mimeFeed_cons h.thrown]
      exact hrest

/-- The octets given to the decoder by a parser that has come to a body. -/
def Mime.givenOf (m : Mime) (octets : List Octet) : List Octet :=
  if m.sourceState = .hdrBdy ∧ octets.head? = some (ch '-') then ASCII_LF :: octets else octets

theorem mimeNextOctet_quoted_first (h : start.Quoted m given state)
    (hfirst : m.sourceState = .hdrBdy) (c : Octet) :
    start.Quoted (mimeNextOctet m c) (given ++ (qpScan state (m.givenOf [c])).2)
        (qpScan state (m.givenOf [c])).1 ∧
      (mimeNextOctet m c).sourceState = .bdy := by
  have htaken := take_quoted h c
  have hrun : (m.take c).runBodyState c = mimeStateHdrBdy (m.take c) c := by
    simp only [Mime.runBodyState, show (m.take c).sourceState = .hdrBdy from hfirst]
  by_cases hc : c = ch '-'
  · have hgiven : m.givenOf [c] = [ASCII_LF, ch '-'] := by
      rw [Mime.givenOf, if_pos ⟨hfirst, congrArg some hc⟩, hc]
    have hstep := mimeStateHdrBdy_quoted htaken
    have hstate : (mimeStateHdrBdy (m.take c) (ch '-')).sourceState = .bdy :=
      (mimeStateHdrBdy_hyphen_single (m := m.take c) htaken.single).state
    rw [← hc, ← hrun] at hstep hstate
    obtain ⟨hnext, hsource⟩ := mimeNextOctet_quoted_of h.body hstep
    rw [hgiven, ← hc]
    exact ⟨hnext, hsource.trans hstate⟩
  · have hgiven : m.givenOf [c] = [c] := if_neg fun h => hc (Option.some.inj h.2)
    have hset : start.Quoted { m.take c with sourceState := .bdy } given state :=
      htaken.flush (.set (m.take c).source rfl) rfl rfl rfl rfl
    obtain ⟨hstep, hstate⟩ := mimeStateBdy_quoted hset c
    rw [← mimeStateHdrBdy_other hc, ← hrun] at hstep hstate
    obtain ⟨hnext, hsource⟩ := mimeNextOctet_quoted_of h.body hstep
    rw [hgiven, qpScan, qpScan, List.append_nil]
    exact ⟨hnext, hsource.trans hstate⟩

theorem mimeFeed_quoted_body (h : start.Quoted m given state)
    (hbody : m.sourceState = .bdy ∨ m.sourceState = .hdrBdy) (octets : List Octet) :
    start.Quoted (mimeFeed m (octets.map some)) (given ++ (qpScan state (m.givenOf octets)).2)
      (qpScan state (m.givenOf octets)).1 := by
  rcases hbody with hbdy | hfirst
  · have hgiven : m.givenOf octets = octets :=
      if_neg fun hc => SourceState.noConfusion (hbdy.symm.trans hc.1)
    rw [hgiven]
    exact mimeFeed_quoted octets h hbdy
  · cases octets with
    | nil =>
        have hgiven : m.givenOf [] = [] := if_neg fun h => nomatch h.2
        rw [hgiven, qpScan, List.append_nil]
        exact h
    | cons c octets =>
        have hgiven : m.givenOf (c :: octets) = m.givenOf [c] ++ octets := by
          by_cases hc : m.sourceState = .hdrBdy ∧ some c = some (ch '-')
          · have hone : m.givenOf [c] = [ASCII_LF, c] := if_pos hc
            rw [hone]
            exact if_pos hc
          · have hone : m.givenOf [c] = [c] := if_neg hc
            rw [hone]
            exact if_neg hc
        obtain ⟨hnext, hstate⟩ := mimeNextOctet_quoted_first h hfirst c
        have hrest := mimeFeed_quoted octets hnext hstate
        rw [List.append_assoc] at hrest
        rw [mimeFeed_cons h.thrown, hgiven, qpScan_append]
        exact hrest

theorem mimeNextEof_quoted (h : start.Quoted m given .literal) :
    decodedOctets (mimeNextEof m).log = decodedOctets start.log ++ given ∧
      flushedOctets (mimeNextEof m).log =
        flushedOctets start.log ++ start.decode.octets ++ given := by
  obtain ⟨-, hdecodedNoted, hflushedNoted⟩ := note_octets m (.next none) rfl
  have hnoted : start.Quoted (m.note (.next none)) given .literal :=
    { h with
      decoded := (congrArg (· ++ heldCr m) hdecodedNoted).trans h.decoded
      flushed := (congrArg (· ++ m.decode.octets ++ heldCr m) hflushedNoted).trans h.flushed }
  have hsource : (m.note (.next none)).Quiet [.sourceOctet none]
      ((m.note (.next none)).note (.sourceOctet none)) :=
    .of_decodes ⟨rfl, rfl, by simp [MimeEvent.isDecoding], rfl, fun _ => (List.append_nil _).symm⟩
      h.body
  have hgiven := hnoted.flush hsource rfl rfl rfl rfl
  obtain ⟨new, hd, -, ⟨hdecoded, hstate⟩, hheld⟩ :=
    mimeDecodeAdd_decodes ((m.note (.next none)).note (.sourceOctet none)) none
  have hrun : mimeDecodeState (m.note (.next none)) none =
      mimeDecodeAdd ((m.note (.next none)).note (.sourceOctet none)) none := by
    unfold mimeDecodeState Mime.runDecodeState
    rcases hgiven.state with hliteral | hliteral
    · rw [hliteral]
      rfl
    · rw [hliteral]
      rfl
  rw [← hrun] at hd hdecoded hstate hheld
  have hliteral : QpState.At (mimeDecodeState (m.note (.next none)) none) .literal :=
    hgiven.state.imp hstate.trans hstate.trans
  have hadded := hgiven.quiet (.of_decodes hd hgiven.body) hdecoded hliteral
  obtain ⟨new', hd', hnone, -⟩ :=
    mimeDecodeFlush_decodes (mimeDecodeState (m.note (.next none)) none)
  have hempty := mimeDecodeFlush_octets (mimeDecodeState (m.note (.next none)) none)
  have hnoCr : heldCr (mimeDecodeFlush (mimeDecodeState (m.note (.next none)) none)) = [] := by
    rw [heldCr, mimeDecodeFlush_decodeStateCr]
    exact hheld rfl
  have hend : QpState.At (mimeDecodeFlush (mimeDecodeState (m.note (.next none)) none)) .literal :=
    hliteral.imp (mimeDecodeFlush_decodeState _).trans (mimeDecodeFlush_decodeState _).trans
  have hnothing : decodedOctets new' ++
      heldCr (mimeDecodeFlush (mimeDecodeState (m.note (.next none)) none)) =
        heldCr (mimeDecodeState (m.note (.next none)) none) ++ [] := by
    rw [hnone, hnoCr, hheld rfl]
  have hflushed := hadded.quiet (.of_decodes hd' hadded.body) hnothing hend
  obtain ⟨-, hdecodedEnd, hflushedEnd⟩ :=
    endBody_octets (mimeDecodeFlush (mimeDecodeState (m.note (.next none)) none))
  have hdecodedAll := hflushed.decoded
  have hflushedAll := hflushed.flushed
  rw [hnoCr, Option.toList_none, List.append_nil, List.append_nil, List.append_nil] at hdecodedAll
  rw [hnoCr, hempty, Option.toList_none, List.append_nil, List.append_nil, List.append_nil,
    List.append_nil] at hflushedAll
  unfold mimeNextEof
  dsimp only
  rw [hdecodedEnd, hflushedEnd]
  exact ⟨hdecodedAll, hflushedAll⟩

end

/-! ### A body that is encoded -/

/-- The parser has come to a body, or is at the start of a line or within one, and its decoder is
    the one for quoted-printable, with nothing kept back. -/
structure Mime.AtQuotedBody (m : Mime) : Prop where
  state : m.sourceState = .bdy ∨ m.sourceState = .hdrBdy
  single : m.isMultipart = false
  decodeState : m.decodeState = .qpLiteral ∨ m.decodeState = .qpSoftLine
  noCr : m.decodeStateCr = false
  thrown : m.thrown = none

/-- The octets of an encoded body and `EOF` are given to the parser: the octets decoded, and those
    in the decode buffers flushed, are those that were encoded. -/
def Mime.DecodesQuoted (m : Mime) (pieces : List QpPiece) : Prop :=
  let ended := mimeFeed m ((pieces.flatMap QpPiece.text).map some ++ [none])
  decodedOctets ended.log = decodedOctets m.log ++ pieces.flatMap QpPiece.octets ∧
    flushedOctets ended.log =
      flushedOctets m.log ++ m.decode.octets ++ pieces.flatMap QpPiece.octets

instance (m : Mime) (pieces : List QpPiece) : Decidable (m.DecodesQuoted pieces) :=
  inferInstanceAs (Decidable (_ ∧ _))

/-- An encoded body is decoded exactly if it does not begin with a hyphen where the parser has just
come to it. -/
theorem mimeFeed_quoted_iff (m : Mime) (pieces : List QpPiece) (hbody : m.AtQuotedBody) :
    m.DecodesQuoted pieces ↔
      ¬ (m.sourceState = .hdrBdy ∧ (pieces.flatMap QpPiece.text).head? = some (ch '-')) := by
  have hnoCr : heldCr m = [] := by rw [heldCr, hbody.noCr]; rfl
  have hstart : m.Quoted m [] .literal :=
    { body := by rcases hbody.state with h | h <;> rw [h] <;> rfl
      single := hbody.single
      thrown := hbody.thrown
      state := hbody.decodeState
      decoded := by rw [hnoCr]
      flushed := by rw [hnoCr] }
  have hfed := mimeFeed_quoted_body hstart hbody.state (pieces.flatMap QpPiece.text)
  have hscanned := qpScan_encoding pieces
  rw [Mime.DecodesQuoted, mimeFeed_eof hfed.thrown]
  by_cases hhyphen : m.sourceState = .hdrBdy ∧
      (pieces.flatMap QpPiece.text).head? = some (ch '-')
  · have hgiven : m.givenOf (pieces.flatMap QpPiece.text) =
        ASCII_LF :: pieces.flatMap QpPiece.text := if_pos hhyphen
    have hliteral : qpStep .literal ASCII_LF = (.literal, [ASCII_LF]) := rfl
    rw [hgiven, qpScan, hliteral, hscanned] at hfed
    obtain ⟨hdecoded, -⟩ := mimeNextEof_quoted hfed
    refine iff_of_false (fun hsame => ?_) (not_not.mpr hhyphen)
    have hlength := congrArg List.length (hdecoded.symm.trans hsame.1)
    simp only [List.length_append, List.length_cons, List.length_nil] at hlength
    omega
  · have hgiven : m.givenOf (pieces.flatMap QpPiece.text) = pieces.flatMap QpPiece.text :=
      if_neg hhyphen
    rw [hgiven, hscanned] at hfed
    exact iff_of_true (mimeNextEof_quoted hfed) hhyphen

/-- A parser that was given the header of a quoted-printable body. -/
def quotedStart : Mime :=
  mimeFeed (mimeMsgStart (mimeCreate false))
    ((ascii "Content-Transfer-Encoding: quoted-printable\n\n").map some)

/-- An octet that is encoded, a soft line break and a newline, one digit in lower case. -/
def quotedLines : List QpPiece :=
  [.literal (ch 'a') (by decide), .coded 0xfc (ch 'F') (ch 'c') (by decide) (by decide),
    .literal ASCII_CR (by decide), .softBreak true, .literal ASCII_LF (by decide)]

theorem quotedStart_body : quotedStart.AtQuotedBody := by
  have hfields : (quotedStart.sourceState = .bdy ∨ quotedStart.sourceState = .hdrBdy) ∧
      quotedStart.isMultipart = false ∧
      (quotedStart.decodeState = .qpLiteral ∨ quotedStart.decodeState = .qpSoftLine) ∧
      quotedStart.decodeStateCr = false ∧ quotedStart.thrown = none := by
    decide +kernel
  obtain ⟨hstate, hsingle, hdecode, hcr, hthrown⟩ := hfields
  exact ⟨hstate, hsingle, hdecode, hcr, hthrown⟩

theorem mimeFeed_quoted_lines : quotedStart.DecodesQuoted quotedLines :=
  (mimeFeed_quoted_iff quotedStart quotedLines quotedStart_body).mpr (by decide +kernel)

/-- A body that begins with a hyphen gets a newline before it. -/
theorem mimeFeed_quoted_hyphen : ¬ ∀ (m : Mime) (pieces : List QpPiece), m.AtQuotedBody →
    m.DecodesQuoted pieces := by
  intro h
  have hdecodes := h quotedStart [.literal (ch '-') (by decide)] quotedStart_body
  revert hdecodes
  decide +kernel

end Snert
