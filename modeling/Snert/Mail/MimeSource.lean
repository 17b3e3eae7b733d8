/-
Module: Snert.Mail.MimeSource
Purpose: The states of mail/mime.c that go through the source of a message, and the functions that an
  application calls. The rule for boundary characters is the one the library is built with,
  `mimeNoSpaceBoundary`. The guard for NULL and that for a value that is no octet are left out. A
  `LONGJMP` is remembered in `thrown`: it ends `mimeNextCh`, and with it the message.
Trusted boundary: human-reviewed spec
Main exports: isBoundaryLine, mimeStateBoundary, mimeStateBdy, mimeStateHdr
-/
import Snert.Mail.Mime

namespace Snert

open CModel

/-! ### Boundaries -/

/-- The octets `BCHARSNOSPACE`. -/
def BCHARSNOSPACE : List Octet := ascii "-=_'()+,./:?"

/-- `mimeNoSpaceBoundary (ch)`. -/
def mimeNoSpaceBoundary (c : Octet) : Bool :=
  isalnum c || strchr BCHARSNOSPACE c

/-- Does the loop of `mimeStateBoundary` go on past the octet? -/
def boundaryOctet (c : Octet) : Bool :=
  mimeNoSpaceBoundary c || strchr [ASCII_CR, ASCII_LF] c

/-- The flag `all_hyphen`, for octets that the loop goes past. -/
def allHyphen (octets : List Octet) : Bool :=
  octets.all (strchr [ch '-', ch '=', ASCII_CR, ASCII_LF])

/-- The flag `has_qp`: behind the octet `before`, a hexadecimal digit follows an equals sign. -/
def hasQp : Octet → List Octet → Bool
  | _, [] => false
  | before, c :: octets => (isxdigit c && before = ch '=') || hasQp c octets

/-- The test of `mimeStateBoundary` on the octets of the source buffer: the loop starts at the third
    of them and goes up to the end. The flags are those of a loop that does. -/
def isBoundaryLine (encoding : MimeEncoding) (octets : List Octet) : Bool :=
  let line := octets.drop 2
  !allHyphen line
    && (encoding ≠ .quotedPrintable || !hasQp (octets.getD 1 0) line)
    && 2 ≤ octets.length && line.all boundaryOctet

/-- What follows the end of a body for the next part. -/
def Mime.nextPart (m : Mime) : Mime :=
  { m with
    partNumber := m.partNumber + 1
    partLength := 0
    hasContentType := false
    isMessageRfc822 := false
    encoding := .none
    sourceState := .hdrStart }

/-- `mime_part_length -= n; mime_body_length -= n`. -/
def Mime.discount (m : Mime) (n : Nat) : Mime :=
  { m with
    partLength := m.partLength - n
    bodyLength := m.bodyLength - n
    underflow := m.underflow || m.partLength < n || m.bodyLength < n }

/-- A boundary was found. -/
def mimeBoundaryFound (m : Mime) : Mime :=
  -- Terminate decoding for this body part
  let m := mimeDecodeState { m with decodeStateCr := false, decodeState := .decodeAdd } none
  -- Discard the boundary without flushing.
  let m := m.discount m.source.length
  (mimeBodyFinish { m with source := m.source.clear }).nextPart

/-- Process octets of the source stream. -/
def mimeDecodeAll (m : Mime) (octets : List Octet) : Mime :=
  octets.foldl (fun m c => mimeDecodeState m (some c)) m

/-- The line is not a boundary. -/
def mimeBoundaryNotFound (m : Mime) (c : Octet) : Mime :=
  let m := { m with decodeStateCr := false, sourceState := .bdy, source := m.source.useAll }
  let m := mimeDecodeAll m m.source.octets
  if c ≠ ASCII_LF then mimeDecodeState m (some c) else m

/-- `mimeStateBoundary (m, ch)`. -/
def mimeStateBoundary (m : Mime) (c : Octet) : Mime :=
  if c = ASCII_LF ∨ MIME_BUFFER_SIZE ≤ m.source.length then
    let m := { m with source := m.source.useAll }
    if isBoundaryLine m.encoding m.source.octets then mimeBoundaryFound m
    else mimeBoundaryNotFound m c
  else m

/-! ### Bodies -/

/-- `mimeStateDash2 (m, ch)`. -/
def mimeStateDash2 (m : Mime) (c : Octet) : Mime :=
  if isspace c ∨ ¬ mimeNoSpaceBoundary c then
    -- Not a MIME boundary.
    { mimeDecodeAll m [ASCII_LF, ch '-', ch '-', c] with sourceState := .bdy }
  else { m with sourceState := .boundary }

/-- `mimeStateDash1 (m, ch)`. -/
def mimeStateDash1 (m : Mime) (c : Octet) : Mime :=
  if c = ch '-' then { m with sourceState := .dash2 }
  else { mimeDecodeAll m [ASCII_LF, ch '-', c] with sourceState := .bdy }

/-- Does the source buffer end in a CR? -/
def Mime.sourceCr (m : Mime) : Bool :=
  m.source.octets.getLast? = some ASCII_CR

/-- Flush up to a newline, and put the newline back. -/
def Mime.flushLine (m : Mime) : Mime :=
  -- Flush upto, but excluding the trailing CRLF or LF.
  let m := { m with source := m.source.shrink.useAll }
  if m.sourceCr then
    let m := mimeSourceFlush { m with source := m.source.shrink }
    { m with source := (m.source.append ASCII_CR).append ASCII_LF }
  else
    let m := mimeSourceFlush m
    { m with source := m.source.append ASCII_LF }

/-- `mimeStateBdy (m, ch)`. -/
def mimeStateBdy (m : Mime) (c : Octet) : Mime :=
  if c = ASCII_LF then
    let m := m.flushLine
    -- Look for MIME boundary line.
    if m.isMultipart then { m with sourceState := .bdyLF } else mimeDecodeState m (some ASCII_LF)
  else mimeDecodeState m (some c)

/-- Flush what does not belong to a newline that has begun. -/
def Mime.flushBegun (m : Mime) (c : Octet) : Mime :=
  if c = ASCII_CR then
    let m := mimeSourceFlush { m with source := m.source.shrink }
    { m with source := m.source.append ASCII_CR }
  else mimeSourceFlush m

/-- `mimeStateBdyLF (m, ch)`. -/
def mimeStateBdyLF (m : Mime) (c : Octet) : Mime :=
  if m.isMultipart ∧ c = ch '-' then { m with sourceState := .dash1 }
  else if c = ASCII_LF then mimeStateBdy (mimeDecodeState m (some ASCII_LF)) ASCII_LF
  else { mimeDecodeAll (m.flushBegun c) [ASCII_LF, c] with sourceState := .bdy }

/-- `mimeStateHdrBdy (m, ch)`. -/
def mimeStateHdrBdy (m : Mime) (c : Octet) : Mime :=
  let m := { m with sourceState := .bdy }
  if c = ch '-' then mimeStateBdyLF m c else mimeStateBdy m c

/-- `(*m->state.source_state) (m, ch)` within a body. The states of a header are for the loop of
    `mimeStateHdr` never there to be called: they come with an empty source buffer. -/
def Mime.runBodyState (m : Mime) (c : Octet) : Mime :=
  match m.sourceState with
  | .hdrBdy => mimeStateHdrBdy m c
  | .bdy => mimeStateBdy m c
  | .bdyLF => mimeStateBdyLF m c
  | .dash1 => mimeStateDash1 m c
  | .dash2 => mimeStateDash2 m c
  | .boundary => mimeStateBoundary m c
  | _ => m

/-! ### Headers -/

/-- `mimeStateEOH (m, ch)`. -/
def mimeStateEOH (m : Mime) : Mime :=
  -- End of headers.
  let m := mimeDecodeFlush (mimeSourceFlush m)
  let m := mimeHdrFinish { m with bodyLength := 0, bodyDecodedLength := 0 }
  let m := { mimeBodyStart m with sourceState := .hdrBdy }
  -- Behave as though there was an invisible MIME boundary.
  if m.isMessageRfc822 then (mimeBodyFinish m).nextPart else m

/-- Check the header for MIME behaviour. -/
def mimeCheckHeader (m : Mime) (header : List Octet) : Mime :=
  if textFind header (ascii "Content-Type:*multipart/*") then
    { m with isMultipart := true, hasContentType := true }
  else if textFind header (ascii "Content-Type:*message/rfc822") then
    { m with hasContentType := true, isMessageRfc822 := true }
  else if textFind header (ascii "Content-Type:*/*") then
    { m with
      hasContentType := true
      decodeState := if m.encoding = .none then .decodeAdd else m.decodeState }
  else if textFind header (ascii "Content-Transfer-Encoding:*quoted-printable*") then
    { m with decodeState := .qpLiteral, encoding := .quotedPrintable }
  else if textFind header (ascii "Content-Transfer-Encoding:*base64*") then
    { m with decodeState := .base64, encoding := .base64, b64 := b64Reset m.b64 }
  else m

/-- The end of a header line, at the octet behind it. -/
def mimeEndHeader (m : Mime) (c : Octet) : Mime :=
  let m := { m with sourceState := .hdr, source := m.source.shrink.setBehind 0 }
  let m := (mimeCheckHeader m m.source.octets).note (.header m.source.octets)
  let m := mimeSourceFlush m
  { m with source := m.source.append c }

/-- `mimeStateHdrLF (m, ch)`. -/
def mimeStateHdrLF (m : Mime) (c : Octet) : Mime :=
  if c = ASCII_CR then
    -- Remain in this state waiting for the LF that marks end-of-headers.
    { m with source := m.source.shrink }
  else if c = ASCII_SPACE ∨ c = ASCII_TAB then
    -- Folded header, resume header gathering.
    { m with source := m.source.setLast ASCII_SPACE, sourceState := .hdrValue }
  else
    let m := if 0 < m.source.length then mimeEndHeader m c else m
    if c = ASCII_LF then mimeStateEOH m else m

/-- `mimeStateHdrValue (m, ch)`. -/
def mimeStateHdrValue (m : Mime) (c : Octet) : Mime :=
  if c = ASCII_LF then
    -- Remove trailing newline (LF or CRLF).
    let m := { m with source := m.source.shrink.useAll, sourceState := .hdrLF }
    if m.sourceCr then { m with source := m.source.shrink } else m
  else m

/-- The delimiter between the name and the value of a header, or that of the unix mailbox line
    "From $address $ctime\n". -/
def isHeaderDelimiter (m : Mime) (c : Octet) : Bool :=
  c = ch ':' ||
    (c = ch ' ' && m.partNumber = 0 && m.partLength = 5 && m.source.octets.take 5 = ascii "From ")

/-- The error thrown at an octet that ends a header line before its colon. -/
def headerError (m : Mime) (c : Octet) : Option MimeErrorCode :=
  if ¬ m.throwReady then none
  else if c ≠ ASCII_LF then some .headerName
  else if m.source.length = 1 then none
  else if m.source.length = 2 ∧ m.source.octets.head? = some ASCII_CR then none
  else some .noEoh

/-- The source buffer without an empty line. -/
def dropEmptyLine (source : MimeBuffer) (c : Octet) : MimeBuffer :=
  if c ≠ ASCII_LF then source
  else if source.length = 1 then source.shrink
  else if source.length = 2 ∧ source.octets.head? = some ASCII_CR then source.shrink.shrink
  else source

/-- The loop that goes through the source buffer again, from index `i` on. The buffer does not grow
    in it, so its length bounds the rounds. -/
def mimeReplay : Nat → Nat → Mime → Mime
  | 0, _, m => m
  | rounds + 1, i, m =>
      if i < m.source.length then
        mimeReplay rounds (i + 1)
          ({ m with source := m.source.use i }.runBodyState (m.source.octets.getD i 0))
      else m

/-- The end of headers at a line that is no header. -/
def mimeHeaderless (m : Mime) (c : Octet) : Mime :=
  let m := { m with source := dropEmptyLine m.source c }
  let m := { mimeBodyStart (mimeHdrFinish m) with sourceState := .hdrBdy }
  mimeReplay m.source.length 0 m

/-- `mimeStateHdr (m, ch)`. -/
def mimeStateHdr (m : Mime) (c : Octet) : Mime :=
  if isHeaderDelimiter m c then { m with sourceState := .hdrValue }
  else if c = ASCII_CR then m
  else if isspace c ∨ iscntrl c then
    match headerError m c with
    | some error => { m with thrown := some error }
    | none => mimeHeaderless m c
  else m

/-- `mimeStateHdrStart (m, ch)`. -/
def mimeStateHdrStart (m : Mime) (c : Octet) : Mime :=
  mimeStateHdr ({ m with sourceState := .hdr }.note .hdrStart) c

/-! ### The interface -/

/-- `(*m->state.source_state) (m, ch)`. -/
def Mime.runSourceState (m : Mime) (c : Octet) : Mime :=
  match m.sourceState with
  | .hdrStart => mimeStateHdrStart m c
  | .hdr => mimeStateHdr m c
  | .hdrValue => mimeStateHdrValue m c
  | .hdrLF => mimeStateHdrLF m c
  | _ => m.runBodyState c

/-- `mimeHeadersFirst (m, flag)`. -/
def mimeHeadersFirst (m : Mime) (flag : Bool) : Mime :=
  { m with sourceState := if flag then .hdrStart else .bdy }

/-- `mimeReset (m)`. -/
def mimeReset (m : Mime) : Mime :=
  let m := mimeHeadersFirst { m with b64 := b64Reset m.b64 } true
  let m := { m with decodeStateCr := false, decodeState := .decodeAdd }
  let m := mimeDecodeFlush (mimeSourceFlush m)
  { m with
    isMultipart := false
    hasContentType := false
    isMessageRfc822 := false
    encoding := .none
    partNumber := 0
    partLength := 0
    bodyLength := 0
    bodyDecodedLength := 0
    messageLength := 0
    thrown := none }

/-- `mimeCreate ()`, when the caller then sets `throw.ready` or not. -/
def mimeCreate (throwReady : Bool) : Mime :=
  mimeReset
    { b64 := ⟨0, .start⟩
      isMultipart := false
      decodeStateCr := false
      hasContentType := false
      isMessageRfc822 := false
      encoding := .none
      sourceState := .hdrStart
      decodeState := .decodeAdd
      throwReady := throwReady
      source := ⟨[], 0, false⟩
      decode := ⟨[], 0, false⟩
      partNumber := 0
      partLength := 0
      bodyLength := 0
      bodyDecodedLength := 0
      messageLength := 0
      log := []
      thrown := none
      underflow := false }

/-- `mimeMsgStart (m)`. The log of the message begins here. -/
def mimeMsgStart (m : Mime) : Mime :=
  { mimeReset m with log := [.msgStart] }

/-- What `mimeNextCh` does with an octet before the source state is called. -/
def Mime.take (m : Mime) (c : Octet) : Mime :=
  { m with
    partLength := m.partLength + 1
    bodyLength := m.bodyLength + 1
    messageLength := m.messageLength + 1
    source := m.source.append c
    log := m.log ++ [.next (some c)] }

/-- Flush the source buffer when it is full. -/
def Mime.flushFull (m : Mime) : Mime :=
  if MIME_BUFFER_SIZE - 1 ≤ m.source.length then mimeSourceFlush m else m

/-- `mimeNextCh (m, ch)` for an octet. -/
def mimeNextOctet (m : Mime) (c : Octet) : Mime :=
  let m := (m.take c).runSourceState c
  if m.thrown.isSome then m else m.flushFull

/-- `mimeNextCh (m, EOF)`. -/
def mimeNextEof (m : Mime) : Mime :=
  let m := mimeDecodeFlush (mimeDecodeState (m.note (.next none)) none)
  mimeBodyFinish (mimeSourceFlush m)

/-- `mimeNextCh (m, ch)`. -/
def mimeNextCh (m : Mime) (ch : Ch) : Mime :=
  match ch with
  | some c => mimeNextOctet m c
  | none => mimeNextEof m

/-- A message is given to the parser. It goes on to the next octet unless an error was thrown. -/
def mimeFeed (m : Mime) (input : List Ch) : Mime :=
  input.foldl (fun m ch => if m.thrown.isSome then m else mimeNextCh m ch) m

end Snert
