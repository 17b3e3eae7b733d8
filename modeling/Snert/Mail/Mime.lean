/-
Module: Snert.Mail.Mime
Purpose: The MIME parser of mail/mime.c: its data, the hooks it calls and its decoders. What happens is
  entered in a log: the octets given to the parser, and the hooks it calls with what they can read of
  it. Hooks do not change the parser here, and the debug log is left out. A buffer is given by the
  octets in use; an index outside its array, and a length or a counter that would go below zero, are
  remembered as a fault. The counters of type `unsigned long` are natural numbers.
Trusted boundary: human-reviewed spec
Main exports: MimeBuffer, Mime, MimeEvent, mimeIsAnyHeader
-/
import Snert.Mail.Ascii
import Snert.Util.Base64
import Snert.Util.TextClass

namespace Snert

open CModel

abbrev MIME_BUFFER_SIZE : Nat := 1024

/-! ### Buffers -/

/-- A `MimeBuffer`: the first `length` octets of its array, the octet of the array behind them where
    the code has stored one, and whether an index or the length has ever been outside the range from
    zero to `MIME_BUFFER_SIZE - 1`. -/
structure MimeBuffer where
  octets : List Octet
  behind : Octet
  fault : Bool
deriving DecidableEq, Repr

namespace MimeBuffer

/-- The field `length`. -/
def length (b : MimeBuffer) : Nat :=
  b.octets.length

/-- Use the index `i` of the array. -/
def use (b : MimeBuffer) (i : Nat) : MimeBuffer :=
  { b with fault := b.fault || MIME_BUFFER_SIZE ≤ i }

/-- `buffer[length++] = c`. The new length is to be an index as well. -/
def append (b : MimeBuffer) (c : Octet) : MimeBuffer :=
  { b.use (b.length + 1) with octets := b.octets ++ [c] }

/-- `length--`. -/
def shrink (b : MimeBuffer) : MimeBuffer :=
  { b with octets := b.octets.dropLast, fault := b.fault || b.length = 0 }

/-- `buffer[length - 1] = c`. -/
def setLast (b : MimeBuffer) (c : Octet) : MimeBuffer :=
  { b.use (b.length - 1) with
    octets := b.octets.dropLast ++ [c]
    fault := (b.use (b.length - 1)).fault || b.length = 0 }

/-- `buffer[length] = c`. -/
def setBehind (b : MimeBuffer) (c : Octet) : MimeBuffer :=
  { b.use b.length with behind := c }

/-- Read all octets below `length`. -/
def useAll (b : MimeBuffer) : MimeBuffer :=
  b.use (b.length - 1)

/-- `length = 0`. -/
def clear (b : MimeBuffer) : MimeBuffer :=
  { b with octets := [] }

end MimeBuffer

/-! ### The parser -/

inductive MimeEncoding where
  | none
  | base64
  | quotedPrintable
deriving DecidableEq, Repr

/-- The functions that `source_state` can point to. -/
inductive SourceState where
  | hdrStart
  | hdr
  | hdrValue
  | hdrLF
  | hdrBdy
  | bdy
  | bdyLF
  | dash1
  | dash2
  | boundary
deriving DecidableEq, Repr

/-- The functions that `decode_state` can point to. -/
inductive DecodeState where
  | decodeAdd
  | base64
  | qpLiteral
  | qpSoftLine
  | qpDecode
  | qpEqual
deriving DecidableEq, Repr

/-- The errors that are passed to `LONGJMP` here. -/
inductive MimeErrorCode where
  | headerName
  | noEoh
deriving DecidableEq, Repr

/-- What happens to a parser: an octet or `EOF` is given to it, or a hook is called. A hook is given
    what there is for it to see: of a header and of a flush the octets of the buffer, of the start of
    a body the decoder and the octets of the source buffer, which are to be gone through again, and
    of the end of a body its two lengths. -/
inductive MimeEvent where
  | next (ch : Ch)
  | msgStart
  | hdrStart
  | header (source : List Octet)
  | hdrFinish
  | bodyStart (decodeState : DecodeState) (source : List Octet)
  | bodyFinish (bodyLength bodyDecodedLength : Nat)
  | sourceFlush (source : List Octet)
  | decodeFlush (decode : List Octet)
  | sourceOctet (ch : Ch)
  | decodedOctet (ch : Ch)
deriving DecidableEq, Repr

/-- A `Mime`, with the log of the message that is parsed, the error that was thrown, and whether a
    counter has gone below zero. -/
structure Mime where
  b64 : B64
  isMultipart : Bool
  decodeStateCr : Bool
  hasContentType : Bool
  isMessageRfc822 : Bool
  encoding : MimeEncoding
  sourceState : SourceState
  decodeState : DecodeState
  throwReady : Bool
  source : MimeBuffer
  decode : MimeBuffer
  partNumber : UInt32
  partLength : Nat
  bodyLength : Nat
  bodyDecodedLength : Nat
  messageLength : Nat
  log : List MimeEvent
  thrown : Option MimeErrorCode
  underflow : Bool
deriving DecidableEq, Repr

/-- Enter an event in the log. -/
def Mime.note (m : Mime) (event : MimeEvent) : Mime :=
  { m with log := m.log ++ [event] }

/-- `mimeIsAnyHeader (m)`. -/
def mimeIsAnyHeader (m : Mime) : Bool :=
  m.sourceState = .hdrStart || m.sourceState = .hdr || m.sourceState = .hdrValue

/-! ### Decoders -/

/-- `mimeDecodeFlush (m)`. -/
def mimeDecodeFlush (m : Mime) : Mime :=
  if 0 < m.decode.length then
    let m := if mimeIsAnyHeader m then m else m.note (.decodeFlush m.decode.octets)
    { m with decode := m.decode.clear }
  else m

/-- What `mimeDecodeAppend` does with an octet that is not `EOF`. -/
def mimeDecodePut (m : Mime) (ch : Ch) : Mime :=
  match ch with
  | none => m
  | some c => { m with bodyDecodedLength := m.bodyDecodedLength + 1, decode := m.decode.append c }

/-- `mimeDecodeAppend (m, ch)`. The decode buffer is flushed on a line unit or when full. -/
def mimeDecodeAppend (m : Mime) (ch : Ch) : Mime :=
  let m := mimeDecodePut (m.note (.decodedOctet ch)) ch
  if ch = some ASCII_LF ∨ ch = none ∨ MIME_BUFFER_SIZE - 1 ≤ m.decode.length then mimeDecodeFlush m
  else m

/-- The CR kept back by `mimeDecodeAdd`. -/
def mimeDecodeCr (m : Mime) : Mime :=
  if m.decodeStateCr then { mimeDecodeAppend m (some ASCII_CR) with decodeStateCr := false } else m

/-- `mimeDecodeAdd (m, ch)`. -/
def mimeDecodeAdd (m : Mime) (ch : Ch) : Mime :=
  if ch = some ASCII_CR ∧ ¬ m.decodeStateCr then { m with decodeStateCr := true }
  else
    let m := mimeDecodeAppend (mimeDecodeCr m) ch
    { m with decode := m.decode.setBehind 0 }

/-- `mimeStateBase64 (m, ch)`. -/
def mimeStateBase64 (m : Mime) (ch : Ch) : Mime :=
  let decoded := b64Decode m.b64 ch
  let m := { m with b64 := decoded.1 }
  match decoded.2 with
  | .octet c => mimeDecodeAdd m (some c)
  | .eof => mimeDecodeAdd m none
  | .next => m
  | .error => m

/-- `mimeStateQpLiteral (m, ch)`. -/
def mimeStateQpLiteral (m : Mime) (ch : Ch) : Mime :=
  if ch = some (CModel.ch '=') then { m with decodeState := .qpEqual } else mimeDecodeAdd m ch

/-- `mimeStateQpSoftLine (m, ch)`. -/
def mimeStateQpSoftLine (m : Mime) (ch : Ch) : Mime :=
  mimeStateQpLiteral m ch

/-- Is the character a hexadecimal digit? -/
def isxdigitCh (ch : Ch) : Bool :=
  ch.any isxdigit

/-- `qpHexDigit (x)`, of a hexadecimal digit. -/
def qpHexDigit (x : Octet) : Nat :=
  (digitValue x).getD 0

/-- `mimeStateQpDecode (m, ch)`. The first digit is kept behind the octets of the decode buffer. -/
def mimeStateQpDecode (m : Mime) (ch : Ch) : Mime :=
  let value := m.decode.behind
  let m := { m with decode := m.decode.use m.decode.length }
  let m :=
    if isxdigitCh ch then
      mimeDecodeAdd m (some (UInt8.ofNat (qpHexDigit value * 16 + qpHexDigit (ch.getD 0))))
    else
      -- Invalid quoted printable sequence. Treat as literal.
      mimeDecodeAdd (mimeDecodeAdd (mimeDecodeAdd m (some (CModel.ch '='))) (some value)) ch
  { m with decodeState := .qpLiteral }

/-- `mimeStateQpEqual (m, ch)`. -/
def mimeStateQpEqual (m : Mime) (ch : Ch) : Mime :=
  if ch = some ASCII_CR then m
  else if ch = some ASCII_LF then { m with decodeState := .qpSoftLine }
  else if isxdigitCh ch then
    { m with decode := m.decode.setBehind (ch.getD 0), decodeState := .qpDecode }
  else
    let m := { m with decodeState := .qpLiteral }
    mimeDecodeAdd (mimeDecodeAdd m (some (CModel.ch '='))) ch

/-- `(*m->state.decode_state) (m, ch)`. -/
def Mime.runDecodeState (m : Mime) (ch : Ch) : Mime :=
  match m.decodeState with
  | .decodeAdd => mimeDecodeAdd m ch
  | .base64 => mimeStateBase64 m ch
  | .qpLiteral => mimeStateQpLiteral m ch
  | .qpSoftLine => mimeStateQpSoftLine m ch
  | .qpDecode => mimeStateQpDecode m ch
  | .qpEqual => mimeStateQpEqual m ch

/-- `mimeDecodeState (m, ch)`. -/
def mimeDecodeState (m : Mime) (ch : Ch) : Mime :=
  (m.note (.sourceOctet ch)).runDecodeState ch

/-! ### Flushes and bodies -/

/-- `mimeSourceFlush (m)`. -/
def mimeSourceFlush (m : Mime) : Mime :=
  if 0 < m.source.length then
    let m := m.note (.sourceFlush m.source.octets)
    { m with source := (m.source.setBehind 0).clear }
  else m

/-- `mimeHdrFinish (m)`. -/
def mimeHdrFinish (m : Mime) : Mime :=
  m.note .hdrFinish

/-- `mimeBodyStart (m)`. -/
def mimeBodyStart (m : Mime) : Mime :=
  m.note (.bodyStart m.decodeState m.source.octets)

/-- `mimeBodyFinish (m)`. -/
def mimeBodyFinish (m : Mime) : Mime :=
  if mimeIsAnyHeader m then m else m.note (.bodyFinish m.bodyLength m.bodyDecodedLength)

end Snert
