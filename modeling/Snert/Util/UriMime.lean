/-
Module: Snert.Util.UriMime
Purpose: The hooks of util/uri.c that look for URIs in a message: octets of text are held until a
  delimiter ends the token, which is trimmed and handed to `uriParse2`. What is handed over is
  noted; the URI that is found, the call-back and the log are left out.
Trusted boundary: human-reviewed spec
Main exports: URI_MIME_BUFFER_SIZE, isCharURI, UriToken, UriMime
-/
import Snert.Util.HtmlEntity
import Snert.Util.Text

namespace Snert

open CModel

abbrev URI_MIME_BUFFER_SIZE : Nat := 1024

abbrev HTML_ENTITY_NBSP : Octet := 0xA0
abbrev HTML_ENTITY_SHY : Octet := 0xAD

/-- `uri_excluded`. -/
def uriExcluded : List Octet :=
  ascii "\"<>\x7b\x7d\\^`"

/-- `isCharURI (octet)`. The search for an excluded character finds the NUL as well. -/
def isCharURI (c : Octet) : Bool :=
  !isspace c && !strchr uriExcluded c

/-- What is handed to `uriParse2`: where it starts in the buffer, the length of the token there, and
    the length that is given. -/
structure UriToken where
  start : Nat
  tokenLength : Nat
  length : Int
deriving DecidableEq, Repr

/-- `UriMime`, with the tokens that have been handed to `uriParse2`. -/
structure UriMime where
  length : Nat
  isBody : Bool
  isTextPart : Bool
  headersAndBody : Bool
  buffer : Buffer URI_MIME_BUFFER_SIZE
  parsed : List UriToken
deriving DecidableEq, Repr

/-- A conversion to `int`. -/
def toInt32 (x : Int) : Int :=
  x.bmod (2 ^ 32)

/-- `uriMimeInit (uri_found_cb, all, data)`. -/
def uriMimeInit (all : Bool) : UriMime :=
  ⟨0, false, false, all, Buffer.replicate URI_MIME_BUFFER_SIZE 0, []⟩

namespace UriMime

/-! ### The end of a token -/

/-- The loop over the underscores at the end of the token: its length, and the buffer. With nothing
    left it looks at the octet in front of the buffer. -/
def trimUnderscores (buffer : Buffer URI_MIME_BUFFER_SIZE) :
    Nat → Run (Nat × Buffer URI_MIME_BUFFER_SIZE)
  | 0 => Run.overrun ⟨-1, 1, URI_MIME_BUFFER_SIZE⟩
  | length + 1 => do
      let c ← buffer.read length
      if c = ch '_' then trimUnderscores (← buffer.write length [0]) length
      else return (length + 1, buffer)

/-- The number of octets from an index on that a test takes. The octet that ends them is looked at
    too. -/
def spanAt (buffer : Buffer URI_MIME_BUFFER_SIZE) (i : Nat) (test : Octet → Bool) : Run Nat :=
  let span := ((buffer.octets.drop i).takeWhile test).length
  Run.load ⟨i, span + 1, URI_MIME_BUFFER_SIZE⟩ span

/-- `delimiter:` Hand what is held to `uriParse2`. -/
def delimiter (hold : UriMime) : Run UriMime := do
  if hold.length = 0 then return hold
  let buffer ← hold.buffer.write hold.length [0]
  -- Skip leading src= or href=. No NUL is alphanumeric.
  let value ← spanAt buffer 0 isalnum
  let value := if (← buffer.read value) = ch '=' then value + 1 else 0
  let bracket ← buffer.read value
  let value := if bracket = ch '(' ∨ bracket = ch '\'' then value + 1 else value
  let bracket ← buffer.read ((hold.length : Int) - 1)
  let length := if bracket = ch ')' ∨ bracket = ch '\'' then hold.length - 1 else hold.length
  let (length, buffer) ← trimUnderscores buffer length
  let value := value + (← spanAt buffer value (· = ch '_'))
  let token : UriToken := ⟨value, length, toInt32 (sizeT (length - value))⟩
  return { hold with length := 0, buffer := buffer, parsed := hold.parsed ++ [token] }

/-! ### An octet -/

/-- A `;` is appended, and the entity that it ends is decoded in place. -/
def semicolon (hold : UriMime) : Run UriMime := do
  let offset := strlrcspn hold.buffer.octets (ascii "&") hold.length
  let buffer ← Run.load ⟨(offset - 1 : Nat), hold.length - (offset - 1), URI_MIME_BUFFER_SIZE⟩
    hold.buffer
  let buffer ← buffer.write hold.length [ch ';']
  let hold := { hold with buffer := buffer, length := hold.length + 1 }
  if offset = 0 then return hold
  let offset := offset - 1
  let (buffer, length) ←
    htmlEntityDecode hold.buffer offset (hold.length - offset) offset (hold.length - offset)
  let c ← buffer.read offset
  -- Treat &nbsp; as a space, thus a delimiter not part of a URI.
  if c = HTML_ENTITY_NBSP then delimiter { hold with buffer := buffer, length := offset }
  else
    -- Discard &shy; used within a URI.
    let length := if c = HTML_ENTITY_SHY then 0 else length
    return { hold with buffer := buffer, length := offset + length }

/-- Is the octet the second of a Big5 representation of dot, 0xA143, 0xA144 or 0xA14F? -/
def endsBig5Dot (hold : UriMime) (c : Octet) : Run Bool := do
  if 0 < hold.length ∧ (c = ch 'C' ∨ c = ch 'D' ∨ c = ch 'O') then
    return (← hold.buffer.read ((hold.length : Int) - 1)) = 0xA1
  else return false

/-- An octet of a URI is held. -/
def accumulate (hold : UriMime) (c : Octet) : Run UriMime := do
  if 0 < hold.length ∧ c = ch ';' then semicolon hold
  else if ← endsBig5Dot hold c then
    return { hold with buffer := ← hold.buffer.write ((hold.length : Int) - 1) [ch '.'] }
  else
    return { hold with
      buffer := ← hold.buffer.write hold.length [c], length := hold.length + 1 }

/-- `uri_mime_decoded_octet (m, ch, data)`. -/
def uri_mime_decoded_octet (hold : UriMime) (c : Octet) : Run UriMime :=
  -- Only process text only parts.
  if hold.headersAndBody = false ∧ hold.isBody ∧ hold.isTextPart = false then pure hold
  -- Ignore CR as it does not help us with parsing.
  else if c = ch '\r' then pure hold
  else
    -- If the hold buffer is full, just dump it.
    let hold :=
      if URI_MIME_BUFFER_SIZE ≤ hold.length then { hold with length := 0 } else hold
    if isCharURI c then hold.accumulate c else hold.delimiter

end UriMime

/-! ### Events -/

/-- What the MIME parser tells: an octet, the start of a body with or without a Content-Type, its
    end, and a header that says that the part is text. -/
inductive UriEvent where
  | octet (c : Octet)
  | bodyStart (hasContentType : Bool)
  | bodyFinish
  | textPart
deriving DecidableEq, Repr

/-- The hooks `uri_mime_decoded_octet`, `uri_mime_body_start`, `uri_mime_body_finish`, and what
    `uri_mime_header` notes behind the octets of the header. -/
def UriMime.handle (hold : UriMime) : UriEvent → Run UriMime
  | .octet c => hold.uri_mime_decoded_octet c
  | .bodyStart hasContentType =>
      pure { hold with
        isTextPart := hold.isTextPart || !hasContentType, isBody := true, length := 0 }
  | .bodyFinish => pure { hold with isTextPart := false, isBody := false, length := 0 }
  | .textPart => pure { hold with isTextPart := true }

end Snert
