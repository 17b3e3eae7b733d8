/-
Module: Snert.Util.CgiRead
Purpose: `cgiReadHeader`, `cgiReadN` and `cgiReadChunk` of util/cgi.c with what they use of
  util/Buf.c and io/socket2.c. A socket is the octets that the peer has still to say; reading waits
  for them, and a peek sees the next one if it has arrived. A call that does not return zero, because
  it fails or because it waits for ever, has no result. Memory never runs out.
Trusted boundary: human-reviewed spec
Main exports: Buf, socketReadLine2, socketPeekByte, cgiReadHeader
-/
import Snert.CModel.CString

namespace Snert

open CModel

/-! ### Buffers -/

/-- `BUF_GROWTH`. -/
abbrev BUF_GROWTH : Nat := 512

/-- `Buf`: the octets that count, and the size of the memory that holds them. -/
structure Buf where
  bytes : List Octet
  size : Nat

/-- `BufSetSize (a, length)`. -/
def Buf.setSize (a : Buf) (length : Nat) : Buf :=
  if a.size < length then { a with size := (length / BUF_GROWTH + 1) * BUF_GROWTH } else a

/-- `BufSetLength (a, len)`, to no more than what the buffer holds. -/
def Buf.setLength (a : Buf) (len : Nat) : Buf :=
  { a.setSize (len + 1) with bytes := a.bytes.take len }

/-- `BufAddByte (a, byte)`. -/
def Buf.addByte (a : Buf) (byte : Octet) : Buf :=
  { a.setSize (a.bytes.length + 2) with bytes := a.bytes ++ [byte] }

/-- `BufGetByte (a, offset)`. Sizes are below 2^63, and a negative offset is more than any of them. -/
def Buf.getByte (a : Buf) (offset : Int) : Option Octet :=
  if 0 ≤ offset then a.bytes[offset.toNat]? else none

/-- The C string at the start of a buffer, which a NUL ends. -/
def Buf.string (a : Buf) : List Octet :=
  a.bytes.takeWhile (· ≠ 0)

/-! ### Sockets -/

/-- The octets up to a newline, and the newline if there is one. -/
def lineOf (input : List Octet) : List Octet :=
  let line := input.takeWhile (· ≠ ch '\n')
  input.take (line.length + 1)

/-- `socketReadLine2 (client, line, size, 1)`: the line or as much of it as there is room for, and
    what is still to be read. There is none at the end of the input. -/
def socketReadLine2 (input : List Octet) (size : Nat) : Option (List Octet × List Octet) :=
  if input = [] then none
  else
    let line := (lineOf input).take (size - 1)
    some (line, input.drop line.length)

/-- `socketPeekByte (client)`. Whether the next octet has arrived is known by the number of octets
    still to come. -/
def socketPeekByte (arrived : Nat → Bool) (input : List Octet) : Option Octet :=
  if arrived input.length then input.head? else none

/-! ### Headers and chunks -/

abbrev CGI_SEGMENT_SIZE : Nat := 128

abbrev CGI_CHUNK_SIZE : Nat := 64 * 1024

/-- The segment of a line without its newline, and whether there was one. -/
def cgiSegment (hdr : List Octet) : List Octet × Bool :=
  if ascii "\r\n" <:+ hdr then (hdr.take (hdr.length - 2), true)
  else if ascii "\n" <:+ hdr then (hdr.take (hdr.length - 1), true)
  else (hdr, false)

/-- Does the next line go on with the header? -/
def isFolded (arrived : Nat → Bool) (input : List Octet) : Bool :=
  socketPeekByte arrived input = some (ch ' ') || socketPeekByte arrived input = some (ch '\t')

/-- The buffer is enlarged if less than a segment of space is left behind an offset. -/
def Buf.enlarge (a : Buf) (offset : Nat) : Buf :=
  if a.size ≤ offset + CGI_SEGMENT_SIZE then a.setSize (offset + CGI_CHUNK_SIZE) else a

/-- The loop of `cgiReadHeader`, with what has been read of the header behind the octets of the
    buffer. Each round takes an octet at least. -/
def cgiHeaderLoop (arrived : Nat → Bool) :
    Nat → Buf → List Octet → List Octet → Option (Buf × List Octet × List Octet)
  | 0, _, _, _ => none
  | rounds + 1, input, header, client => do
      let offset := input.bytes.length + header.length
      let input := input.enlarge offset
      let (hdr, client) ← socketReadLine2 client (input.size - offset)
      let (segment, newline) := cgiSegment hdr
      if ¬ newline ∨ isFolded arrived client then
        cgiHeaderLoop arrived rounds input (header ++ segment) client
      else return (input, header ++ segment, client)

/-- `cgiReadHeader (client, input)`. -/
def cgiReadHeader (arrived : Nat → Bool) (client : List Octet) (input : Buf) :
    Option (Buf × List Octet) := do
  let (input, header, client) ← cgiHeaderLoop arrived (client.length + 1) input [] client
  let length := input.bytes.length + header.length
  let input := { input.setSize (length + 1) with bytes := input.bytes ++ header }
  return (input.addByte 0, client)

/-- `cgiReadN (client, input, expect)`, where a negative size is more than there is memory for. -/
def cgiReadN (client : List Octet) (input : Buf) (expect : Int) : Option (Buf × List Octet) :=
  if 0 ≤ expect ∧ expect ≤ client.length then
    let length := input.bytes.length + expect.toNat
    some ({ input.setSize (length + 1) with bytes := input.bytes ++ client.take expect.toNat },
      client.drop expect.toNat)
  else none

/-- `cgiReadChunk (client, input)`. -/
def cgiReadChunk (arrived : Nat → Bool) (client : List Octet) (input : Buf) :
    Option (Buf × List Octet) := do
  let offset := input.bytes.length
  let (input, client) ← cgiReadHeader arrived client input
  let length := (strtol input.string 16).1
  let (input, client) ← cgiReadN client (input.setLength offset) (length + 2)
  let length := length + offset
  if input.getByte length ≠ some (ch '\r') ∧ input.getByte (length + 1) ≠ some (ch '\n') then none
  -- `BufSetLength` would put its NUL in front of the buffer.
  else if length < 0 then none
  else return (input.setLength length.toNat, client)

end Snert
