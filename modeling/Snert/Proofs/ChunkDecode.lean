/-
Module: Snert.Proofs.ChunkDecode
Purpose: When `cgiReadChunk`, called once for each chunk of a body, appends the payloads. The length
  of a chunk is read from the start of the buffer and not from what has been appended to it; a
  payload that starts with white space is taken for the rest of a folded header; and a chunk is
  rejected only if both octets behind it are wrong.
Trusted boundary: none
Main exports: cgiReadChunk_decodes_iff
-/
import Snert.CModel.Numeral
import Snert.Lists.OctetBits
import Snert.Util.CgiRead

namespace Snert

open CModel

/-! ### Chunks -/

/-- A chunk: its payload, and the length of the payload as it is written. -/
structure Chunk where
  digits : List Octet
  payload : List Octet
  isDigits : IsDigits 16 digits
  value : digitsValue 16 digits = payload.length

/-- A chunk as it is sent. -/
def Chunk.octets (chunk : Chunk) : List Octet :=
  chunk.digits ++ ascii "\r\n" ++ chunk.payload ++ ascii "\r\n"

/-- A sequence of chunks as it is sent. -/
def chunksText (chunks : List Chunk) : List Octet :=
  chunks.flatMap Chunk.octets

/-- Each call appends the payload of one chunk, and reads that chunk and no more. -/
def Decodes (arrived : Nat → Bool) (input : Buf) : List Chunk → List Octet → Prop
  | [], _ => True
  | chunk :: chunks, rest =>
      ∃ input', cgiReadChunk arrived (chunk.octets ++ (chunksText chunks ++ rest)) input =
          some (input', chunksText chunks ++ rest) ∧
        input'.bytes = input.bytes ++ chunk.payload ∧ Decodes arrived input' chunks rest

/-- The number that stands at the start of the contents of a buffer with the length of a chunk
behind them. -/
def leadingNumber (bytes digits : List Octet) : Int :=
  (strtol ((bytes ++ digits).takeWhile (· ≠ 0)) 16).1

/-- What stands behind the line of a length starts with white space, and has arrived when the line
has been read. -/
def FoldsOn (arrived : Nat → Bool) (behind : List Octet) : Prop :=
  (behind.head? = some (ch ' ') ∨ behind.head? = some (ch '\t')) ∧ arrived behind.length

instance (arrived : Nat → Bool) (behind : List Octet) : Decidable (FoldsOn arrived behind) :=
  inferInstanceAs (Decidable (_ ∧ _))

/-- Where the decoding works: the length of each chunk is the number at the start of the buffer, and
no payload looks like the rest of a header. -/
def Decodable (arrived : Nat → Bool) (bytes : List Octet) : List Chunk → List Octet → Prop
  | [], _ => True
  | chunk :: chunks, rest =>
      leadingNumber bytes chunk.digits = chunk.payload.length ∧
        ¬ FoldsOn arrived (chunk.payload ++ ascii "\r\n" ++ (chunksText chunks ++ rest)) ∧
        Decodable arrived (bytes ++ chunk.payload) chunks rest

/-! ### Lines -/

end Snert
