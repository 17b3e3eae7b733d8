/-
Module: Snert.Net.HttpRead
Purpose: `httpReadPt` of net/http.c with `http_read`: the response line, the header lines, the end
  of the headers and the body of a response, from what the reads of a socket return one after the
  other. Waiting on the socket and the log are left out. The lines that are found are noted.
Trusted boundary: human-reviewed spec
Main exports: HTTP_LINE_SIZE, SocketRead, HttpHooks, HttpResponse
-/
import Snert.CModel.Buffer
import Snert.CModel.CString

namespace Snert

open CModel

abbrev HTTP_LINE_SIZE : Nat := 2048

abbrev HTTP_GO : Int := 0
abbrev HTTP_INTERNAL : Int := 500

/-! ### The socket -/

/-- What a read of the socket returns. -/
inductive SocketRead where
  /-- Octets, as many as there is room for at most. -/
  | octets (os : List Octet) (nonempty : os ≠ []) (room : os.length ≤ HTTP_LINE_SIZE)
  /-- An error, which sets `errno`. -/
  | failure

/-- The octets of a read. -/
def SocketRead.data : SocketRead → List Octet
  | octets os _ _ => os
  | failure => []

/-! ### The response -/

/-- A hook: an HTTP code for its input. -/
abbrev HttpInput := List Octet → Int

/-- The hooks of a response, `none` for NULL. The hook at the end of the body is left out: what it
    returns changes nothing. -/
structure HttpHooks where
  status : Option HttpInput
  header : Option HttpInput
  headerEnd : Option HttpInput
  body : Option HttpInput

/-- The hook is not there or returns `HTTP_GO`. -/
def hookGoes (hook : Option HttpInput) (input : List Octet) : Bool :=
  match hook with
  | none => true
  | some hook => hook input = HTTP_GO

/-- `HttpResponse`, with the lines that are given to the hooks that are there. -/
structure HttpResponse where
  /-- The octets of `content` below its length. -/
  content : List Octet
  result : Int
  /-- Offset in the content to the end of the headers, when that has been set. -/
  eoh : Option Nat
  headers : List (List Octet)
  body : List (List Octet)
deriving DecidableEq, Repr

/-- `http_read`: is `errno` set, what the socket has left, and the content. -/
def http_read (socket : List SocketRead) (response : HttpResponse) :
    Run (Bool × List SocketRead × HttpResponse) :=
  match socket with
  | [] => pure (false, [], response)
  | .failure :: socket => pure (true, socket, response)
  | .octets os _ _ :: socket => do
      let line ← (Buffer.replicate HTTP_LINE_SIZE 0).write 0 os
      let line ← line.write os.length [0]
      pure (false, socket,
        { response with content := response.content ++ line.octets.take os.length })

/-! ### Lines -/

/-- `isblank`. -/
def isblank (c : Octet) : Bool :=
  c = ch ' ' || c = 9

/-- `strcspn (octets, "\n")`, which a NUL ends too. -/
def lineSpan (octets : List Octet) : Nat :=
  (octets.takeWhile fun c => c ≠ ch '\n' && c ≠ 0).length

/-- `sscanf (text, "HTTP/%*s %d %*[^\r\n] %n", &result, &span)`: the number, if there is one, and
    the span, which stays zero when the scan does not get that far. -/
def scanStatusLine (octets : List Octet) : Option Int × Nat :=
  let text := octets.takeWhile (· ≠ 0)
  if ¬ ascii "HTTP/" <+: text then (none, 0)
  else
    let version := (text.drop 5).dropWhile isspace
    let number := (version.dropWhile fun c => !isspace c).dropWhile isspace
    let (value, reason) := strtol number 10
    if version = [] ∨ reason = number then (none, 0)
    else
      -- White space in the format matches line ends as well.
      let reason := reason.dropWhile isspace
      let behind := reason.dropWhile fun c => c ≠ ch '\r' && c ≠ ch '\n'
      if behind = reason then (some (value.bmod (2 ^ 32)), 0)
      else (some (value.bmod (2 ^ 32)), text.length - (behind.dropWhile isspace).length)

/-- The loop that finds the end of a header line and of the lines that continue it. -/
def headerSpan (octets : List Octet) : Nat :=
  let span := lineSpan octets
  if octets.length ≤ span then span
  else if isblank (octets.getD (span + 1) 0) then span + 1 + headerSpan (octets.drop (span + 1))
  else span
termination_by octets.length
decreasing_by
  rw [List.length_drop]
  omega

/-- The length of the line end that a line of a given span stops on. -/
def isCrlf (octets : List Octet) (span : Nat) : Nat :=
  if octets.getD span 0 = ch '\n' then
    if 0 < span ∧ octets.getD (span - 1) 0 = ch '\r' then 2 else 1
  else 0

/-- Stopped on a LF and not a NUL? Then the LF is added to the span. -/
def addLF (octets : List Octet) (span : Nat) : Nat :=
  if octets.getD span 0 = ch '\n' then span + 1 else span

/-! ### The loops -/

/-- Where the loops are: what the socket has left, the response and `buf->offset`. -/
abbrev HttpState := List SocketRead × HttpResponse × Nat

/-- The read at the beginning of a round, when all that there is has been looked at. -/
def readMore (socket : List SocketRead) (response : HttpResponse) (offset : Nat) :
    Run (Bool × List SocketRead × HttpResponse) :=
  if response.content.length ≤ offset then http_read socket response
  else pure (false, socket, response)

/-- A round of the loop over the header lines. It ends with the offset behind the headers, or with
    none for `goto error1`. -/
def headerStep (hooks : HttpHooks) :
    HttpState → Run (HttpState ⊕ List SocketRead × HttpResponse × Option Nat)
  | (socket, response, offset) => do
      let (failed, socket, response) ← readMore socket response offset
      if failed then return .inr (socket, response, none)
      -- EOF?
      if response.content.length ≤ offset then return .inr (socket, response, some offset)
      let octets := response.content.drop offset
      let span := headerSpan octets
      let is_crlf := isCrlf octets span
      let span := addLF octets span
      -- End-of-headers found?
      if span = is_crlf then return .inr (socket, response, some (offset + span))
      let line := octets.take span
      let response := { response with headers := response.headers ++ [line] }
      if hookGoes hooks.header line then return .inl (socket, response, offset + span)
      return .inr (socket, response, none)

/-- A round of the loop over the body. -/
def bodyStep (hooks : HttpHooks) : HttpState → Run (HttpState ⊕ HttpResponse)
  | (socket, response, offset) => do
      let (_, socket, response) ← readMore socket response offset
      -- EOF?
      if response.content.length ≤ offset then return .inr response
      let octets := response.content.drop offset
      let span := addLF octets (lineSpan octets)
      let line := octets.take span
      let response := { response with body := response.body ++ [line] }
      if hookGoes hooks.body line then return .inl (socket, response, offset + span)
      return .inr response

/-- What follows the headers, from the offset behind them. -/
def readBody (hooks : HttpHooks) (rounds : Nat) (socket : List SocketRead)
    (response : HttpResponse) (offset : Nat) : Run HttpResponse := do
  let response := { response with eoh := some offset }
  if ¬ hookGoes hooks.headerEnd (response.content.take offset) then return response
  Run.loop (bodyStep hooks) rounds (socket, response, offset)

/-- `httpReadPt (response)`, with a bound on the rounds of its two loops. -/
def httpReadPt (hooks : HttpHooks) (rounds : Nat) (socket : List SocketRead) :
    Run HttpResponse := do
  let (_, socket, response) ← http_read socket ⟨[], HTTP_INTERNAL, none, [], []⟩
  let (result, span) := scanStatusLine response.content
  let response := { response with result := result.getD HTTP_INTERNAL }
  if ¬ hookGoes hooks.status (response.content.take span) then return response
  let (socket, response, offset) ← Run.loop (headerStep hooks) rounds (socket, response, span)
  match offset with
  | none => return response
  | some offset => readBody hooks rounds socket response offset

/-- `httpRead (response)`. A round of a loop takes an octet at least, unless it stands at a NUL for
    ever. -/
def httpRead (hooks : HttpHooks) (socket : List SocketRead) : Run HttpResponse :=
  httpReadPt hooks ((socket.map fun read => read.data.length).sum + 1) socket

end Snert
