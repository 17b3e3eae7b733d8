/-
Module: Snert.Mail.ParsePath
Purpose: `findInnerPath`, `parsePath`, `formatPathLength` and `allocatePath` of mail/parsePath.c.
  What `parsePath` does before its allocation, the span of the path that is copied, is a function of
  its own. Pointers into the path, and into the block that is allocated, are indices.
  `formatPathLength` reads the lengths of the strings of a `ParsePath`, and of the strings
  themselves only whether they are empty; `allocatePath` compares its count with what `formatPath`
  returns. Memory is never short. The NULL guards and the log are left out; the arguments are never
  NULL here. `LOWER_WHOLE_PATH` and `STRIP_IP_AS_DOMAIN` are not defined.
Trusted boundary: human-reviewed spec
Main exports: InnerScan, innerScan, findInnerPath, parsePathSpan
-/
import Mathlib.Data.List.TakeWhile
import Snert.Mail.FormatPath
import Snert.Net.SpanHost
import Snert.Util.Text

namespace Snert

open CModel

/-! ### The flags of `parsePath` -/

abbrev STRICT_ANGLE_BRACKETS : Nat := 0x0001
abbrev STRICT_LOCAL_LENGTH : Nat := 0x0002
abbrev STRICT_DOMAIN_LENGTH : Nat := 0x0004
abbrev STRICT_LITERAL_PLUS : Nat := 0x0008
abbrev STRICT_ADDR_SPEC : Nat := 0x0010
abbrev STRICT_MIN_DOTS : Nat := 0x0020

/-- `flags & flag`. -/
def hasFlag (flags flag : Nat) : Bool :=
  flags &&& flag ≠ 0

/-! ### `findInnerPath` -/

/-- The variables of `findInnerPath`. The pointer `stop` is NULL until the first closing bracket. -/
structure InnerScan where
  depth : Int
  quote : Bool
  start : Nat
  stop : Option Nat
deriving DecidableEq, Repr

/-- An opening bracket at `pos`. -/
def InnerScan.opening (s : InnerScan) (pos : Nat) : InnerScan :=
  if s.quote then s else { s with depth := s.depth + 1, start := pos }

/-- `*stop <= *start`, which holds of a NULL `stop`. -/
def InnerScan.stopBehindStart (s : InnerScan) : Bool :=
  match s.stop with
  | none => true
  | some stop => stop ≤ s.start

/-- A closing bracket at `pos`. -/
def InnerScan.closing (s : InnerScan) (pos : Nat) : InnerScan :=
  if s.quote then s
  else
    { s with
      stop := if s.stopBehindStart then some (pos + 1) else s.stop
      depth := s.depth - 1 }

/-- The loop of `findInnerPath` over the path from index `pos` on. -/
def innerScan : List Octet → Nat → InnerScan → InnerScan
  | [], _, s => s
  | [c], pos, s =>
      if c = ch '"' then { s with quote := !s.quote }
      else if c = ch '\\' then s
      else if c = ch '<' then s.opening pos
      else if c = ch '>' then s.closing pos
      else s
  | c :: d :: path, pos, s =>
      if c = ch '"' then innerScan (d :: path) (pos + 1) { s with quote := !s.quote }
      else if c = ch '\\' then innerScan path (pos + 2) s
      else if c = ch '<' then innerScan (d :: path) (pos + 1) (s.opening pos)
      else if c = ch '>' then innerScan (d :: path) (pos + 1) (s.closing pos)
      else innerScan (d :: path) (pos + 1) s

/-- What `findInnerPath` returns and passes back. -/
structure InnerPath where
  rc : Int
  start : Nat
  stop : Nat
deriving DecidableEq, Repr

/-- `findInnerPath (path, &start, &stop)`. -/
def findInnerPath (path : List Octet) : InnerPath :=
  let s := innerScan path 0 { depth := 0, quote := false, start := 0, stop := none }
  { rc := if s.depth ≠ 0 then -1 else 0
    start := s.start
    stop := s.stop.getD path.length }

/-! ### The span of the path that `parsePath` copies -/

/-- Octets skipped at both ends of the path. -/
def pathSpace : List Octet :=
  [ch ' ', ch '\t', ch '\r', ch '\n', 12]

/-- Does the span have a closing bracket at its end? -/
def endsWithBracket (path : List Octet) (start stop : Nat) : Bool :=
  start < stop ∧ path.getD (stop - 1) 0 = ch '>'

/-- Leading and trailing white space is skipped from the span. The scan for trailing space is given
    a negative offset when `stop` lies before `start`; it then ends where it starts. -/
def trimSpace (path : List Octet) (start stop : Int) : Int × Int :=
  let text := path.drop start.toNat
  let skipped := strspn text pathSpace
  let text := text.drop skipped
  let offset := stop - (start + skipped)
  (start + skipped, start + skipped + strlrspn text pathSpace offset.toNat)

/-- `start` and `stop` of `parsePath` where it allocates and copies, or the error returned before.
    The length used for the allocation, for the address and for the copy is `stop - start`. Of the
    arguments of `parsePath` only `dots` has no part in this. -/
def parsePathSpan (path : List Octet) (flags : Nat) : Except String (Int × Int) :=
  let inner := findInnerPath path
  if inner.rc ≠ 0 then .error "5.1.0 imbalanced angle brackets in path"
  else if hasFlag flags STRICT_ANGLE_BRACKETS ∧
      (path.getD inner.start 0 ≠ ch '<' ∨
        (inner.start < inner.stop ∧ path.getD (inner.stop - 1) 0 ≠ ch '>')) then
    .error "5.1.0 address does not conform to RFC 2821 syntax"
  else
    -- Remove/skip the angle brackets.
    let stop : Int := inner.stop - if endsWithBracket path inner.start inner.stop then 1 else 0
    let start : Int := inner.start + if path.getD inner.start 0 = ch '<' then 1 else 0
    if hasFlag flags STRICT_ADDR_SPEC then .ok (start, stop)
    else .ok (trimSpace path start stop)

/-! ### The parts of an address -/

abbrev SMTP_LOCAL_PART_LENGTH : Nat := 64
abbrev SMTP_DOMAIN_LENGTH : Nat := 255

/-- A `string` of a `ParsePath`: where it begins in the block behind the structure, and its
    length. -/
structure PathPart where
  string : Nat
  length : Nat
deriving DecidableEq, Repr

/-- The string that is held in an object from an index on. -/
def stringAt {n : Nat} (block : Buffer n) (i : Nat) : List Octet :=
  (block.octets.drop i).takeWhile (· ≠ 0)

/-- The `ParsePath` that `parsePath` passes back for an address that is not empty. -/
structure ParsedPath where
  size : Nat
  block : Buffer size
  address : PathPart
  sourceRoute : PathPart
  localLeft : PathPart
  localRight : PathPart
  domain : PathPart
deriving DecidableEq, Repr

/-- `strncpy (block + i, s, count)`. -/
def strncpy {n : Nat} (block : Buffer n) (i : Nat) (s : List Octet) (count : Nat) :
    Run (Buffer n) :=
  Run.store ⟨i, count, n⟩
    (block.splice i (s.take count ++ List.replicate (min count n - s.length) 0))

/-- `TextLower (block + i, -1)`. -/
def textLower {n : Nat} (block : Buffer n) (i : Nat) : Run (Buffer n) :=
  block.write i ((stringAt block i).map tolower)

/-- The octets that are allocated for the two copies of an address. -/
def blockSize (length : Int) : Nat :=
  ((length + 1) * 2).toNat

/-- Place a copy of the address string after the structure, and a second copy following the
    previous. A negative length becomes an enormous `size_t`. -/
def copyAddress (start : List Octet) (length : Int) : Run (Buffer (blockSize length)) :=
  if length < 0 then Run.overrun ⟨0, sizeT length, blockSize length⟩
  else do
    let block ← strncpy (Buffer.replicate (blockSize length) 0) 0 start length.toNat
    strncpy block (length.toNat + 1) (stringAt block 0) length.toNat

/-- The source route, and where the local part begins; `none` for an error. -/
def splitSourceRoute {n : Nat} (block : Buffer n) (string : Nat) :
    Run (Option (Buffer n × PathPart × Nat)) :=
  let length := spanSourceRoute (stringAt block string)
  if 0 < length then
    if block.get (string + length) ≠ ch ':' then pure none
    else do
      let block ← block.write ((string + length : Nat) : Int) [0]
      pure (some (block, ⟨string, length⟩, string + length + 1))
  -- Backup and point at the null byte of the previous string.
  else pure (some (block, ⟨string - 1, 0⟩, string))

/-- What is known of the local part when it has been split. -/
structure LocalSplit (n : Nat) where
  block : Buffer n
  localLength : Nat
  leftLength : Nat
  hasAtSign : Bool
  isUnqualified : Bool

/-- `hasPlusSign`, as a number. -/
def LocalSplit.plusSign {n : Nat} (s : LocalSplit n) : Nat :=
  if s.leftLength < s.localLength then 1 else 0

/-- `hasAtSign`, as a number. -/
def LocalSplit.atSign {n : Nat} (s : LocalSplit n) : Nat :=
  if s.hasAtSign then 1 else 0

/-- Split the local-part at a plus-sign or at-sign. -/
def splitLocalPart {n : Nat} (block : Buffer n) (localLeft flags : Nat) : Run (LocalSplit n) := do
  let length := spanLocalPart (stringAt block localLeft)
  let stop := block.get (localLeft + length)
  let block ← block.write ((localLeft + length : Nat) : Int) [0]
  let left := if hasFlag flags STRICT_LITERAL_PLUS then length
    else strcspn (stringAt block localLeft) (ascii "+")
  pure ⟨block, length, left, stop = ch '@', stop = 0⟩

/-- The error for an octet that may not stand where it does. `dots == 0` implies a RCPT otherwise a
    MAIL. -/
def invalidPart (dots : Int) (part : String) : String :=
  (if dots ≤ 0 then "5.1.3 invalid " else "5.1.7 invalid ") ++ part

/-- The tests of the domain: the error, if any, for a domain of some length that begins at an
    index. -/
def domainError {n : Nat} (block : Buffer n) (string length flags : Nat) (dots : Int) :
    Option String :=
  if hasFlag flags STRICT_DOMAIN_LENGTH ∧ SMTP_DOMAIN_LENGTH < length then
    some "5.1.0 domain name too long, see RFC 2821 section 4.5.3.1"
  else if hasFlag flags STRICT_MIN_DOTS ∧ 0 < dots ∧ length ≤ 0 then
    some "5.1.7 address incomplete"
  else if block.get (string + length) ≠ 0 then some (invalidPart dots "domain name")
  else none

/-- The tests of the local part: the error, if any. -/
def localPartError {n : Nat} (s : LocalSplit n) (flags : Nat) (dots : Int) : Option String :=
  if hasFlag flags STRICT_LOCAL_LENGTH ∧ SMTP_LOCAL_PART_LENGTH < s.localLength then
    some "5.1.0 local-part too long, see RFC 2821 section 4.5.3.1"
  else if ¬ s.hasAtSign ∧ ¬ s.isUnqualified then some (invalidPart dots "local part")
  else none

/-- The NULs at the ends of `localRight` and `localLeft`, and the lower case of three strings. -/
def cutParts {n : Nat} (block : Buffer n) (sourceRoute localLeft localRight domain : PathPart) :
    Run (Buffer n) := do
  let block ← block.write ((localRight.string + localRight.length : Nat) : Int) [0]
  let block ← block.write ((localLeft.string + localLeft.length : Nat) : Int) [0]
  let block ← textLower block sourceRoute.string
  let block ← textLower block localLeft.string
  textLower block domain.string

/-- What `parsePath` does with the copies of an address. -/
def splitAddress {n : Nat} (block : Buffer n) (length flags : Nat) (dots : Int) :
    Run (Except String ParsedPath) := do
  match ← splitSourceRoute block (length + 1) with
  | none => pure (.error "5.1.0 invalid source route")
  | some (block, sourceRoute, localLeft) => do
      let s ← splitLocalPart block localLeft flags
      match localPartError s flags dots with
      | some error => pure (.error error)
      | none =>
          let domain := localLeft + s.localLength + s.atSign
          let domainLength := spanDomain (stringAt s.block domain) dots
          match domainError s.block domain domainLength flags dots with
          | some error => pure (.error error)
          | none => do
              let left : PathPart := ⟨localLeft, s.leftLength⟩
              let right : PathPart := ⟨localLeft + s.leftLength + s.plusSign,
                s.localLength - (s.leftLength + s.plusSign)⟩
              let block ← cutParts s.block sourceRoute left right ⟨domain, domainLength⟩
              pure (.ok ⟨n, block, ⟨0, length⟩, sourceRoute, left, right, ⟨domain, domainLength⟩⟩)

/-- `parsePath (path, flags, dots, &out)`: the error returned, or what is passed back; `none` is a
    `ParsePath` whose strings are all `empty`. -/
def parsePath (path : CString) (flags : Nat) (dots : Int) :
    Run (Except String (Option ParsedPath)) :=
  match parsePathSpan path.octets flags with
  | .error error => pure (.error error)
  | .ok (start, stop) =>
      -- Check for the null address.
      if start = stop then pure (.ok none)
      else do
        let block ← copyAddress (path.octets.drop start.toNat) (stop - start)
        let parsed ← splitAddress block (stop - start).toNat flags dots
        pure (parsed.map some)

/-- The string of a part. -/
def ParsedPath.text (p : ParsedPath) (part : PathPart) : List Octet :=
  stringAt p.block part.string

theorem stringAt_noNul {n : Nat} (block : Buffer n) (i : Nat) : 0 ∉ stringAt block i := by
  intro h
  have hmem := List.mem_takeWhile_imp h
  simp at hmem

/-- The string of a part, as `formatPath` takes it. -/
def ParsedPath.string (p : ParsedPath) (part : PathPart) : CString :=
  ⟨p.text part, stringAt_noNul p.block part.string⟩

/-- The strings that a format can name. -/
def ParsedPath.strings (p : ParsedPath) : ParsePath :=
  { address := p.string p.address
    sourceRoute := p.string p.sourceRoute
    localLeft := p.string p.localLeft
    localRight := p.string p.localRight
    domain := p.string p.domain }

/-! ### Allocation -/

/-- The strings of a `ParsePath` with their lengths. -/
structure MeasuredPath where
  strings : ParsePath
  addressLength : Nat
  sourceRouteLength : Nat
  localLeftLength : Nat
  localRightLength : Nat
  domainLength : Nat

/-- What `parsePath` passes back, with its lengths. The strings of a null address are all `empty`. -/
def measuredPath : Option ParsedPath → MeasuredPath
  | none =>
      { strings := ⟨some ⟨[], by decide⟩, some ⟨[], by decide⟩, some ⟨[], by decide⟩,
          some ⟨[], by decide⟩, some ⟨[], by decide⟩⟩
        addressLength := 0
        sourceRouteLength := 0
        localLeftLength := 0
        localRightLength := 0
        domainLength := 0 }
  | some p =>
      { strings := p.strings
        addressLength := p.address.length
        sourceRouteLength := p.sourceRoute.length
        localLeftLength := p.localLeft.length
        localRightLength := p.localRight.length
        domainLength := p.domain.length }

/-- The switch of `formatPathLength` on the character behind a percent sign: what it adds. -/
def conversionLength (p : MeasuredPath) (c : Octet) : Nat :=
  if c = ch '%' then 1
  else if c = ch 'A' then p.addressLength
  else if c = ch 'D' then p.domainLength
  else if c = ch 'L' ∨ c = ch 'P' then
    -- The case of `R` stands in the body of this `if`.
    p.localLeftLength +
      if c = ch 'P' ∧ pathString p.strings.localRight ≠ [] then 1 + p.localRightLength else 0
  else if c = ch 'R' then p.localRightLength
  else if c = ch 'S' ∨ c = ch 'T' then
    if pathString p.strings.sourceRoute ≠ [] then
      p.sourceRouteLength + if c = ch 'T' then 1 else 0
    else 0
  else 0

/-- The loop of `formatPathLength`. Behind a percent sign at the end of the format it goes on past the
    NUL. -/
def lengthLoop (p : MeasuredPath) : List Octet → Nat → Run Nat
  | [], length => pure length
  | c :: fmt, length =>
      if c ≠ ch '%' then lengthLoop p fmt (length + 1)
      else
        match fmt with
        | [] => Run.overrun ⟨1, 1, 1⟩
        | c :: fmt => lengthLoop p fmt (length + conversionLength p c)

/-- `formatPathLength (fmt, p)`. -/
def formatPathLength (fmt : CString) (p : MeasuredPath) : Run Nat :=
  lengthLoop p fmt.octets 0

/-- `allocatePath (fmt, p)`: the string allocated, or `none` for a length mismatch. -/
def allocatePath (fmt : CString) (p : MeasuredPath) : Run (Option (List Octet)) := do
  let length ← formatPathLength fmt p
  let put ← formatPath (Buffer.replicate (length + 1) 0) fmt p.strings
  if put.2 ≠ length then pure none
  else pure (some put.1.cstring)

end Snert
