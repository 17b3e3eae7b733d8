/-
Module: Snert.Pdq.Name
Purpose: A DNS message in memory, as the parser of net/pdq.c sees it, and the name routines:
  `pdq_name_copy` copies a name, label by label and across compression pointers, into a buffer;
  `pdq_name_skip` finds the field behind a name. Offsets count from the header. Memory does not end
  where the message does: an octet at or beyond `length` can be read, and the access shows that it
  was. No pointer given to the name routines lies before the header, so the test for that is left
  out.
Trusted boundary: human-reviewed spec
Main exports: Header, Packet, Packet.getOctet, Packet.netGetShort
-/
import Snert.CModel.Buffer
import Snert.CModel.Run

namespace Snert

open CModel

abbrev NET_SHORT_BYTE_SIZE : Nat := 2
abbrev NET_LONG_BYTE_SIZE : Nat := 4
abbrev UDP_PACKET_SIZE : Nat := 512

/-- Octets of the header. -/
abbrev HEADER_SIZE : Nat := 12

/-- The fields of the header, in host order. -/
structure Header where
  id : UInt16
  bits : UInt16
  qdcount : UInt16
  ancount : UInt16
  nscount : UInt16
  arcount : UInt16
deriving DecidableEq, Repr

/-- A packet. The fields of the header have been converted to host order in place, so what a name
    reads in the header depends on the host; `octet` is whatever memory holds there. -/
structure Packet where
  length : Nat
  header : Header
  octet : Nat → Octet

namespace Packet

/-- The `count` octets at an offset. -/
def octets (packet : Packet) (ptr count : Nat) : List Octet :=
  (List.range count).map fun i => packet.octet (ptr + i)

/-- The message itself. -/
def message (packet : Packet) : List Octet :=
  packet.octets 0 packet.length

@[simp] theorem length_octets (packet : Packet) (ptr count : Nat) :
    (packet.octets ptr count).length = count := by
  simp [octets]

theorem octets_add (packet : Packet) (ptr count count' : Nat) :
    packet.octets ptr (count + count') =
      packet.octets ptr count ++ packet.octets (ptr + count) count' := by
  simp [octets, List.range_add, Nat.add_assoc]

theorem octets_succ (packet : Packet) (ptr count : Nat) :
    packet.octets ptr (count + 1) = packet.octet ptr :: packet.octets (ptr + 1) count := by
  rw [Nat.add_comm, octets_add]
  rfl

/-- Read `count` octets. -/
def read (packet : Packet) (ptr count : Nat) : Run (List Octet) :=
  Run.load ⟨ptr, count, packet.length⟩ (packet.octets ptr count)

/-- `*ptr`. -/
def getOctet (packet : Packet) (ptr : Nat) : Run Octet :=
  Run.load ⟨ptr, 1, packet.length⟩ (packet.octet ptr)

/-- The value of two octets in network order. -/
def short (packet : Packet) (ptr : Nat) : Nat :=
  (packet.octet ptr).toNat * 256 + (packet.octet (ptr + 1)).toNat

/-- The value of four octets in network order. -/
def long (packet : Packet) (ptr : Nat) : Nat :=
  packet.short ptr * 65536 + packet.short (ptr + 2)

/-- `NET_GET_SHORT (ptr)`. -/
def netGetShort (packet : Packet) (ptr : Nat) : Run Nat :=
  Run.load ⟨ptr, 2, packet.length⟩ (packet.short ptr)

/-- `NET_GET_LONG (ptr)`. -/
def netGetLong (packet : Packet) (ptr : Nat) : Run Nat :=
  Run.load ⟨ptr, 4, packet.length⟩ (packet.long ptr)

theorem short_lt (packet : Packet) (ptr : Nat) : packet.short ptr < 65536 := by
  have hhigh := (packet.octet ptr).toNat_lt
  have hlow := (packet.octet (ptr + 1)).toNat_lt
  unfold short
  omega

end Packet

open CModel CModel.Run

/-! ### Names -/

abbrev DOMAIN_SIZE : Nat := 256

/-- Are the two high bits of a length octet set? Then it begins a compression pointer. -/
def isPointer (c : Octet) : Bool :=
  c &&& 0xc0 = 0xc0

/-- The offset that a compression pointer holds. -/
def pointerTarget (packet : Packet) (ptr : Nat) : Nat :=
  packet.short ptr % 0x4000

/-! ### `pdq_name_copy` -/

/-- The variables of `pdq_name_copy`: `buf` is an index into the name buffer. -/
structure NameScan (size : Nat) where
  ptr : Nat
  value : Buffer size
  buf : Nat
  remaining : Nat

section

variable {size : Nat}

/-- What `strncpy` puts for `count` octets of source: the octets up to a NUL, and NULs after it. -/
def strncpyOctets (source : List Octet) : List Octet :=
  let s := source.takeWhile (· ≠ 0)
  s ++ List.replicate (source.length - s.length) 0

/-- How much of its source `strncpy` reads: it stops behind a NUL. -/
def strncpyReads (source : List Octet) : Nat :=
  min ((source.takeWhile (· ≠ 0)).length + 1) source.length

/-- Copy the label of length `c` at `ptr`, and a dot behind it. -/
def copyLabel (packet : Packet) (s : NameScan size) (c : Nat) : Run (NameScan size) := do
  let label := packet.octets (s.ptr + 1) c
  let _ ← packet.read (s.ptr + 1) (strncpyReads label)
  let value ← s.value.write s.buf (strncpyOctets label)
  let value ← value.write (s.buf + c) [ch '.']
  pure
    { ptr := s.ptr + (c + 1)
      value := value
      buf := s.buf + c + 1
      remaining := s.remaining - (c + 1) }

/-- One round of the loop of `pdq_name_copy`. The result `.error` is the early `return -1`, with
    what the buffer then holds; `.ok` is the end of the loop. -/
def nameCopyStep (packet : Packet) (s : NameScan size) :
    Run (NameScan size ⊕ Except (Buffer size) (NameScan size)) :=
  if packet.length ≤ s.ptr then pure (.inr (.ok s))
  else do
    let c ← packet.getOctet s.ptr
    if c = 0 then pure (.inr (.ok s))
    else if isPointer c then do
      let short ← packet.netGetShort s.ptr
      pure (.inl { s with ptr := short % 0x4000 })
    else if s.remaining ≤ c.toNat then pure (.inr (.error s.value))
    else do
      let s ← copyLabel packet s c.toNat
      pure (.inl s)

/-- The root label alone is a dot. -/
def copyRoot (s : NameScan size) : Run (NameScan size) :=
  if s.remaining = size then do
    let value ← s.value.write s.buf [ch '.']
    pure { s with value := value, buf := s.buf + 1, remaining := s.remaining - 1 }
  else pure s

/-- What follows the loop: the name is refused when the loop ended outside the packet, or when the
    buffer is full. The value returned is the length of the name, or -1. -/
def finishName (packet : Packet) (s : NameScan size) : Run (Int × Buffer size) :=
  if packet.length ≤ s.ptr then do
    let value ← s.value.write s.buf [0]
    pure (-1, value)
  else do
    let s ← copyRoot s
    if s.remaining < 1 then pure (-1, s.value)
    else do
      let value ← s.value.write s.buf [0]
      pure ((size : Int) - s.remaining, value)

/-- The state in which the loop starts. -/
def NameScan.initial (ptr : Nat) (value : Buffer size) : NameScan size :=
  { ptr := ptr, value := value, buf := 0, remaining := size }

/-- Rounds after which the loop has been through every offset with every size of room. -/
def nameCopyRounds (ptr size : Nat) : Nat :=
  (ptr + 0x4000 + size) * (size + 1)

/-- `pdq_name_copy (packet, ptr, buf, size)`: the value returned, and the buffer. -/
def pdqNameCopy (packet : Packet) (ptr : Nat) (value : Buffer size) : Run (Int × Buffer size) := do
  match ← Run.loop (nameCopyStep packet) (nameCopyRounds ptr size) (NameScan.initial ptr value) with
  | .error value => pure (-1, value)
  | .ok s => finishName packet s

end

/-! ### `pdq_name_skip` -/

/-- The loop of `pdq_name_skip`: over the labels up to the root label or a compression pointer, where
    it stops on the octet before the field behind the name. Every round moves on, so the length of
    the packet bounds the rounds. -/
def nameSkipLoop (packet : Packet) : Nat → Nat → Run Nat
  | 0, ptr => pure ptr
  | rounds + 1, ptr =>
      if packet.length ≤ ptr then pure ptr
      else do
        let c ← packet.getOctet ptr
        if c = 0 then pure ptr
        else if isPointer c then pure (ptr + 1)
        else nameSkipLoop packet rounds (ptr + (c.toNat + 1))

/-- `pdq_name_skip (packet, ptr)`, NULL when the name does not end in the packet. -/
def pdqNameSkip (packet : Packet) (ptr : Nat) : Run (Option Nat) :=
  if packet.length < ptr then pure none
  else do
    let ptr ← nameSkipLoop packet (packet.length - ptr) ptr
    pure (if packet.length < ptr + 1 then none else some (ptr + 1))

end Snert
