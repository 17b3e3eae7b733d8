/-
Module: Snert.Pdq.Clone
Purpose: `pdqDup` and `pdqListClone` of net/pdq.c. A record is the list of its members, each with the
  place it has in its structure (LP64), so that a copy of some octets of a record holds the members
  that lie within them. The pointer `next` is the link of the list. The time at which a query record
  was created, and which allocations succeed, are parameters.
Trusted boundary: human-reviewed spec
Main exports: Member, PdqKind.size, pdqSizeOfType, PdqRr.members
-/
import Snert.Pdq.Record

namespace Snert

open CModel

/-! ### The layout of records -/

/-- What a member of a structure holds. -/
inductive MemberValue where
  | number (n : Nat)
  | signed (n : Int)
  | octets (os : List Octet)
  /-- A pointer to an object of its own. -/
  | text (object : List Octet)
deriving DecidableEq, Repr

/-- A member of a structure, with its place in it. -/
structure Member where
  offset : Nat
  size : Nat
  value : MemberValue
deriving DecidableEq, Repr

/-- The size of the structure for a layout. -/
def PdqKind.size : PdqKind → Nat
  | .query => 304
  | .address => 344
  | .host => 544
  | .mx => 544
  | .text => 296
  | .soa => 816
  | .hinfo => 800

/-- `pdqSizeOfType (type)`: 0 for a type that is not supported. -/
def pdqSizeOfType (type : Nat) : Nat :=
  ((kindOfType type).map PdqKind.size).getD 0

/-- The members of a `PDQ_name` at an offset. -/
def PdqName.members (name : PdqName) (offset : Nat) : List Member :=
  [⟨offset, 2, .number name.length⟩, ⟨offset + 2, 256, .octets name.value.octets⟩]

/-- The object that the text of a record points to. `pdq_txt_create` puts a NUL behind the text. -/
def textObject (type : Nat) (value : List Octet) : List Octet :=
  if type = PDQ_TYPE_TXT then value ++ [0] else value

/-- The members behind the `PDQ_rr` that begins every record. -/
def PdqData.members (created type : Nat) : PdqData → List Member
  | .query flags rcode qdcount ancount nscount arcount =>
      [⟨280, 8, .number created⟩, ⟨288, 2, .number flags⟩, ⟨292, 4, .number rcode⟩,
        ⟨296, 2, .number qdcount⟩, ⟨298, 2, .number ancount⟩, ⟨300, 2, .number nscount⟩,
        ⟨302, 2, .number arcount⟩]
  | .address offset ip length string =>
      [⟨280, 2, .number offset⟩, ⟨282, 16, .octets ip.octets⟩, ⟨298, 2, .number length⟩,
        ⟨300, 40, .octets string.octets⟩]
  | .host name => name.members 280
  | .mx name preference => name.members 280 ++ [⟨538, 2, .number preference⟩]
  | .text value =>
      [⟨280, 8, .number value.length⟩, ⟨288, 8, .text (textObject type value)⟩]
  | .soa mname rname serial refresh retry expire minimum =>
      mname.members 280 ++ rname.members 538 ++
        [⟨796, 4, .number serial⟩, ⟨800, 4, .signed refresh⟩, ⟨804, 4, .signed retry⟩,
          ⟨808, 4, .signed expire⟩, ⟨812, 4, .number minimum⟩]
  | .hinfo cpu os => cpu.members 280 ++ os.members 538

/-- The number that stands for a section. -/
def PdqSection.number : PdqSection → Nat
  | .query => 0
  | .answer => 1
  | .authority => 2
  | .extra => 3

/-- The members of a record, but for the pointer to the next one. -/
def PdqRr.members (rr : PdqRr) (created : Nat) : List Member :=
  ⟨8, 4, .number rr.rrSection.number⟩ ::
    (rr.name.members 12 ++
      [⟨270, 2, .number rr.rrClass⟩, ⟨272, 2, .number rr.type⟩, ⟨276, 4, .number rr.ttl⟩] ++
      rr.data.members created rr.type)

/-- The members within the first `size` octets of a structure. -/
def membersWithin (size : Nat) (members : List Member) : List Member :=
  members.filter fun m => m.offset + m.size ≤ size

/-! ### `pdqDup` -/

/-- `((PDQ_TXT *) orig)->text.length`, whatever the record holds there. -/
def castTextLength (members : List Member) : Nat :=
  match members.find? (·.offset = 280) with
  | some ⟨_, _, .number n⟩ => n
  | _ => 0

/-- The object that `((PDQ_TXT *) orig)->text.value` points to: what is not a pointer points to no
    object. -/
def castTextValue (members : List Member) : List Octet :=
  match members.find? (·.offset = 288) with
  | some ⟨_, _, .text object⟩ => object
  | _ => []

/-- The copy of the text in `pdqDup`, and the number of allocations made so far. -/
def dupText (succeeds : Nat → Bool) (size : Nat) (orig copy : List Member) (n : Nat) :
    Run (Option (List Member) × Nat) := do
  let length ← Run.load ⟨280, 8, size⟩ (castTextLength orig)
  if succeeds n = false then pure (none, n + 1)
  else do
    let value ← Run.load ⟨288, 8, size⟩ (castTextValue orig)
    let text ← Run.load ⟨0, length, value.length⟩ (value.take length)
    pure (some (membersWithin 288 copy ++ [⟨288, 8, .text text⟩]), n + 1)

/-- `pdqDup (orig)`, with the number of allocations made so far: `malloc` number `n` succeeds if
    `succeeds n` says so. -/
def pdqDup (created : Nat) (succeeds : Nat → Bool) (orig : PdqRr) (n : Nat) :
    Run (Option (List Member) × Nat) :=
  let size := pdqSizeOfType orig.type
  if size = 0 then pure (none, n)
  else if succeeds n = false then pure (none, n + 1)
  else do
    let copy ← Run.load ⟨0, size, orig.data.kind.size⟩ (membersWithin size (orig.members created))
    if orig.type = PDQ_TYPE_TXT ∨ orig.type = PDQ_TYPE_NULL then
      dupText succeeds orig.data.kind.size (orig.members created) copy (n + 1)
    else pure (some copy, n + 1)

/-! ### `pdqListClone` -/

/-- A pointer to a list of copies. -/
inductive ClonedList where
  | null
  /-- A pointer to a record that has been freed. -/
  | freed
  | record (members : List Member) (next : ClonedList)
deriving DecidableEq, Repr

/-- `copy->next = pdqListClone (orig->next)`, and what `copy` then points to: it is freed if there is
    no list to link. -/
def linkCopy (copy : List Member) : ClonedList → ClonedList
  | .null => .freed
  | list => .record copy list

/-- `pdqListClone (orig)`, with the number of allocations made so far. -/
def pdqListClone (created : Nat) (succeeds : Nat → Bool) :
    List PdqRr → Nat → Run (ClonedList × Nat)
  | [], n => pure (.null, n)
  | orig :: next, n => do
      match ← pdqDup created succeeds orig n with
      | (none, n) => pure (.null, n)
      | (some copy, n) =>
          if next.isEmpty then pure (.record copy .null, n)
          else do
            let list ← pdqListClone created succeeds next n
            pure (linkCopy copy list.1, list.2)

end Snert
