/-
Module: Snert.Pdq.Record
Purpose: The resource records of include/net/pdq.h. The source reaches the data of a record by a cast
  that its section and type decide; here a record carries the proof that its data has the layout
  that they ask for.
Trusted boundary: human-reviewed spec
Main exports: pdqRcodeName, PdqName, PdqData, PdqKind
-/
import Snert.CModel.CString
import Snert.Pdq.Name

namespace Snert

open CModel

/-! ### Types, classes, return codes and sections -/

abbrev PDQ_TYPE_A : Nat := 1
abbrev PDQ_TYPE_NS : Nat := 2
abbrev PDQ_TYPE_CNAME : Nat := 5
abbrev PDQ_TYPE_SOA : Nat := 6
abbrev PDQ_TYPE_NULL : Nat := 10
abbrev PDQ_TYPE_PTR : Nat := 12
abbrev PDQ_TYPE_HINFO : Nat := 13
abbrev PDQ_TYPE_MINFO : Nat := 14
abbrev PDQ_TYPE_MX : Nat := 15
abbrev PDQ_TYPE_TXT : Nat := 16
abbrev PDQ_TYPE_AAAA : Nat := 28
abbrev PDQ_TYPE_DNAME : Nat := 39
abbrev PDQ_TYPE_ANY : Nat := 255

/-- The special type of `pdqListFindName`: an A or an AAAA record. -/
abbrev PDQ_TYPE_5A : Nat := 256

abbrev PDQ_CLASS_IN : Nat := 1
abbrev PDQ_CLASS_ANY : Nat := 255

abbrev PDQ_RCODE_OK : Nat := 0
abbrev PDQ_RCODE_FORMAT : Nat := 1
abbrev PDQ_RCODE_SERVER : Nat := 2
abbrev PDQ_RCODE_SERVFAIL : Nat := 2
abbrev PDQ_RCODE_UNDEFINED : Nat := 3
abbrev PDQ_RCODE_NOT_IMPLEMENTED : Nat := 4
abbrev PDQ_RCODE_REFUSED : Nat := 5
abbrev PDQ_RCODE_ERRNO : Nat := 16
abbrev PDQ_RCODE_TIMEDOUT : Nat := 17

/-- The table `rcodeMap`. -/
def rcodeMap : List (Nat × String) :=
  [(PDQ_RCODE_OK, "OK"), (PDQ_RCODE_FORMAT, "FORMAT"), (PDQ_RCODE_SERVER, "SERVER"),
    (PDQ_RCODE_UNDEFINED, "NXDOMAIN"), (PDQ_RCODE_NOT_IMPLEMENTED, "NOT IMPLEMENTED"),
    (PDQ_RCODE_REFUSED, "REFUSED"), (PDQ_RCODE_ERRNO, "ERRNO"),
    (PDQ_RCODE_TIMEDOUT, "TIMED OUT")]

/-- `pdqRcodeName (code)`. -/
def pdqRcodeName (code : Nat) : String :=
  (rcodeMap.lookup code).getD "(unknown)"

/-- Where in a reply a record was. `query` marks the record that begins the reply to a query. -/
inductive PdqSection where
  | query
  | answer
  | authority
  | extra
deriving DecidableEq, Repr

/-! ### Names and data -/

/-- A name: its length, and its string in a fixed buffer. -/
structure PdqName where
  length : Nat
  value : Buffer 256
deriving DecidableEq, Repr

/-- The string of a name. -/
def PdqName.string (name : PdqName) : List Octet :=
  name.value.cstring

/-- A name as `calloc` leaves it. -/
def PdqName.empty : PdqName :=
  ⟨0, Buffer.replicate 256 0⟩

/-- The data of a record. The two names of HINFO are laid out as the two of MINFO are. -/
inductive PdqData where
  | query (flags rcode qdcount ancount nscount arcount : Nat)
  | address (offset : Nat) (ip : Buffer 16) (length : Nat) (string : Buffer 40)
  | host (host : PdqName)
  | mx (host : PdqName) (preference : Nat)
  | text (value : List Octet)
  | soa (mname rname : PdqName) (serial : Nat) (refresh retry expire : Int) (minimum : Nat)
  | hinfo (cpu os : PdqName)
deriving DecidableEq, Repr

/-- The layouts of data. -/
inductive PdqKind where
  | query | address | host | mx | text | soa | hinfo
deriving DecidableEq, Repr

/-- The layout of given data. -/
def PdqData.kind : PdqData → PdqKind
  | .query .. => .query
  | .address .. => .address
  | .host .. => .host
  | .mx .. => .mx
  | .text .. => .text
  | .soa .. => .soa
  | .hinfo .. => .hinfo

/-- The layout that `pdqSizeOfType` makes room for, if the type is supported. -/
def kindOfType (type : Nat) : Option PdqKind :=
  if type = PDQ_TYPE_A ∨ type = PDQ_TYPE_AAAA then some .address
  else if type = PDQ_TYPE_MX then some .mx
  else if type = PDQ_TYPE_NS ∨ type = PDQ_TYPE_PTR ∨ type = PDQ_TYPE_CNAME ∨
      type = PDQ_TYPE_DNAME then some .host
  else if type = PDQ_TYPE_TXT ∨ type = PDQ_TYPE_NULL then some .text
  else if type = PDQ_TYPE_SOA then some .soa
  else if type = PDQ_TYPE_HINFO ∨ type = PDQ_TYPE_MINFO then some .hinfo
  else if type = PDQ_TYPE_ANY then some .query
  else none

/-- The layout of a record: a query record has the type of its question, whatever that is. -/
def kindOfRecord (rrSection : PdqSection) (type : Nat) : Option PdqKind :=
  if rrSection = .query then some .query else kindOfType type

/-! ### Records -/

/-- A resource record. -/
structure PdqRr where
  rrSection : PdqSection
  name : PdqName
  rrClass : Nat
  type : Nat
  ttl : Nat
  data : PdqData
  /-- The data is laid out as the section and the type ask for. -/
  layout : kindOfRecord rrSection type = some data.kind
deriving DecidableEq, Repr

namespace PdqRr

/-- Is it the record that begins the reply to a query? -/
def isQuery (rr : PdqRr) : Bool :=
  rr.rrSection = .query

/-- The return code of a query record. -/
def rcode (rr : PdqRr) : Nat :=
  match rr.data with
  | .query _ rcode _ _ _ _ => rcode
  | _ => PDQ_RCODE_OK

/-- The name read through a cast to `PDQ_NS`: the host, or the first name of an SOA record. -/
def host (rr : PdqRr) : PdqName :=
  match rr.data with
  | .host host => host
  | .mx host _ => host
  | .soa mname _ _ _ _ _ _ => mname
  | _ => PdqName.empty

/-- The address of an A or AAAA record. -/
def ip (rr : PdqRr) : Buffer 16 :=
  match rr.data with
  | .address _ ip _ _ => ip
  | _ => Buffer.replicate 16 0

end PdqRr

/-! ### Equality of records -/

/-- The comparison of data in `pdqEqual`, for records of one type. -/
def pdqEqualData : PdqData → PdqData → Bool
  | .address offset ip _ _, .address offset' ip' _ _ => offset = offset' && ip = ip'
  | .soa _ _ serial _ _ _ _, .soa _ _ serial' _ _ _ _ => serial = serial'
  | .mx host preference, .mx host' preference' => preference = preference' && host = host'
  | .host host, .host host' => host = host'
  | .text value, .text value' => value = value'
  | .hinfo cpu os, .hinfo cpu' os' => cpu = cpu' && os = os'
  | .query .., .query .. => true
  | _, _ => false

/-- `pdqEqual (a, b)`. -/
def pdqEqual (a b : PdqRr) : Bool :=
  if a.type ≠ b.type then false
  else if a.rrClass ≠ b.rrClass then false
  else if strcasecmp a.name.string b.name.string ≠ 0 then false
  else if a.isQuery ∧ b.isQuery then true
  -- Query records do not have any data related to type.
  else if a.isQuery ∨ b.isQuery then false
  else pdqEqualData a.data b.data

end Snert
