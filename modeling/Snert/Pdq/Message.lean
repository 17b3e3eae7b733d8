/-
Module: Snert.Pdq.Message
Purpose: Replies as their sender means them, apart from any parser: a question and records with their
  names, numbers and data, how a packet encodes them, and the list of records that they should be
  decoded to. Names may be compressed with pointers that lead backwards. A decoder may get labels
  wrong, so what is decoded depends on how it copies a label.
Trusted boundary: human-reviewed spec
Main exports: DomainName, RrData, Rr, Entry
-/
import Snert.Lists.SortRuns
import Snert.Pdq.Reply

namespace Snert

open CModel

/-! ### Names -/

/-- The octets of a name in text: each label with a dot behind it. -/
def textLength (labels : List (List Octet)) : Nat :=
  (labels.map fun label => label.length + 1).sum

/-- A domain name: its labels, without the root label. The text of the name, the final dot apart, has
    at most 254 characters. -/
structure DomainName where
  labels : List (List Octet)
  label_length : ∀ label ∈ labels, 0 < label.length ∧ label.length ≤ 63
  text_length : textLength labels ≤ 255

/-- The text of a name with the given labels. The root name is a dot. -/
def nameText (labels : List (List Octet)) : List Octet :=
  if labels = [] then [ch '.'] else labels.flatMap fun label => label ++ [ch '.']

/-- The name of a record that holds a text. -/
def PdqName.ofText (text : List Octet) : PdqName :=
  { length := text.length, value := (Buffer.replicate 256 0).splice 0 (text ++ [0]) }

/-- A name as a decoder that copies labels with `copy` stores it. -/
def DomainName.decoded (copy : List Octet → List Octet) (name : DomainName) : PdqName :=
  PdqName.ofText (nameText (name.labels.map copy))

/-! ### Records -/

/-- The types that can be decoded. -/
def supportedTypes : List Nat :=
  [PDQ_TYPE_A, PDQ_TYPE_AAAA, PDQ_TYPE_NS, PDQ_TYPE_CNAME, PDQ_TYPE_DNAME, PDQ_TYPE_PTR, PDQ_TYPE_MX,
    PDQ_TYPE_TXT, PDQ_TYPE_NULL, PDQ_TYPE_SOA, PDQ_TYPE_MINFO, PDQ_TYPE_HINFO]

/-- The data of a record of one of these types. -/
inductive RrData where
  | address (ip : List Octet)
  | host (name : DomainName)
  | mx (preference : Nat) (name : DomainName)
  | strings (texts : List (List Octet))
  | octets (os : List Octet)
  | soa (mname rname : DomainName) (serial refresh retry expire minimum : Nat)
  | hinfo (cpu os : List Octet)
  | minfo (rmailbx emailbx : DomainName)

/-- Data that a record of a type has. -/
def RrData.Fits (type : Nat) : RrData → Prop
  | .address ip => type = PDQ_TYPE_A ∧ ip.length = 4 ∨ type = PDQ_TYPE_AAAA ∧ ip.length = 16
  | .host _ => type = PDQ_TYPE_NS ∨ type = PDQ_TYPE_CNAME ∨ type = PDQ_TYPE_DNAME ∨ type = PDQ_TYPE_PTR
  | .mx .. => type = PDQ_TYPE_MX
  | .strings _ => type = PDQ_TYPE_TXT
  | .octets _ => type = PDQ_TYPE_NULL
  | .soa .. => type = PDQ_TYPE_SOA
  | .hinfo .. => type = PDQ_TYPE_HINFO
  | .minfo .. => type = PDQ_TYPE_MINFO

/-- A record of a type that can be decoded. -/
structure Rr where
  name : DomainName
  type : Nat
  rrClass : Nat
  ttl : Nat
  data : RrData
  fits : data.Fits type

/-- A record of any other type. -/
structure OtherRr where
  name : DomainName
  type : Nat
  rrClass : Nat
  ttl : Nat
  data : List Octet
  unsupported : type ∉ supportedTypes

/-- A record of a message. -/
inductive Entry where
  | record (rr : Rr)
  | other (rr : OtherRr)

/-- The record to decode, if the type is supported. -/
def Entry.rr? : Entry → Option Rr
  | .record rr => some rr
  | .other _ => none

/-- The type of a record. -/
def Entry.type : Entry → Nat
  | .record rr => rr.type
  | .other rr => rr.type

/-- The record has no octets of data. -/
def Entry.NoData : Entry → Prop
  | .record rr => rr.data = .octets [] ∨ rr.data = .strings []
  | .other rr => rr.data = []

/-- A reply: its question, and its records in their sections. -/
structure Message where
  question : DomainName
  type : Nat
  rrClass : Nat
  answers : List Entry
  authority : List Entry
  extra : List Entry

/-- All records of a message. -/
def Message.entries (message : Message) : List Entry :=
  message.answers ++ message.authority ++ message.extra

/-! ### Encoding -/

/-- The name with the given labels is encoded at `p` and ends in front of `e`. -/
inductive NameAt (packet : Packet) : Nat → List (List Octet) → Nat → Prop
  | root {p : Nat} : p < packet.length → packet.octet p = 0 → NameAt packet p [] (p + 1)
  | label {p e : Nat} {label : List Octet} {labels : List (List Octet)} :
      p + 1 + label.length ≤ packet.length → 0 < label.length → label.length ≤ 63 →
      (packet.octet p).toNat = label.length → packet.octets (p + 1) label.length = label →
      NameAt packet (p + (label.length + 1)) labels e → NameAt packet p (label :: labels) e
  | pointer {p q e : Nat} {labels : List (List Octet)} :
      p + 2 ≤ packet.length → packet.short p = 0xc000 + q → HEADER_SIZE ≤ q → q < p →
      NameAt packet q labels e → NameAt packet p labels (p + 2)

/-- Octets stand at `p`. -/
def OctetsAt (packet : Packet) (p : Nat) (os : List Octet) (e : Nat) : Prop :=
  packet.octets p os.length = os ∧ e = p + os.length

/-- Strings with their lengths stand at `p`. -/
def StringsAt (packet : Packet) : Nat → List (List Octet) → Nat → Prop
  | p, [], e => e = p
  | p, text :: texts, e =>
      (packet.octet p).toNat = text.length ∧ packet.octets (p + 1) text.length = text ∧
        StringsAt packet (p + (text.length + 1)) texts e

/-- The data of a record is encoded at `p`. -/
def DataAt (packet : Packet) (p : Nat) : RrData → Nat → Prop
  | .address ip, e => OctetsAt packet p ip e
  | .host name, e => NameAt packet p name.labels e
  | .mx preference name, e => packet.short p = preference ∧ NameAt packet (p + 2) name.labels e
  | .strings texts, e => StringsAt packet p texts e
  | .octets os, e => OctetsAt packet p os e
  | .soa mname rname serial refresh retry expire minimum, e =>
      ∃ q r, NameAt packet p mname.labels q ∧ NameAt packet q rname.labels r ∧
        packet.long r = serial ∧ packet.long (r + 4) = refresh ∧ packet.long (r + 8) = retry ∧
        packet.long (r + 12) = expire ∧ packet.long (r + 16) = minimum ∧ e = r + 20
  | .hinfo cpu os, e => StringsAt packet p [cpu, os] e
  | .minfo rmailbx emailbx, e =>
      ∃ q, NameAt packet p rmailbx.labels q ∧ NameAt packet q emailbx.labels e

/-- The fields in front of the data of a record at `p`: the data begins at `q`, and the RDLENGTH says
    that it ends at `e`. -/
def FieldsAt (packet : Packet) (p : Nat) (name : DomainName) (type rrClass ttl q e : Nat) : Prop :=
  ∃ s, NameAt packet p name.labels s ∧ packet.short s = type ∧ packet.short (s + 2) = rrClass ∧
    packet.long (s + 4) = ttl ∧ q = s + 10 ∧ e = q + packet.short (s + 8) ∧ e ≤ packet.length

/-- A record is encoded at `p`. -/
def EntryAt (packet : Packet) (p : Nat) : Entry → Nat → Prop
  | .record rr, e =>
      ∃ q, FieldsAt packet p rr.name rr.type rr.rrClass rr.ttl q e ∧ DataAt packet q rr.data e
  | .other rr, e =>
      ∃ q, FieldsAt packet p rr.name rr.type rr.rrClass rr.ttl q e ∧ OctetsAt packet q rr.data e

/-- Records are encoded from `p` on, one behind the other. -/
def EntriesAt (packet : Packet) : Nat → List Entry → Nat → Prop
  | p, [], e => e = p
  | p, entry :: entries, e => ∃ q, EntryAt packet p entry q ∧ EntriesAt packet q entries e

/-- The packet is a message that reports no error, and nothing else. -/
structure Encodes (packet : Packet) (message : Message) : Prop where
  rcode : packet.header.rcode = PDQ_RCODE_OK
  qdcount : packet.header.qdcount = 1
  ancount : packet.header.ancount.toNat = message.answers.length
  nscount : packet.header.nscount.toNat = message.authority.length
  arcount : packet.header.arcount.toNat = message.extra.length
  body : ∃ q, NameAt packet HEADER_SIZE message.question.labels q ∧
    packet.short q = message.type ∧ packet.short (q + 2) = message.rrClass ∧
    q + 4 ≤ packet.length ∧ EntriesAt packet (q + 4) message.entries packet.length

/-! ### What a message should be decoded to -/

/-- The sections that records of a reply are in. -/
abbrev ReplySection := {rrSection : PdqSection // rrSection ≠ .query}

section

variable (copy : List Octet → List Octet)

/-- The text of an address, as `formatIP` writes it. -/
def ipText (ip : List Octet) : Buffer 40 × Nat :=
  match (formatIP ip 1 (Buffer.replicate 40 0)).outcome with
  | .done text => text
  | _ => (Buffer.replicate 40 0, 0)

/-- The data that is decoded. -/
def RrData.decoded (type : Nat) : RrData → PdqData
  | .address ip =>
      let offset := if type = PDQ_TYPE_A then 12 else 0
      .address offset ((Buffer.replicate 16 0).splice offset ip) (ipText ip).2 (ipText ip).1
  | .host name => .host (name.decoded copy)
  | .mx preference name => .mx (name.decoded copy) preference
  | .strings texts => .text texts.flatten
  | .octets os => .text os
  | .soa mname rname serial refresh retry expire minimum =>
      .soa (mname.decoded copy) (rname.decoded copy) serial (int32 refresh) (int32 retry)
        (int32 expire) minimum
  | .hinfo cpu os => .hinfo (PdqName.ofText cpu) (PdqName.ofText os)
  | .minfo rmailbx emailbx => .hinfo (rmailbx.decoded copy) (emailbx.decoded copy)

theorem RrData.Fits.kind {type : Nat} {data : RrData} (h : data.Fits type) :
    kindOfType type = some (data.decoded copy type).kind := by
  cases data with
  | address ip =>
      rcases h with ⟨rfl, -⟩ | ⟨rfl, -⟩
      · rfl
      · rfl
  | host name =>
      rcases h with rfl | rfl | rfl | rfl
      · rfl
      · rfl
      · rfl
      · rfl
  | mx preference name => cases h; rfl
  | strings texts => cases h; rfl
  | octets os => cases h; rfl
  | soa mname rname serial refresh retry expire minimum => cases h; rfl
  | hinfo cpu os => cases h; rfl
  | minfo rmailbx emailbx => cases h; rfl

/-- The record that is decoded. -/
def Rr.decoded (rr : Rr) (rrSection : ReplySection) : PdqRr :=
  { rrSection := rrSection
    name := rr.name.decoded copy
    rrClass := rr.rrClass
    type := rr.type
    ttl := rr.ttl
    data := rr.data.decoded copy rr.type
    layout := by rw [kindOfRecord, if_neg rrSection.2, rr.fits.kind copy] }

namespace Message

variable (message : Message)

/-- The records of a message with their sections. -/
def sections : List (ReplySection × Entry) :=
  message.answers.map (⟨.answer, by decide⟩, ·) ++
    message.authority.map (⟨.authority, by decide⟩, ·) ++
    message.extra.map (⟨.extra, by decide⟩, ·)

/-- The records that can be decoded. -/
def supported : List (ReplySection × Rr) :=
  message.sections.filterMap fun entry => entry.2.rr?.map (entry.1, ·)

/-- The query record that begins the list. -/
def query (header : Header) : PdqRr :=
  { rrSection := .query
    name := message.question.decoded copy
    rrClass := message.rrClass
    type := message.type
    ttl := 0
    data := .query header.bits.toNat PDQ_RCODE_OK 1 message.answers.length message.authority.length
      message.extra.length
    layout := rfl }

/-- The list of records: the query record, and the records in the order of the packet, each run of
    MX records in ascending order of preference. -/
def decoded (header : Header) : List PdqRr :=
  message.query copy header ::
    Lists.sortRuns PdqRr.isMx PdqRr.preference
      (message.supported.map fun rr => rr.2.decoded copy rr.1)

end Message

end

end Snert
