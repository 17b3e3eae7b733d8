/-
Module: Snert.Pdq.Reply
Purpose: `pdq_reply_parse` of net/pdq.c with `pdq_fill_rr`, `pdq_reply_rr` and `pdq_txt_create`: a
  reply is decoded into a list, the query record first. Memory can always be allocated here. The time
  of creation that a query record notes is left out.
Trusted boundary: human-reviewed spec
Main exports: pdqTxtCreate, pdqFillRr, pdqReplyRr, replyData
-/
import Snert.Net.FormatIP
import Snert.Pdq.Record

namespace Snert

open CModel

abbrev PDQ_BITS_RCODE : Nat := 0x000f

/-! ### Names and texts of a record -/

/-- `name.string.length = pdq_name_copy (packet, ptr, name.string.value, DOMAIN_SIZE)` for a name as
    `calloc` leaves it. The length is an `unsigned short`, which turns -1 into 65535. -/
def copyName (packet : Packet) (ptr : Nat) : Run PdqName := do
  let copied ← pdqNameCopy packet ptr (Buffer.replicate 256 0)
  pure { length := (copied.1 % 65536).toNat, value := copied.2 }

/-- The loop of `pdq_txt_create` from `rdata` to `stop`, with the length of the text so far. The text
    buffer has one octet more than the RDATA. Every round moves on, so the length of the RDATA bounds
    the rounds. -/
def txtLoop (packet : Packet) (rdlength stop : Nat) :
    Nat → Nat → List Octet → Run (Option (List Octet))
  | 0, _, text => pure (some text)
  | rounds + 1, rdata, text =>
      if stop ≤ rdata then pure (some text)
      else do
        let c ← packet.getOctet rdata
        if rdlength ≤ text.length + c.toNat then pure none
        else do
          let os ← packet.read (rdata + 1) c.toNat
          let text ← Run.store ⟨text.length, c.toNat, rdlength + 1⟩ (text ++ os)
          txtLoop packet rdlength stop rounds (rdata + (c.toNat + 1)) text

/-- `pdq_txt_create (txt, rdata, rdlength)`: the text, unless the strings are too long. -/
def pdqTxtCreate (packet : Packet) (rdata rdlength : Nat) : Run (Option (List Octet)) := do
  match ← txtLoop packet rdlength (rdata + rdlength) rdlength rdata [] with
  | none => pure none
  | some text => Run.store ⟨text.length, 1, rdlength + 1⟩ (some text)

/-! ### The fields in front of the data -/

/-- What `pdq_fill_rr` fills in, and the pointer it passes back, if it gets that far. -/
structure RrHead where
  name : PdqName
  type : Nat
  rrClass : Nat
  stop : Option Nat
deriving DecidableEq, Repr

/-- `pdq_fill_rr (rr, packet, ptr, &stop)`, for a record as `pdqCreate (PDQ_TYPE_ANY)` leaves it. -/
def pdqFillRr (packet : Packet) (ptr : Nat) : Run RrHead := do
  let name ← copyName packet ptr
  match ← pdqNameSkip packet ptr with
  | none => pure { name := name, type := PDQ_TYPE_ANY, rrClass := 0, stop := none }
  | some ptr => do
      let type ← packet.netGetShort ptr
      if packet.length ≤ ptr + 2 then
        pure { name := name, type := type, rrClass := 0, stop := none }
      else do
        let rrClass ← packet.netGetShort (ptr + 2)
        pure
          { name := name, type := type, rrClass := rrClass
            stop := if packet.length < ptr + 4 then none else some (ptr + 4) }

/-- The outcomes of `pdq_reply_rr`: NULL with EFAULT, NULL with EINVAL for a type that is not
    supported, or a record with a layout of data. The last two pass back a pointer. -/
inductive RrStart where
  | fault
  | unsupported (stop : Nat)
  | record (name : PdqName) (type rrClass : Nat) (kind : PdqKind)
      (hkind : kindOfType type = some kind) (stop : Nat)
deriving DecidableEq, Repr

/-- The end of `pdq_reply_rr`: create the record and copy its name. -/
def createRr (packet : Packet) (name type rrClass stop : Nat) : Run RrStart :=
  match hkind : kindOfType type with
  | none => pure (.unsupported stop)
  | some kind => do
      let name ← copyName packet name
      pure (.record name type rrClass kind hkind stop)

/-- `pdq_reply_rr (packet, ptr, &stop)`. -/
def pdqReplyRr (packet : Packet) (name : Nat) : Run RrStart := do
  match ← pdqNameSkip packet name with
  | none => pure .fault
  | some ptr => do
      let type ← packet.netGetShort ptr
      if packet.length ≤ ptr + 2 then pure .fault
      else do
        let rrClass ← packet.netGetShort (ptr + 2)
        if packet.length < ptr + 4 then pure .fault
        else createRr packet name type rrClass (ptr + 4)

/-! ### The data of a record -/

/-- Conversion to a 32-bit signed integer. -/
def int32 (n : Nat) : Int :=
  if n < 2 ^ 31 then n else n - 2 ^ 32

/-- Data of a given layout, and the pointer behind it. -/
abbrev KindData (kind : PdqKind) := {data : PdqData // data.kind = kind} × Nat

/-- The data of A and AAAA records, `length` octets copied into the address whatever the type. -/
def addressData (packet : Packet) (type ptr length : Nat) : Run (KindData .address) := do
  let offset : Nat := if type = PDQ_TYPE_A then 12 else 0
  let os ← packet.read ptr length
  let ip ← (Buffer.replicate 16 0).write offset os
  let string ← formatIP os 1 (Buffer.replicate 40 0)
  pure (⟨.address offset ip string.2 string.1, rfl⟩, ptr + length)

/-- A name of the data, and the pointer behind it. -/
def dataName (packet : Packet) (ptr : Nat) : Run (Option (PdqName × Nat)) := do
  let name ← copyName packet ptr
  let stop ← pdqNameSkip packet ptr
  pure (stop.map fun ptr => (name, ptr))

/-- The data of NS, PTR, CNAME and DNAME records. -/
def hostData (packet : Packet) (ptr : Nat) : Run (Option (KindData .host)) := do
  let name ← dataName packet ptr
  pure (name.map fun name => (⟨.host name.1, rfl⟩, name.2))

/-- The data of MX records. -/
def mxData (packet : Packet) (ptr : Nat) : Run (Option (KindData .mx)) := do
  let preference ← packet.netGetShort ptr
  let name ← dataName packet (ptr + 2)
  pure (name.map fun name => (⟨.mx name.1 preference, rfl⟩, name.2))

/-- The data of TXT and NULL records. -/
def textData (packet : Packet) (type ptr length : Nat) : Run (Option (KindData .text)) :=
  if type = PDQ_TYPE_TXT then do
    let text ← pdqTxtCreate packet ptr length
    pure (text.map fun text => (⟨.text text, rfl⟩, ptr + length))
  else do
    let os ← packet.read ptr length
    let text ← Run.store ⟨0, length, length⟩ os
    pure (some (⟨.text text, rfl⟩, ptr + length))

/-- The five numbers of an SOA record. -/
def soaNumbers (packet : Packet) (mname rname : PdqName) (ptr : Nat) : Run (KindData .soa) := do
  let serial ← packet.netGetLong ptr
  let refresh ← packet.netGetLong (ptr + 4)
  let retry ← packet.netGetLong (ptr + 8)
  let expire ← packet.netGetLong (ptr + 12)
  let minimum ← packet.netGetLong (ptr + 16)
  pure (⟨.soa mname rname serial (int32 refresh) (int32 retry) (int32 expire) minimum, rfl⟩, ptr + 20)

/-- The data of SOA records. -/
def soaData (packet : Packet) (ptr : Nat) : Run (Option (KindData .soa)) := do
  match ← dataName packet ptr with
  | none => pure none
  | some (mname, ptr) => do
      match ← dataName packet ptr with
      | none => pure none
      | some (rname, ptr) => do
          let soa ← soaNumbers packet mname rname ptr
          pure (some soa)

/-- One of the two strings of an HINFO record. -/
def hinfoString (packet : Packet) (ptr : Nat) : Run (PdqName × Nat) := do
  let c ← packet.getOctet ptr
  let os ← packet.read (ptr + 1) c.toNat
  let value ← (Buffer.replicate 256 0).write 0 os
  let value ← value.write c.toNat [0]
  pure ({ length := c.toNat, value := value }, ptr + (c.toNat + 1))

/-- The data of HINFO and MINFO records. -/
def hinfoData (packet : Packet) (type ptr : Nat) : Run (Option (KindData .hinfo)) :=
  if type = PDQ_TYPE_HINFO then do
    let cpu ← hinfoString packet ptr
    let os ← hinfoString packet cpu.2
    pure (some (⟨.hinfo cpu.1 os.1, rfl⟩, os.2))
  else do
    match ← dataName packet ptr with
    | none => pure none
    | some (rmailbx, ptr) => do
        let emailbx ← dataName packet ptr
        pure (emailbx.map fun emailbx => (⟨.hinfo rmailbx emailbx.1, rfl⟩, emailbx.2))

/-- The switch on the type of a record. The record of a query, created for the type ANY, has no data
    in a reply, and the pointer stays where it is. -/
def replyData (packet : Packet) (type ptr length : Nat) :
    (kind : PdqKind) → Run (Option (KindData kind))
  | .query => pure (some (⟨.query 0 0 0 0 0 0, rfl⟩, ptr))
  | .address => do
      let address ← addressData packet type ptr length
      pure (some address)
  | .host => hostData packet ptr
  | .mx => mxData packet ptr
  | .text => textData packet type ptr length
  | .soa => soaData packet ptr
  | .hinfo => hinfoData packet type ptr

/-! ### The list of records -/

/-- The section of the record at an index. -/
def sectionAt (header : Header) (i : Nat) : PdqSection :=
  if i < header.ancount.toNat then .answer
  else if i < header.ancount.toNat + header.nscount.toNat then .authority
  else .extra

theorem sectionAt_ne_query (header : Header) (i : Nat) : sectionAt header i ≠ .query := by
  unfold sectionAt
  split
  · nofun
  · split
    · nofun
    · nofun

/-- Is it an MX record? -/
def PdqRr.isMx (rr : PdqRr) : Bool :=
  rr.type = PDQ_TYPE_MX

/-- The preference of an MX record. -/
def PdqRr.preference (rr : PdqRr) : Nat :=
  match rr.data with
  | .mx _ preference => preference
  | _ => 0

/-- Insert a record in the list, which is in reverse order: MX records in reverse sorted order, and
    any other in front. -/
def pdqInsert (record : PdqRr) : List PdqRr → List PdqRr
  | [] => [record]
  | q :: list =>
      if !q.isMx || !record.isMx || q.preference ≤ record.preference then record :: q :: list
      else q :: pdqInsert record list

/-- Skip the rest of a record of a type that is not supported. -/
def skipRr (packet : Packet) (ptr : Nat) : Run (Option Nat) :=
  if packet.length ≤ ptr + 4 then pure none
  else do
    let length ← packet.netGetShort (ptr + 4)
    if packet.length ≤ ptr + 6 then pure none
    else pure (if packet.length < ptr + 6 + length then none else some (ptr + 6 + length))

/-- The rest of a record: its TTL, its length and its data. -/
def fillRr (packet : Packet) (rrSection : PdqSection) (hsection : rrSection ≠ .query) (name : PdqName)
    (type rrClass : Nat) (kind : PdqKind) (hkind : kindOfType type = some kind) (ptr : Nat) :
    Run (Option (PdqRr × Nat)) := do
  let ttl ← packet.netGetLong ptr
  if packet.length ≤ ptr + 4 then pure none
  else do
    let length ← packet.netGetShort (ptr + 4)
    if packet.length ≤ ptr + 6 then pure none
    else do
      match ← replyData packet type (ptr + 6) length kind with
      | none => pure none
      | some (data, ptr) =>
          if packet.length < ptr then pure none
          else
            pure (some
              ({ rrSection := rrSection, name := name, rrClass := rrClass, type := type, ttl := ttl
                 data := data.1
                 layout := by rw [kindOfRecord, if_neg hsection, hkind, data.2] }, ptr))

/-! ### The whole reply -/

/-- The loop over the records, with the number of them still to come. The result is the list in
    reverse order, unless the parser stops. -/
def replyLoop (packet : Packet) : Nat → Nat → Nat → List PdqRr → Run (Option (List PdqRr))
  | 0, _, _, list => pure (some list)
  | rest + 1, i, ptr, list => do
      match ← pdqReplyRr packet ptr with
      | .fault => pure none
      | .unsupported ptr => do
          match ← skipRr packet ptr with
          | none => pure none
          | some ptr => replyLoop packet rest (i + 1) ptr list
      | .record name type rrClass kind hkind ptr => do
          let rrSection := sectionAt packet.header i
          match ← fillRr packet rrSection (sectionAt_ne_query _ _) name type rrClass kind hkind ptr
            with
          | none => pure none
          | some (record, ptr) => replyLoop packet rest (i + 1) ptr (pdqInsert record list)

/-- The header, read where it stands. -/
def Packet.getHeader (packet : Packet) : Run Header :=
  Run.load ⟨0, HEADER_SIZE, packet.length⟩ packet.header

/-- The return code of a header. -/
def Header.rcode (header : Header) : Nat :=
  header.bits.toNat &&& PDQ_BITS_RCODE

/-- The number of records that a header announces. -/
def Header.count (header : Header) : Nat :=
  header.ancount.toNat + header.nscount.toNat + header.arcount.toNat

/-- The record of the query, which begins the list. -/
def queryRecord (header : Header) (head : RrHead) : PdqRr :=
  { rrSection := .query, name := head.name, rrClass := head.rrClass, type := head.type, ttl := 0
    data := .query header.bits.toNat header.rcode header.qdcount.toNat header.ancount.toNat
      header.nscount.toNat header.arcount.toNat
    layout := rfl }

/-- `pdq_reply_parse (pdq, packet, &list)`: the return code, and the list when there is one. What
    `pdq_fill_rr` returns is not looked at. -/
def pdqReplyParse (packet : Packet) : Run (Nat × Option (List PdqRr)) := do
  let header ← packet.getHeader
  let head ← pdqFillRr packet HEADER_SIZE
  let query := queryRecord header head
  if header.rcode ≠ PDQ_RCODE_OK then pure (header.rcode, some [query])
  else do
    match ← replyLoop packet header.count 0 (head.stop.getD HEADER_SIZE) [] with
    | none => pure (PDQ_RCODE_ERRNO, none)
    | some list => pure (header.rcode, some (query :: list.reverse))

end Snert
