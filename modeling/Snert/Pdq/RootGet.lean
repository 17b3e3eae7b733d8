/-
Module: Snert.Pdq.RootGet
Purpose: Root resolution in net/pdq.c: `pdqRootGetNS` asks the root servers, and then the servers that
  they name, for the servers of every level of a name, and `pdqRootGet` asks the last ones. The lists
  of records are in memory, where they can be freed and read too late, and the addresses of servers
  that a list lacks are linked to it. The network is outside: what it replies to the n-th questions
  is an input, and a reply of no records stands for all that can go wrong. What `pdqGet` adds behind
  the query record of a reply is part of the reply here. The settings of the session are left out.
Trusted boundary: human-reviewed spec
Main exports: Replies, PdqQuestion, Network, PdqSession
-/
import Snert.CModel.ListStore
import Snert.Pdq.List

namespace Snert

open CModel CModel.Run

abbrev PDQ_BITS_AA : Nat := 0x0400

abbrev PDQ_TYPE_WKS : Nat := 11
abbrev PDQ_TYPE_A6 : Nat := 38

abbrev PDQ_KEEP_CNAME : Nat := 0x0004
abbrev PDQ_KEEP_5A : Nat := 0x0801

/-- The flags of a query record. -/
def PdqRr.flags (rr : PdqRr) : Nat :=
  match rr.data with
  | .query flags _ _ _ _ _ => flags
  | _ => 0

/-! ### `pdqListKeepType` -/

/-- The types that the bits of a mask stand for. -/
def keepMap : List Nat :=
  [PDQ_TYPE_A, PDQ_TYPE_NS, PDQ_TYPE_CNAME, PDQ_TYPE_SOA, PDQ_TYPE_NULL, PDQ_TYPE_WKS,
    PDQ_TYPE_PTR, PDQ_TYPE_HINFO, PDQ_TYPE_MINFO, PDQ_TYPE_MX, PDQ_TYPE_TXT, PDQ_TYPE_AAAA,
    PDQ_TYPE_A6, PDQ_TYPE_DNAME]

/-- `pdqKeepType (mask, type)`. -/
def pdqKeepType (mask type : Nat) : Bool :=
  keepMap.zipIdx.any fun (kept, bit) => mask.testBit bit && kept = type

/-- `pdqListKeepType (list, mask)`. A query record is kept for the type of its question. -/
def pdqListKeepType (list : List PdqRr) (mask : Nat) : List PdqRr :=
  list.filter fun rr => pdqKeepType mask rr.type

/-- `pdqListKeepType (list, mask)` in place. -/
def pdqListKeepTypeInPlace (m : PdqHeap) (list : Ptr) (mask : Nat) : Run (PdqHeap × Ptr) :=
  Heap.unlinkLoop (fun rr => !pdqKeepType mask rr.type) true m.cells.length m list none list

/-! ### Questions and replies -/

/-- A question, and the address of the only server to ask, if there is one. -/
structure PdqQuestion where
  rrClass : Nat
  type : Nat
  name : List Octet
  ns : Option (List Octet)

/-- The records that `pdqWaitAll` returns: a query record begins each reply. -/
structure Replies where
  records : List PdqRr
  query_first : ∀ rr ∈ records.head?, rr.isQuery = true

/-- What is replied to the questions that are asked at a time. -/
abbrev Network := Nat → List PdqQuestion → Replies

/-- The lists in memory, and how often replies have been waited for. -/
structure PdqSession where
  store : ListStore PdqRr
  waits : Nat

/-- A session in a process where `pdqInit` fetched root hints, if it could. They are among the lists
    in memory. -/
structure RootMemory where
  session : PdqSession
  rootHints : Option Nat
  hints_live : ∀ list ∈ rootHints, session.store.Live list

section

variable (net : Network)

/-- `pdqGet (pdq, class, type, name, ns)`. -/
def pdqGet (session : PdqSession) (question : PdqQuestion) : Option Nat × PdqSession :=
  let replies := net session.waits [question]
  let session := { session with waits := session.waits + 1 }
  if replies.records = [] then (none, session)
  else
    let (store, answer) := session.store.alloc replies.records
    (some answer, { session with store := store })

/-- `pdqGet5A (pdq, class, name)`. -/
def pdqGet5A (session : PdqSession) (rrClass : Nat) (name : List Octet) :
    List PdqRr × PdqSession :=
  let replies := net session.waits
    [{ rrClass := rrClass, type := PDQ_TYPE_A, name := name, ns := none },
      { rrClass := rrClass, type := PDQ_TYPE_AAAA, name := name, ns := none }]
  (pdqListPruneDup replies.records, { session with waits := session.waits + 1 })

/-- `pdq_list_find_5A_by_name (pdq, class, name, &ns_rr->next)`, where `ns_rr` is the record of
    `list` at `nsRr`. What is found is in that list. -/
def pdqListFind5AByName (session : PdqSession) (rrClass : Nat) (name : List Octet)
    (list nsRr : Nat) : Run (PdqFound × PdqSession) := do
  let rest ← session.store.readFrom list (nsRr + 1)
  let found := pdqListFindName rest rrClass PDQ_TYPE_5A name
  if found.isValid then pure (found, session)
  else do
    -- No IP address for the NS, get it now.
    let (fetched, session) := pdqGet5A net session rrClass name
    let fetched := pdqListKeepType fetched (PDQ_KEEP_5A ||| PDQ_KEEP_CNAME)
    let store ← session.store.extend list fetched
    pure (pdqListFindName fetched rrClass PDQ_TYPE_5A name, { session with store := store })

/-- `((PDQ_AAAA *) a_rr)->address.string.value`, where `a_rr` is a record of `list`. There is nothing
    to read at NULL, at a marker, or in a record of another type. -/
def addressOf (store : ListStore PdqRr) (list : Nat) : PdqFound → Run (List Octet)
  | .record rr => do
      let rr ← store.read list ((store.get list).idxOf rr)
      match rr.data with
      | .address _ _ _ string => pure string.cstring
      | _ => Run.overrun ⟨0, 1, 0⟩
  | _ => Run.overrun ⟨0, 1, 0⟩

/-! ### Trying the servers of a list -/

/-- The variables of a loop over servers: `nsRr` is the index of `ns_rr` in `ns_list`. -/
structure ServerScan where
  session : PdqSession
  list : Nat
  nsRr : Nat

/-- `ns_rr = ns_rr->next`, and the end of the loop when there is no next record. -/
def nextServer (s : ServerScan) (session : PdqSession) :
    Run (ServerScan ⊕ (Option Nat × PdqSession)) := do
  let rest ← session.store.readFrom s.list (s.nsRr + 1)
  if rest = [] then pure (.inr (none, session))
  else pure (.inl { s with session := session, nsRr := s.nsRr + 1 })

/-- Is the record one that names a server to try? -/
def PdqRr.isServer (rr : PdqRr) : Bool :=
  !rr.isQuery && (rr.type = PDQ_TYPE_NS || rr.type = PDQ_TYPE_CNAME)

/-- Ask a server a question. The loop ends with the first answer that is OK. -/
def askServer (s : ServerScan) (session : PdqSession) (question : PdqQuestion) :
    Run (ServerScan ⊕ (Option Nat × PdqSession)) :=
  match pdqGet net session question with
  | (none, session) => nextServer s session
  | (some answer, session) => do
      let head ← session.store.read answer 0
      if head.rcode = PDQ_RCODE_OK then pure (.inr (some answer, session))
      else do
        let store ← session.store.free answer
        nextServer s { session with store := store }

/-- One round of a loop over servers, that of `pdqRootGetNS` or that of `pdqRootGet`. -/
def tryServer (rrClass : Nat) (question : List Octet → PdqQuestion) (s : ServerScan) :
    Run (ServerScan ⊕ (Option Nat × PdqSession)) := do
  let rr ← s.session.store.read s.list s.nsRr
  if rr.isServer = false then nextServer s s.session
  else do
    -- If the NS does not have a matching 5A, get now.
    let (found, session) ←
      pdqListFind5AByName net s.session rrClass rr.host.string s.list s.nsRr
    if found = .null then nextServer s session
    else do
      let address ← addressOf session.store s.list found
      askServer net s session (question address)

/-- A loop over the servers of a list, for a number of rounds at most: a server can make the list
    longer as long as it goes on to answer with aliases. -/
def tryServers (rounds rrClass : Nat) (question : List Octet → PdqQuestion) (session : PdqSession) :
    Option Nat → Run (Option Nat × PdqSession)
  | none => pure (none, session)
  | some list =>
      Run.loop (tryServer net rrClass question) rounds { session := session, list := list, nsRr := 0 }

/-! ### `pdqRootGetNS` -/

/-- The variables of `pdqRootGetNS` at the end of a level. The list of servers for the next level is
    the answer on this one. -/
structure RootScan where
  session : PdqSession
  offset : Nat
  nsList : Option Nat
  prevList : Option Nat

/-- `pdqListFree (list)`, of NULL or of a list. -/
def pdqListFree (session : PdqSession) : Option Nat → Run PdqSession
  | none => pure session
  | some list => do
      let store ← session.store.free list
      pure { session with store := store }

/-- `if (list != root_hints) pdqListFree(list)`. -/
def freeUnlessHints (rootHints : Option Nat) (session : PdqSession) (list : Option Nat) :
    Run PdqSession :=
  if list = rootHints then pure session else pdqListFree session list

/-- The question for the servers of a level. -/
def levelQuestion (rrClass : Nat) (name : List Octet) (offset : Nat) (address : List Octet) :
    PdqQuestion :=
  { rrClass := rrClass, type := PDQ_TYPE_NS, name := name.drop offset, ns := some address }

/-- One round of the outer loop of `pdqRootGetNS`: a level of the name. -/
def rootLevel (rounds : Nat) (rootHints : Option Nat) (rrClass : Nat) (name : List Octet)
    (s : RootScan) : Run (RootScan ⊕ RootScan) := do
  let offset := strlrcspn name [ch '.'] (s.offset - 1)
  -- Try each NS looking for the next level below.
  let (answer, session) ←
    tryServers net rounds rrClass (levelQuestion rrClass name offset) s.session s.nsList
  let session ← freeUnlessHints rootHints session s.prevList
  -- Follow next set of NS to get closer to target.
  let s := { session := session, offset := offset, nsList := answer, prevList := s.nsList }
  pure (if 0 < offset then .inl s else .inr s)

/-- The loop over the levels. Every level begins further to the left, so the length of the name
    bounds their number. -/
def rootLevels (rounds : Nat) (rootHints : Option Nat) (session : PdqSession) (rrClass : Nat)
    (name : List Octet) : Run RootScan :=
  Run.loop (rootLevel net rounds rootHints rrClass name) (name.length + 1)
    { session := session, offset := name.length, nsList := rootHints, prevList := none }

/-- What follows the levels: the answer on the last one, unless it is authoritative. -/
def finishRootGetNS (rootHints : Option Nat) (s : RootScan) : Run (Option Nat × PdqSession) :=
  match s.nsList with
  | none => do
      let session ← freeUnlessHints rootHints s.session s.prevList
      pure (none, session)
  | some answer => do
      let head ← s.session.store.read answer 0
      if head.flags &&& PDQ_BITS_AA ≠ 0 then do
        let session ← pdqListFree s.session answer
        pure (s.prevList, session)
      else do
        let session ← freeUnlessHints rootHints s.session s.prevList
        pure (some answer, session)

/-- `pdqRootGetNS (pdq, class, name)`: the list returned, or NULL. -/
def pdqRootGetNS (rounds : Nat) (rootHints : Option Nat) (session : PdqSession) (rrClass : Nat)
    (name : List Octet) : Run (Option Nat × PdqSession) := do
  let s ← rootLevels net rounds rootHints session rrClass name
  finishRootGetNS rootHints s

/-! ### `pdqRootGet` -/

/-- The question for the servers of a name. -/
def nameQuestion (rrClass type : Nat) (name : List Octet) (address : List Octet) : PdqQuestion :=
  { rrClass := rrClass, type := type, name := name, ns := some address }

/-- What `pdqRootGet` does with the servers that it was given. -/
def askNameServers (rounds : Nat) (rrClass type : Nat) (name : List Octet) (session : PdqSession)
    (nsList : Nat) : Run (Option Nat × PdqSession) := do
  let (answer, session) ←
    tryServers net rounds rrClass (nameQuestion rrClass type name) session (some nsList)
  let session ← pdqListFree session nsList
  pure (answer, session)

/-- `pdqRootGet (pdq, class, type, name, ns)`: the list returned, or NULL. The last argument has no
    part in it. -/
def pdqRootGet (rounds : Nat) (rootHints : Option Nat) (session : PdqSession) (rrClass type : Nat)
    (name : List Octet) : Run (Option Nat × PdqSession) := do
  match ← pdqRootGetNS net rounds rootHints session rrClass name with
  | (none, session) => pure (none, session)
  | (some nsList, session) => askNameServers net rounds rrClass type name session nsList

end

end Snert
