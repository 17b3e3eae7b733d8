/-
Module: Snert.Kvm.SocketMap
Purpose: The socket map of type/kvm.c and the kvmd that serves it. What one end writes is what the
  other end has to read, in order. A read waits for input and takes what has arrived by then: at
  least an octet, and for the body of the i-th message that an end receives at most `arrived i`
  octets behind the first one. The server runs while the client waits for an answer. Waiting for
  what will never come ends with the timeout. `none` is an access outside of an array, or a read of
  what was never written. Left out are the lock, the log, the guards against NULL, and the call
  `walk`; a map that is served is a hash map. In the session allocations and connections do not
  fail. `kvm_fetch_socket` stands apart, with `kvm_recv` as it uses memory: there what the
  environment decides is an argument, an `unsigned long` has 64 bits, a query is shorter than 2^31
  octets, and the closing of the connection is left out. Last come the packets of a multicast map: how
  one is built for a key and a value, and what a listener makes of the datagrams it receives, one after
  the other in the same array. MULTICAST_VERSIONING is off; sockets that fail to send and a listener
  that waits are left out, and the local map reads a key and a value whole.
Trusted boundary: human-reviewed spec
Main exports: Arrivals, Socket, kvmSend, kvmRecv, kvmSendPacket, listenerPacket
-/
import Snert.CModel.Buffer
import Snert.CModel.Numeral
import Snert.CModel.Run
import Snert.Kvm.HashMap

namespace Snert

open CModel

/-! ### Messages -/

/-- One end of a connection. -/
structure Socket where
  /-- What the other end has written and this one has not read. -/
  input : List Octet
  /-- How many messages this end has begun to read. -/
  received : Nat
  /-- The other end has closed the connection. -/
  closed : Bool
deriving DecidableEq, Repr

/-- How many octets behind the first one a read of the body of a message finds. -/
abbrev Arrivals : Type :=
  Nat → Nat

/-- `kvm_send (s, buffer, length)`: the octets that are written. The length of what is written is an
    `int`. -/
def kvmSend (buffer : List Octet) : Option (KvmResult × List Octet) :=
  let number := numeral 10 buffer.length ++ [ch ':']
  if 20 ≤ number.length then some (.error, [])
  else
    let outLength := (Int32.ofNat (number.length + buffer.length)).toInt
    -- The comma and a NUL behind it are put at `out_length`.
    if outLength < 0 ∨ outLength = 2 ^ 31 - 1 then none
    else some (.ok, (number ++ buffer).take outLength.toNat ++ [ch ','])

/-- How the loop over the leading length ends. -/
inductive NumberRead where
  /-- An octet that is no digit. -/
  | stopped (digits : List Octet) (delimiter : Octet) (input : List Octet)
  /-- No more than the two last places of `number` are left. -/
  | full (digits : List Octet) (input : List Octet)
  /-- No more input. -/
  | noInput
deriving DecidableEq, Repr

/-- Read leading decimal length. -/
def readNumber : Nat → List Octet → List Octet → NumberRead
  | 0, number, input => .full number input
  | _ + 1, _, [] => .noInput
  | i + 1, number, c :: input =>
      if isDigit 10 c then readNumber i (number ++ [c]) input else .stopped number c input

/-- `kvm_recv (s, data, length)`. -/
def kvmRecv (arrived : Arrivals) (s : Socket) : Option ((KvmResult × List Octet) × Socket) :=
  -- The connection has been closed, or the timeout has passed.
  let noInput := if s.closed then KvmResult.eof else KvmResult.error
  match readNumber 18 [] s.input with
  | .noInput => some ((noInput, []), { s with input := [] })
  | .full _ _ => none
  | .stopped number delimiter input =>
      -- No input or invalid format.
      if number = [] ∨ delimiter ≠ ch ':' then some ((.error, []), { s with input := input })
      else
        let (size, stop) := strtol (number ++ [delimiter]) 10
        -- Invalid decimal length.
        if stop ≠ [delimiter] then some ((.error, []), { s with input := input })
        else
          let buf := input.take (min (size.toNat + 1) (arrived s.received + 1))
          let s := { s with input := input.drop buf.length, received := s.received + 1 }
          if buf = [] then some ((noInput, []), s)
          -- No input or read error.
          else if buf.length ≠ size.toNat + 1 then some ((.error, []), s)
          -- Invalid format.
          else if buf.getLast? ≠ some (ch ',') then some ((.error, []), s)
          else some ((.ok, buf.dropLast), s)

/-! ### The server -/

/-- One of the maps of kvmd: the name of its table and its content. -/
structure ServedMap where
  table : List Octet
  content : KvmHashTable

/-- `find_table (table)`. -/
def findTable (maps : List ServedMap) (table : List Octet) : Option KvmHashTable :=
  (maps.find? fun map => map.table = table).map ServedMap.content

/-- The maps when the one that `find_table` gives has changed. -/
def changeTable (table : List Octet) (content : KvmHashTable) : List ServedMap → List ServedMap
  | [] => []
  | map :: maps =>
      if map.table = table then ⟨table, content⟩ :: maps
      else map :: changeTable table content maps

/-- A connection, and what the server has behind it. -/
structure Connection where
  client : Socket
  server : Socket
  maps : List ServedMap

namespace Connection

/-- The server sends a message. -/
def reply (link : Connection) (buffer : List Octet) : Option Connection := do
  let (_, octets) ← kvmSend buffer
  pure { link with client := { link.client with input := link.client.input ++ octets } }

/-- The server writes octets. -/
def write (link : Connection) (octets : List Octet) : Connection :=
  { link with client := { link.client with input := link.client.input ++ octets } }

/-- The server receives a message. -/
def read (arrived : Arrivals) (link : Connection) :
    Option ((KvmResult × List Octet) × Connection) := do
  let (message, server) ← kvmRecv arrived link.server
  pure (message, { link with server := server })

end Connection

/-- The octets of a message up to the first NUL. -/
def messageText (data : List Octet) : List Octet :=
  data.takeWhile (· ≠ 0)

/-- Sendmail socket map GET semantics, for a query with a blank in it. -/
def requestFetch (query : List Octet) (link : Connection) : Option Connection :=
  let table := (messageText query).takeWhile (· ≠ ch ' ')
  let key := query.drop (table.length + 1)
  match findTable link.maps table with
  | none => link.reply (ascii "PERM invalid table")
  | some map =>
      match kvmGetHash map key with
      | (.notFound, _) => link.reply (ascii "NOTFOUND")
      | (.ok, some value) =>
          some (link.write (numeral 10 (value.length + 3) ++ ch ':' :: ascii "OK " ++ value ++
            [ch ',']))
      | _ => link.reply (ascii "PERM")

/-- `GET` of the extended semantics: the code of the last `kvm_recv`. -/
def requestGet (arrived : Arrivals) (map : KvmHashTable) (link : Connection) :
    Option (KvmResult × Connection) := do
  let ((rc, key), link) ← link.read arrived
  if rc ≠ .ok then
    pure (rc, ← link.reply (ascii "PERM key read error"))
  else
    match kvmGetHash map key with
    | (.notFound, _) => pure (rc, ← link.reply (ascii "NOTFOUND"))
    | (.ok, some value) => pure (rc, ← (← link.reply (ascii "OK")).reply value)
    | _ => pure (rc, ← link.reply (ascii "PERM"))

/-- `PUT` of the extended semantics. -/
def requestPut (arrived : Arrivals) (table : List Octet) (map : KvmHashTable) (link : Connection) :
    Option (KvmResult × Connection) := do
  let ((rc, key), link) ← link.read arrived
  if rc ≠ .ok then
    pure (rc, ← link.reply (ascii "PERM key read error"))
  else
    let ((rc, value), link) ← link.read arrived
    if rc ≠ .ok then
      pure (rc, ← link.reply (ascii "PERM value read error"))
    else
      let (put, map) := kvmPutHash map key value
      let link := { link with maps := changeTable table map link.maps }
      if put = .error then pure (rc, ← link.reply (ascii "PERM put failed"))
      else pure (rc, ← link.reply (ascii "OK"))

/-- `REMOVE` of the extended semantics. -/
def requestRemove (arrived : Arrivals) (table : List Octet) (map : KvmHashTable)
    (link : Connection) : Option (KvmResult × Connection) := do
  let ((rc, key), link) ← link.read arrived
  if rc ≠ .ok then
    pure (rc, ← link.reply (ascii "PERM key read error"))
  else
    let (removed, map) := kvmRemoveHash map key
    let link := { link with maps := changeTable table map link.maps }
    if removed = .error then pure (rc, ← link.reply (ascii "PERM remove failed"))
    else pure (rc, ← link.reply (ascii "OK"))

/-- `request (client, addr)`: whether there may be another request. -/
def request (arrived : Arrivals) (link : Connection) : Option (Bool × Connection) := do
  let ((rc, query), link) ← link.read arrived
  if rc = .error then
    pure (false, ← link.reply (ascii "PERM table read error"))
  else if rc = .eof then
    pure (false, link)
  else if ch ' ' ∈ messageText query then
    pure (true, ← requestFetch query link)
  else
    match findTable link.maps (messageText query) with
    | none => pure (true, ← link.reply (ascii "PERM invalid table"))
    | some map =>
        let table := messageText query
        let ((rc, query), link) ← link.read arrived
        if rc ≠ .ok then
          pure (false, ← link.reply (ascii "PERM command read error"))
        else if strcasecmp (ascii "GET") (messageText query) = 0 then
          let (rc, link) ← requestGet arrived map link
          pure (rc = .ok, link)
        else if strcasecmp (ascii "PUT") (messageText query) = 0 then
          let (rc, link) ← requestPut arrived table map link
          pure (rc = .ok, link)
        else if strcasecmp (ascii "REMOVE") (messageText query) = 0 then
          let (rc, link) ← requestRemove arrived table map link
          pure (rc = .ok, link)
        else
          pure (true, ← link.reply (ascii "PERM invalid operation"))

/-- The loop of `process`, as long as there is input. A request reads at least an octet of it. -/
def serve (arrived : Arrivals) : Nat → Connection → Option Connection
  | 0, link => some link
  | requests + 1, link =>
      if link.server.input = [] then some link
      else do
        let (more, link) ← request arrived link
        if more then serve arrived requests link
        else pure { link with client := { link.client with closed := true } }

/-! ### The client -/

/-- A socket map: the name of its table, its connection, if it has one, and the server's end. -/
structure SocketMap where
  table : List Octet
  isOpen : Bool
  link : Connection

namespace SocketMap

/-- `kvm_check_socket (self)`: a connection that has been closed is opened again. -/
def check (self : SocketMap) : SocketMap :=
  if self.isOpen then self
  else { self with
    isOpen := true
    link := { self.link with
      client := { self.link.client with input := [], closed := false }
      server := { self.link.server with input := [], closed := false } } }

/-- The client sends messages, until one cannot be sent. -/
def send (self : SocketMap) : List (List Octet) → Option (KvmResult × SocketMap)
  | [] => some (.ok, self)
  | buffer :: buffers => do
      let (rc, octets) ← kvmSend buffer
      if rc ≠ .ok then pure (rc, self)
      else send { self with link := { self.link with
        server := { self.link.server with input := self.link.server.input ++ octets } } } buffers

/-- The client receives a message, after the server has done its part. -/
def receive (toClient toServer : Arrivals) (self : SocketMap) :
    Option ((KvmResult × List Octet) × SocketMap) := do
  let link ← serve toServer self.link.server.input.length self.link
  let (message, client) ← kvmRecv toClient link.client
  pure (message, { self with link := { link with client := client } })

/-- What is done at `error2` when the code is `KVM_ERROR`. -/
def fail (self : SocketMap) : KvmAnswer × SocketMap :=
  ((.error, none), { self with isOpen := false })

end SocketMap

open SocketMap

/-- `kvm_get_socket (self, key, value)`. -/
def kvmGetSocket (toClient toServer : Arrivals) (self : SocketMap) (key : List Octet) :
    Option (KvmAnswer × SocketMap) := do
  let self := self.check
  let (rc, self) ← self.send [self.table, ascii "GET", key]
  if rc ≠ .ok then pure self.fail
  else
    let ((rc, result), self) ← self.receive toClient toServer
    if rc ≠ .ok then pure self.fail
    else if result.head? = some (ch 'O') then
      let ((rc, v), self) ← self.receive toClient toServer
      if rc ≠ .ok then pure self.fail
      else pure ((.ok, some v), self)
    else if result.head? = some (ch 'N') then pure ((.notFound, none), self)
    else pure self.fail

/-- `kvm_put_socket (self, key, value)`. -/
def kvmPutSocket (toClient toServer : Arrivals) (self : SocketMap) (key value : List Octet) :
    Option (KvmAnswer × SocketMap) := do
  let self := self.check
  let (rc, self) ← self.send [self.table, ascii "PUT", key, value]
  if rc ≠ .ok then pure self.fail
  else
    let ((rc, result), self) ← self.receive toClient toServer
    if rc ≠ .ok then pure self.fail
    else if result.head? = some (ch 'O') then pure ((.ok, none), self)
    else pure self.fail

/-- `kvm_remove_socket (self, key)`. -/
def kvmRemoveSocket (toClient toServer : Arrivals) (self : SocketMap) (key : List Octet) :
    Option (KvmAnswer × SocketMap) := do
  let self := self.check
  let (rc, self) ← self.send [self.table, ascii "REMOVE", key]
  if rc ≠ .ok then pure self.fail
  else
    let ((rc, result), self) ← self.receive toClient toServer
    if rc ≠ .ok then pure self.fail
    else if result.head? = some (ch 'O') then pure ((.ok, none), self)
    else if result.head? = some (ch 'N') then pure ((.notFound, none), self)
    else pure self.fail

/-- The call, made through the socket map. -/
def socketCall (toClient toServer : Arrivals) (self : SocketMap) :
    KvmCall → Option (KvmAnswer × SocketMap)
  | .put key value => kvmPutSocket toClient toServer self key value
  | .get key => kvmGetSocket toClient toServer self key
  | .remove key => kvmRemoveSocket toClient toServer self key

/-- The calls of a session, made through the socket map one after the other. -/
def socketSession (toClient toServer : Arrivals) (self : SocketMap) :
    List KvmCall → Option (List KvmAnswer × SocketMap)
  | [] => some ([], self)
  | call :: calls => do
      let (answer, self) ← socketCall toClient toServer self call
      let (answers, self) ← socketSession toClient toServer self calls
      pure (answer :: answers, self)

/-- What a fetch does not decide. -/
structure FetchEnvironment where
  /-- `kvm_check_socket` finds or opens a connection. -/
  connected : Bool
  /-- `malloc` finds memory for so many octets. -/
  memory : Nat → Bool
  /-- The query is written to the socket. -/
  written : Bool
  /-- How many octets a read of a message finds behind the first one. -/
  arrived : Arrivals
  /-- What is on the stack in the octet of `number` that may be read without having been written. -/
  stack : Octet

/-- The loop over the leading length, with `number[20]`: the digits, the octet behind them and the
    input that is left, or `none` without input. -/
def recvNumber (stack : Octet) (input : List Octet) :
    Run (Option (List Octet × Octet × List Octet)) :=
  match readNumber 18 [] input with
  | .noInput => Run.store ⟨0, input.length, 20⟩ none
  | .stopped number delimiter input => do
      let _ ← Run.store ⟨0, number.length + 1, 20⟩ ()
      let _ ← Run.store ⟨(number.length + 1 : Nat), 1, 20⟩ ()
      Run.load ⟨number.length, 1, 20⟩ (some (number, delimiter, input))
  | .full number input => do
      let _ ← Run.store ⟨0, number.length, 20⟩ ()
      let _ ← Run.store ⟨(number.length + 1 : Nat), 1, 20⟩ ()
      Run.load ⟨number.length, 1, 20⟩ (some (number, stack, input))

/-- `kvm_recv (s, data, length)`: the code, and the message if there is one. Its buffer has an octet
    more, for a NUL. -/
def kvmRecvSocket (env : FetchEnvironment) (s : Socket) : Run (KvmResult × Option (List Octet)) :=
  -- The connection has been closed, or the timeout has passed.
  let noInput := if s.closed then KvmResult.eof else KvmResult.error
  do
    match ← recvNumber env.stack s.input with
    | none => pure (noInput, none)
    | some (number, delimiter, input) =>
        -- No input or invalid format.
        if number = [] ∨ delimiter ≠ ch ':' then pure (.error, none)
        else
          let (size, stop) := strtol (number ++ [delimiter]) 10
          -- Invalid decimal length.
          if stop ≠ [delimiter] then pure (.error, none)
          -- Invalid decimal number or allocation failure?
          else if ¬ env.memory (size.toNat + 1) then pure (.error, none)
          else
            let buf := input.take (min (size.toNat + 1) (env.arrived s.received + 1))
            let _ ← Run.store ⟨0, buf.length, size.toNat + 1⟩ ()
            if buf = [] then pure (noInput, none)
            -- No input or read error.
            else if buf.length ≠ size.toNat + 1 then pure (.error, none)
            else
              let c ← Run.load ⟨size.toNat, 1, size.toNat + 1⟩ (buf.getLast?.getD 0)
              -- Invalid format.
              if c ≠ ch ',' then pure (.error, none)
              else
                let _ ← Run.store ⟨size.toNat, 1, size.toNat + 1⟩ ()
                pure (.ok, some buf.dropLast)

/-- What `kvm_fetch_socket` returns and stores in `value`. -/
structure FetchAnswer where
  rc : KvmResult
  data : Option (List Octet)
  size : Nat
deriving DecidableEq, Repr

/-- The query, as `snprintf` makes it. -/
def fetchQuery (table key : List Octet) (size : Nat) : List Octet :=
  numeral 10 ((table.length + 1 + size) % 2 ^ 32) ++ ch ':' :: (table ++ ch ' ' :: (key ++ [ch ',']))

/-- What is made of a reply, in a buffer that has an octet more. -/
def fetchReply (data : List Octet) : Run FetchAnswer := do
  let c ← Run.load ⟨0, 1, data.length + 1⟩ (peek data)
  if c = ch 'O' then
    -- The query/response was "OK "; remove the prefix from the returned value.
    let size := (data.length + (2 ^ 64 - 3)) % 2 ^ 64
    let _ ← Run.load ⟨3, size, data.length + 1⟩ ()
    let _ ← Run.store ⟨0, size, data.length + 1⟩ ()
    let _ ← Run.store ⟨size, 1, data.length + 1⟩ ()
    pure ⟨.ok, some (data.drop 3), size⟩
  else
    let _ ← Run.store ⟨data.length, 1, data.length + 1⟩ ()
    pure ⟨if c = ch 'N' then .notFound else .error, some data, data.length⟩

/-- `kvm_fetch_socket (self, key, value)`, for a map with the name `table` on the connection `s`. The
    key is a string, and `size` the size that goes with it. -/
def kvmFetchSocket (env : FetchEnvironment) (s : Socket) (table key : List Octet) (size : Nat) :
    Run FetchAnswer :=
  let out_length := (10 + (table.length + 1 + size) + 2) % 2 ^ 32
  let out := fetchQuery table key size
  if ¬ env.connected ∨ ¬ env.memory out_length then pure ⟨.error, none, 0⟩
  else do
    let _ ← Run.store ⟨0, min (out.length + 1) out_length, out_length⟩ ()
    -- Buffer overflow.
    if out_length ≤ out.length ∨ ¬ env.written then pure ⟨.error, none, 0⟩
    else
      match ← kvmRecvSocket env s with
      | (.ok, some data) => fetchReply data
      | _ => pure ⟨.error, none, 0⟩

/-! ### The packets of a multicast map -/

abbrev KVM_PUT : Octet := ch 'p'
abbrev KVM_REMOVE : Octet := ch 'r'

/-- `kvm_send_packet (self, command, key, value)`: the packet, if there is one. -/
def kvmSendPacket (command : Octet) (key value : List Octet) : Option (List Octet) :=
  let packet_length := 3 + key.length + value.length
  if 255 < key.length ∨ 255 < value.length ∨ 512 < packet_length then none
  else some (command :: UInt8.ofNat key.length :: UInt8.ofNat value.length :: (key ++ value))

/-- `socketReadFrom (socket, packet, sizeof (packet), NULL)`: an error leaves the array, of a
    datagram what does not fit is lost, and what is behind it in the array stays. -/
def listenerRead (packet : Buffer 512) : Option (List Octet) → Buffer 512
  | none => packet
  | some datagram => packet.splice 0 (datagram.take 512)

/-- A `kvm_data` handed to the local map, which reads it. -/
def listenerData (packet : Buffer 512) (first size : Nat) : Run (List Octet) :=
  Run.load ⟨first, size, 512⟩ ((packet.octets.drop first).take size)

/-- What `kvm_listener_multicast` does with the array after a read: the call of the local map, if
    there is one. -/
def listenerPacket (packet : Buffer 512) : Run (Option KvmCall) :=
  let key_size := (packet.get 1).toNat
  let value_size := (packet.get 2).toNat
  if packet.get 0 = KVM_PUT then do
    let key ← listenerData packet 3 key_size
    let value ← listenerData packet (3 + key_size) value_size
    pure (some (.put key value))
  else if packet.get 0 = KVM_REMOVE then do
    let key ← listenerData packet 3 key_size
    pure (some (.remove key))
  else pure none

end Snert
