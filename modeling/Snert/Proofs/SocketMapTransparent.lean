/-
Module: Snert.Proofs.SocketMapTransparent
Purpose: A session through a socket map, next to the same calls made on the hash map that is served.
  Each message is received as it was sent, each request takes the messages of one call and leaves
  those of its answer, and from call to call the two ends have nothing left to read.
Trusted boundary: none
Main exports: socketSession_transparent
-/
import Mathlib.Data.Nat.Digits.Defs
import Snert.Kvm.SocketMap
import Snert.Proofs.HashMapContent

namespace Snert

open CModel

/-! ### Messages -/

/-- A message is short enough for the `int` that counts its octets. -/
def FitsInt (buffer : List Octet) : Prop :=
  (numeral 10 buffer.length).length + buffer.length + 2 < 2 ^ 31

instance (buffer : List Octet) : Decidable (FitsInt buffer) :=
  inferInstanceAs (Decidable (_ < _))

/-- A net string. -/
def message (buffer : List Octet) : List Octet :=
  numeral 10 buffer.length ++ ch ':' :: buffer ++ [ch ',']

theorem FitsInt.numeral_length {buffer : List Octet} (h : FitsInt buffer) :
    (numeral 10 buffer.length).length ≤ 10 := by
  have hlt : buffer.length < 10 ^ 10 := by
    unfold FitsInt at h
    omega
  rw [numeral, List.length_map]
  exact Nat.toDigits_length 10 _ 10 (by decide) hlt

theorem kvmSend_fits {buffer : List Octet} (h : FitsInt buffer) :
    kvmSend buffer = some (.ok, message buffer) := by
  have hdigits := h.numeral_length
  have hlength : (numeral 10 buffer.length ++ [ch ':']).length =
      (numeral 10 buffer.length).length + 1 := by
    rw [List.length_append, List.length_singleton]
  have hint : (Int32.ofNat ((numeral 10 buffer.length ++ [ch ':']).length + buffer.length)).toInt =
      ((numeral 10 buffer.length ++ [ch ':']).length + buffer.length : Nat) := by
    rw [Int32.toInt_ofNat_of_lt]
    unfold FitsInt at h
    omega
  rw [kvmSend]
  dsimp only
  unfold FitsInt at h
  rw [if_neg (by omega), hint, if_neg (by omega), Int.toNat_natCast, ← List.length_append,
    List.take_length]
  simp [message]

theorem readNumber_digits {digits : List Octet} (h : ∀ c ∈ digits, isDigit 10 c) {i : Nat}
    (hi : digits.length < i) (number : List Octet) {c : Octet} (hc : isDigit 10 c = false)
    (input : List Octet) :
    readNumber i number (digits ++ c :: input) = .stopped (number ++ digits) c input := by
  induction digits generalizing i number with
  | nil =>
      cases i with
      | zero => simp at hi
      | succ i => rw [List.nil_append, readNumber, hc, List.append_nil]; rfl
  | cons d digits ih =>
      cases i with
      | zero => simp at hi
      | succ i =>
          rw [List.cons_append, readNumber, if_pos (h d List.mem_cons_self),
            ih (fun e he => h e (List.mem_cons_of_mem d he)) (Nat.lt_of_succ_lt_succ hi),
            List.append_assoc, List.singleton_append]

theorem kvmRecv_message (arrived : Arrivals) {buffer : List Octet} (h : FitsInt buffer)
    (rest : List Octet) (received : Nat) (closed : Bool)
    (hwhole : buffer.length ≤ arrived received) :
    kvmRecv arrived ⟨message buffer ++ rest, received, closed⟩ =
      some ((.ok, buffer), ⟨rest, received + 1, closed⟩) := by
  have hdigits := h.numeral_length
  obtain ⟨⟨hne, hall⟩, hvalue⟩ := numeral_reads 10 (by decide) (by decide) buffer.length
  have hinput : message buffer ++ rest =
      numeral 10 buffer.length ++ ch ':' :: (buffer ++ ch ',' :: rest) := by
    simp [message]
  have hnumber : readNumber 18 [] (message buffer ++ rest) =
      .stopped (numeral 10 buffer.length) (ch ':') (buffer ++ ch ',' :: rest) := by
    rw [hinput, readNumber_digits hall (by omega) [] (by decide)]
    rfl
  have hsize : strtol (numeral 10 buffer.length ++ [ch ':']) 10 =
      ((buffer.length : Int), [ch ':']) := by
    rw [strtol_digits_delimiter (by decide) ⟨hne, hall⟩ (by decide), hvalue, clampLong_natCast]
    unfold FitsInt at h
    omega
  have hmin : min (buffer.length + 1) (arrived received + 1) = buffer.length + 1 := by omega
  have hbody : (buffer ++ ch ',' :: rest).take (buffer.length + 1) = buffer ++ [ch ','] := by
    simp [List.take_append]
  have hlength : (buffer ++ [ch ',']).length = buffer.length + 1 := by simp
  have hrest : (buffer ++ ch ',' :: rest).drop (buffer.length + 1) = rest := by
    simp [List.drop_append]
  rw [kvmRecv]
  dsimp only
  rw [hnumber]
  dsimp only
  rw [if_neg (by simp [hne]), hsize]
  dsimp only
  rw [if_neg (not_not.mpr rfl), Int.toNat_natCast, hmin, hbody, hlength, hrest,
    if_neg (by simp), if_neg (not_not.mpr rfl), if_neg (by simp), List.dropLast_concat]

/-! ### One call -/

/-- A table name: a C string without blanks. -/
structure TableName where
  octets : List Octet
  plain : ∀ c ∈ octets, c ≠ 0 ∧ c ≠ ch ' '

/-- The messages of a call. -/
def questions (table : List Octet) : KvmCall → List (List Octet)
  | .put key value => [table, ascii "PUT", key, value]
  | .get key => [table, ascii "GET", key]
  | .remove key => [table, ascii "REMOVE", key]

/-- The messages of the answer. -/
def answers (map : KvmHashTable) : KvmCall → List (List Octet)
  | .put _ _ => [ascii "OK"]
  | .get key =>
      match kvmFetchHash map key with
      | none => [ascii "NOTFOUND"]
      | some value => [ascii "OK", value]
  | .remove _ => [ascii "OK"]

/-- What the call returns: a key that is removed is always said to have been there. -/
def overSocket (map : KvmHashTable) : KvmCall → KvmAnswer
  | .remove _ => (.ok, none)
  | call => (map.call call).1

/-- Messages that an end begins to read as its `first`-th one and the ones behind it: each is short
enough, and has arrived as a whole when its body is read. -/
def Carried (arrived : Arrivals) : Nat → List (List Octet) → Prop
  | _, [] => True
  | first, buffer :: buffers =>
      FitsInt buffer ∧ buffer.length ≤ arrived first ∧ Carried arrived (first + 1) buffers

instance Carried.decide (arrived : Arrivals) :
    ∀ (first : Nat) (buffers : List (List Octet)), Decidable (Carried arrived first buffers)
  | _, [] => isTrue trivial
  | first, buffer :: buffers =>
      have := Carried.decide arrived (first + 1) buffers
      inferInstanceAs (Decidable (FitsInt buffer ∧ buffer.length ≤ arrived first ∧ _))

theorem send_carried {arrived : Arrivals} {buffers : List (List Octet)} {first : Nat}
    (h : Carried arrived first buffers) (self : SocketMap) :
    self.send buffers = some (.ok, { self with link := { self.link with
      server := { self.link.server with
        input := self.link.server.input ++ buffers.flatMap message } } }) := by
  induction buffers generalizing first self with
  | nil => simp [SocketMap.send]
  | cons buffer buffers ih =>
      obtain ⟨hfits, -, hrest⟩ := h
      rw [SocketMap.send, kvmSend_fits hfits]
      simp only [Option.bind_eq_bind, Option.bind_some, ne_eq, not_true_eq_false, if_false]
      rw [ih hrest, List.flatMap_cons, ← List.append_assoc]

theorem read_message (arrived : Arrivals) {buffer : List Octet} (h : FitsInt buffer)
    (rest : List Octet) (client : Socket) (received : Nat) (maps : List ServedMap)
    (hwhole : buffer.length ≤ arrived received) :
    Connection.read arrived ⟨client, ⟨message buffer ++ rest, received, false⟩, maps⟩ =
      some ((.ok, buffer), ⟨client, ⟨rest, received + 1, false⟩, maps⟩) := by
  rw [Connection.read, kvmRecv_message arrived h rest received false hwhole]
  rfl

theorem reply_fits {buffer : List Octet} (h : FitsInt buffer) (client server : Socket)
    (maps : List ServedMap) : Connection.reply ⟨client, server, maps⟩ buffer =
      some ⟨{ client with input := client.input ++ message buffer }, server, maps⟩ := by
  rw [Connection.reply, kvmSend_fits h]
  rfl

theorem messageText_plain {octets : List Octet} (h : ∀ c ∈ octets, c ≠ 0) :
    messageText octets = octets :=
  List.takeWhile_eq_self_iff.mpr fun c hc => by simpa using h c hc

theorem findTable_changeTable {table : List Octet} {map : KvmHashTable} {maps : List ServedMap}
    (h : findTable maps table = some map) (content : KvmHashTable) :
    findTable (changeTable table content maps) table = some content := by
  unfold findTable at h ⊢
  induction maps with
  | nil => simp at h
  | cons served maps ih =>
      rw [changeTable]
      by_cases heq : served.table = table
      · rw [if_pos heq, List.find?_cons_of_pos (by simp)]
        rfl
      · rw [List.find?_cons_of_neg (by simpa using heq)] at h
        rw [if_neg heq, List.find?_cons_of_neg (by simpa using heq)]
        exact ih h

section
variable {arrived : Arrivals} {table : TableName} {map : KvmHashTable} {maps : List ServedMap}

theorem request_command (hfound : findTable maps table.octets = some map) {command : List Octet}
    {first : Nat} {rest : List (List Octet)}
    (hcarried : Carried arrived first (table.octets :: command :: rest)) (client : Socket) :
    request arrived
        ⟨client, ⟨(table.octets :: command :: rest).flatMap message, first, false⟩, maps⟩ =
      (let link : Connection := ⟨client, ⟨rest.flatMap message, first + 2, false⟩, maps⟩
      if strcasecmp (ascii "GET") (messageText command) = 0 then
        (requestGet arrived map link).map fun (rc, link) => (decide (rc = .ok), link)
      else if strcasecmp (ascii "PUT") (messageText command) = 0 then
        (requestPut arrived table.octets map link).map fun (rc, link) => (decide (rc = .ok), link)
      else if strcasecmp (ascii "REMOVE") (messageText command) = 0 then
        (requestRemove arrived table.octets map link).map fun (rc, link) =>
          (decide (rc = .ok), link)
      else
        (link.reply (ascii "PERM invalid operation")).map fun link => (true, link)) := by
  obtain ⟨htable, hwhole, hcommand, hwhole', -⟩ := hcarried
  have htext : messageText table.octets = table.octets :=
    messageText_plain fun c hc => (table.plain c hc).1
  have hblank : ch ' ' ∉ table.octets := fun h => (table.plain _ h).2 rfl
  rw [request, List.flatMap_cons, List.flatMap_cons,
    read_message arrived htable _ client _ maps hwhole]
  simp only [Option.bind_eq_bind, Option.bind_some, reduceCtorEq, if_false, hblank, htext, hfound]
  rw [read_message arrived hcommand _ client _ maps hwhole']
  simp only [Option.bind_some, ne_eq, not_true_eq_false, if_false]
  split
  · exact Option.map_eq_bind.symm
  · split
    · exact Option.map_eq_bind.symm
    · split
      · exact Option.map_eq_bind.symm
      · exact Option.map_eq_bind.symm

theorem fits_ok : FitsInt (ascii "OK") := by
  unfold FitsInt
  decide

theorem requestGet_spec {key : List Octet} {first : Nat} (hcarried : Carried arrived first [key])
    (hfits : ∀ buffer ∈ answers map (.get key), FitsInt buffer) (client : Socket) :
    requestGet arrived map ⟨client, ⟨[key].flatMap message, first, false⟩, maps⟩ =
      some (.ok, ⟨{ client with
        input := client.input ++ (answers map (.get key)).flatMap message },
        ⟨[], first + 1, false⟩, maps⟩) := by
  obtain ⟨hkey, hwhole, -⟩ := hcarried
  rw [requestGet, List.flatMap_cons, read_message arrived hkey _ client _ maps hwhole]
  simp only [answers] at hfits ⊢
  simp only [Option.bind_eq_bind, Option.bind_some, ne_eq, not_true_eq_false, if_false, kvmGetHash]
  cases hfetch : kvmFetchHash map key with
  | none =>
      rw [hfetch] at hfits
      dsimp only
      rw [reply_fits (hfits _ List.mem_cons_self)]
      simp
  | some value =>
      rw [hfetch] at hfits
      dsimp only
      rw [reply_fits fits_ok, Option.bind_some,
        reply_fits (hfits _ (List.mem_cons_of_mem _ List.mem_cons_self))]
      simp

theorem requestPut_spec {key value : List Octet} {first : Nat}
    (hcarried : Carried arrived first [key, value]) (client : Socket) :
    requestPut arrived table.octets map
        ⟨client, ⟨[key, value].flatMap message, first, false⟩, maps⟩ =
      some (.ok, ⟨{ client with input := client.input ++ message (ascii "OK") },
        ⟨[], first + 2, false⟩, changeTable table.octets (kvmPutHash map key value).2 maps⟩) := by
  obtain ⟨hkey, hwhole, hvalue, hwhole', -⟩ := hcarried
  rw [requestPut, List.flatMap_cons, read_message arrived hkey _ client _ maps hwhole]
  simp only [Option.bind_eq_bind, Option.bind_some, ne_eq, not_true_eq_false, if_false]
  rw [List.flatMap_cons, read_message arrived hvalue _ client _ maps hwhole']
  simp only [Option.bind_some, not_true_eq_false, if_false]
  rw [if_neg (by simp [kvmPutHash]), reply_fits fits_ok]
  rfl

theorem requestRemove_spec {key : List Octet} {first : Nat} (hcarried : Carried arrived first [key])
    (client : Socket) :
    requestRemove arrived table.octets map ⟨client, ⟨[key].flatMap message, first, false⟩, maps⟩ =
      some (.ok, ⟨{ client with input := client.input ++ message (ascii "OK") },
        ⟨[], first + 1, false⟩, changeTable table.octets (kvmRemoveHash map key).2 maps⟩) := by
  obtain ⟨hkey, hwhole, -⟩ := hcarried
  have hresult : (kvmRemoveHash map key).1 ≠ .error := by
    unfold kvmRemoveHash
    split <;> simp
  rw [requestRemove, List.flatMap_cons, read_message arrived hkey _ client _ maps hwhole]
  simp only [Option.bind_eq_bind, Option.bind_some, ne_eq, not_true_eq_false, if_false]
  rw [if_neg hresult, reply_fits fits_ok]
  rfl

theorem request_spec (hfound : findTable maps table.octets = some map) (call : KvmCall)
    {first : Nat} (hcarried : Carried arrived first (questions table.octets call))
    (hfits : ∀ buffer ∈ answers map call, FitsInt buffer) (client : Socket) :
    ∃ maps', request arrived
        ⟨client, ⟨(questions table.octets call).flatMap message, first, false⟩, maps⟩ =
      some (true, ⟨{ client with input := client.input ++ (answers map call).flatMap message },
        ⟨[], first + (questions table.octets call).length, false⟩, maps'⟩) ∧
      findTable maps' table.octets = some (map.call call).2 := by
  cases call with
  | put key value =>
      refine ⟨_, ?_, findTable_changeTable hfound _⟩
      rw [questions, request_command hfound hcarried]
      dsimp only
      rw [if_neg (by decide), if_pos (by decide), requestPut_spec hcarried.2.2.2.2]
      rfl
  | get key =>
      refine ⟨_, ?_, hfound⟩
      rw [questions, request_command hfound hcarried]
      dsimp only
      rw [if_pos (by decide), requestGet_spec hcarried.2.2.2.2 hfits]
      rfl
  | remove key =>
      refine ⟨_, ?_, findTable_changeTable hfound _⟩
      rw [questions, request_command hfound hcarried]
      dsimp only
      rw [if_neg (by decide), if_neg (by decide), if_pos (by decide),
        requestRemove_spec hcarried.2.2.2.2]
      rfl

theorem serve_spec (hfound : findTable maps table.octets = some map) (call : KvmCall) {first : Nat}
    (hcarried : Carried arrived first (questions table.octets call))
    (hfits : ∀ buffer ∈ answers map call, FitsInt buffer) (client : Socket) :
    ∃ maps', serve arrived ((questions table.octets call).flatMap message).length
        ⟨client, ⟨(questions table.octets call).flatMap message, first, false⟩, maps⟩ =
      some ⟨{ client with input := client.input ++ (answers map call).flatMap message },
        ⟨[], first + (questions table.octets call).length, false⟩, maps'⟩ ∧
      findTable maps' table.octets = some (map.call call).2 := by
  obtain ⟨maps', hrequest, hfound'⟩ := request_spec hfound call hcarried hfits client
  have hinput : (questions table.octets call).flatMap message ≠ [] := by
    cases call <;> simp [questions, message]
  obtain ⟨n, hn⟩ := Nat.exists_eq_succ_of_ne_zero (mt List.length_eq_zero_iff.mp hinput)
  refine ⟨maps', ?_, hfound'⟩
  rw [hn, serve, if_neg hinput, hrequest]
  simp only [Option.bind_eq_bind, Option.bind_some, if_true]
  cases n <;> rfl

end

theorem Carried.fits {arrived : Arrivals} {buffers : List (List Octet)} {first : Nat}
    (h : Carried arrived first buffers) : ∀ buffer ∈ buffers, FitsInt buffer := by
  induction buffers generalizing first with
  | nil => simp
  | cons buffer buffers ih => exact List.forall_mem_cons.mpr ⟨h.1, ih h.2.2⟩

/-- A socket map between two calls, of which `client` and `server` messages have been received. -/
def between (table : TableName) (client server : Nat) (maps : List ServedMap) : SocketMap :=
  ⟨table.octets, true, ⟨⟨[], client, false⟩, ⟨[], server, false⟩, maps⟩⟩

section
variable {toClient toServer : Arrivals} {table : TableName} {map : KvmHashTable}
  {maps : List ServedMap} {client server : Nat}

theorem receive_spec (hfound : findTable maps table.octets = some map) (call : KvmCall)
    (hquestions : Carried toServer server (questions table.octets call))
    {answer : List Octet} {rest : List (List Octet)} (hanswer : answers map call = answer :: rest)
    (hanswers : Carried toClient client (answer :: rest)) :
    ∃ maps', SocketMap.receive toClient toServer ⟨table.octets, true, ⟨⟨[], client, false⟩,
        ⟨(questions table.octets call).flatMap message, server, false⟩, maps⟩⟩ =
      some ((.ok, answer), ⟨table.octets, true, ⟨⟨rest.flatMap message, client + 1, false⟩,
        ⟨[], server + (questions table.octets call).length, false⟩, maps'⟩⟩) ∧
      findTable maps' table.octets = some (map.call call).2 := by
  obtain ⟨maps', hserve, hfound'⟩ := serve_spec hfound call hquestions
    (by rw [hanswer]; exact hanswers.fits) ⟨[], client, false⟩
  refine ⟨maps', ?_, hfound'⟩
  rw [SocketMap.receive]
  dsimp only
  rw [hserve, hanswer]
  simp only [Option.bind_eq_bind, Option.bind_some, List.nil_append, List.flatMap_cons]
  rw [kvmRecv_message toClient hanswers.1 _ client false hanswers.2.1]
  rfl

theorem send_questions (client : Nat) (maps : List ServedMap) (call : KvmCall)
    (hquestions : Carried toServer server (questions table.octets call)) :
    (between table client server maps).check.send (questions table.octets call) =
      some (.ok, ⟨table.octets, true, ⟨⟨[], client, false⟩,
        ⟨(questions table.octets call).flatMap message, server, false⟩, maps⟩⟩) :=
  send_carried hquestions (between table client server maps)

/-- The code and the value of a call whose messages are carried, and the call itself. -/
theorem socketCall_spec (hfound : findTable maps table.octets = some map) (call : KvmCall)
    (hquestions : Carried toServer server (questions table.octets call))
    (hanswers : Carried toClient client (answers map call)) :
    ∃ maps', socketCall toClient toServer (between table client server maps) call =
        some (overSocket map call, between table (client + (answers map call).length)
          (server + (questions table.octets call).length) maps') ∧
      findTable maps' table.octets = some (map.call call).2 := by
  have hsend := send_questions client maps call hquestions
  have hfirst : (ascii "OK").head? = some (ch 'O') := by decide
  cases call with
  | put key value =>
      obtain ⟨maps', hreceive, hfound'⟩ := receive_spec hfound _ hquestions rfl hanswers
      refine ⟨maps', ?_, hfound'⟩
      change (SocketMap.send _ (questions table.octets (.put key value))).bind _ = _
      rw [hsend, Option.bind_some]
      dsimp only
      rw [if_neg (not_not.mpr rfl)]
      change (SocketMap.receive toClient toServer _).bind _ = _
      rw [hreceive, Option.bind_some]
      dsimp only
      rw [if_neg (not_not.mpr rfl), if_pos hfirst]
      rfl
  | get key =>
      have hdirect : overSocket map (.get key) = kvmGetHash map key := rfl
      cases hfetch : kvmFetchHash map key with
      | none =>
          have hanswer : answers map (.get key) = [ascii "NOTFOUND"] := by rw [answers, hfetch]
          obtain ⟨maps', hreceive, hfound'⟩ :=
            receive_spec hfound _ hquestions hanswer (hanswer ▸ hanswers)
          refine ⟨maps', ?_, hfound'⟩
          rw [hanswer, hdirect, kvmGetHash, hfetch]
          change (SocketMap.send _ (questions table.octets (.get key))).bind _ = _
          rw [hsend, Option.bind_some]
          dsimp only
          rw [if_neg (not_not.mpr rfl)]
          change (SocketMap.receive toClient toServer _).bind _ = _
          rw [hreceive, Option.bind_some]
          dsimp only
          have hfirst' : (ascii "NOTFOUND").head? = some (ch 'N') := by decide
          rw [if_neg (not_not.mpr rfl), hfirst', if_neg (by decide), if_pos rfl]
          rfl
      | some value =>
          have hanswer : answers map (.get key) = [ascii "OK", value] := by rw [answers, hfetch]
          rw [hanswer] at hanswers
          obtain ⟨maps', hreceive, hfound'⟩ := receive_spec hfound _ hquestions hanswer hanswers
          refine ⟨maps', ?_, hfound'⟩
          rw [hanswer, hdirect, kvmGetHash, hfetch]
          change (SocketMap.send _ (questions table.octets (.get key))).bind _ = _
          rw [hsend, Option.bind_some]
          dsimp only
          rw [if_neg (not_not.mpr rfl)]
          change (SocketMap.receive toClient toServer _).bind _ = _
          rw [hreceive, Option.bind_some]
          dsimp only
          rw [if_neg (not_not.mpr rfl), if_pos hfirst]
          -- The value is there already: the server has nothing left to do.
          change ((kvmRecv toClient ⟨message value ++ [], client + 1, false⟩).bind _).bind _ = _
          rw [kvmRecv_message toClient hanswers.2.2.1 _ _ _ hanswers.2.2.2.1]
          rfl
  | remove key =>
      obtain ⟨maps', hreceive, hfound'⟩ := receive_spec hfound _ hquestions rfl hanswers
      refine ⟨maps', ?_, hfound'⟩
      change (SocketMap.send _ (questions table.octets (.remove key))).bind _ = _
      rw [hsend, Option.bind_some]
      dsimp only
      rw [if_neg (not_not.mpr rfl)]
      change (SocketMap.receive toClient toServer _).bind _ = _
      rw [hreceive, Option.bind_some]
      dsimp only
      rw [if_neg (not_not.mpr rfl), if_pos hfirst]
      rfl

end

/-! ### Sessions -/

/-- Every message of a session is carried, `client` and `server` ones having been received
before. -/
def SessionCarried (toClient toServer : Arrivals) (table : TableName) :
    Nat → Nat → KvmHashTable → List KvmCall → Prop
  | _, _, _, [] => True
  | client, server, map, call :: calls =>
      Carried toServer server (questions table.octets call) ∧
        Carried toClient client (answers map call) ∧
        SessionCarried toClient toServer table (client + (answers map call).length)
          (server + (questions table.octets call).length) (map.call call).2 calls

instance SessionCarried.decide (toClient toServer : Arrivals) (table : TableName) :
    ∀ (client server : Nat) (map : KvmHashTable) (calls : List KvmCall),
      Decidable (SessionCarried toClient toServer table client server map calls)
  | _, _, _, [] => isTrue trivial
  | client, server, map, call :: calls =>
      have := SessionCarried.decide toClient toServer table (client + (answers map call).length)
        (server + (questions table.octets call).length) (map.call call).2 calls
      inferInstanceAs (Decidable (Carried _ _ _ ∧ Carried _ _ _ ∧ _))

/-- Every key that a session removes is in the map at that time. -/
def RemovesHeld : KvmHashTable → List KvmCall → Prop
  | _, [] => True
  | map, call :: calls =>
      (∀ key, call = .remove key → kvmFetchHash map key ≠ none) ∧
        RemovesHeld (map.call call).2 calls

/-- What the calls of a session return. -/
def sessionOverSocket : KvmHashTable → List KvmCall → List KvmAnswer
  | _, [] => []
  | map, call :: calls => overSocket map call :: sessionOverSocket (map.call call).2 calls

theorem socketSession_spec {toClient toServer : Arrivals} {table : TableName} {map : KvmHashTable}
    {maps : List ServedMap} {client server : Nat} (hfound : findTable maps table.octets = some map)
    {calls : List KvmCall}
    (hcarried : SessionCarried toClient toServer table client server map calls) :
    ∃ self, socketSession toClient toServer (between table client server maps) calls =
        some (sessionOverSocket map calls, self) ∧
      findTable self.link.maps table.octets = some (map.session calls).2 := by
  induction calls generalizing map maps client server with
  | nil => exact ⟨_, rfl, hfound⟩
  | cons call calls ih =>
      obtain ⟨hquestions, hanswers, hrest⟩ := hcarried
      obtain ⟨maps', hcall, hfound'⟩ := socketCall_spec hfound call hquestions hanswers
      obtain ⟨self, hsession, hmaps⟩ := ih hfound' hrest
      refine ⟨self, ?_, hmaps⟩
      rw [socketSession, hcall]
      simp only [Option.bind_eq_bind, Option.bind_some, hsession]
      rfl

theorem overSocket_eq_iff (map : KvmHashTable) (call : KvmCall) :
    overSocket map call = (map.call call).1 ↔
      ∀ key, call = .remove key → kvmFetchHash map key ≠ none := by
  cases call with
  | put key value => exact iff_of_true rfl nofun
  | get key => exact iff_of_true rfl nofun
  | remove key =>
      have hover : overSocket map (.remove key) = (.ok, none) := rfl
      have hhead : (∀ key', KvmCall.remove key = .remove key' → kvmFetchHash map key' ≠ none) ↔
          map.content key ≠ none :=
        ⟨fun h => h key rfl, fun h key' hkey => KvmCall.remove.inj hkey ▸ h⟩
      rw [hover, (call_refines map _).1, KvmCall.effect, hhead]
      by_cases hnone : map.content key = none
      · simp [hnone]
      · simp [hnone]

theorem sessionOverSocket_eq_iff (map : KvmHashTable) (calls : List KvmCall) :
    sessionOverSocket map calls = (map.session calls).1 ↔ RemovesHeld map calls := by
  induction calls generalizing map with
  | nil => exact iff_of_true rfl trivial
  | cons call calls ih =>
      rw [sessionOverSocket, RemovesHeld, ← ih, ← overSocket_eq_iff]
      exact List.cons_eq_cons

/-! ### Transparency -/

/-- In a session whose messages are all carried, and that removes no key that is not there, each
call returns what it returns on the map itself, and the map is left as the calls themselves leave
it. -/
theorem socketSession_transparent (table : TableName) (maps : List ServedMap) (map : KvmHashTable)
    (toClient toServer : Arrivals) (calls : List KvmCall)
    (hfound : findTable maps table.octets = some map)
    (hcarried : SessionCarried toClient toServer table 0 0 map calls)
    (hheld : RemovesHeld map calls) :
    ∃ self, socketSession toClient toServer (between table 0 0 maps) calls =
        some ((map.session calls).1, self) ∧
      findTable self.link.maps table.octets = some (map.session calls).2 := by
  obtain ⟨self, hsession, hmaps⟩ := socketSession_spec hfound hcarried
  rw [(sessionOverSocket_eq_iff map calls).mpr hheld] at hsession
  exact ⟨self, hsession, hmaps⟩

theorem socketSession_putRemove : ∃ self,
    socketSession (fun _ => 2 ^ 31) (fun _ => 2 ^ 31)
        (between ⟨ascii "t", by decide⟩ 0 0 [⟨ascii "t", .empty⟩])
        [.put (ascii "k") [0, 1], .remove (ascii "k")] =
      some ((KvmHashTable.empty.session [.put (ascii "k") [0, 1], .remove (ascii "k")]).1, self) ∧
    findTable self.link.maps (ascii "t") =
      some (KvmHashTable.empty.session [.put (ascii "k") [0, 1], .remove (ascii "k")]).2 :=
  socketSession_transparent ⟨ascii "t", by decide⟩ [⟨ascii "t", .empty⟩] .empty _ _ _ rfl
    (by decide) ⟨nofun, fun key hkey => by cases hkey; decide, trivial⟩

/-- A key that was never put is removed with the code for one that was there. -/
theorem socketSession_removeMissing : ¬ ∀ (table : TableName) (maps : List ServedMap)
    (map : KvmHashTable) (calls : List KvmCall), findTable maps table.octets = some map →
      ∃ self, socketSession (fun _ => 2 ^ 31) (fun _ => 2 ^ 31) (between table 0 0 maps) calls =
        some ((map.session calls).1, self) := by
  intro h
  obtain ⟨self, hsession⟩ := h ⟨ascii "t", by decide⟩ [⟨ascii "t", .empty⟩] .empty
    [.remove (ascii "k")] rfl
  have hcode : (socketSession (fun _ => 2 ^ 31) (fun _ => 2 ^ 31)
      (between ⟨ascii "t", by decide⟩ 0 0 [⟨ascii "t", .empty⟩])
      [.remove (ascii "k")]).map Prod.fst = some [(.ok, none)] := by decide
  rw [hsession] at hcode
  have hanswers : (KvmHashTable.empty.session [.remove (ascii "k")]).1 ≠ [(.ok, none)] := by decide
  exact hanswers (Option.some.inj hcode)

end Snert
