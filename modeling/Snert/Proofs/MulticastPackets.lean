/-
Module: Snert.Proofs.MulticastPackets
Purpose: What a multicast listener hands to its map. A packet that was sent is applied as it was
  meant. Of any other datagram the sizes are trusted, and behind a short one stand the octets of
  those before it, so that the data lie inside exactly if every datagram is as long as it says.
Trusted boundary: none
Main exports: kvmListener_exact_iff
-/
import Snert.Kvm.SocketMap

namespace Snert

open CModel CModel.Run

/-! ### One packet -/

/-- What the map is given lies in the first octets of the array. -/
def HandsWithin (packet : Buffer 512) (received : Nat) : Prop :=
  ∀ a ∈ (listenerPacket packet).accesses, a.InBounds ∧ a.first + a.count ≤ received

theorem handsWithin_iff (packet : Buffer 512) {received : Nat}
    (h : received ≤ 512) :
    HandsWithin packet received ↔
      (packet.get 0 = KVM_PUT →
        3 + (packet.get 1).toNat + (packet.get 2).toNat ≤ received) ∧
      (packet.get 0 = KVM_REMOVE → 3 + (packet.get 1).toNat ≤ received) := by
  unfold HandsWithin listenerPacket
  dsimp only
  split
  next hput =>
    rw [hput, forall_prop_of_true rfl, forall_prop_of_false (by decide), and_true]
    generalize (packet.get 1).toNat = k, (packet.get 2).toNat = v
    change (∀ a ∈ [(⟨(3 : Nat), k, 512⟩ : Access), ⟨(3 + k : Nat), v, 512⟩],
      a.InBounds ∧ a.first + a.count ≤ received) ↔ _
    simp only [List.forall_mem_cons, Access.InBounds]
    simp
    omega
  next hput =>
    rw [forall_prop_of_false hput, true_and]
    split
    next hremove =>
      rw [hremove, forall_prop_of_true rfl]
      generalize (packet.get 1).toNat = k
      change (∀ a ∈ [(⟨(3 : Nat), k, 512⟩ : Access)],
        a.InBounds ∧ a.first + a.count ≤ received) ↔ _
      simp only [List.forall_mem_singleton, Access.InBounds]
      omega
    next hremove =>
      rw [forall_prop_of_false hremove]
      exact iff_of_true (by rintro _ ⟨⟩) trivial

theorem octets_listenerRead (packet : Buffer 512) (datagram : List Octet) :
    (listenerRead packet datagram).octets =
      datagram.take 512 ++ packet.octets.drop (datagram.take 512).length := by
  rw [listenerRead, Buffer.octets_splice _ (by rw [List.length_take]; omega), List.take_zero,
    List.nil_append, Nat.zero_add]

theorem listenerRead_sent (packet : Buffer 512) {command : Octet}
    {key value datagram : List Octet} (h : kvmSendPacket command key value = some datagram) :
    (listenerRead packet datagram).get 0 = command ∧
      ((listenerRead packet datagram).get 1).toNat = key.length ∧
      ((listenerRead packet datagram).get 2).toNat = value.length ∧
      ∃ rest, (listenerRead packet datagram).octets.drop 3 = key ++ (value ++ rest) := by
  rw [kvmSendPacket] at h
  split at h
  · cases h
  next hfits =>
    obtain ⟨hkey, hvalue, hlength⟩ : key.length ≤ 255 ∧ value.length ≤ 255 ∧
        3 + key.length + value.length ≤ 512 := by omega
    cases h
    have htake : (command :: UInt8.ofNat key.length :: UInt8.ofNat value.length ::
        (key ++ value)).take 512 =
          command :: UInt8.ofNat key.length :: UInt8.ofNat value.length :: (key ++ value) :=
      List.take_of_length_le (by simp; omega)
    simp only [Buffer.get, octets_listenerRead, htake]
    refine ⟨rfl, Nat.mod_eq_of_lt (by omega), Nat.mod_eq_of_lt (by omega), ?_⟩
    simp only [List.cons_append, List.drop_succ_cons, List.drop_zero, List.append_assoc]
    exact ⟨_, rfl⟩

theorem listenerPacket_put (packet : Buffer 512) {key value datagram : List Octet}
    (h : kvmSendPacket KVM_PUT key value = some datagram) :
    (listenerPacket (listenerRead packet datagram)).outcome = .done (some (.put key value)) := by
  obtain ⟨hcommand, hkey, hvalue, rest, hdata⟩ := listenerRead_sent packet h
  rw [listenerPacket, hkey, hvalue, if_pos hcommand]
  simp [listenerData, ← List.drop_drop, hdata]

theorem listenerPacket_remove (packet : Buffer 512) {key value datagram : List Octet}
    (h : kvmSendPacket KVM_REMOVE key value = some datagram) :
    (listenerPacket (listenerRead packet datagram)).outcome = .done (some (.remove key)) := by
  obtain ⟨hcommand, hkey, -, rest, hdata⟩ := listenerRead_sent packet h
  rw [listenerPacket, hkey, if_neg (hcommand ▸ by decide), if_pos hcommand]
  simp [listenerData, hdata]

/-! ### Runs -/

theorem get_listenerRead (packet : Buffer 512) {datagram : List Octet} {i : Nat}
    (h : i < datagram.length) (hi : i < 512) :
    (listenerRead packet datagram).get i = datagram.getD i 0 := by
  have htake : i < (datagram.take 512).length := by
    rw [List.length_take]
    omega
  rw [Buffer.get, octets_listenerRead, List.getD_eq_getElem?_getD,
    List.getElem?_append_left htake, List.getElem?_take_of_lt hi, ← List.getD_eq_getElem?_getD]

theorem get_listenerRead_zero (packet : Buffer 512) (datagram : List Octet) :
    (listenerRead packet datagram).get 0 = datagram.headD (packet.get 0) := by
  rw [Buffer.get, octets_listenerRead]
  cases datagram with
  | nil => rfl
  | cons c datagram => rfl

/-- The first octet of the array after a read. -/
def commandAfter (command : Octet) : Option (List Octet) → Octet
  | some datagram => datagram.headD command
  | none => command

/-- A datagram is as long as it says, where `command` is the first octet of the array before it. -/
def AsLongAsItSays (command : Octet) (datagram : List Octet) : Prop :=
  let received := min datagram.length 512
  (datagram.headD command = KVM_PUT →
      3 + (datagram.getD 1 0).toNat + (datagram.getD 2 0).toNat ≤ received) ∧
    (datagram.headD command = KVM_REMOVE → 3 + (datagram.getD 1 0).toNat ≤ received)

instance (command : Octet) (datagram : List Octet) : Decidable (AsLongAsItSays command datagram) :=
  inferInstanceAs (Decidable (_ ∧ _))

/-- What a listener does with a datagram: what it hands to the map lies inside of the datagram, and
a packet that was sent is applied as it was meant. -/
structure DatagramExact (packet : Buffer 512) (datagram : List Octet) : Prop where
  within : HandsWithin (listenerRead packet datagram) (min datagram.length 512)
  put : ∀ key value, kvmSendPacket KVM_PUT key value = some datagram →
    (listenerPacket (listenerRead packet datagram)).outcome = .done (some (.put key value))
  remove : ∀ key value, kvmSendPacket KVM_REMOVE key value = some datagram →
    (listenerPacket (listenerRead packet datagram)).outcome = .done (some (.remove key))

theorem datagramExact_iff (packet : Buffer 512) (datagram : List Octet) :
    DatagramExact packet datagram ↔ AsLongAsItSays (packet.get 0) datagram := by
  have hwithin : HandsWithin (listenerRead packet datagram) (min datagram.length 512) ↔
      AsLongAsItSays (packet.get 0) datagram := by
    rw [handsWithin_iff _ (Nat.min_le_right _ _), AsLongAsItSays,
      get_listenerRead_zero]
    by_cases hlength : 3 ≤ datagram.length
    · rw [get_listenerRead packet (by omega) (by decide),
        get_listenerRead packet (by omega) (by decide)]
    · have hnot : ∀ n, ¬ 3 + n ≤ min datagram.length 512 := fun n => by omega
      simp only [Nat.add_assoc, hnot]
  exact ⟨fun h => hwithin.mp h.within, fun h =>
    ⟨hwithin.mpr h, fun _ _ => listenerPacket_put packet, fun _ _ => listenerPacket_remove packet⟩⟩

/-- A listener does so with every datagram of a run, in which a read may also fail. -/
def ListenerExact (packet : Buffer 512) (reads : List (Option (List Octet))) : Prop :=
  ∀ i datagram, reads[i]? = some (some datagram) →
    DatagramExact ((reads.take i).foldl listenerRead packet) datagram

theorem get_foldl_listenerRead (packet : Buffer 512) (reads : List (Option (List Octet))) :
    (reads.foldl listenerRead packet).get 0 = reads.foldl commandAfter (packet.get 0) := by
  refine (List.foldl_hom (fun p : Buffer 512 => p.get 0) fun packet read => ?_).symm
  cases read with
  | none => rfl
  | some datagram => exact (get_listenerRead_zero packet datagram).symm

/-- In every run of a listener, the keys and values it hands to its map lie inside the datagrams,
and what was sent is applied, exactly if each datagram is as long as it says. -/
theorem kvmListener_exact_iff (packet : Buffer 512) (reads : List (Option (List Octet))) :
    ListenerExact packet reads ↔
      ∀ i datagram, reads[i]? = some (some datagram) →
        AsLongAsItSays ((reads.take i).foldl commandAfter (packet.get 0)) datagram := by
  refine forall₃_congr fun i datagram _ => ?_
  rw [datagramExact_iff, get_foldl_listenerRead]

/-- Three octets, and none of the key and the value that they announce. -/
theorem kvmListener_short :
    ¬ ListenerExact (.replicate 512 0) [some [ch 'p', 255, 255]] :=
  fun h => absurd (h 0 _ rfl).within (fun hwithin =>
    absurd (hwithin ⟨258, 255, 512⟩ (by decide)).1 (by decide))

end Snert
