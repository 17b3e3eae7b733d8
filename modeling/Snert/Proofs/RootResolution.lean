/-
Module: Snert.Proofs.RootResolution
Purpose: Root resolution uses the records of lists that are there, reads addresses of address records
  only, and keeps the root hints to itself, exactly when two things do not happen: the addresses
  fetched for a server end in a marker for its aliases, and a name of a single level gets an
  authoritative answer.
Trusted boundary: none
Main exports: rootResolution_safe_iff
-/
import Snert.Pdq.Message
import Snert.Pdq.RootGet

namespace Snert

open CModel CModel.Run

/-! ### What a lookup finds -/

theorem findNameLoop_record {rrClass type : Nat} {list : List PdqRr} {name : List Octet}
    {cnames : List (List Octet)} {rr : PdqRr}
    (h : findNameLoop rrClass type list name cnames = .record rr) :
    rr ∈ list ∧ rr.isQuery = false ∧ rr.hasType type = true := by
  induction list generalizing name cnames with
  | nil => cases h
  | cons first list ih =>
      have hbehind : ∀ {name cnames}, findNameLoop rrClass type list name cnames = .record rr →
          rr ∈ first :: list ∧ rr.isQuery = false ∧ rr.hasType type = true := by
        intro name cnames h
        obtain ⟨hmem, hrest⟩ := ih h
        exact ⟨List.mem_cons_of_mem _ hmem, hrest⟩
      rw [findNameLoop] at h
      split at h
      · exact hbehind h
      · rename_i hquery
        split at h
        · split at h
          · exact hbehind h
          · split at h
            · rename_i htype
              cases h
              exact ⟨List.mem_cons_self, Bool.not_eq_true _ ▸ hquery, htype⟩
            · split at h
              · split at h
                · cases h
                · split at h
                  · cases h
                  · exact hbehind h
              · exact hbehind h
        · exact hbehind h

theorem findName_address {rrClass : Nat} {list : List PdqRr} {name : List Octet} {rr : PdqRr}
    (h : pdqListFindName list rrClass PDQ_TYPE_5A name = .record rr) :
    rr ∈ list ∧ rr.data.kind = .address := by
  obtain ⟨hmem, hquery, htype⟩ := findNameLoop_record h
  have hlayout := rr.layout
  have hsection : rr.rrSection ≠ .query := of_decide_eq_false hquery
  rw [kindOfRecord, if_neg hsection] at hlayout
  refine ⟨hmem, ?_⟩
  have htypes : rr.type = PDQ_TYPE_5A ∨ rr.type = PDQ_TYPE_A ∨ rr.type = PDQ_TYPE_AAAA := by
    simpa [PdqRr.hasType] using htype
  rcases htypes with htype | htype | htype
  · rw [htype] at hlayout
    cases hlayout
  · rw [htype] at hlayout
    exact (Option.some.inj hlayout).symm
  · rw [htype] at hlayout
    exact (Option.some.inj hlayout).symm

/-- One of the two markers that a lookup returns when it gives up on aliases. -/
def PdqFound.IsMarker (found : PdqFound) : Prop :=
  found = .tooDeep ∨ found = .circular

/-- The addresses fetched for a host, and the aliases that lead to them. -/
def fetchedAddresses (net : Network) (session : PdqSession) (rrClass : Nat) (host : List Octet) :
    List PdqRr :=
  pdqListKeepType (pdqGet5A net session rrClass host).1 (PDQ_KEEP_5A ||| PDQ_KEEP_CNAME)

/-- The list has no address for the server at hand, and in the addresses fetched for it the lookup
ends in a marker. -/
def MarkerFound (net : Network) (rrClass : Nat) (s : ServerScan) : Prop :=
  ∃ rr, (s.session.store.get s.list)[s.nsRr]? = some rr ∧ rr.isServer = true ∧
    (pdqListFindName ((s.session.store.get s.list).drop (s.nsRr + 1)) rrClass PDQ_TYPE_5A
      rr.host.string).isValid = false ∧
    (pdqListFindName (fetchedAddresses net s.session rrClass rr.host.string) rrClass PDQ_TYPE_5A
      rr.host.string).IsMarker

/-! ### The address of a server -/

section

variable {net : Network} {rrClass list nsRr : Nat} {session : PdqSession} {host : List Octet}

/-- The session when the addresses fetched for a host have been linked to a list. -/
def linkedAddresses (net : Network) (session : PdqSession) (rrClass : Nat) (host : List Octet)
    (list : Nat) : PdqSession :=
  { store :=
      { lists := session.store.lists.set list
          (session.store.get list ++ fetchedAddresses net session rrClass host) }
    waits := session.waits + 1 }

theorem find5AByName_safe {Q : PdqFound × PdqSession → Prop}
    (hlt : nsRr < (session.store.get list).length) :
    (pdqListFind5AByName net session rrClass host list nsRr).Safe Q ↔
      if (pdqListFindName ((session.store.get list).drop (nsRr + 1)) rrClass PDQ_TYPE_5A
          host).isValid then
        Q (pdqListFindName ((session.store.get list).drop (nsRr + 1)) rrClass PDQ_TYPE_5A host,
          session)
      else
        Q (pdqListFindName (fetchedAddresses net session rrClass host) rrClass PDQ_TYPE_5A host,
          linkedAddresses net session rrClass host list) := by
  have hlive : session.store.Live list := List.ne_nil_of_length_pos (by omega)
  unfold pdqListFind5AByName
  rw [safe_bind, ListStore.safe_readFrom (by omega)]
  dsimp only
  split
  · exact safe_pure
  · rw [safe_bind, ListStore.safe_extend]
    refine (and_iff_right hlive).trans ?_
    exact safe_pure

theorem addressOf_safe {store : ListStore PdqRr} {rr : PdqRr} {Q : List Octet → Prop}
    (hmem : rr ∈ store.get list) (hkind : rr.data.kind = .address)
    (hQ : ∀ address, Q address) : (addressOf store list (.record rr)).Safe Q := by
  have hidx := List.idxOf_lt_length_of_mem hmem
  rw [addressOf, safe_bind, ListStore.safe_read]
  refine ⟨rr, ?_, ?_⟩
  · rw [List.getElem?_eq_getElem hidx, List.getElem_idxOf]
  · cases hdata : rr.data with
    | address offset ip length string => exact safe_pure.mpr (hQ _)
    | query _ _ _ _ _ _ => rw [hdata] at hkind; cases hkind
    | host _ => rw [hdata] at hkind; cases hkind
    | mx _ _ => rw [hdata] at hkind; cases hkind
    | text _ => rw [hdata] at hkind; cases hkind
    | soa _ _ _ _ _ _ _ => rw [hdata] at hkind; cases hkind
    | hinfo _ _ => rw [hdata] at hkind; cases hkind

theorem addressOf_marker {store : ListStore PdqRr} {found : PdqFound} (h : found.IsMarker) :
    ¬ (addressOf store list found).InBounds := by
  have hover : ¬ (Run.overrun ⟨0, 1, 0⟩ : Run (List Octet)).InBounds := by decide
  rcases h with rfl | rfl
  · exact hover
  · exact hover

end

/-! ### One server -/

/-- The loop over the servers of `list` began with the lists of `m`, and none of them was freed. -/
structure ServerScan.Inside (m : ListStore PdqRr) (list : Nat) (s : ServerScan) : Prop where
  list_eq : s.list = list
  nsRr_lt : s.nsRr < (s.session.store.get list).length
  keeps : m.Keeps s.session.store

/-- The loop ended, with none of the lists of `m` freed, and with a new list if with any. -/
structure Answered (m : ListStore PdqRr) (r : Option Nat × PdqSession) : Prop where
  keeps : m.Keeps r.2.store
  fresh : ∀ answer ∈ r.1, m.lists.length ≤ answer ∧ r.2.store.Live answer

section

variable {net : Network} {rrClass : Nat} {question : List Octet → PdqQuestion}
  {m : ListStore PdqRr} {list : Nat} {s : ServerScan}

theorem nextServer_safe {session : PdqSession} (hlist : s.list = list)
    (hlt : s.nsRr < (session.store.get list).length) (hkeeps : m.Keeps session.store) :
    (nextServer s session).Safe (Sum.elim (ServerScan.Inside m list) (Answered m)) := by
  subst hlist
  unfold nextServer
  rw [safe_bind, ListStore.safe_readFrom hlt]
  split
  · exact safe_pure.mpr { keeps := hkeeps, fresh := nofun }
  · rename_i hrest
    rw [List.drop_eq_nil_iff] at hrest
    exact safe_pure.mpr { list_eq := rfl, nsRr_lt := Nat.lt_of_not_le hrest, keeps := hkeeps }

theorem pdqGet_none {session : PdqSession} {question : PdqQuestion}
    (h : (net session.waits [question]).records = []) :
    pdqGet net session question = (none, { session with waits := session.waits + 1 }) := by
  rw [pdqGet, if_pos h]

theorem pdqGet_some {session : PdqSession} {question : PdqQuestion}
    (h : (net session.waits [question]).records ≠ []) :
    pdqGet net session question =
      (some session.store.lists.length,
        { store := (session.store.alloc (net session.waits [question]).records).1
          waits := session.waits + 1 }) := by
  rw [pdqGet, if_neg h]
  rfl

theorem askServer_safe {session : PdqSession} (hs : s.Inside m list)
    (hkeeps : s.session.store.Keeps session.store) (question : PdqQuestion) :
    (askServer net s session question).Safe
      (Sum.elim (ServerScan.Inside m list) (Answered m)) := by
  unfold askServer
  by_cases hrecords : (net session.waits [question]).records = []
  · rw [pdqGet_none hrecords]
    exact nextServer_safe hs.list_eq (hkeeps.lt hs.nsRr_lt) (hs.keeps.trans hkeeps)
  · rw [pdqGet_some hrecords]
    dsimp only
    have halloc := hkeeps.trans
      (ListStore.keeps_alloc session.store (net session.waits [question]).records)
    have hnew : (session.store.alloc (net session.waits [question]).records).1.get
        session.store.lists.length = (net session.waits [question]).records :=
      ListStore.get_alloc_new
    have hlive : (session.store.alloc (net session.waits [question]).records).1.Live
        session.store.lists.length := by
      rw [ListStore.Live, hnew]
      exact hrecords
    have hfree := halloc.free hkeeps.length_le
    rw [safe_bind, ListStore.safe_read, hnew]
    refine ⟨_, List.getElem?_eq_getElem (List.length_pos_iff.mpr hrecords), ?_⟩
    split
    · exact safe_pure.mpr
        { keeps := hs.keeps.trans halloc
          fresh := by
            rintro answer ⟨⟩
            exact ⟨Nat.le_trans hs.keeps.length_le hkeeps.length_le, hlive⟩ }
    · rw [safe_bind, ListStore.safe_free]
      exact ⟨hlive, nextServer_safe hs.list_eq (hfree.lt hs.nsRr_lt) (hs.keeps.trans hfree)⟩

theorem linkedAddresses_keeps (session : PdqSession) (host : List Octet) :
    session.store.Keeps (linkedAddresses net session rrClass host list).store :=
  ListStore.keeps_extend _ _ _

theorem linkedAddresses_get {session : PdqSession} {host : List Octet}
    (hlive : session.store.Live list) :
    (linkedAddresses net session rrClass host list).store.get list =
      session.store.get list ++ fetchedAddresses net session rrClass host :=
  ListStore.get_set_self hlive.lt_length

theorem askFound_safe {session : PdqSession} {found : PdqFound} (hs : s.Inside m list)
    (hkeeps : s.session.store.Keeps session.store) (hmarker : ¬ found.IsMarker)
    (haddress : ∀ rr, found = .record rr →
      rr ∈ session.store.get list ∧ rr.data.kind = .address) :
    (if found = .null then nextServer s session
      else do
        let address ← addressOf session.store s.list found
        askServer net s session (question address)).Safe
      (Sum.elim (ServerScan.Inside m list) (Answered m)) := by
  cases found with
  | null => exact nextServer_safe hs.list_eq (hkeeps.lt hs.nsRr_lt) (hs.keeps.trans hkeeps)
  | tooDeep => exact absurd (.inl rfl) hmarker
  | circular => exact absurd (.inr rfl) hmarker
  | record rr =>
      obtain ⟨hmem, hkind⟩ := haddress rr rfl
      rw [if_neg PdqFound.noConfusion, safe_bind, hs.list_eq]
      exact addressOf_safe hmem hkind fun address => askServer_safe hs hkeeps _

theorem tryServer_safe (hs : s.Inside m list) (hmarker : ¬ MarkerFound net rrClass s) :
    (tryServer net rrClass question s).Safe (Sum.elim (ServerScan.Inside m list) (Answered m)) := by
  have hget := List.getElem?_eq_getElem hs.nsRr_lt
  have hlive : s.session.store.Live list := List.ne_nil_of_length_pos (Nat.zero_lt_of_lt hs.nsRr_lt)
  obtain rfl := hs.list_eq
  rw [tryServer, safe_bind, ListStore.safe_read]
  refine ⟨_, hget, ?_⟩
  split
  · exact nextServer_safe rfl hs.nsRr_lt hs.keeps
  · rename_i hserver
    rw [safe_bind, find5AByName_safe hs.nsRr_lt]
    split
    · rename_i hvalid
      refine askFound_safe hs (.refl _) ?_ fun rr hfound => ?_
      · rintro (h | h)
        · rw [h] at hvalid
          cases hvalid
        · rw [h] at hvalid
          cases hvalid
      · obtain ⟨hmem, hkind⟩ := findName_address hfound
        exact ⟨List.mem_of_mem_drop hmem, hkind⟩
    · rename_i hvalid
      refine askFound_safe hs (linkedAddresses_keeps _ _) (fun h => hmarker ?_) fun rr hfound => ?_
      · exact ⟨_, hget, Bool.not_eq_false _ ▸ hserver, Bool.not_eq_true _ ▸ hvalid, h⟩
      · obtain ⟨hmem, hkind⟩ := findName_address hfound
        refine ⟨?_, hkind⟩
        rw [linkedAddresses_get hlive]
        exact List.mem_append_right _ hmem

theorem tryServer_strays (hs : s.Inside m list) (hmarker : MarkerFound net rrClass s) :
    ¬ (tryServer net rrClass question s).InBounds := by
  obtain ⟨rr, hget, hserver, hvalid, hfound⟩ := hmarker
  have hlt : s.nsRr < (s.session.store.get s.list).length := by
    rw [hs.list_eq]
    rw [hs.list_eq] at hget
    exact hs.nsRr_lt
  rw [inBounds_iff_safe, tryServer, safe_bind, ListStore.safe_read]
  rintro ⟨rr', hget', hrest⟩
  obtain rfl : rr = rr' := Option.some.inj (hget.symm.trans hget')
  rw [if_neg (by simp [hserver]), safe_bind, find5AByName_safe hlt, hvalid, if_neg (by decide)] at hrest
  dsimp only at hrest
  rw [if_neg (by rcases hfound with h | h <;> simp [h])] at hrest
  exact addressOf_marker hfound (safe_bind.mp hrest).1

theorem tryServer_strays' (hs : s.Inside m list) (hmarker : ¬ ¬ MarkerFound net rrClass s) :
    ¬ (tryServer net rrClass question s).InBounds :=
  tryServer_strays hs (Classical.not_not.mp hmarker)

/-- No marker is met among the servers of a list. -/
def ServersMeet (net : Network) (rounds rrClass : Nat) (question : List Octet → PdqQuestion)
    (session : PdqSession) (list : Nat) : Prop :=
  ∀ t, Visits (tryServer net rrClass question) rounds
    { session := session, list := list, nsRr := 0 } t → ¬ MarkerFound net rrClass t

variable {session : PdqSession} {rounds : Nat}

theorem tryServers_safe_iff (hlive : session.store.Live list) :
    (tryServers net rounds rrClass question session (some list)).Safe (Answered session.store) ↔
      ServersMeet net rounds rrClass question session list :=
  loop_safe_iff (fun _ => tryServer_safe) (fun _ => tryServer_strays')
    { list_eq := rfl, nsRr_lt := hlive.length_pos, keeps := .refl _ }

theorem tryServers_safe_iff_inBounds (hlive : session.store.Live list) :
    (tryServers net rounds rrClass question session (some list)).Safe (Answered session.store) ↔
      (tryServers net rounds rrClass question session (some list)).InBounds :=
  loop_safe_iff_inBounds (fun _ => tryServer_safe) (fun _ => tryServer_strays')
    { list_eq := rfl, nsRr_lt := hlive.length_pos, keeps := .refl _ }

end

theorem Answered.not_live {m : ListStore PdqRr} {r : Option Nat × PdqSession} (h : Answered m r)
    {p : Nat} (hp : p ∈ r.1) : ¬ m.Live p := by
  intro hlive
  have hlt := hlive.lt_length
  have hle := (h.fresh p hp).1
  omega

/-! ### Freeing a list -/

/-- The session when a list has been freed, unless it is that of the root hints. -/
def released (rootHints : Option Nat) (session : PdqSession) (list : Option Nat) : PdqSession :=
  if list = rootHints then session
  else
    match list with
    | none => session
    | some list => { session with store := { lists := session.store.lists.set list [] } }

section

variable {rootHints list : Option Nat} {session : PdqSession}

theorem freeUnlessHints_safe {Q : PdqSession → Prop}
    (hlive : ∀ p ∈ list, session.store.Live p) :
    (freeUnlessHints rootHints session list).Safe Q ↔ Q (released rootHints session list) := by
  unfold freeUnlessHints released
  split
  · exact safe_pure
  · cases list with
    | none => exact safe_pure
    | some p =>
        rw [pdqListFree, safe_bind, ListStore.safe_free]
        exact (and_iff_right (hlive p rfl)).trans safe_pure

theorem released_live {p : Nat} (hlive : session.store.Live p) (hp : p ∈ list → p ∈ rootHints) :
    (released rootHints session list).store.Live p := by
  unfold released
  split
  · exact hlive
  · rename_i hne
    cases list with
    | none => exact hlive
    | some q =>
        have hpq : p ≠ q := by
          rintro rfl
          exact hne (hp rfl).symm
        rw [ListStore.Live, ListStore.get_set hpq]
        exact hlive

end

/-! ### The levels of a name -/

/-- The name has a single level: no dot stands before its last octet. -/
def OneLevel (name : List Octet) : Prop :=
  ch '.' ∉ name.dropLast

theorem strlrcspn_eq_zero_iff (string : List Octet) {n : Nat} (hn : n ≤ string.length) :
    strlrcspn string [ch '.'] n = 0 ↔ ch '.' ∉ string.take n := by
  induction n with
  | zero => simp [strlrcspn]
  | succ n ih =>
      have hget : string.getD n 0 = string[n] := List.getD_eq_getElem _ _ (by omega)
      rw [strlrcspn, hget, List.take_add_one, List.getElem?_eq_getElem (by omega), Option.toList_some,
        List.mem_append, not_or, ← ih (by omega)]
      split
      · rename_i hdot
        rw [List.mem_singleton.mp hdot]
        simp
      · rename_i hdot
        rw [List.mem_singleton] at hdot
        exact (and_iff_left (mt List.mem_singleton.mp (Ne.symm hdot))).symm

theorem oneLevel_iff (name : List Octet) :
    OneLevel name ↔ strlrcspn name [ch '.'] (name.length - 1) = 0 := by
  rw [strlrcspn_eq_zero_iff name (Nat.sub_le _ _), OneLevel, List.dropLast_eq_take]

/-- The lists that `pdqRootGetNS` has a pointer to are there, and they are different lists. -/
structure RootScan.Owned (rootHints : Option Nat) (s : RootScan) : Prop where
  hints_live : ∀ p ∈ rootHints, s.session.store.Live p
  ns_live : ∀ p ∈ s.nsList, s.session.store.Live p
  prev_live : ∀ p ∈ s.prevList, s.session.store.Live p
  apart : ∀ p ∈ s.nsList, p ∉ s.prevList

/-- A level begins: the servers are the root hints on the first level only. -/
structure RootScan.AtLevel (rootHints : Option Nat) (name : List Octet) (s : RootScan) : Prop
    extends s.Owned rootHints where
  level : s.offset = name.length ∧ s.nsList = rootHints ∧ s.prevList = none ∨
    ¬ OneLevel name ∧ ∀ p ∈ s.nsList, p ∉ rootHints

/-- The last level is behind: the servers asked on it are the root hints only if it was the first. -/
structure RootScan.Resolved (rootHints : Option Nat) (name : List Octet) (s : RootScan) : Prop
    extends s.Owned rootHints where
  ns_new : ∀ p ∈ s.nsList, p ∉ rootHints
  prev_hints : ∀ p ∈ s.prevList, p ∈ rootHints ↔ OneLevel name
  served : s.nsList.isSome → s.prevList.isSome

section

variable {net : Network} {rounds rrClass : Nat} {name : List Octet} {rootHints : Option Nat}

/-- The question on the level behind that of a state. -/
def nextQuestion (rrClass : Nat) (name : List Octet) (s : RootScan) : List Octet → PdqQuestion :=
  levelQuestion rrClass name (strlrcspn name [ch '.'] (s.offset - 1))

/-- No marker is met among the servers of a level. -/
def LevelMeets (net : Network) (rounds rrClass : Nat) (name : List Octet) (s : RootScan) : Prop :=
  ∀ list ∈ s.nsList,
    ServersMeet net rounds rrClass (nextQuestion rrClass name s) s.session list

theorem levelServers_safe {s : RootScan} (hs : s.Owned rootHints)
    (hmeets : LevelMeets net rounds rrClass name s) :
    (tryServers net rounds rrClass (nextQuestion rrClass name s) s.session s.nsList).Safe
      fun r => Answered s.session.store r ∧ (r.1.isSome → s.nsList.isSome) := by
  unfold LevelMeets at hmeets
  cases hlist : s.nsList with
  | none => exact safe_pure.mpr ⟨{ keeps := .refl _, fresh := nofun }, id⟩
  | some list =>
      have hsafe := (tryServers_safe_iff (hs.ns_live list hlist)).mpr (hmeets list hlist)
      exact hsafe.mono fun r hr => ⟨hr, fun _ => rfl⟩

theorem levelServers_meet {s : RootScan} (hs : s.Owned rootHints)
    (hin : (tryServers net rounds rrClass (nextQuestion rrClass name s) s.session
      s.nsList).InBounds) : LevelMeets net rounds rrClass name s := by
  intro list hlist
  rw [hlist] at hin
  have hlive := hs.ns_live list hlist
  exact (tryServers_safe_iff hlive).mp ((tryServers_safe_iff_inBounds hlive).mpr hin)

/-- What a level leaves. -/
def RootScan.moved (rootHints : Option Nat) (s : RootScan) (offset : Nat)
    (r : Option Nat × PdqSession) : RootScan :=
  { session := released rootHints r.2 s.prevList
    offset := offset
    nsList := r.1
    prevList := s.nsList }

theorem RootScan.Owned.moved {s : RootScan} (hs : s.Owned rootHints) (offset : Nat)
    {r : Option Nat × PdqSession} (hr : Answered s.session.store r) :
    (s.moved rootHints offset r).Owned rootHints :=
  { hints_live := fun p hp => released_live (hr.keeps.live (hs.hints_live p hp)) fun _ => hp
    ns_live := fun p hp =>
      released_live (hr.fresh p hp).2 fun hprev => absurd (hs.prev_live p hprev) (hr.not_live hp)
    prev_live := fun p hp =>
      released_live (hr.keeps.live (hs.ns_live p hp)) fun hprev => absurd hprev (hs.apart p hp)
    apart := fun p hp hns => hr.not_live hp (hs.ns_live p hns) }

theorem rootLevel_safe {s : RootScan} (hs : s.AtLevel rootHints name)
    (hmeets : LevelMeets net rounds rrClass name s) :
    (rootLevel net rounds rootHints rrClass name s).Safe
      (Sum.elim (RootScan.AtLevel rootHints name) (RootScan.Resolved rootHints name)) := by
  refine safe_bind.mpr ((levelServers_safe hs.toOwned hmeets).mono ?_)
  rintro r ⟨hr, hserved⟩
  have hnew : ∀ p ∈ r.1, p ∉ rootHints := fun p hp hhints =>
    hr.not_live hp (hs.hints_live p hhints)
  have howned := hs.toOwned.moved (strlrcspn name [ch '.'] (s.offset - 1)) hr
  rw [safe_bind, freeUnlessHints_safe fun p hp => hr.keeps.live (hs.prev_live p hp)]
  refine safe_pure.mpr ?_
  split
  · rename_i hpos
    refine { toOwned := howned, level := .inr ⟨?_, hnew⟩ }
    rcases hs.level with ⟨hoffset, -, -⟩ | ⟨hlevels, -⟩
    · rw [hoffset] at hpos
      rw [oneLevel_iff]
      exact Nat.ne_of_gt hpos
    · exact hlevels
  · rename_i hzero
    refine { toOwned := howned, ns_new := hnew, prev_hints := fun p hp => ?_, served := hserved }
    rcases hs.level with ⟨hoffset, hlist, -⟩ | ⟨hlevels, hlist⟩
    · rw [hoffset] at hzero
      refine iff_of_true (hlist ▸ hp) ((oneLevel_iff name).mpr (Nat.eq_zero_of_not_pos hzero))
    · exact iff_of_false (hlist p hp) hlevels

theorem rootLevel_strays {s : RootScan} (hs : s.AtLevel rootHints name)
    (hmeets : ¬ LevelMeets net rounds rrClass name s) :
    ¬ (rootLevel net rounds rootHints rrClass name s).InBounds := by
  intro hin
  exact hmeets (levelServers_meet hs.toOwned (inBounds_bind.mp hin).1)

end

section

variable (net : Network) (rounds rrClass type : Nat) (name : List Octet) (memory : RootMemory)

/-- The state in which the loop over the levels begins. -/
def RootMemory.start : RootScan :=
  { session := memory.session, offset := name.length, nsList := memory.rootHints, prevList := none }

/-- No marker is met among the servers of any level. -/
def LevelsMeet : Prop :=
  ∀ s, Visits (rootLevel net rounds memory.rootHints rrClass name) (name.length + 1)
    (memory.start name) s → LevelMeets net rounds rrClass name s

theorem RootMemory.start_atLevel : (memory.start name).AtLevel memory.rootHints name :=
  { hints_live := memory.hints_live
    ns_live := memory.hints_live
    prev_live := nofun
    apart := nofun
    level := .inl ⟨rfl, rfl, rfl⟩ }

theorem rootLevels_safe_iff :
    (rootLevels net rounds memory.rootHints memory.session rrClass name).Safe
      (RootScan.Resolved memory.rootHints name) ↔ LevelsMeet net rounds rrClass name memory :=
  loop_safe_iff (fun _ => rootLevel_safe) (fun _ => rootLevel_strays) (memory.start_atLevel name)

theorem rootLevels_safe_iff_inBounds :
    (rootLevels net rounds memory.rootHints memory.session rrClass name).Safe
        (RootScan.Resolved memory.rootHints name) ↔
      (rootLevels net rounds memory.rootHints memory.session rrClass name).InBounds :=
  loop_safe_iff_inBounds (fun _ => rootLevel_safe) (fun _ => rootLevel_strays)
    (memory.start_atLevel name)

end

/-! ### What is returned -/

/-- The answer on the last level is authoritative. -/
def RootScan.Authoritative (s : RootScan) : Prop :=
  ∃ answer ∈ s.nsList, ∃ head, (s.session.store.get answer)[0]? = some head ∧
    head.flags &&& PDQ_BITS_AA ≠ 0

/-- The list returned is not that of the root hints. -/
def NotHints (rootHints : Option Nat) (r : Option Nat × PdqSession) : Prop :=
  ∀ p ∈ r.1, p ∉ rootHints

/-- The list returned is there, and so are the root hints. -/
structure Returned (rootHints : Option Nat) (r : Option Nat × PdqSession) : Prop where
  hints_live : ∀ p ∈ rootHints, r.2.store.Live p
  live : ∀ p ∈ r.1, r.2.store.Live p
  not_hints : NotHints rootHints r

section

variable {rootHints : Option Nat} {name : List Octet} {s : RootScan}

theorem finishRootGetNS_safe (hs : s.Resolved rootHints name)
    (hlevels : OneLevel name → ¬ s.Authoritative) :
    (finishRootGetNS rootHints s).Safe (Returned rootHints) := by
  unfold finishRootGetNS
  cases hlist : s.nsList with
  | none =>
      dsimp only
      rw [safe_bind, freeUnlessHints_safe hs.prev_live]
      exact safe_pure.mpr
        { hints_live := fun p hp => released_live (hs.hints_live p hp) fun _ => hp
          live := nofun
          not_hints := nofun }
  | some answer =>
      have hlive := hs.ns_live answer hlist
      dsimp only
      rw [safe_bind, ListStore.safe_read]
      have hhead := List.getElem?_eq_getElem hlive.length_pos
      refine ⟨_, hhead, ?_⟩
      split
      · rename_i hflags
        have hnot : ¬ OneLevel name := fun hone =>
          hlevels hone ⟨answer, hlist, _, hhead, hflags⟩
        have hother : ∀ {p}, p ≠ answer → s.session.store.Live p →
            ListStore.Live { lists := s.session.store.lists.set answer [] } p := by
          intro p hp hlive
          rw [ListStore.Live, ListStore.get_set hp]
          exact hlive
        rw [pdqListFree, safe_bind, safe_bind, ListStore.safe_free]
        refine ⟨hlive, safe_pure.mpr (safe_pure.mpr ?_)⟩
        exact
          { hints_live := fun p hp => hother
              (fun heq => hs.ns_new answer hlist (heq ▸ hp)) (hs.hints_live p hp)
            live := fun p hp => hother
              (fun heq => hs.apart answer hlist (heq ▸ hp)) (hs.prev_live p hp)
            not_hints := fun p hp hhints => hnot ((hs.prev_hints p hp).mp hhints) }
      · rw [safe_bind, freeUnlessHints_safe hs.prev_live]
        refine safe_pure.mpr ?_
        exact
          { hints_live := fun p hp => released_live (hs.hints_live p hp) fun _ => hp
            live := by
              rintro p ⟨⟩
              exact released_live hlive fun hprev => absurd hprev (hs.apart answer hlist)
            not_hints := by
              rintro p ⟨⟩
              exact hs.ns_new answer hlist }

theorem finishRootGetNS_strays (hs : s.Resolved rootHints name) (hone : OneLevel name)
    (hauthority : s.Authoritative) : ¬ (finishRootGetNS rootHints s).Safe (NotHints rootHints) := by
  obtain ⟨answer, hlist, head, hhead, hflags⟩ := hauthority
  have hserved := hs.served (Option.isSome_of_mem hlist)
  obtain ⟨prev, hprev⟩ := Option.isSome_iff_exists.mp hserved
  unfold finishRootGetNS
  rw [hlist]
  dsimp only
  rw [safe_bind, ListStore.safe_read]
  rintro ⟨head', hhead', hrest⟩
  obtain rfl : head = head' := Option.some.inj (hhead.symm.trans hhead')
  rw [if_pos hflags, pdqListFree, safe_bind, safe_bind, ListStore.safe_free, safe_pure,
    safe_pure] at hrest
  exact hrest.2 prev hprev ((hs.prev_hints prev hprev).mpr hone)

end

/-! ### Root resolution -/

section

variable (net : Network) (rounds rrClass type : Nat) (name : List Octet) (memory : RootMemory)

/-- A name of a single level gets no authoritative answer. -/
def AnswerMeets : Prop :=
  OneLevel name → ∀ s,
    (rootLevels net rounds memory.rootHints memory.session rrClass name).outcome = .done s →
      ¬ s.Authoritative

theorem pdqRootGetNS_safe (hlevels : LevelsMeet net rounds rrClass name memory)
    (hanswer : AnswerMeets net rounds rrClass name memory) :
    (pdqRootGetNS net rounds memory.rootHints memory.session rrClass name).Safe
      (Returned memory.rootHints) := by
  have hsafe := (rootLevels_safe_iff net rounds rrClass name memory).mpr hlevels
  refine safe_bind.mpr ⟨hsafe.1, fun s hs => ?_⟩
  exact finishRootGetNS_safe (hsafe.2 s hs) fun hone => hanswer hone s hs

theorem pdqRootGetNS_meets
    (hsafe : (pdqRootGetNS net rounds memory.rootHints memory.session rrClass name).Safe
      (NotHints memory.rootHints)) :
    LevelsMeet net rounds rrClass name memory ∧ AnswerMeets net rounds rrClass name memory := by
  have hsafe := safe_bind.mp hsafe
  have hlevels := (rootLevels_safe_iff_inBounds net rounds rrClass name memory).mpr hsafe.1
  refine ⟨(rootLevels_safe_iff net rounds rrClass name memory).mp hlevels,
    fun hone s hs hauthority => ?_⟩
  exact finishRootGetNS_strays (hlevels.2 s hs) hone hauthority (hsafe.2 s hs)

/-- No marker is met among the servers of the name. -/
def NameServersMeet : Prop :=
  ∀ list session,
    (pdqRootGetNS net rounds memory.rootHints memory.session rrClass name).outcome =
      .done (some list, session) →
    ServersMeet net rounds rrClass (nameQuestion rrClass type name) session list

variable {net rounds rrClass type name} in
/-- The servers of a name are asked safely exactly when no marker is met among them; their list is
freed, and the answer is a new list. -/
theorem askNameServers_safe {rootHints : Option Nat} {session : PdqSession} {list : Nat}
    (hreturned : Returned rootHints (some list, session))
    (hmeets : ServersMeet net rounds rrClass (nameQuestion rrClass type name) session list) :
    (askNameServers net rounds rrClass type name session list).Safe (Returned rootHints) := by
  have hlive : session.store.Live list := hreturned.live list rfl
  refine safe_bind.mpr (((tryServers_safe_iff hlive).mpr hmeets).mono fun r hr => ?_)
  dsimp only
  rw [pdqListFree, safe_bind, safe_bind, ListStore.safe_free]
  refine ⟨hr.keeps.live hlive, safe_pure.mpr (safe_pure.mpr ?_)⟩
  have hother : ∀ {p}, p ≠ list → r.2.store.Live p →
      ListStore.Live { lists := r.2.store.lists.set list [] } p := by
    intro p hp hlive
    rw [ListStore.Live, ListStore.get_set hp]
    exact hlive
  exact
    { hints_live := fun p hp => hother
        (fun heq => hreturned.not_hints list rfl (heq ▸ hp))
        (hr.keeps.live (hreturned.hints_live p hp))
      live := fun p hp => hother
        (fun heq => hr.not_live hp (heq ▸ hlive)) (hr.fresh p hp).2
      not_hints := fun p hp hhints => hr.not_live hp (hreturned.hints_live p hhints) }

variable {net rounds rrClass type name} in
theorem askNameServers_meet {session : PdqSession} {list : Nat} (hlive : session.store.Live list)
    (hin : (askNameServers net rounds rrClass type name session list).InBounds) :
    ServersMeet net rounds rrClass (nameQuestion rrClass type name) session list :=
  (tryServers_safe_iff hlive).mp ((tryServers_safe_iff_inBounds hlive).mpr (inBounds_bind.mp hin).1)

/-- Root resolution stays in the lists that are there, reads addresses where there are addresses,
and does not return the root hints. -/
structure ResolvesSafely : Prop where
  getNS : (pdqRootGetNS net rounds memory.rootHints memory.session rrClass name).Safe
    (NotHints memory.rootHints)
  get : (pdqRootGet net rounds memory.rootHints memory.session rrClass type name).Safe
    (NotHints memory.rootHints)

/-- The lookups find no marker, and no name of a single level gets an authoritative answer. -/
structure ResolutionMeets : Prop where
  levels : LevelsMeet net rounds rrClass name memory
  answer : AnswerMeets net rounds rrClass name memory
  servers : NameServersMeet net rounds rrClass type name memory

theorem pdqRootGet_safe (hmeets : ResolutionMeets net rounds rrClass type name memory) :
    (pdqRootGet net rounds memory.rootHints memory.session rrClass type name).Safe
      (Returned memory.rootHints) := by
  have hsafe := pdqRootGetNS_safe net rounds rrClass name memory hmeets.levels hmeets.answer
  refine safe_bind.mpr ⟨hsafe.1, ?_⟩
  rintro ⟨list, session⟩ hlist
  have hreturned := hsafe.2 _ hlist
  cases list with
  | none => exact safe_pure.mpr hreturned
  | some list => exact askNameServers_safe hreturned (hmeets.servers list session hlist)

/-- Root resolution is safe exactly when no lookup in the addresses fetched for a server finds a
marker, and no name of a single level gets an authoritative answer. -/
theorem rootResolution_safe_iff :
    ResolvesSafely net rounds rrClass type name memory ↔
      ResolutionMeets net rounds rrClass type name memory := by
  constructor
  · rintro ⟨hgetNS, hget⟩
    obtain ⟨hlevels, hanswer⟩ := pdqRootGetNS_meets net rounds rrClass name memory hgetNS
    have hsafe := pdqRootGetNS_safe net rounds rrClass name memory hlevels hanswer
    refine { levels := hlevels, answer := hanswer, servers := fun list session hlist => ?_ }
    have hin := ((safe_bind.mp hget).2 _ hlist).1
    exact askNameServers_meet ((hsafe.2 _ hlist).live list rfl) hin
  · intro hmeets
    have hsafe := pdqRootGetNS_safe net rounds rrClass name memory hmeets.levels hmeets.answer
    exact
      { getNS := hsafe.mono fun _ h => h.not_hints
        get := (pdqRootGet_safe net rounds rrClass type name memory hmeets).mono
          fun _ h => h.not_hints }

end

/-- A record of the root hints: the server of the root. -/
def hintNS : PdqRr :=
  { rrSection := .answer, name := .ofText (ascii "."), rrClass := PDQ_CLASS_IN, type := PDQ_TYPE_NS
    ttl := 0, data := .host (.ofText (ascii "a.")), layout := rfl }

theorem hintA_layout : kindOfRecord .extra PDQ_TYPE_A = some .address := rfl

/-- The address of that server. -/
def hintA : PdqRr :=
  { rrSection := .extra, name := .ofText (ascii "a."), rrClass := PDQ_CLASS_IN, type := PDQ_TYPE_A
    ttl := 0
    data := .address 12 ((Buffer.replicate 16 0).splice 12 [1, 2, 3, 4]) 7
      ((Buffer.replicate 40 0).splice 0 (ascii "1.2.3.4"))
    layout := hintA_layout }

/-- An alias of the server for itself. -/
def aliasOfItself : PdqRr :=
  { rrSection := .answer, name := .ofText (ascii "a."), rrClass := PDQ_CLASS_IN
    type := PDQ_TYPE_CNAME, ttl := 0, data := .host (.ofText (ascii "a.")), layout := rfl }

/-- The query record of an authoritative reply. -/
def authoritativeQuery : PdqRr :=
  { rrSection := .query, name := .ofText (ascii "com."), rrClass := PDQ_CLASS_IN
    type := PDQ_TYPE_NS, ttl := 0, data := .query 0x8400 PDQ_RCODE_OK 1 0 0 0, layout := rfl }

/-- A process with these root hints. -/
def RootMemory.ofHints (hint : PdqRr) (hints : List PdqRr) : RootMemory :=
  { session := { store := { lists := [hint :: hints] }, waits := 0 }
    rootHints := some 0
    hints_live := by
      rintro p ⟨⟩
      exact List.cons_ne_nil hint hints }

/-- A network where all replies are the same. -/
def Network.constant (query : PdqRr) (records : List PdqRr) (h : query.isQuery = true) : Network :=
  fun _ _ =>
    { records := query :: records
      query_first := by
        rintro rr ⟨⟩
        exact h }

/-- An authoritative answer for a top level domain gives the root hints away, and an alias that leads
back to itself is read as an address. -/
theorem rootResolution_not_safe :
    ¬ ResolvesSafely (.constant authoritativeQuery [] rfl) 3 PDQ_CLASS_IN PDQ_TYPE_A (ascii "com")
        (.ofHints hintNS [hintA]) ∧
      ¬ ResolvesSafely (.constant authoritativeQuery [aliasOfItself] rfl) 3 PDQ_CLASS_IN PDQ_TYPE_A
        (ascii "com") (.ofHints hintNS []) := by
  constructor
  · rintro ⟨⟨-, hnot⟩, -⟩
    have hreturned : (pdqRootGetNS (.constant authoritativeQuery [] rfl) 3 (some 0)
        (RootMemory.ofHints hintNS [hintA]).session PDQ_CLASS_IN (ascii "com")).result.map (·.1) =
          some (some 0) := by
      decide +kernel
    obtain ⟨r, hr, hlist⟩ := Option.map_eq_some_iff.mp hreturned
    exact hnot r (result_eq_some.mp hr) 0 hlist rfl
  · rintro ⟨⟨hin, -⟩, -⟩
    exact absurd hin (by decide)

end Snert
