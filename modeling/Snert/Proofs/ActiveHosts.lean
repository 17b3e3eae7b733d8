/-
Module: Snert.Proofs.ActiveHosts
Purpose: The table of active hosts of type/mcc.c over runs of updates. An occupied entry is the one
  that a scan for its address comes to first, so that no address has two. The entry that is
  overwritten when all the probed ones are taken is always the first of them, which need not be the
  least recently touched: the loop only looks for entries that were never touched.
Trusted boundary: the definitions of a run and of what a table of recent hosts does in a step
Main exports: activeHosts_recent_iff
-/
import Snert.Mcc.Active

namespace Snert

open CModel

/-! ### Runs -/

/-- The tables that are reached from the one in static storage by updates with addresses that fit the
field of an entry, and the time of the last one. The times increase. -/
inductive ActiveRun : MccActive → UInt32 → Prop where
  | start : ActiveRun zeroedActive 0
  | update {active : MccActive} {last touched : UInt32} {ip : List Octet} :
      ActiveRun active last → last < touched → ip.length < IPV6_STRING_SIZE →
      ActiveRun (mccUpdateActive active ip touched) touched

/-- An entry that has been touched. -/
def Occupied (active : MccActive) (e : Fin MCC_HASH_TABLE_SIZE) : Prop :=
  (active e).touched ≠ 0

/-- All the probed entries are taken by other addresses. -/
def TakenByOthers (active : MccActive) (ip : List Octet) : Prop :=
  ∀ i < MCC_MAX_LINEAR_PROBE,
    Occupied active (probedEntry ip i) ∧ (active (probedEntry ip i)).ip ≠ ip

/-- No probed entry was touched before the given one. -/
def OldestProbed (active : MccActive) (ip : List Octet) (e : Fin MCC_HASH_TABLE_SIZE) : Prop :=
  ∀ i < MCC_MAX_LINEAR_PROBE, (active e).touched ≤ (active (probedEntry ip i)).touched

/-- What an update has to do: the address has an entry, no address has two, each is found, and an
entry is taken from an address only if all that are probed are taken and none was touched before. -/
structure RecentStep (active : MccActive) (ip : List Octet) (touched : UInt32) : Prop where
  stored : ∃ e, Occupied (mccUpdateActive active ip touched) e ∧
    (mccUpdateActive active ip touched e).ip = ip
  unique : ∀ e e', Occupied (mccUpdateActive active ip touched) e →
    Occupied (mccUpdateActive active ip touched) e' →
    (mccUpdateActive active ip touched e).ip = (mccUpdateActive active ip touched e').ip → e = e'
  findable : ∀ e, Occupied (mccUpdateActive active ip touched) e →
    mccFindActive (mccUpdateActive active ip touched)
      (mccUpdateActive active ip touched e).ip = (e, mccUpdateActive active ip touched)
  overwritten : ∀ e, Occupied active e →
    (mccUpdateActive active ip touched e).ip ≠ (active e).ip →
    TakenByOthers active ip ∧ OldestProbed active ip e

/-! ### The scan -/

/-- The entries that are probed. -/
def probedEntries (ip : List Octet) : List (Fin MCC_HASH_TABLE_SIZE) :=
  (List.range MCC_MAX_LINEAR_PROBE).map (probedEntry ip)

/-- The first probed entry that has the address. -/
def matchedEntry (active : MccActive) (ip : List Octet) : Option (Fin MCC_HASH_TABLE_SIZE) :=
  (probedEntries ip).find? fun e => ip = (active e).ip

/-- The last probed entry that was never touched, or else the first one. -/
def victimEntry (active : MccActive) (ip : List Octet) : Fin MCC_HASH_TABLE_SIZE :=
  ((probedEntries ip).reverse.find? fun e => (active e).touched = 0).getD (probedEntry ip 0)

theorem probeActive_eq (active : MccActive) (ip : List Octet) (distances : List Nat)
    (oldest : Fin MCC_HASH_TABLE_SIZE) :
    probeActive active ip distances oldest =
      match (distances.map (probedEntry ip)).find? fun e => ip = (active e).ip with
      | some e => .inl e
      | none => .inr (((distances.map (probedEntry ip)).reverse.find? fun e =>
          (active e).touched = 0).getD oldest) := by
  induction distances generalizing oldest with
  | nil => rfl
  | cons i distances ih =>
      rw [probeActive, List.map_cons, List.find?_cons]
      by_cases hip : ip = (active (probedEntry ip i)).ip
      · rw [if_pos hip, decide_eq_true hip]
      · rw [if_neg hip, decide_eq_false hip, ih, List.reverse_cons, List.find?_append]
        by_cases htouched : (active (probedEntry ip i)).touched = 0
        · rw [if_pos htouched, List.find?_singleton, if_pos (by simpa using htouched)]
          cases List.find? _ (List.map (probedEntry ip) distances).reverse <;> rfl
        · rw [if_neg htouched, List.find?_singleton, if_neg (by simpa using htouched)]
          cases List.find? _ (List.map (probedEntry ip) distances).reverse <;> rfl

theorem mccFindActive_of_matched {active : MccActive} {ip : List Octet}
    {e : Fin MCC_HASH_TABLE_SIZE} (h : matchedEntry active ip = some e) :
    mccFindActive active ip = (e, active) := by
  rw [matchedEntry, probedEntries] at h
  rw [mccFindActive, probeActive_eq, h]

theorem mccFindActive_of_unmatched {active : MccActive} {ip : List Octet}
    (h : matchedEntry active ip = none) :
    mccFindActive active ip = (victimEntry active ip,
      Function.update active (victimEntry active ip) { active (victimEntry active ip) with
        max_ppm := 0, ip := ip.take (IPV6_STRING_SIZE - 1), intervals := zeroedIntervals,
        notes := [] }) := by
  rw [matchedEntry, probedEntries] at h
  rw [mccFindActive, probeActive_eq, h]
  rfl

theorem mem_probedEntries {ip : List Octet} {e : Fin MCC_HASH_TABLE_SIZE} :
    e ∈ probedEntries ip ↔ ∃ i < MCC_MAX_LINEAR_PROBE, probedEntry ip i = e := by
  simp [probedEntries]

theorem ip_eq_of_matched {active : MccActive} {ip : List Octet} {e : Fin MCC_HASH_TABLE_SIZE}
    (h : matchedEntry active ip = some e) : (active e).ip = ip := by
  have hmeets := List.find?_some h
  exact (of_decide_eq_true hmeets).symm

theorem matchedEntry_eq_none_iff {active : MccActive} {ip : List Octet} :
    matchedEntry active ip = none ↔ ∀ e ∈ probedEntries ip, (active e).ip ≠ ip := by
  rw [matchedEntry, List.find?_eq_none]
  exact forall₂_congr fun e _ => by rw [decide_eq_true_eq, eq_comm]

theorem victimEntry_mem (active : MccActive) (ip : List Octet) :
    victimEntry active ip ∈ probedEntries ip := by
  rw [victimEntry]
  cases h : (probedEntries ip).reverse.find? fun e => (active e).touched = 0 with
  | none => exact mem_probedEntries.mpr ⟨0, by decide, rfl⟩
  | some e => exact List.mem_reverse.mp (List.mem_of_find?_eq_some h)

theorem victimEntry_of_occupied {active : MccActive} {ip : List Octet}
    (h : Occupied active (victimEntry active ip)) :
    victimEntry active ip = probedEntry ip 0 ∧ ∀ e ∈ probedEntries ip, Occupied active e := by
  rw [victimEntry] at h ⊢
  cases hfree : (probedEntries ip).reverse.find? fun e => (active e).touched = 0 with
  | none =>
      refine ⟨rfl, fun e he => ?_⟩
      simpa [Occupied] using List.find?_eq_none.mp hfree e (List.mem_reverse.mpr he)
  | some e =>
      rw [hfree] at h
      exact absurd (by simpa using List.find?_some hfree) h

/-! ### One update -/

theorem touched_ne_zero {last touched : UInt32} (h : last < touched) :
    touched.toUInt64.toInt64 ≠ 0 := by
  intro hzero
  have hlt := UInt32.lt_iff_toNat_lt.mp h
  have hword : touched.toUInt64 = 0 := congrArg Int64.toUInt64 hzero
  rw [← UInt64.toNat_inj, UInt32.toNat_toUInt64, UInt64.toNat_zero] at hword
  omega

variable {active : MccActive} {ip : List Octet} {touched : UInt32}

theorem touched_update (active : MccActive) (ip : List Octet) (touched : UInt32)
    (e : Fin MCC_HASH_TABLE_SIZE) :
    (mccUpdateActive active ip touched e).touched =
      if e = (mccFindActive active ip).1 then touched.toUInt64.toInt64 else (active e).touched := by
  rw [mccUpdateActive]
  dsimp only
  by_cases he : e = (mccFindActive active ip).1
  · rw [if_pos he, he, Function.update_self]
    rfl
  · rw [if_neg he, Function.update_of_ne he]
    cases hmatched : matchedEntry active ip with
    | some e' => rw [mccFindActive_of_matched hmatched]
    | none =>
        rw [mccFindActive_of_unmatched hmatched] at he ⊢
        dsimp only at he ⊢
        rw [Function.update_of_ne he]

theorem ip_update_of_matched {e : Fin MCC_HASH_TABLE_SIZE}
    (h : matchedEntry active ip = some e) (touched : UInt32) (e' : Fin MCC_HASH_TABLE_SIZE) :
    (mccUpdateActive active ip touched e').ip = (active e').ip := by
  rw [mccUpdateActive, mccFindActive_of_matched h]
  dsimp only
  by_cases he : e' = e
  · rw [he, Function.update_self]
    rfl
  · rw [Function.update_of_ne he]

theorem ip_update_of_unmatched (h : matchedEntry active ip = none) (touched : UInt32)
    (e : Fin MCC_HASH_TABLE_SIZE) :
    (mccUpdateActive active ip touched e).ip =
      if e = victimEntry active ip then ip.take (IPV6_STRING_SIZE - 1) else (active e).ip := by
  rw [mccUpdateActive, mccFindActive_of_unmatched h]
  dsimp only
  by_cases he : e = victimEntry active ip
  · rw [if_pos he, he, Function.update_self, Function.update_self]
    rfl
  · rw [if_neg he, Function.update_of_ne he, Function.update_of_ne he]

/-! ### Runs of updates -/

/-- An occupied entry is the first of those probed for its address that has it, and its address fits
the field. -/
structure EntriesFound (active : MccActive) : Prop where
  found : ∀ e, Occupied active e → matchedEntry active (active e).ip = some e
  fits : ∀ e, (active e).ip.length < IPV6_STRING_SIZE

theorem entriesFound_zeroed : EntriesFound zeroedActive where
  found := fun _ h => absurd rfl h
  fits := fun _ => Nat.zero_lt_succ 39

theorem find?_of_unique {α : Type} {p : α → Bool} {a : α} {l : List α} (ha : a ∈ l)
    (hp : p a = true) (h : ∀ b ∈ l, p b = true → b = a) : l.find? p = some a := by
  cases hfind : l.find? p with
  | none => exact absurd hp (List.find?_eq_none.mp hfind a ha)
  | some b => rw [h b (List.mem_of_find?_eq_some hfind) (List.find?_some hfind)]

theorem find?_of_agree {α : Type} {p q : α → Bool} {a : α} {l : List α}
    (h : l.find? p = some a) (hq : q a = true) (hskip : ∀ b ∈ l, q b = true → p b = true ∨ b = a) :
    l.find? q = some a := by
  induction l with
  | nil => cases h
  | cons b l ih =>
      rw [List.find?_cons] at h ⊢
      cases hb : p b with
      | true =>
          rw [hb] at h
          rw [Option.some.inj h, hq]
      | false =>
          rw [hb] at h
          cases hqb : q b with
          | true =>
              rcases hskip b List.mem_cons_self hqb with hpb | rfl
              · rw [hb] at hpb
                cases hpb
              · rfl
          | false => exact ih h fun c hc => hskip c (List.mem_cons_of_mem b hc)

theorem EntriesFound.update (h : EntriesFound active) (hfits : ip.length < IPV6_STRING_SIZE)
    (touched : UInt32) : EntriesFound (mccUpdateActive active ip touched) := by
  cases hmatched : matchedEntry active ip with
  | some e =>
      have hsame : ∀ b, matchedEntry (mccUpdateActive active ip touched) b =
          matchedEntry active b := by
        intro b
        simp only [matchedEntry, ip_update_of_matched hmatched]
      refine ⟨fun e' hoccupied => ?_, fun e' => ?_⟩
      · rw [hsame, ip_update_of_matched hmatched]
        by_cases he : e' = e
        · rw [he, ip_eq_of_matched hmatched, hmatched]
        · rw [Occupied, touched_update, mccFindActive_of_matched hmatched, if_neg he] at hoccupied
          exact h.found e' hoccupied
      · rw [ip_update_of_matched hmatched]
        exact h.fits e'
  | none =>
      have hwhole : ip.take (IPV6_STRING_SIZE - 1) = ip :=
        List.take_of_length_le (Nat.le_sub_one_of_lt hfits)
      have hip := ip_update_of_unmatched hmatched touched
      rw [hwhole] at hip
      refine ⟨fun e hoccupied => ?_, fun e => ?_⟩
      · by_cases he : e = victimEntry active ip
        · rw [hip, if_pos he]
          refine find?_of_unique (he ▸ victimEntry_mem active ip) ?_ fun e' he' hmeets => ?_
          · simp [hip, he]
          · rw [hip] at hmeets
            by_contra hne
            rw [if_neg (fun heq => hne (heq.trans he.symm))] at hmeets
            exact matchedEntry_eq_none_iff.mp hmatched e' he' (of_decide_eq_true hmeets).symm
        · rw [Occupied, touched_update, mccFindActive_of_unmatched hmatched, if_neg he] at hoccupied
          have hfound := h.found e hoccupied
          rw [hip, if_neg he]
          have hother : (active e).ip ≠ ip := by
            intro heq
            rw [heq, hmatched] at hfound
            cases hfound
          refine find?_of_agree hfound ?_ fun e' _ hmeets => ?_
          · simp [hip, he]
          · rw [hip] at hmeets
            by_cases he' : e' = victimEntry active ip
            · rw [if_pos he'] at hmeets
              exact absurd (by simpa using hmeets) hother
            · rw [if_neg he'] at hmeets
              exact .inl hmeets
      · rw [hip]
        by_cases he : e = victimEntry active ip
        · rwa [if_pos he]
        · rw [if_neg he]
          exact h.fits e

theorem EntriesFound.run {last : UInt32} (h : ActiveRun active last) : EntriesFound active := by
  induction h with
  | start => exact entriesFound_zeroed
  | update _ _ hfits ih => exact ih.update hfits _

/-! ### What an update has to do -/

/-- The address fits the field of an entry and, if all the probed entries are taken by others, none
was touched before the first of them. -/
def FirstIsOldest (active : MccActive) (ip : List Octet) : Prop :=
  ip.length < IPV6_STRING_SIZE ∧
    (TakenByOthers active ip → OldestProbed active ip (probedEntry ip 0))

theorem TakenByOthers.unmatched (h : TakenByOthers active ip) : matchedEntry active ip = none := by
  refine matchedEntry_eq_none_iff.mpr fun e he => ?_
  obtain ⟨i, hi, rfl⟩ := mem_probedEntries.mp he
  exact (h i hi).2

theorem TakenByOthers.victim (h : TakenByOthers active ip) :
    victimEntry active ip = probedEntry ip 0 := by
  have hoccupied : Occupied active (victimEntry active ip) := by
    obtain ⟨i, hi, he⟩ := mem_probedEntries.mp (victimEntry_mem active ip)
    exact he ▸ (h i hi).1
  exact (victimEntry_of_occupied hoccupied).1

theorem EntriesFound.unique (h : EntriesFound active) {e e' : Fin MCC_HASH_TABLE_SIZE}
    (he : Occupied active e) (he' : Occupied active e') (hip : (active e).ip = (active e').ip) :
    e = e' := by
  have hfound := h.found e he
  rw [hip, h.found e' he'] at hfound
  exact (Option.some.inj hfound).symm

theorem stored_update {last : UInt32} (htouched : last < touched)
    (hfits : ip.length < IPV6_STRING_SIZE) :
    ∃ e, Occupied (mccUpdateActive active ip touched) e ∧
      (mccUpdateActive active ip touched e).ip = ip := by
  refine ⟨(mccFindActive active ip).1, ?_, ?_⟩
  · rw [Occupied, touched_update, if_pos rfl]
    exact touched_ne_zero htouched
  · cases hmatched : matchedEntry active ip with
    | some e =>
        rw [ip_update_of_matched hmatched, mccFindActive_of_matched hmatched]
        exact ip_eq_of_matched hmatched
    | none =>
        rw [ip_update_of_unmatched hmatched, mccFindActive_of_unmatched hmatched, if_pos rfl]
        exact List.take_of_length_le (Nat.le_sub_one_of_lt hfits)

theorem EntriesFound.not_stored (h : EntriesFound active) (hlong : IPV6_STRING_SIZE ≤ ip.length)
    (e : Fin MCC_HASH_TABLE_SIZE) : (mccUpdateActive active ip touched e).ip ≠ ip := by
  have hold : ∀ e, (active e).ip ≠ ip := by
    rintro e rfl
    exact absurd (h.fits e) (Nat.not_lt.mpr hlong)
  have hnone : matchedEntry active ip = none := matchedEntry_eq_none_iff.mpr fun e _ => hold e
  rw [ip_update_of_unmatched hnone]
  by_cases he : e = victimEntry active ip
  · rw [if_pos he]
    intro hshort
    have hlength := congrArg List.length hshort
    rw [List.length_take, min_eq_left (Nat.le_trans (Nat.sub_le _ _) hlong)] at hlength
    exact absurd (hlength ▸ hlong) (by decide)
  · rw [if_neg he]
    exact hold e

theorem overwritten_eq {e : Fin MCC_HASH_TABLE_SIZE} (he : Occupied active e)
    (hip : (mccUpdateActive active ip touched e).ip ≠ (active e).ip) :
    TakenByOthers active ip ∧ e = probedEntry ip 0 := by
  cases hmatched : matchedEntry active ip with
  | some e' => exact absurd (ip_update_of_matched hmatched touched e) hip
  | none =>
      rw [ip_update_of_unmatched hmatched] at hip
      by_cases hvictim : e = victimEntry active ip
      · obtain ⟨hfirst, hall⟩ := victimEntry_of_occupied (hvictim ▸ he)
        refine ⟨fun i hi => ?_, hvictim.trans hfirst⟩
        have hmem : probedEntry ip i ∈ probedEntries ip := mem_probedEntries.mpr ⟨i, hi, rfl⟩
        exact ⟨hall _ hmem, matchedEntry_eq_none_iff.mp hmatched _ hmem⟩
      · rw [if_neg hvictim] at hip
        exact absurd rfl hip

/-- In every table that is reached no two entries that have been touched have one address, and each
is found by its address. The next update does what it has to do if and only if its address fits and
no entry was touched before the first of those that are probed, should all of them be taken. -/
theorem activeHosts_recent_iff (active : MccActive) (last : UInt32) (hrun : ActiveRun active last) :
    (∀ e e', Occupied active e → Occupied active e' → (active e).ip = (active e').ip → e = e') ∧
      (∀ e, Occupied active e → mccFindActive active (active e).ip = (e, active)) ∧
      ∀ (ip : List Octet) (touched : UInt32), last < touched →
        (RecentStep active ip touched ↔ FirstIsOldest active ip) := by
  have h := EntriesFound.run hrun
  refine ⟨fun _ _ => h.unique, fun e he => mccFindActive_of_matched (h.found e he), ?_⟩
  intro ip touched htouched
  constructor
  · intro hstep
    have hfits : ip.length < IPV6_STRING_SIZE := by
      by_contra hlong
      obtain ⟨e, -, hstored⟩ := hstep.stored
      exact h.not_stored (Nat.le_of_not_lt hlong) e hstored
    refine ⟨hfits, fun htaken => (hstep.overwritten _ (htaken 0 (by decide)).1 ?_).2⟩
    have hother := (htaken 0 (by decide)).2
    rw [ip_update_of_unmatched htaken.unmatched, htaken.victim, if_pos rfl,
      List.take_of_length_le (Nat.le_sub_one_of_lt hfits)]
    exact Ne.symm hother
  · rintro ⟨hfits, holdest⟩
    have hafter := h.update hfits touched
    refine ⟨stored_update htouched hfits, fun _ _ => hafter.unique,
      fun e he => mccFindActive_of_matched (hafter.found e he), fun e he hip => ?_⟩
    obtain ⟨htaken, rfl⟩ := overwritten_eq he hip
    exact ⟨htaken, holdest htaken⟩

/-- An update behind one other. -/
theorem activeHosts_recent_second :
    RecentStep (mccUpdateActive zeroedActive (ascii "127.0.0.1") 1) (ascii "10.0.0.1") 2 := by
  have hrun : ActiveRun (mccUpdateActive zeroedActive (ascii "127.0.0.1") 1) 1 :=
    .update .start (by decide) (by decide)
  refine ((activeHosts_recent_iff _ 1 hrun).2.2 (ascii "10.0.0.1") 2 (by decide)).mpr
    ⟨by decide, fun htaken => ?_⟩
  exact absurd (htaken 0 (by decide)).1 (by unfold Occupied; decide)

/-- Sixteen addresses that are probed at the same entries. -/
def collidingHosts : List (List Octet) :=
  ["::6e", "::b1", "::146", "::1df", "::289", "::388", "::443", "::4dc", "::542", "::5db", "::605",
    "::704", "::a4f", "::ad6", "::bd5", "::cd4"].map ascii

/-- The table after updates of one address after the other, at the times from 1 on. -/
def updatedHosts (ips : List (List Octet)) : MccActive × UInt32 :=
  ips.foldl (fun st ip => (mccUpdateActive st.1 ip (st.2 + 1), st.2 + 1)) (zeroedActive, 0)

theorem activeRun_updatedHosts {ips : List (List Octet)}
    (hfits : ∀ ip ∈ ips, ip.length < IPV6_STRING_SIZE) (hlength : ips.length < 2 ^ 32) :
    ActiveRun (updatedHosts ips).1 (updatedHosts ips).2 ∧
      (updatedHosts ips).2.toNat = ips.length := by
  induction ips using List.reverseRecOn with
  | nil => exact ⟨.start, rfl⟩
  | append_singleton ips ip ih =>
      rw [List.length_append, List.length_singleton] at hlength
      obtain ⟨hrun, hlast⟩ := ih (fun ip hip => hfits ip (List.mem_append_left _ hip)) (by omega)
      have hnext : ((updatedHosts ips).2 + 1).toNat = ips.length + 1 := by
        rw [UInt32.toNat_add, hlast]
        exact Nat.mod_eq_of_lt hlength
      rw [updatedHosts, List.foldl_append]
      refine ⟨hrun.update ?_ (hfits ip (by simp)), ?_⟩
      · rw [UInt32.lt_iff_toNat_lt]
        exact Nat.lt_of_lt_of_eq (Nat.lt_succ_of_le hlast.le) hnext.symm
      · rw [List.length_append, List.length_singleton]
        exact hnext

/-- A seventeenth address takes the entry of the sixteenth and not the one of the first. -/
theorem activeHosts_newest : ¬ ∀ (active : MccActive) (last : UInt32), ActiveRun active last →
    ∀ (ip : List Octet) (touched : UInt32), last < touched → ip.length < IPV6_STRING_SIZE →
      RecentStep active ip touched := by
  intro h
  have hrun : ActiveRun (updatedHosts collidingHosts).1 (updatedHosts collidingHosts).2 :=
    (activeRun_updatedHosts (by decide) (by decide)).1
  have hstep := h _ _ hrun (ascii "::d4c") 17 (by decide) (by decide)
  have holdest := (hstep.overwritten 86 (by unfold Occupied; decide) (by decide)).2 15 (by decide)
  exact absurd holdest (by decide)

end Snert
