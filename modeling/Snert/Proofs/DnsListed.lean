/-
Module: Snert.Proofs.DnsListed
Purpose: When the list that `dnsListIsNameListed` finds is one that lists the name. The search takes
  an owner that begins with the name and has the suffix somewhere in it; the first pair of a record
  and a suffix that it takes decides.
Trusted boundary: none
Main exports: dnsListIsNameListed_iff
-/
import Snert.Net.DnsList
import Snert.Pdq.Message

namespace Snert

open CModel

/-! ### What it is to be listed -/

/-- The record is in the answer section of a query that has return code OK. -/
def InOkAnswer (list : List PdqRr) (rr : PdqRr) : Prop :=
  ∃ before query between after, list = before ++ query :: (between ++ rr :: after) ∧
    query.isQuery ∧ query.rcode = PDQ_RCODE_OK ∧ (∀ r ∈ between, ¬ r.isQuery) ∧
    rr.rrSection = .answer

/-- The owner is the name, a dot and the suffix, when case is ignored. -/
def OwnerIs (owner name suffix : List Octet) : Prop :=
  owner.map tolower = (name ++ ch '.' :: suffix).map tolower

/-- The address is one of the IP codes, or shares a bit with the mask and is local. -/
def DnsSuffix.Counts (s : DnsSuffix) (ipv4 : List Octet) : Prop :=
  netLong ipv4 ≠ 0x7F0001FF ∧
    match s.ipcodes with
    | some codes => ∃ code ∈ codes, codeIpv4 code = ipv4
    | none => netLong ipv4 &&& s.mask ≠ 0 ∧ isReservedIPv4 ipv4 (IS_IP_LOCAL ||| IS_IP_THIS_NET)

/-- The reply lists the name with that suffix. -/
def Lists (name : List Octet) (list : List PdqRr) (s : DnsSuffix) : Prop :=
  ∃ rr, InOkAnswer list rr ∧ rr.type = PDQ_TYPE_A ∧ OwnerIs rr.name.string name s.suffix ∧
    s.Counts rr.ipv4

/-- A list is found if and only if there is one that lists the name, and it is one that does. -/
def ListsExactly (suffixes : List DnsSuffix) (name : List Octet) (list : List PdqRr) : Prop :=
  ((dnsListIsNameListed suffixes name list).isSome ↔ ∃ s ∈ suffixes, Lists name list s) ∧
    ∀ s, dnsListIsNameListed suffixes name list = some s → Lists name list s

/-! ### The search -/

/-- The A records of the answer sections behind queries that have not failed, and in front of the
first query. -/
def candidates (failed : Bool) : List PdqRr → List PdqRr
  | [] => []
  | rr :: list =>
      if rr.isQuery then candidates (rr.rcode ≠ PDQ_RCODE_OK) list
      else if failed = false ∧ rr.rrSection = .answer ∧ rr.type = PDQ_TYPE_A then
        rr :: candidates failed list
      else candidates failed list

/-- The tests that a record and a suffix have to pass. -/
def Takes (name : List Octet) (rr : PdqRr) (s : DnsSuffix) : Prop :=
  0 ≤ textInsensitiveStartsWith rr.name.string name ∧ s.suffix <:+: rr.name.string ∧
    netLong rr.ipv4 ≠ 0x7F0001FF ∧ s.lists rr.ipv4

instance (name : List Octet) (rr : PdqRr) (s : DnsSuffix) : Decidable (Takes name rr s) :=
  inferInstanceAs (Decidable (_ ∧ _))

theorem candidates_failed (list : List PdqRr) :
    candidates true list = candidates false (list.dropWhile fun rr => !rr.isQuery) := by
  induction list with
  | nil => rfl
  | cons rr list ih =>
      by_cases hquery : rr.isQuery
      · rw [List.dropWhile_cons_of_neg (by simp [hquery]), candidates, candidates, if_pos hquery,
          if_pos hquery]
      · rw [List.dropWhile_cons_of_pos (by simp [hquery]), ← ih, candidates, if_neg hquery,
          if_neg fun h => nomatch h.1]

theorem scanSuffixes_eq {name : List Octet} {rr : PdqRr}
    (h : 0 ≤ textInsensitiveStartsWith rr.name.string name) (suffixes : List DnsSuffix) :
    scanSuffixes rr suffixes = suffixes.find? fun s => Takes name rr s := by
  induction suffixes with
  | nil => rfl
  | cons s suffixes ih =>
      rw [scanSuffixes, List.find?_cons]
      by_cases hsuffix : s.suffix <:+: rr.name.string
      · rw [if_neg (not_not.mpr hsuffix)]
        by_cases haddress : netLong rr.ipv4 = 0x7F0001FF
        · have hnone : ∀ s, ¬ Takes name rr s := fun s htakes => htakes.2.2.1 haddress
          rw [if_pos haddress, decide_eq_false (hnone s)]
          exact (List.find?_eq_none.mpr fun s _ => by simpa using hnone s).symm
        · rw [if_neg haddress]
          by_cases hlists : s.lists rr.ipv4
          · rw [if_pos hlists, decide_eq_true ⟨h, hsuffix, haddress, hlists⟩]
          · rw [if_neg hlists, ih, decide_eq_false fun htakes => hlists htakes.2.2.2]
      · rw [if_pos hsuffix, ih, decide_eq_false fun htakes => hsuffix htakes.2.1]

theorem find_eq_none {name : List Octet} {rr : PdqRr}
    (h : textInsensitiveStartsWith rr.name.string name < 0) (suffixes : List DnsSuffix) :
    (suffixes.find? fun s => Takes name rr s) = none :=
  List.find?_eq_none.mpr fun _ _ => by
    simp only [decide_eq_true_eq]
    exact fun htakes => absurd htakes.1 (Int.not_le.mpr h)

theorem dnsListIsNameListed_eq (suffixes : List DnsSuffix) (name : List Octet)
    (list : List PdqRr) : dnsListIsNameListed suffixes name list =
      (candidates false list).findSome? fun rr => suffixes.find? fun s => Takes name rr s := by
  induction list using dnsListIsNameListed.induct suffixes name with
  | case1 => rw [dnsListIsNameListed, candidates, List.findSome?_nil]
  | case2 rr list hfailed ih =>
      rw [dnsListIsNameListed, dif_pos hfailed, ih, candidates, if_pos hfailed.1, pdqListFindQuery,
        if_pos hfailed.1, decide_eq_true hfailed.2, candidates_failed]
  | case3 rr list hfailed hother ih =>
      rw [dnsListIsNameListed, dif_neg hfailed, if_pos hother, ih, candidates]
      by_cases hquery : rr.isQuery
      · have hok : rr.rcode = PDQ_RCODE_OK := by
          by_contra hcode
          exact hfailed ⟨hquery, hcode⟩
        rw [if_pos hquery, decide_eq_false (not_not.mpr hok)]
      · rw [if_neg hquery, if_neg fun h => hother.elim (· h.2.1) (· h.2.2)]
  | case4 rr list hfailed hother hstart ih =>
      rw [not_or, not_not, not_not] at hother
      have hquery : ¬ rr.isQuery := by
        rw [PdqRr.isQuery, hother.1]
        decide
      rw [dnsListIsNameListed, dif_neg hfailed, if_neg (not_or.mpr ⟨not_not.mpr hother.1,
        not_not.mpr hother.2⟩), if_pos hstart, ih, candidates, if_neg hquery,
        if_pos ⟨rfl, hother⟩, List.findSome?_cons, find_eq_none hstart]
  | case5 rr list hfailed hother hstart s hscan =>
      rw [not_or, not_not, not_not] at hother
      have hquery : ¬ rr.isQuery := by
        rw [PdqRr.isQuery, hother.1]
        decide
      rw [dnsListIsNameListed, dif_neg hfailed, if_neg (not_or.mpr ⟨not_not.mpr hother.1,
        not_not.mpr hother.2⟩), if_neg hstart, hscan, candidates, if_neg hquery,
        if_pos ⟨rfl, hother⟩, List.findSome?_cons, ← scanSuffixes_eq (Int.not_lt.mp hstart), hscan]
  | case6 rr list hfailed hother hstart hscan ih =>
      rw [not_or, not_not, not_not] at hother
      have hquery : ¬ rr.isQuery := by
        rw [PdqRr.isQuery, hother.1]
        decide
      rw [dnsListIsNameListed, dif_neg hfailed, if_neg (not_or.mpr ⟨not_not.mpr hother.1,
        not_not.mpr hother.2⟩), if_neg hstart, hscan, candidates, if_neg hquery,
        if_pos ⟨rfl, hother⟩, List.findSome?_cons, ← scanSuffixes_eq (Int.not_lt.mp hstart), hscan]
      exact ih

/-! ### When it is right -/

/-- If the name is listed, some record and suffix pass the tests. -/
def NoneMissed (suffixes : List DnsSuffix) (name : List Octet) (list : List PdqRr) : Prop :=
  (∃ s ∈ suffixes, Lists name list s) →
    ∃ rr ∈ candidates false list, ∃ s ∈ suffixes, Takes name rr s

/-- The first record and suffix that pass the tests, if any do, are for a suffix that lists the
name. -/
def FirstIsListed (suffixes : List DnsSuffix) (name : List Octet) (list : List PdqRr) : Prop :=
  ∀ before rr after earlier s later,
    candidates false list = before ++ rr :: after → suffixes = earlier ++ s :: later →
    (∀ r ∈ before, ∀ s ∈ suffixes, ¬ Takes name r s) → (∀ s ∈ earlier, ¬ Takes name rr s) →
    Takes name rr s → Lists name list s

theorem listed_eq_some_iff {suffixes : List DnsSuffix} {name : List Octet} {list : List PdqRr}
    {s : DnsSuffix} : dnsListIsNameListed suffixes name list = some s ↔
      ∃ before rr after earlier later, candidates false list = before ++ rr :: after ∧
        suffixes = earlier ++ s :: later ∧ (∀ r ∈ before, ∀ s ∈ suffixes, ¬ Takes name r s) ∧
        (∀ s ∈ earlier, ¬ Takes name rr s) ∧ Takes name rr s := by
  rw [dnsListIsNameListed_eq, List.findSome?_eq_some_iff]
  constructor
  · rintro ⟨before, rr, after, hlist, hfind, hbefore⟩
    obtain ⟨htakes, earlier, later, hsuffixes, hearlier⟩ := List.find?_eq_some_iff_append.mp hfind
    refine ⟨before, rr, after, earlier, later, hlist, hsuffixes, ?_, ?_, of_decide_eq_true htakes⟩
    · intro r hr s hs htakes
      exact List.find?_eq_none.mp (hbefore r hr) s hs (decide_eq_true htakes)
    · intro s hs htakes
      have hnot := hearlier s hs
      rw [decide_eq_true htakes] at hnot
      exact nomatch hnot
  · rintro ⟨before, rr, after, earlier, later, hlist, hsuffixes, hbefore, hearlier, htakes⟩
    refine ⟨before, rr, after, hlist, List.find?_eq_some_iff_append.mpr
      ⟨decide_eq_true htakes, earlier, later, hsuffixes, fun s hs => ?_⟩, fun r hr => ?_⟩
    · rw [decide_eq_false (hearlier s hs)]
      rfl
    · exact List.find?_eq_none.mpr fun s hs => by simpa using hbefore r hr s hs

theorem listed_isSome_iff {suffixes : List DnsSuffix} {name : List Octet} {list : List PdqRr} :
    (dnsListIsNameListed suffixes name list).isSome ↔
      ∃ rr ∈ candidates false list, ∃ s ∈ suffixes, Takes name rr s := by
  rw [dnsListIsNameListed_eq, List.findSome?_isSome_iff]
  simp only [List.find?_isSome, decide_eq_true_eq]

/-- The name is found in a list exactly when it is listed, and in one that lists it, if and only if
the tests let some pair through whenever the name is listed, and the first pair they let through is
for a suffix that lists the name. -/
theorem dnsListIsNameListed_iff (suffixes : List DnsSuffix) (name : List Octet)
    (list : List PdqRr) : ListsExactly suffixes name list ↔
      NoneMissed suffixes name list ∧ FirstIsListed suffixes name list := by
  rw [ListsExactly, listed_isSome_iff]
  constructor
  · rintro ⟨hiff, hsome⟩
    refine ⟨hiff.mpr, ?_⟩
    intro before rr after earlier s later hlist hsuffixes hbefore hearlier htakes
    exact hsome s (listed_eq_some_iff.mpr
      ⟨before, rr, after, earlier, later, hlist, hsuffixes, hbefore, hearlier, htakes⟩)
  · rintro ⟨hmissed, hfirst⟩
    have hsome : ∀ s, dnsListIsNameListed suffixes name list = some s →
        s ∈ suffixes ∧ Lists name list s := by
      intro s hs
      obtain ⟨before, rr, after, earlier, later, hlist, hsuffixes, hbefore, hearlier, htakes⟩ :=
        listed_eq_some_iff.mp hs
      refine ⟨?_, hfirst before rr after earlier s later hlist hsuffixes hbefore hearlier htakes⟩
      rw [hsuffixes]
      exact List.mem_append_right _ List.mem_cons_self
    refine ⟨⟨fun htakes => ?_, hmissed⟩, fun s hs => (hsome s hs).2⟩
    obtain ⟨s, hs⟩ := Option.isSome_iff_exists.mp (listed_isSome_iff.mpr htakes)
    exact ⟨s, hsome s hs⟩

/-- The list example.org, whose mask has all bits. -/
def exampleSuffix : DnsSuffix where
  suffix := ascii "example.org."
  mask := 0xFFFFFFFF
  ipcodes := none
  rooted := by decide

/-- A reply with the address 127.0.0.2 for an owner. -/
def listedReply (owner : PdqName) : List PdqRr :=
  [{ rrSection := .query, name := owner, rrClass := PDQ_CLASS_IN, type := PDQ_TYPE_A, ttl := 0,
     data := .query 0 PDQ_RCODE_OK 1 1 0 0, layout := rfl },
    { rrSection := .answer, name := owner, rrClass := PDQ_CLASS_IN, type := PDQ_TYPE_A, ttl := 0,
      data := .address 12 ⟨[0, 0, 0, 0, 0, 0, 0, 0, 0, 0, 0, 0, 127, 0, 0, 2], by decide⟩ 4
        (Buffer.replicate 40 0),
      layout := rfl }]

/-- The address of ab.example.org lists the name "a". -/
theorem listed_byPrefix :
    ¬ ListsExactly [exampleSuffix] (ascii "a")
      (listedReply (.ofText (ascii "ab.example.org."))) := by
  have hfound : dnsListIsNameListed [exampleSuffix] (ascii "a")
      (listedReply (.ofText (ascii "ab.example.org."))) = some exampleSuffix := by
    rw [dnsListIsNameListed_eq]
    decide
  rintro ⟨-, hsome⟩
  obtain ⟨rr, ⟨before, query, between, after, hlist, -⟩, -, howner, -⟩ := hsome _ hfound
  have hmem : rr ∈ listedReply (.ofText (ascii "ab.example.org.")) := by
    rw [hlist]
    simp
  have hnone : ∀ r ∈ listedReply (.ofText (ascii "ab.example.org.")),
      ¬ r.name.string.map tolower = (ascii "a" ++ ch '.' :: exampleSuffix.suffix).map tolower := by
    decide
  exact hnone rr hmem howner

end Snert
