/-
Module: Snert.Proofs.PruneMatch
Purpose: What `pdqListPruneMatch` keeps: the records outside failed sections that are no aliases,
  and of those that need a host the ones whose lookup succeeds. The lookup runs while aliases and
  failed sections are being deleted: those before the record are gone, those behind it are still
  there. And which usable hosts survive `pdqListPrune`: repeated records go first, query records
  without regard to their return codes, so that what an OK reply brought can end up in the section
  of a failed reply to the same question. A usable host survives exactly when neither this nor an
  alias happens to its first copy.
Trusted boundary: none
Main exports: selfContained_iff, losesNoHost_iff
-/
import Snert.Pdq.List

namespace Snert

open CModel

/-! ### Sections that did not fail -/

/-- Does the section a record is in count, given whether the one before it did? -/
def aliveStep (alive : Bool) (rr : PdqRr) : Bool :=
  if rr.isQuery then rr.rcode = PDQ_RCODE_OK else alive

/-- Does the section reached at the end of a list count? -/
def aliveAfter (alive : Bool) (list : List PdqRr) : Bool :=
  list.foldl aliveStep alive

/-- The records outside failed sections. -/
def liveRecords : Bool → List PdqRr → List PdqRr
  | _, [] => []
  | alive, rr :: list =>
      if aliveStep alive rr then rr :: liveRecords (aliveStep alive rr) list
      else liveRecords (aliveStep alive rr) list

@[simp] theorem aliveAfter_nil (alive : Bool) : aliveAfter alive [] = alive := rfl

@[simp] theorem aliveAfter_cons (alive : Bool) (rr : PdqRr) (list : List PdqRr) :
    aliveAfter alive (rr :: list) = aliveAfter (aliveStep alive rr) list := rfl

theorem aliveAfter_append (alive : Bool) (l l' : List PdqRr) :
    aliveAfter alive (l ++ l') = aliveAfter (aliveAfter alive l) l' :=
  List.foldl_append

theorem liveRecords_append (alive : Bool) (l l' : List PdqRr) :
    liveRecords alive (l ++ l') = liveRecords alive l ++ liveRecords (aliveAfter alive l) l' := by
  induction l generalizing alive with
  | nil => rfl
  | cons rr l ih =>
      rw [List.cons_append, liveRecords, liveRecords, ih, aliveAfter_cons]
      split
      · rfl
      · rfl

/-! ### Addresses of a host -/

/-- Does the address record `a` answer the lookup for the host of `rr`? -/
def isAddressOf (a rr : PdqRr) : Bool :=
  !a.isQuery && a.hasName rr.host.string && a.hasClass rr.rrClass && a.hasType PDQ_TYPE_5A

/-- Is there an address of the host in the list itself, without any alias? -/
def hasAddress (list : List PdqRr) (rr : PdqRr) : Bool :=
  list.any (isAddressOf · rr)

@[simp] theorem hasAddress_append (l l' : List PdqRr) (rr : PdqRr) :
    hasAddress (l ++ l') rr = (hasAddress l rr || hasAddress l' rr) :=
  List.any_append

theorem PdqRr.hasType_5A {rr : PdqRr} (hquery : rr.isQuery = false) :
    rr.hasType PDQ_TYPE_5A = (rr.type = PDQ_TYPE_A ∨ rr.type = PDQ_TYPE_AAAA) := by
  have hlayout := rr.layout
  have hsection : rr.rrSection ≠ .query := by simpa [PdqRr.isQuery] using hquery
  have hne : rr.type ≠ PDQ_TYPE_5A := by
    intro h
    have hnone : kindOfType PDQ_TYPE_5A = none := by decide
    rw [kindOfRecord, if_neg hsection, h, hnone] at hlayout
    cases hlayout
  simp [PdqRr.hasType, hne]

theorem PdqRr.isAlias_of_needsHost {rr : PdqRr} (h : rr.needsHost) : rr.isAlias = false := by
  unfold PdqRr.needsHost at h
  unfold PdqRr.isAlias
  grind

theorem PdqRr.isQuery_of_needsHost {rr : PdqRr} (h : rr.needsHost) : rr.isQuery = false := by
  unfold PdqRr.needsHost at h
  grind

theorem isAddressOf_of_needsHost {a rr : PdqRr} (h : a.needsHost) : isAddressOf a rr = false := by
  have hquery := PdqRr.isQuery_of_needsHost h
  have htype := PdqRr.hasType_5A hquery
  unfold PdqRr.needsHost at h
  unfold isAddressOf
  grind

theorem isAddressOf_of_isAlias {a rr : PdqRr} (h : a.isAlias) : isAddressOf a rr = false := by
  cases hquery : a.isQuery with
  | true => simp [isAddressOf, hquery]
  | false =>
      have htype := PdqRr.hasType_5A hquery
      unfold PdqRr.isAlias at h
      unfold isAddressOf
      grind

/-! ### Lookups -/

/-- Can the lookup be led on by a record of the list? -/
def NoAlias (list : List PdqRr) : Prop :=
  ∀ rr ∈ list, rr.isQuery = false → rr.isAlias = false

theorem findNameLoop_append_isValid {kept : List PdqRr} (rest : List PdqRr) (rr : PdqRr)
    (hkept : NoAlias kept) (cnames : List (List Octet)) :
    (findNameLoop rr.rrClass PDQ_TYPE_5A (kept ++ rest) rr.host.string cnames).isValid =
      (hasAddress kept rr ||
        (findNameLoop rr.rrClass PDQ_TYPE_5A rest rr.host.string cnames).isValid) := by
  induction kept with
  | nil => rfl
  | cons a kept ih =>
      have ih := ih fun b hb => hkept b (List.mem_cons_of_mem _ hb)
      have halias := hkept a List.mem_cons_self
      rw [List.cons_append, findNameLoop, hasAddress, List.any_cons, Bool.or_assoc, ← hasAddress,
        ← ih]
      unfold isAddressOf
      cases hquery : a.isQuery with
      | true => simp
      | false =>
          rw [halias hquery]
          cases a.hasName rr.host.string with
          | false => simp
          | true =>
              cases a.hasClass rr.rrClass with
              | false => simp
              | true =>
                  cases a.hasType PDQ_TYPE_5A with
                  | false => simp
                  | true => simp [PdqFound.isValid]

theorem pdqListFindHost_self {kept : List PdqRr} (rest : List PdqRr) {rr : PdqRr}
    (hkept : NoAlias kept) (hneeds : rr.needsHost) :
    (pdqListFindHost (kept ++ rr :: rest) rr).isValid =
      (hasAddress kept rr || (pdqListFindHost rest rr).isValid) := by
  have hself : NoAlias (kept ++ [rr]) := by
    intro a ha hquery
    rcases List.mem_append.mp ha with hmem | hmem
    · exact hkept a hmem hquery
    · obtain rfl : a = rr := by simpa using hmem
      exact PdqRr.isAlias_of_needsHost hneeds
  have hpass : hasAddress [rr] rr = false := by
    simp [hasAddress, isAddressOf_of_needsHost hneeds]
  rw [List.append_cons]
  unfold pdqListFindHost pdqListFindName
  rw [findNameLoop_append_isValid rest rr hself, hasAddress_append, hpass, Bool.or_false]

theorem pdqListFindHost_noAlias {list : List PdqRr} (rr : PdqRr) (hlist : NoAlias list) :
    (pdqListFindHost list rr).isValid = hasAddress list rr := by
  have happend := findNameLoop_append_isValid [] rr hlist []
  rw [List.append_nil] at happend
  unfold pdqListFindHost pdqListFindName
  rw [happend]
  exact Bool.or_false _

/-! ### The records kept -/

/-- Does a record of a live section stay, with the live records `seen` before it and all the records
`post` behind it? -/
def stays (seen : List PdqRr) (rr : PdqRr) (post : List PdqRr) : Bool :=
  rr.isQuery ||
    (!rr.isAlias && (!rr.needsHost || hasAddress seen rr || (pdqListFindHost post rr).isValid))

/-- The records of a list that are kept. -/
def keptRecords (seen : List PdqRr) : Bool → List PdqRr → List PdqRr
  | _, [] => []
  | alive, rr :: list =>
      if aliveStep alive rr then
        if stays seen rr list then rr :: keptRecords (seen ++ [rr]) (aliveStep alive rr) list
        else keptRecords (seen ++ [rr]) (aliveStep alive rr) list
      else keptRecords seen (aliveStep alive rr) list

theorem keptRecords_congr {seen seen' : List PdqRr}
    (h : ∀ rr, hasAddress seen rr = hasAddress seen' rr) (alive : Bool) (list : List PdqRr) :
    keptRecords seen alive list = keptRecords seen' alive list := by
  induction list generalizing seen seen' alive with
  | nil => rfl
  | cons rr list ih =>
      have hsnoc : ∀ rr', hasAddress (seen ++ [rr]) rr' = hasAddress (seen' ++ [rr]) rr' := by
        intro rr'
        rw [hasAddress_append, hasAddress_append, h]
      rw [keptRecords, keptRecords, stays, stays, h rr, ih hsnoc, ih h]

theorem keptRecords_snoc {seen : List PdqRr} {rr : PdqRr}
    (h : ∀ rr', isAddressOf rr rr' = false) (alive : Bool) (list : List PdqRr) :
    keptRecords (seen ++ [rr]) alive list = keptRecords seen alive list := by
  apply keptRecords_congr
  intro rr'
  rw [hasAddress_append, hasAddress, hasAddress, List.any_cons, h rr', List.any_nil, Bool.or_false,
    Bool.or_false]

theorem keptRecords_dropWhile (seen : List PdqRr) (alive : Bool) (list : List PdqRr) :
    keptRecords seen alive (list.dropWhile fun rr => !rr.isQuery) =
      keptRecords seen false list := by
  induction list with
  | nil => rfl
  | cons rr list ih =>
      cases hquery : rr.isQuery with
      | true => simp [hquery, keptRecords, aliveStep]
      | false => simp [hquery, keptRecords, aliveStep, ih]

theorem noAlias_snoc {kept : List PdqRr} {rr : PdqRr} (hkept : NoAlias kept)
    (h : rr.isQuery = false → rr.isAlias = false) : NoAlias (kept ++ [rr]) := by
  intro a ha
  rcases List.mem_append.mp ha with hmem | hmem
  · exact hkept a hmem
  · obtain rfl : a = rr := by simpa using hmem
    exact h

theorem pruneMatchLoop_eq (rounds : Nat) {kept list : List PdqRr} (hlen : list.length ≤ rounds)
    (hkept : NoAlias kept) :
    pruneMatchLoop rounds kept list = kept ++ keptRecords kept true list := by
  induction rounds generalizing kept list with
  | zero =>
      obtain rfl : list = [] := List.eq_nil_of_length_eq_zero (Nat.le_zero.mp hlen)
      simp [pruneMatchLoop, keptRecords]
  | succ rounds ih =>
      cases list with
      | nil => simp [pruneMatchLoop, keptRecords]
      | cons rr list =>
          rw [List.length_cons, Nat.succ_le_succ_iff] at hlen
          rw [pruneMatchLoop, keptRecords, aliveStep, stays]
          cases hquery : rr.isQuery with
          | true =>
              rw [if_pos rfl, if_pos rfl]
              by_cases hrcode : rr.rcode = PDQ_RCODE_OK
              · rw [if_neg (not_not_intro hrcode), decide_eq_true hrcode, if_pos rfl,
                  ih hlen (noAlias_snoc hkept (by simp [hquery]))]
                simp
              · rw [if_pos hrcode, decide_eq_false hrcode, if_neg Bool.false_ne_true]
                have hdrop : (pdqListPruneQuery (rr :: list)).length ≤ rounds :=
                  Nat.le_trans (List.dropWhile_suffix _).length_le hlen
                rw [ih hdrop hkept]
                exact congrArg _ (keptRecords_dropWhile kept true list)
          | false =>
              rw [if_neg Bool.false_ne_true, if_neg Bool.false_ne_true, if_pos rfl]
              cases halias : rr.isAlias with
              | true =>
                  rw [if_pos rfl, ih hlen hkept,
                    keptRecords_snoc fun rr' => isAddressOf_of_isAlias halias]
                  simp
              | false =>
                  have hsnoc := noAlias_snoc hkept fun _ => halias
                  rw [if_neg Bool.false_ne_true]
                  cases hneeds : rr.needsHost with
                  | false => simp [ih hlen hsnoc]
                  | true =>
                      rw [pdqListFindHost_self list hkept hneeds]
                      cases hfound : hasAddress kept rr || (pdqListFindHost list rr).isValid with
                      | true => simp [ih hlen hsnoc, hfound]
                      | false =>
                          rw [if_pos ⟨rfl, rfl⟩, ih hlen hkept,
                            keptRecords_snoc fun rr' => isAddressOf_of_needsHost hneeds]
                          simp [hfound]

theorem pruneMatch_eq (list : List PdqRr) :
    pdqListPruneMatch list = keptRecords [] true list := by
  apply pruneMatchLoop_eq _ (Nat.le_refl _)
  intro rr hrr
  cases hrr

/-! ### Membership -/

theorem mem_liveRecords {alive : Bool} {rr : PdqRr} {list : List PdqRr} :
    rr ∈ liveRecords alive list ↔
      ∃ pre post, list = pre ++ rr :: post ∧ aliveAfter alive (pre ++ [rr]) := by
  constructor
  · intro h
    induction list generalizing alive with
    | nil => cases h
    | cons a list ih =>
        rw [liveRecords] at h
        have hrest : rr ∈ liveRecords (aliveStep alive a) list →
            ∃ pre post, a :: list = pre ++ rr :: post ∧ aliveAfter alive (pre ++ [rr]) := by
          intro hmem
          obtain ⟨pre, post, rfl, halive⟩ := ih hmem
          exact ⟨a :: pre, post, rfl, halive⟩
        cases halive : aliveStep alive a with
        | true =>
            rw [halive, if_pos rfl, ← halive] at h
            rcases List.mem_cons.mp h with rfl | hmem
            · exact ⟨[], list, rfl, halive⟩
            · exact hrest hmem
        | false =>
            rw [halive, if_neg Bool.false_ne_true, ← halive] at h
            exact hrest h
  · rintro ⟨pre, post, rfl, halive⟩
    rw [liveRecords_append, List.mem_append]
    right
    rw [aliveAfter_append, aliveAfter_cons, aliveAfter_nil] at halive
    rw [liveRecords, if_pos halive]
    exact List.mem_cons_self

theorem mem_keptRecords {seen : List PdqRr} {alive : Bool} {rr : PdqRr} {list : List PdqRr} :
    rr ∈ keptRecords seen alive list ↔
      ∃ pre post, list = pre ++ rr :: post ∧ aliveAfter alive (pre ++ [rr]) ∧
        stays (seen ++ liveRecords alive pre) rr post := by
  induction list generalizing seen alive with
  | nil => simp [keptRecords]
  | cons a list ih =>
      have hrest : (∃ pre post, a :: list = pre ++ rr :: post ∧ aliveAfter alive (pre ++ [rr]) ∧
            stays (seen ++ liveRecords alive pre) rr post) ↔
          (a = rr ∧ aliveStep alive a ∧ stays seen a list) ∨
            rr ∈ keptRecords (seen ++ if aliveStep alive a then [a] else []) (aliveStep alive a)
              list := by
        rw [ih]
        constructor
        · rintro ⟨pre, post, hlist, halive, hstays⟩
          cases pre with
          | nil =>
              simp only [List.nil_append, List.cons.injEq] at hlist
              rcases hlist with ⟨rfl, rfl⟩
              exact .inl ⟨rfl, halive, by simpa [liveRecords] using hstays⟩
          | cons b pre =>
              simp only [List.cons_append, List.cons.injEq] at hlist
              rcases hlist with ⟨rfl, rfl⟩
              refine .inr ⟨pre, post, rfl, halive, ?_⟩
              rw [liveRecords] at hstays
              cases hstep : aliveStep alive a with
              | true => simpa [hstep] using hstays
              | false => simpa [hstep] using hstays
        · rintro (⟨rfl, halive, hstays⟩ | ⟨pre, post, rfl, halive, hstays⟩)
          · exact ⟨[], list, rfl, halive, by simpa [liveRecords] using hstays⟩
          · refine ⟨a :: pre, post, rfl, halive, ?_⟩
            rw [liveRecords]
            cases hstep : aliveStep alive a with
            | true => simpa [hstep] using hstays
            | false => simpa [hstep] using hstays
      rw [hrest, keptRecords]
      cases halive : aliveStep alive a with
      | true =>
          cases hstays : stays seen a list with
          | true => simp [eq_comm]
          | false => simp
      | false => simp

theorem keptRecords_subset {alive : Bool} {rr : PdqRr} {list : List PdqRr}
    (h : rr ∈ keptRecords [] alive list) : rr ∈ liveRecords alive list := by
  obtain ⟨pre, post, hlist, halive, -⟩ := mem_keptRecords.mp h
  exact mem_liveRecords.mpr ⟨pre, post, hlist, halive⟩

theorem hasAddress_of_mem {l : List PdqRr} {a rr : PdqRr} (ha : a ∈ l) (h : isAddressOf a rr) :
    hasAddress l rr :=
  List.any_eq_true.mpr ⟨a, ha, h⟩

theorem hasAddress_keptRecords (list : List PdqRr) (rr : PdqRr) :
    hasAddress (keptRecords [] true list) rr = hasAddress (liveRecords true list) rr := by
  rw [Bool.eq_iff_iff]
  constructor
  · intro h
    obtain ⟨a, ha, haddress⟩ := List.any_eq_true.mp h
    exact hasAddress_of_mem (keptRecords_subset ha) haddress
  · intro h
    obtain ⟨a, ha, haddress⟩ := List.any_eq_true.mp h
    obtain ⟨pre, post, hlist, halive⟩ := mem_liveRecords.mp ha
    refine hasAddress_of_mem (mem_keptRecords.mpr ⟨pre, post, hlist, halive, ?_⟩) haddress
    have halias : a.isAlias = false := by
      by_contra hne
      rw [isAddressOf_of_isAlias (Bool.eq_true_of_not_eq_false hne)] at haddress
      cases haddress
    have hneeds : a.needsHost = false := by
      by_contra hne
      rw [isAddressOf_of_needsHost (Bool.eq_true_of_not_eq_false hne)] at haddress
      cases haddress
    simp [stays, halias, hneeds]

theorem noAlias_keptRecords (list : List PdqRr) : NoAlias (keptRecords [] true list) := by
  intro rr hrr hquery
  obtain ⟨pre, post, -, -, hstays⟩ := mem_keptRecords.mp hrr
  simp only [stays, hquery, Bool.false_or, Bool.and_eq_true] at hstays
  simpa using hstays.1

/-! ### The list returned -/

/-- Every record that needs a host finds its address in the list returned, and pruning that list
again changes nothing. -/
def SelfContained (list : List PdqRr) : Prop :=
  (∀ rr ∈ pdqListPruneMatch list, rr.needsHost →
      (pdqListFindHost (pdqListPruneMatch list) rr).isValid) ∧
    pdqListPruneMatch (pdqListPruneMatch list) = pdqListPruneMatch list

/-- Some record of a live section needs a host that has no address in a live section, and yet the
lookup in the records behind it succeeds: through an alias, or on an address in a failed section. -/
def MatchedOnlyBehind (list : List PdqRr) : Prop :=
  ∃ pre rr post, list = pre ++ rr :: post ∧ aliveAfter true pre ∧ rr.needsHost ∧
    hasAddress (liveRecords true list) rr = false ∧ (pdqListFindHost post rr).isValid

theorem aliveStep_of_not_isQuery {alive : Bool} {rr : PdqRr} (h : rr.isQuery = false) :
    aliveStep alive rr = alive := by
  rw [aliveStep, h, if_neg Bool.false_ne_true]

theorem aliveAfter_snoc {alive : Bool} {rr : PdqRr} (h : rr.isQuery = false) (pre : List PdqRr) :
    aliveAfter alive (pre ++ [rr]) = aliveAfter alive pre := by
  rw [aliveAfter_append, aliveAfter_cons, aliveAfter_nil, aliveStep_of_not_isQuery h]

theorem stays_of_needsHost {seen post : List PdqRr} {rr : PdqRr} (h : rr.needsHost) :
    stays seen rr post = (hasAddress seen rr || (pdqListFindHost post rr).isValid) := by
  simp [stays, h, PdqRr.isQuery_of_needsHost h, PdqRr.isAlias_of_needsHost h]

theorem keptRecords_eq_self {seen list : List PdqRr} (halias : NoAlias list)
    (hlive : ∀ rr ∈ list, rr.isQuery → rr.rcode = PDQ_RCODE_OK)
    (hneeds : ∀ rr ∈ list, rr.needsHost → hasAddress (seen ++ list) rr) :
    keptRecords seen true list = list := by
  induction list generalizing seen with
  | nil => rfl
  | cons rr list ih =>
      have htail : NoAlias list := fun a ha => halias a (List.mem_cons_of_mem _ ha)
      have halive : aliveStep true rr = true := by
        rw [aliveStep]
        split
        · rename_i hquery
          exact decide_eq_true (hlive rr List.mem_cons_self hquery)
        · rfl
      have hstays : stays seen rr list = true := by
        cases hquery : rr.isQuery with
        | true => simp [stays, hquery]
        | false =>
            cases hhost : rr.needsHost with
            | false => simp [stays, hhost, halias rr List.mem_cons_self hquery]
            | true =>
                have haddress := hneeds rr List.mem_cons_self hhost
                have hself : isAddressOf rr rr = false := isAddressOf_of_needsHost hhost
                rw [stays_of_needsHost hhost, pdqListFindHost_noAlias rr htail]
                rw [hasAddress_append, hasAddress, hasAddress, List.any_cons, hself,
                  Bool.false_or] at haddress
                exact haddress
      rw [keptRecords, halive, if_pos rfl, hstays, if_pos rfl]
      rw [ih htail (fun a ha => hlive a (List.mem_cons_of_mem _ ha))]
      intro a ha hhost
      have haddress := hneeds a (List.mem_cons_of_mem _ ha) hhost
      rwa [List.append_cons] at haddress

/-- The list returned is self-contained exactly when no record is kept for what lies behind it
alone. -/
theorem selfContained_iff (list : List PdqRr) :
    SelfContained list ↔ ¬ MatchedOnlyBehind list := by
  unfold SelfContained
  simp only [pruneMatch_eq]
  constructor
  · rintro ⟨hvalid, -⟩ ⟨pre, rr, post, hlist, halive, hneeds, hnone, hfound⟩
    have hkept : rr ∈ keptRecords [] true list := by
      refine mem_keptRecords.mpr ⟨pre, post, hlist, ?_, ?_⟩
      · rw [aliveAfter_snoc (PdqRr.isQuery_of_needsHost hneeds)]
        exact halive
      · rw [stays_of_needsHost hneeds, hfound, Bool.or_true]
    have haddress := hvalid rr hkept hneeds
    rw [pdqListFindHost_noAlias rr (noAlias_keptRecords list), hasAddress_keptRecords, hnone]
      at haddress
    cases haddress
  · intro hnot
    have haddress : ∀ rr ∈ keptRecords [] true list, rr.needsHost →
        hasAddress (liveRecords true list) rr := by
      intro rr hrr hneeds
      obtain ⟨pre, post, hlist, halive, hstays⟩ := mem_keptRecords.mp hrr
      rw [stays_of_needsHost hneeds, Bool.or_eq_true] at hstays
      rcases hstays with hseen | hfound
      · rw [hlist, liveRecords_append, hasAddress_append, Bool.or_eq_true]
        exact .inl hseen
      · by_contra hnone
        rw [aliveAfter_snoc (PdqRr.isQuery_of_needsHost hneeds)] at halive
        exact hnot ⟨pre, rr, post, hlist, halive, hneeds, Bool.eq_false_of_not_eq_true hnone, hfound⟩
    constructor
    · intro rr hrr hneeds
      rw [pdqListFindHost_noAlias rr (noAlias_keptRecords list), hasAddress_keptRecords]
      exact haddress rr hrr hneeds
    · apply keptRecords_eq_self (noAlias_keptRecords list)
      · intro rr hrr hquery
        obtain ⟨pre, post, -, halive, -⟩ := mem_keptRecords.mp hrr
        rw [aliveAfter_append, aliveAfter_cons, aliveAfter_nil, aliveStep, hquery, if_pos rfl]
          at halive
        exact of_decide_eq_true halive
      · intro rr hrr hneeds
        rw [List.nil_append, hasAddress_keptRecords]
        exact haddress rr hrr hneeds

/-! ### A list that is not self-contained -/

/-- A name as the parser stores it. -/
def storedName (s : String) : PdqName :=
  ⟨s.length, (Buffer.replicate 256 0).splice 0 (ascii s)⟩

/-- The query record for the mail exchangers of `a.`, with a return code. -/
def mxQuery (rcode : Nat) : PdqRr :=
  { rrSection := .query, name := storedName "a.", rrClass := PDQ_CLASS_IN, type := PDQ_TYPE_MX
    ttl := 0, data := .query 0 rcode 1 0 0 0, layout := rfl }

/-- A mail exchanger of `a.`. -/
def mxRecord (host : String) : PdqRr :=
  { rrSection := .answer, name := storedName "a.", rrClass := PDQ_CLASS_IN, type := PDQ_TYPE_MX
    ttl := 0, data := .mx (storedName host) 10, layout := rfl }

def cnameRecord (name host : String) : PdqRr :=
  { rrSection := .extra, name := storedName name, rrClass := PDQ_CLASS_IN, type := PDQ_TYPE_CNAME
    ttl := 0, data := .host (storedName host), layout := rfl }

def aRecord (name : String) (octet : Octet) : PdqRr :=
  { rrSection := .extra, name := storedName name, rrClass := PDQ_CLASS_IN, type := PDQ_TYPE_A
    ttl := 0
    data := .address 12 ((Buffer.replicate 16 0).splice 12 [8, 8, 8, octet]) 0 (Buffer.replicate 40 0)
    layout := rfl }

/-- The host of the mail exchanger is an alias. The alias is deleted once the lookup went through
it. -/
theorem not_selfContained_alias :
    ¬ SelfContained [mxQuery PDQ_RCODE_OK, mxRecord "b.", cnameRecord "b." "c.", aRecord "c." 8] := by
  rintro ⟨hvalid, -⟩
  exact absurd (hvalid (mxRecord "b.") (by decide +kernel) (by decide +kernel))
    (by decide)

/-! ### Repeated records -/

/-- The records that repeat none of those seen, and none before them. -/
def firstCopies (seen : List PdqRr) : List PdqRr → List PdqRr
  | [] => []
  | rr :: list =>
      if seen.any (pdqEqual · rr) then firstCopies seen list
      else rr :: firstCopies (seen ++ [rr]) list

theorem pruneDupLoop_eq (rounds : Nat) (seen : List PdqRr) : ∀ list : List PdqRr,
    list.length ≤ rounds →
    pruneDupLoop rounds (list.filter fun rr => !seen.any (pdqEqual · rr)) = firstCopies seen list := by
  intro list hlen
  induction list generalizing rounds seen with
  | nil => cases rounds <;> rfl
  | cons rr list ih =>
      rw [List.length_cons] at hlen
      rw [firstCopies]
      cases hseen : seen.any (pdqEqual · rr) with
      | true =>
          rw [List.filter_cons_of_neg (by simp [hseen]), if_pos rfl]
          exact ih rounds seen (by omega)
      | false =>
          cases rounds with
          | zero => omega
          | succ rounds =>
              rw [List.filter_cons_of_pos (by simp [hseen]), if_neg Bool.false_ne_true, pruneDupLoop,
                List.filter_filter, ← ih rounds (seen ++ [rr]) (by omega)]
              congr 3
              funext r2
              rw [List.any_append, List.any_cons, List.any_nil, Bool.or_false, Bool.not_or,
                Bool.and_comm]

theorem pruneDup_eq (list : List PdqRr) : pdqListPruneDup list = firstCopies [] list := by
  have hloop := pruneDupLoop_eq list.length [] list (Nat.le_refl _)
  simpa [pdqListPruneDup] using hloop

theorem needsHost_of_pdqEqual {a b : PdqRr} (h : pdqEqual a b) : a.needsHost = b.needsHost := by
  unfold pdqEqual at h
  unfold PdqRr.needsHost
  grind

/-! ### Usable hosts -/

/-- What `pdqListPruneMatch` is given: no repeated records, and no reserved addresses. -/
def offeredRecords (list : List PdqRr) (mask : Nat) : List PdqRr :=
  (firstCopies [] list).filter fun rr => !rr.isReserved mask

/-- A record of an OK section needs a host, and the host has an address that is not reserved in an OK
section. -/
def Wanted (list : List PdqRr) (mask : Nat) (rr : PdqRr) : Prop :=
  rr ∈ liveRecords true list ∧ rr.needsHost ∧
    ∃ a ∈ liveRecords true list, isAddressOf a rr ∧ isReservedIPv6 a.ip mask = false

/-- Every wanted record, or a copy of it, is in the list returned. -/
def LosesNoHost (list : List PdqRr) (mask : Nat) : Prop :=
  ∀ rr, Wanted list mask rr → ∃ kept ∈ pdqListPrune list mask, pdqEqual kept rr

/-- At its place between `pre` and `post` a record stands under a query that did not fail, and its
host has an address before it that does too, or is found by the lookup in what lies behind. -/
def KeptAt (pre : List PdqRr) (rr : PdqRr) (post : List PdqRr) : Prop :=
  aliveAfter true pre ∧
    (hasAddress (liveRecords true pre) rr ∨ (pdqListFindHost post rr).isValid)

theorem pdqListPrune_eq (list : List PdqRr) (mask : Nat) :
    pdqListPrune list mask = keptRecords [] true (offeredRecords list mask) := by
  unfold pdqListPrune
  rw [pruneMatch_eq, pruneDup_eq]
  rfl

theorem mem_pdqListPrune {list : List PdqRr} {mask : Nat} {rr : PdqRr} (h : rr.needsHost) :
    rr ∈ pdqListPrune list mask ↔
      ∃ pre post, offeredRecords list mask = pre ++ rr :: post ∧ KeptAt pre rr post := by
  have hquery := PdqRr.isQuery_of_needsHost h
  rw [pdqListPrune_eq, mem_keptRecords]
  simp only [aliveAfter_snoc hquery, stays_of_needsHost h, List.nil_append, Bool.or_eq_true, KeptAt]

/-- No usable host is lost exactly when the first copy of every wanted record is kept at its place:
its own section, as it stands once repeated query records are gone, did not fail, and the lookup for
its host is not led away. -/
theorem losesNoHost_iff (list : List PdqRr) (mask : Nat) :
    LosesNoHost list mask ↔
      ∀ rr, Wanted list mask rr → ∃ pre copy post,
        offeredRecords list mask = pre ++ copy :: post ∧ pdqEqual copy rr ∧ KeptAt pre copy post := by
  refine forall_congr' fun rr => forall_congr' fun hwanted => ?_
  constructor
  · rintro ⟨copy, hmem, hequal⟩
    have hneeds : copy.needsHost := (needsHost_of_pdqEqual hequal).trans hwanted.2.1
    obtain ⟨pre, post, hlist, hkept⟩ := (mem_pdqListPrune hneeds).mp hmem
    exact ⟨pre, copy, post, hlist, hequal, hkept⟩
  · rintro ⟨pre, copy, post, hlist, hequal, hkept⟩
    have hneeds : copy.needsHost := (needsHost_of_pdqEqual hequal).trans hwanted.2.1
    exact ⟨copy, (mem_pdqListPrune hneeds).mpr ⟨pre, post, hlist, hkept⟩, hequal⟩

/-- One server fails and the other answers: the record of the second query repeats that of the first,
and what it brought goes with the failed section. -/
theorem losesHost_servfail :
    ¬ LosesNoHost [mxQuery PDQ_RCODE_SERVFAIL, mxQuery PDQ_RCODE_OK, mxRecord "b.", aRecord "b." 8]
      0 := by
  intro h
  obtain ⟨kept, hkept, -⟩ := h (mxRecord "b.")
    ⟨by decide +kernel, by decide +kernel, aRecord "b." 8, by decide +kernel, by decide +kernel,
      by decide⟩
  have hnil : pdqListPrune
      [mxQuery PDQ_RCODE_SERVFAIL, mxQuery PDQ_RCODE_OK, mxRecord "b.", aRecord "b." 8] 0 = [] := by
    decide
  rw [hnil] at hkept
  cases hkept

end Snert
