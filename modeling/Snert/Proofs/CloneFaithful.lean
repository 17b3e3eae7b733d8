/-
Module: Snert.Proofs.CloneFaithful
Purpose: When `pdqListClone` clones a list that `pdq_reply_parse` returned. The records behind the
  query record are always copied within their bounds, all but the NUL behind a text. The query record
  is not: the size of its copy is chosen by the type of the question, and only a question of type ANY
  has the size of a query record.
Trusted boundary: none
Main exports: pdqListClone_faithful_iff
-/
import Snert.Pdq.Clone
import Snert.Proofs.QueryConservation

namespace Snert

open CModel CModel.Run

/-! ### What a clone should be -/

/-- The list of given copies. -/
def ClonedList.ofList : List (List Member) → ClonedList
  | [] => .null
  | members :: list => .record members (ofList list)

/-- What `pdqListClone` should return after a number of allocations: if they all succeed, a list of
the same records, texts with the NUL behind them included; if one fails, NULL. -/
def FaithfulClone (created : Nat) (succeeds : Nat → Bool) (list : List PdqRr)
    (clone : ClonedList × Nat) : Prop :=
  ((∀ k < clone.2, succeeds k = true) → clone.1 = .ofList (list.map (·.members created))) ∧
  ((∃ k < clone.2, succeeds k = false) → clone.1 = .null)

/-- `pdqListClone` reads within every record, and returns what it should. -/
def ClonesFaithfully (created : Nat) (succeeds : Nat → Bool) (list : List PdqRr) : Prop :=
  (pdqListClone created succeeds list 0).Ends (FaithfulClone created succeeds list)

/-- Is it the type of a record with a text? -/
def IsText (type : Nat) : Prop :=
  type = PDQ_TYPE_TXT ∨ type = PDQ_TYPE_NULL

instance (type : Nat) : Decidable (IsText type) :=
  inferInstanceAs (Decidable (_ ∨ _))

/-- The number of allocations that it takes to copy a record. -/
def PdqRr.allocations (rr : PdqRr) : Nat :=
  if IsText rr.type then 2 else 1

/-- The lists that are cloned as they should be: the first allocation fails, and the type of the
question is supported; or the second one fails, and it is the type of a text; or the question is of
type ANY, no record has type TXT, and every allocation succeeds. -/
def Clonable (succeeds : Nat → Bool) : List PdqRr → Prop
  | [] => True
  | query :: records =>
      (pdqSizeOfType query.type ≠ 0 ∧ succeeds 0 = false) ∨
      (IsText query.type ∧ succeeds 1 = false) ∨
      (query.type = PDQ_TYPE_ANY ∧ (∀ rr ∈ records, rr.type ≠ PDQ_TYPE_TXT) ∧
        ∀ k < 1 + (records.map PdqRr.allocations).sum, succeeds k = true)

theorem ofList_inj {list list' : List (List Member)} :
    ClonedList.ofList list = .ofList list' ↔ list = list' := by
  refine ⟨fun h => ?_, congrArg _⟩
  induction list generalizing list' with
  | nil =>
      cases list' with
      | nil => rfl
      | cons members list' => cases h
  | cons members list ih =>
      cases list' with
      | nil => cases h
      | cons members' list' =>
          obtain ⟨rfl, hlist⟩ := ClonedList.record.inj h
          rw [ih hlist]

theorem linkCopy_ne_null (copy : List Member) (list : ClonedList) : linkCopy copy list ≠ .null := by
  cases list <;> nofun

theorem linkCopy_ofList (copy : List Member) {list : List (List Member)} (h : list ≠ []) :
    linkCopy copy (.ofList list) = .ofList (copy :: list) := by
  cases list with
  | nil => exact absurd rfl h
  | cons members list => rfl

theorem linkCopy_head {copy members : List Member} {list next : ClonedList}
    (h : linkCopy copy list = .record members next) : copy = members := by
  cases list with
  | null => cases h
  | freed => exact (ClonedList.record.inj h).1
  | record m l => exact (ClonedList.record.inj h).1

/-! ### Sizes -/

theorem pdqSizeOfType_of_kind {type : Nat} {kind : PdqKind} (h : kindOfType type = some kind) :
    pdqSizeOfType type = kind.size := by
  rw [pdqSizeOfType, h]
  rfl

theorem size_ne_zero (kind : PdqKind) : kind.size ≠ 0 := by
  cases kind <;> decide

theorem members_within (rr : PdqRr) (created : Nat) :
    ∀ m ∈ rr.members created, m.offset + m.size ≤ rr.data.kind.size := by
  have hdata : ∀ m ∈ rr.data.members created rr.type, m.offset + m.size ≤ rr.data.kind.size := by
    cases rr.data <;>
      simp [PdqData.members, PdqName.members, PdqData.kind, PdqKind.size]
  have hkind : 280 ≤ rr.data.kind.size := by
    cases rr.data.kind <;> decide
  simp only [PdqRr.members, PdqName.members, List.forall_mem_cons, List.forall_mem_append]
  exact ⟨by omega, ⟨⟨by omega, by omega, List.forall_mem_nil _⟩, by omega, by omega, by omega,
    List.forall_mem_nil _⟩, hdata⟩

theorem membersWithin_size (rr : PdqRr) (created : Nat) :
    membersWithin rr.data.kind.size (rr.members created) = rr.members created :=
  List.filter_eq_self.mpr fun m hm => decide_eq_true (members_within rr created m hm)

theorem kindOfType_isText {type : Nat} : kindOfType type = some .text ↔ IsText type := by
  unfold kindOfType IsText
  grind

theorem kindOfType_isQuery {type : Nat} : kindOfType type = some .query ↔ type = PDQ_TYPE_ANY := by
  unfold kindOfType
  grind

/-! ### Records of a reply -/

/-- The `m` allocations from number `n` on succeed. -/
def Granted (succeeds : Nat → Bool) (n m : Nat) : Prop :=
  ∀ k, n ≤ k → k < n + m → succeeds k = true

section

variable {created n m : Nat} {succeeds : Nat → Bool} {rr : PdqRr}

theorem granted_add {m' : Nat} : Granted succeeds n (m + m') ↔
    Granted succeeds n m ∧ Granted succeeds (n + m) m' := by
  unfold Granted
  constructor
  · intro h
    exact ⟨fun k hk hkm => h k hk (by omega), fun k hk hkm => h k (by omega) (by omega)⟩
  · rintro ⟨h, h'⟩ k hk hkm
    by_cases hlt : k < n + m
    · exact h k hk hlt
    · exact h' k (by omega) (by omega)

/-- What the copy of a record holds. -/
def PdqRr.copied (rr : PdqRr) (created : Nat) : List Member :=
  if IsText rr.type then
    membersWithin 288 (rr.members created) ++
      [⟨288, 8, .text ((castTextValue (rr.members created)).take
        (castTextLength (rr.members created)))⟩]
  else rr.members created

theorem kindOfType_record (hrr : rr.isQuery = false) : kindOfType rr.type = some rr.data.kind := by
  have hlayout := rr.layout
  rwa [kindOfRecord, if_neg (of_decide_eq_false hrr)] at hlayout

theorem exists_text (hrr : rr.isQuery = false) (htext : IsText rr.type) :
    ∃ value, rr.data = .text value := by
  have hkind := kindOfType_record hrr
  rw [kindOfType_isText.mpr htext, Option.some_inj] at hkind
  cases hdata : rr.data with
  | text value => exact ⟨value, rfl⟩
  | query | address | host | mx | soa | hinfo => rw [hdata] at hkind; cases hkind

theorem castTextLength_text {value : List Octet} (h : rr.data = .text value) :
    castTextLength (rr.members created) = value.length := by
  simp [castTextLength, PdqRr.members, PdqName.members, PdqData.members, h]

theorem castTextValue_text {value : List Octet} (h : rr.data = .text value) :
    castTextValue (rr.members created) = textObject rr.type value := by
  simp [castTextValue, PdqRr.members, PdqName.members, PdqData.members, h]

theorem textObject_take (type : Nat) (value : List Octet) :
    (textObject type value).take value.length = value := by
  unfold textObject
  split
  · exact List.take_left
  · exact List.take_length

theorem length_le_textObject (type : Nat) (value : List Octet) :
    value.length ≤ (textObject type value).length := by
  unfold textObject
  split <;> simp

theorem copied_eq_iff (hrr : rr.isQuery = false) :
    rr.copied created = rr.members created ↔ rr.type ≠ PDQ_TYPE_TXT := by
  unfold PdqRr.copied
  by_cases htext : IsText rr.type
  · obtain ⟨value, hvalue⟩ := exists_text hrr htext
    rw [if_pos htext, castTextLength_text hvalue, castTextValue_text hvalue, textObject_take]
    simp [membersWithin, PdqRr.members, PdqName.members, PdqData.members, hvalue, textObject]
  · rw [if_neg htext]
    exact ⟨fun _ h => htext (.inl h), fun _ => rfl⟩

theorem pdqDup_unsupported (h : kindOfType rr.type = none) :
    pdqDup created succeeds rr n = pure (none, n) := by
  unfold pdqDup
  rw [pdqSizeOfType, h]
  exact if_pos rfl

theorem pdqDup_refused {kind : PdqKind} (h : kindOfType rr.type = some kind)
    (hn : succeeds n = false) : pdqDup created succeeds rr n = pure (none, n + 1) := by
  unfold pdqDup
  rw [pdqSizeOfType_of_kind h]
  exact (if_neg (size_ne_zero _)).trans (if_pos hn)

theorem pdqDup_granted {kind : PdqKind} (h : kindOfType rr.type = some kind)
    (hn : succeeds n = true) : pdqDup created succeeds rr n =
      (load ⟨0, kind.size, rr.data.kind.size⟩ (membersWithin kind.size (rr.members created)) >>=
        fun copy =>
          if IsText rr.type then
            dupText succeeds rr.data.kind.size (rr.members created) copy (n + 1)
          else pure (some copy, n + 1)) := by
  unfold pdqDup
  rw [pdqSizeOfType_of_kind h]
  exact (if_neg (size_ne_zero _)).trans (if_neg (by rw [hn]; nofun))

theorem whole_inBounds (size : Nat) : Access.InBounds ⟨0, size, size⟩ := by
  simp [Access.InBounds]

theorem dupText_ends {value : List Octet} (hvalue : rr.data = .text value) (htext : IsText rr.type) :
    (dupText succeeds rr.data.kind.size (rr.members created) (rr.members created) n).Ends fun copy =>
      if succeeds n then copy = (some (rr.copied created), n + 1) else copy = (none, n + 1) := by
  unfold dupText
  have hlength : Access.InBounds ⟨280, 8, rr.data.kind.size⟩ := by
    rw [hvalue]
    exact (by decide : Access.InBounds ⟨280, 8, PdqKind.text.size⟩)
  have hpointer : Access.InBounds ⟨288, 8, rr.data.kind.size⟩ := by
    rw [hvalue]
    exact (by decide : Access.InBounds ⟨288, 8, PdqKind.text.size⟩)
  have hobject : Access.InBounds
      ⟨0, castTextLength (rr.members created), (castTextValue (rr.members created)).length⟩ := by
    rw [castTextLength_text hvalue, castTextValue_text hvalue]
    simpa [Access.InBounds] using length_le_textObject rr.type value
  rw [(yields_load hlength _).bind_ends_iff]
  cases hn : succeeds n with
  | false => exact ends_pure.mpr rfl
  | true =>
      rw [if_neg (by simp), (yields_load hpointer _).bind_ends_iff, (yields_load hobject _).bind_ends_iff,
        ends_pure]
      exact Prod.ext_iff.mpr ⟨congrArg some (if_pos htext).symm, rfl⟩

theorem pdqDup_record (hrr : rr.isQuery = false) :
    (pdqDup created succeeds rr n).Ends fun copy =>
      (Granted succeeds n rr.allocations →
        copy = (some (rr.copied created), n + rr.allocations)) ∧
      (¬ Granted succeeds n rr.allocations →
        copy.1 = none ∧ ∃ k < copy.2, succeeds k = false) := by
  have hkind := kindOfType_record hrr
  cases hn : succeeds n with
  | false =>
      rw [pdqDup_refused hkind hn, ends_pure]
      refine ⟨fun hgranted => ?_, fun _ => ⟨rfl, n, by simp, hn⟩⟩
      have hlt : n < n + rr.allocations := by
        unfold PdqRr.allocations
        split <;> omega
      rw [hgranted n (Nat.le_refl n) hlt] at hn
      cases hn
  | true =>
      rw [pdqDup_granted hkind hn, (yields_load (whole_inBounds _) _).bind_ends_iff,
        membersWithin_size]
      by_cases htext : IsText rr.type
      · obtain ⟨value, hvalue⟩ := exists_text hrr htext
        rw [if_pos htext, PdqRr.allocations, if_pos htext]
        refine (dupText_ends hvalue htext).mono fun copy hcopy => ?_
        cases hn' : succeeds (n + 1) with
        | false =>
            rw [hn', if_neg nofun] at hcopy
            subst hcopy
            refine ⟨fun hgranted => ?_, fun _ => ⟨rfl, n + 1, by simp, hn'⟩⟩
            rw [hgranted (n + 1) (by omega) (by omega)] at hn'
            cases hn'
        | true =>
            rw [hn', if_pos rfl] at hcopy
            subst hcopy
            refine ⟨fun _ => rfl, fun hrefused => absurd (fun k hk hkm => ?_) hrefused⟩
            rcases (show k = n ∨ k = n + 1 by omega) with rfl | rfl
            · exact hn
            · exact hn'
      · rw [if_neg htext, PdqRr.allocations, if_neg htext, ends_pure, PdqRr.copied, if_neg htext]
        refine ⟨fun _ => rfl, fun hrefused => absurd (fun k hk hkm => ?_) hrefused⟩
        rwa [show k = n by omega]

theorem pdqListClone_records {records : List PdqRr} (hrecords : ∀ rr ∈ records, rr.isQuery = false)
    (n : Nat) :
    (pdqListClone created succeeds records n).Ends fun clone =>
      (Granted succeeds n (records.map PdqRr.allocations).sum →
        clone.1 = .ofList (records.map (·.copied created)) ∧
          clone.2 = n + (records.map PdqRr.allocations).sum) ∧
      (¬ Granted succeeds n (records.map PdqRr.allocations).sum →
        ∃ k < clone.2, succeeds k = false) := by
  induction records generalizing n with
  | nil =>
      rw [pdqListClone, ends_pure]
      exact ⟨fun _ => ⟨rfl, rfl⟩, fun hrefused => absurd (fun k hk hkm => absurd hkm (by simp; omega))
        hrefused⟩
  | cons rr records ih =>
      obtain ⟨hrr, hrecords⟩ := List.forall_mem_cons.mp hrecords
      rw [pdqListClone, ends_bind, List.map_cons, List.sum_cons, granted_add]
      refine (pdqDup_record hrr).mono fun copy hcopy => ?_
      by_cases hgranted : Granted succeeds n rr.allocations
      · rw [hcopy.1 hgranted]
        dsimp only
        cases records with
        | nil =>
            rw [List.isEmpty_nil, if_pos rfl, ends_pure]
            refine ⟨fun _ => ⟨rfl, by simp⟩, fun hrefused => absurd ⟨hgranted, ?_⟩ hrefused⟩
            exact fun k hk hkm => absurd hkm (by simp; omega)
        | cons next records =>
            rw [List.isEmpty_cons, if_neg nofun, ends_bind]
            refine (ih hrecords (n + rr.allocations)).mono fun list hlist => ends_pure.mpr ⟨?_, ?_⟩
            · rintro ⟨-, hrest⟩
              obtain ⟨hclone, hcount⟩ := hlist.1 hrest
              refine ⟨?_, by rw [hcount, Nat.add_assoc]⟩
              rw [hclone, linkCopy_ofList _ (by simp)]
              rfl
            · exact fun hrefused => hlist.2 fun hrest => hrefused ⟨hgranted, hrest⟩
      · obtain ⟨hnone, hfailed⟩ := hcopy.2 hgranted
        obtain ⟨copy, count⟩ := copy
        obtain rfl : copy = none := hnone
        exact ends_pure.mpr ⟨fun h => absurd h.1 hgranted, fun _ => hfailed⟩

/-! ### The query record -/

/-- What links a copy to the clone of the records behind it. -/
def cloneRest (created : Nat) (succeeds : Nat → Bool) (records : List PdqRr)
    (copy : List Member) (n : Nat) : Run (ClonedList × Nat) :=
  if records.isEmpty then pure (.record copy .null, n)
  else do
    let list ← pdqListClone created succeeds records n
    pure (linkCopy copy list.1, list.2)

variable {query : PdqRr} {records : List PdqRr}

theorem not_faithful {clone : ClonedList × Nat} (hnull : clone.1 ≠ .null)
    (hhead : ∀ next, clone.1 ≠ .record (query.members created) next) :
    ¬ FaithfulClone created succeeds (query :: records) clone := by
  intro hfaithful
  by_cases hall : ∀ k < clone.2, succeeds k = true
  · exact hhead _ (hfaithful.1 hall)
  · push Not at hall
    obtain ⟨k, hk, hfails⟩ := hall
    exact hnull (hfaithful.2 ⟨k, hk, Bool.eq_false_of_not_eq_true hfails⟩)

theorem cloneRest_unfaithful {copy : List Member} (hcopy : copy ≠ query.members created) :
    ¬ (cloneRest created succeeds records copy n).Ends
      (FaithfulClone created succeeds (query :: records)) := by
  unfold cloneRest
  split
  · rw [ends_pure]
    exact not_faithful nofun fun next h => hcopy (ClonedList.record.inj h).1
  · rw [ends_bind]
    rintro ⟨-, list, -, hends⟩
    exact not_faithful (linkCopy_ne_null copy list.1) (fun next h => hcopy (linkCopy_head h))
      (ends_pure.mp hends)

theorem cloneRest_faithful_iff (hrecords : ∀ rr ∈ records, rr.isQuery = false)
    (hfirst : succeeds 0 = true) :
    (cloneRest created succeeds records (query.members created) 1).Ends
        (FaithfulClone created succeeds (query :: records)) ↔
      (∀ rr ∈ records, rr.type ≠ PDQ_TYPE_TXT) ∧
        Granted succeeds 1 (records.map PdqRr.allocations).sum := by
  have hcopies : records.map (·.copied created) = records.map (·.members created) ↔
      ∀ rr ∈ records, rr.type ≠ PDQ_TYPE_TXT := by
    rw [List.map_inj_left]
    exact forall₂_congr fun rr hrr => copied_eq_iff (hrecords rr hrr)
  have hclone := @pdqListClone_records created succeeds _ hrecords 1
  unfold cloneRest
  cases records with
  | nil =>
      rw [List.isEmpty_nil, if_pos rfl, ends_pure]
      refine ⟨fun _ => ⟨List.forall_mem_nil _, fun k hk hkm => absurd hkm (by simp; omega)⟩,
        fun _ => ⟨fun _ => rfl, ?_⟩⟩
      rintro ⟨k, hk, hfails⟩
      rw [show k = 0 by simpa using hk, hfirst] at hfails
      cases hfails
  | cons next records =>
      rw [List.isEmpty_cons, if_neg nofun, ends_bind]
      by_cases hgranted : Granted succeeds 1 ((next :: records).map PdqRr.allocations).sum
      · have hall : ∀ k < 1 + ((next :: records).map PdqRr.allocations).sum, succeeds k = true := by
          intro k hk
          cases k with
          | zero => exact hfirst
          | succ k => exact hgranted (k + 1) (by omega) hk
        rw [and_iff_left hgranted, ← hcopies]
        constructor
        · intro hends
          obtain ⟨list, hlist, hfaithful⟩ := hclone.both hends
          obtain ⟨hlist, hcount⟩ := hlist.1 hgranted
          have heq := (ends_pure.mp hfaithful).1 (by rwa [hcount])
          rw [hlist, linkCopy_ofList _ (by simp)] at heq
          exact (List.cons.inj (ofList_inj.mp heq)).2
        · intro heq
          refine hclone.mono fun list hlist => ends_pure.mpr ?_
          obtain ⟨hlist, hcount⟩ := hlist.1 hgranted
          refine ⟨fun _ => ?_, ?_⟩
          · rw [hlist, linkCopy_ofList _ (by simp), heq]
            rfl
          · rintro ⟨k, hk, hfails⟩
            rw [hcount] at hk
            rw [hall k hk] at hfails
            cases hfails
      · refine iff_of_false (fun hends => ?_) fun h => hgranted h.2
        obtain ⟨list, hlist, hfaithful⟩ := hclone.both hends
        exact linkCopy_ne_null _ _ ((ends_pure.mp hfaithful).2 (hlist.2 hgranted))

theorem pdqListClone_ends {Q : ClonedList × Nat → Prop} :
    (pdqListClone created succeeds (rr :: records) n).Ends Q ↔
      (pdqDup created succeeds rr n).Ends fun copy =>
        (copy.1.elim (pure (.null, copy.2)) (cloneRest created succeeds records · copy.2)).Ends Q := by
  rw [pdqListClone, ends_bind]
  refine iff_of_eq (congrArg _ (funext fun copy => ?_))
  obtain ⟨_ | members, count⟩ := copy
  · rfl
  · rfl

theorem query_size_lt {kind : PdqKind} (hquery : kind ≠ .query) (htext : kind ≠ .text) :
    PdqKind.query.size < kind.size := by
  cases kind with
  | query => exact absurd rfl hquery
  | text => exact absurd rfl htext
  | address | host | mx | soa | hinfo => decide

theorem text_not_mem (hkind : query.data.kind = .query) (offset size : Nat) (text : List Octet) :
    ⟨offset, size, .text text⟩ ∉ query.members created := by
  cases hdata : query.data with
  | query flags rcode qdcount ancount nscount arcount =>
      simp [PdqRr.members, PdqName.members, PdqData.members, hdata]
  | address | host | mx | text | soa | hinfo => rw [hdata] at hkind; cases hkind

theorem clonesFaithfully_text (hkind : query.data.kind = .query) (htext : IsText query.type)
    (hfirst : succeeds 0 = true) :
    ClonesFaithfully created succeeds (query :: records) ↔ succeeds 1 = false := by
  have hquery : PdqKind.text.size ≤ query.data.kind.size := by
    rw [hkind]
    decide
  have hwithin : Access.InBounds ⟨0, PdqKind.text.size, query.data.kind.size⟩ := by
    simpa [Access.InBounds] using hquery
  have hlength : Access.InBounds ⟨280, 8, query.data.kind.size⟩ := by
    rw [hkind]
    exact (by decide : Access.InBounds ⟨280, 8, PdqKind.query.size⟩)
  unfold ClonesFaithfully
  rw [pdqListClone_ends, pdqDup_granted (kindOfType_isText.mpr htext) hfirst,
    (yields_load hwithin _).bind_ends_iff, if_pos htext, dupText,
    (yields_load hlength _).bind_ends_iff]
  cases hsecond : succeeds (0 + 1) with
  | false =>
      refine iff_of_true (ends_pure.mpr (ends_pure.mpr ⟨fun hall => ?_, fun _ => rfl⟩)) rfl
      rw [hall 1 (by decide)] at hsecond
      cases hsecond
  | true =>
      refine iff_of_false (fun hends => ?_) (by simp)
      rw [if_neg (by simp), ends_bind] at hends
      obtain ⟨-, value, -, hends⟩ := hends
      obtain ⟨-, text, -, hends⟩ := ends_bind.mp hends
      rw [ends_pure] at hends
      refine cloneRest_unfaithful (fun hcopy => ?_) hends
      exact text_not_mem hkind _ _ _ (hcopy ▸ List.mem_append_right _ (List.mem_singleton_self _))

theorem clonesFaithfully_any (hkind : query.data.kind = .query) (hany : query.type = PDQ_TYPE_ANY)
    (hfirst : succeeds 0 = true) (hrecords : ∀ rr ∈ records, rr.isQuery = false) :
    ClonesFaithfully created succeeds (query :: records) ↔
      (∀ rr ∈ records, rr.type ≠ PDQ_TYPE_TXT) ∧
        Granted succeeds 1 (records.map PdqRr.allocations).sum := by
  have htext : ¬ IsText query.type := by
    rw [hany]
    decide
  have htype : kindOfType query.type = some query.data.kind := by
    rw [hkind, kindOfType_isQuery]
    exact hany
  unfold ClonesFaithfully
  rw [pdqListClone_ends, pdqDup_granted htype hfirst,
    (yields_load (whole_inBounds _) _).bind_ends_iff, if_neg htext, ends_pure, membersWithin_size]
  exact cloneRest_faithful_iff hrecords hfirst

theorem not_clonesFaithfully {kind : PdqKind} (hkind : query.data.kind = .query)
    (htype : kindOfType query.type = some kind) (hquery : kind ≠ .query) (htext : kind ≠ .text)
    (hfirst : succeeds 0 = true) : ¬ ClonesFaithfully created succeeds (query :: records) := by
  unfold ClonesFaithfully
  rw [pdqListClone_ends, pdqDup_granted htype hfirst, ends_bind]
  rintro ⟨hin, -⟩
  have hle := ((inBounds_load _ _).mp hin).2
  have hlt := query_size_lt hquery htext
  rw [hkind] at hle
  dsimp only at hle
  omega

theorem clonesFaithfully_iff (hquery : query.rrSection = .query)
    (hrecords : ∀ rr ∈ records, rr.isQuery = false) :
    ClonesFaithfully created succeeds (query :: records) ↔ Clonable succeeds (query :: records) := by
  have hkind : query.data.kind = .query := by
    have hlayout := query.layout
    rw [kindOfRecord, if_pos hquery, Option.some_inj] at hlayout
    exact hlayout.symm
  have hany : kindOfType query.type = some .query ↔ query.type = PDQ_TYPE_ANY := kindOfType_isQuery
  have htext : kindOfType query.type = some .text ↔ IsText query.type := kindOfType_isText
  cases htype : kindOfType query.type with
  | none =>
      rw [htype] at hany htext
      refine iff_of_false (fun hends => ?_) ?_
      · unfold ClonesFaithfully at hends
        rw [pdqListClone_ends, pdqDup_unsupported htype, ends_pure] at hends
        cases (ends_pure.mp hends).1 nofun
      · rintro (⟨hsize, -⟩ | ⟨htext', -⟩ | ⟨hany', -⟩)
        · rw [pdqSizeOfType, htype] at hsize
          exact hsize rfl
        · cases htext.mpr htext'
        · cases hany.mpr hany'
  | some kind =>
      have hsize : pdqSizeOfType query.type ≠ 0 := by
        rw [pdqSizeOfType_of_kind htype]
        exact size_ne_zero kind
      cases hfirst : succeeds 0 with
      | false =>
          refine iff_of_true ?_ (.inl ⟨hsize, hfirst⟩)
          unfold ClonesFaithfully
          rw [pdqListClone_ends, pdqDup_refused htype hfirst, ends_pure]
          refine ends_pure.mpr ⟨fun hall => ?_, fun _ => rfl⟩
          rw [hall 0 (by decide)] at hfirst
          cases hfirst
      | true =>
          by_cases hkindq : kind = .query
          · rw [hkindq] at htype
            rw [clonesFaithfully_any hkind (hany.mp htype) hfirst hrecords]
            constructor
            · rintro ⟨htexts, hgranted⟩
              refine .inr (.inr ⟨hany.mp htype, htexts, fun k hk => ?_⟩)
              cases k with
              | zero => exact hfirst
              | succ k => exact hgranted (k + 1) (by omega) hk
            · rintro (⟨-, hfails⟩ | ⟨htext', -⟩ | ⟨-, htexts, hall⟩)
              · rw [hfirst] at hfails
                cases hfails
              · rw [htext.mpr htext'] at htype
                cases htype
              · exact ⟨htexts, fun k _ hk => hall k hk⟩
          · have hnot : query.type ≠ PDQ_TYPE_ANY := fun h => hkindq (by
              rw [hany.mpr h] at htype
              exact (Option.some.inj htype).symm)
            by_cases hkindt : kind = .text
            · rw [hkindt] at htype
              rw [clonesFaithfully_text hkind (htext.mp htype) hfirst, Clonable]
              simp [hfirst, hnot, htext.mp htype]
            · have hnotText : ¬ IsText query.type := fun h => hkindt (by
                rw [htext.mpr h] at htype
                exact (Option.some.inj htype).symm)
              refine iff_of_false (not_clonesFaithfully hkind htype hkindq hkindt hfirst) ?_
              rw [Clonable]
              simp [hfirst, hnot, hnotText]

end

/-! ### Lists of a reply -/

theorem replyParse_list {packet : Packet} {rcode : Nat} {list : List PdqRr}
    (h : (pdqReplyParse packet).outcome = .done (rcode, some list)) :
    ∃ query records, list = query :: records ∧ query.rrSection = .query ∧
      ∀ rr ∈ records, rr.isQuery = false := by
  unfold pdqReplyParse Packet.getHeader at h
  rw [outcome_load_bind] at h
  obtain ⟨head, -, h⟩ := outcome_bind_eq_done.mp h
  dsimp only at h
  split at h
  · cases h
    exact ⟨_, [], rfl, rfl, List.forall_mem_nil _⟩
  · obtain ⟨loop, hloop, h⟩ := outcome_bind_eq_done.mp h
    cases loop with
    | none => cases h
    | some records =>
        cases h
        refine ⟨_, _, rfl, rfl, fun rr hrr => ?_⟩
        exact replyLoop_sections hloop (List.forall_mem_nil _) rr (List.mem_reverse.mp hrr)

/-- A list that `pdq_reply_parse` returns is cloned as it should be exactly when it can be. -/
theorem pdqListClone_faithful_iff (packet : Packet) (rcode : Nat) (list : List PdqRr)
    (h : (pdqReplyParse packet).outcome = .done (rcode, some list)) (created : Nat)
    (succeeds : Nat → Bool) :
    ClonesFaithfully created succeeds list ↔ Clonable succeeds list := by
  obtain ⟨query, records, rfl, hquery, hrecords⟩ := replyParse_list h
  exact clonesFaithfully_iff hquery hrecords

/-- The reply that there is no such name, to a question with the name `a.` -/
def undefinedReply (type : Octet) : Packet :=
  { length := 19
    header := { id := 0, bits := 0x8003, qdcount := 1, ancount := 0, nscount := 0, arcount := 0 }
    octet := fun i =>
      [0, 0, 0x80, 3, 0, 1, 0, 0, 0, 0, 0, 0, 1, ch 'a', 0, 0, type, 0, 1].getD i 0 }

/-- The record of the question. -/
def undefinedQuery (type : Nat) : PdqRr :=
  { rrSection := .query
    name := { length := 2, value := (Buffer.replicate 256 0).splice 0 [ch 'a', ch '.'] }
    rrClass := PDQ_CLASS_IN
    type := type
    ttl := 0
    data := .query 0x8003 PDQ_RCODE_UNDEFINED 1 0 0 0
    layout := rfl }

theorem undefinedReply_any : (pdqReplyParse (undefinedReply 255)).outcome =
    .done (PDQ_RCODE_UNDEFINED, some [undefinedQuery PDQ_TYPE_ANY]) := by
  decide +kernel

theorem pdqListClone_faithful_iff_any :
    ClonesFaithfully 1700000000 (fun _ => true) [undefinedQuery PDQ_TYPE_ANY] ↔
      Clonable (fun _ => true) [undefinedQuery PDQ_TYPE_ANY] :=
  pdqListClone_faithful_iff (undefinedReply 255) _ _ undefinedReply_any 1700000000 _

/-- A reply to a question of type MX: the copy of its query record reads 544 octets of 304. -/
theorem pdqListClone_overrun :
    (pdqReplyParse (undefinedReply 15)).outcome =
      .done (PDQ_RCODE_UNDEFINED, some [undefinedQuery PDQ_TYPE_MX]) ∧
    ¬ ClonesFaithfully 1700000000 (fun _ => true) [undefinedQuery PDQ_TYPE_MX] := by
  refine ⟨by decide +kernel, fun hclone => ?_⟩
  have hoverrun : ¬ (pdqListClone 1700000000 (fun _ => true)
      [undefinedQuery PDQ_TYPE_MX] 0).InBounds := by
    decide
  exact hoverrun hclone.1

end Snert
