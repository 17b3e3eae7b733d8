/-
Module: Snert.CModel.LinkedList
Purpose: Singly linked lists of records on the heap, from which nodes are taken out in place and
  freed, through a pointer to the link that leads to them. The list is described by its nodes, each
  with its pointer and its item; what a loop takes out of it is a sublist of them.
Trusted boundary: human-reviewed spec
Main exports: Node, LinkedList, Heap.Thinned, Heap.unlinkLoop, Heap.unlinkLoop_ends
-/
import Mathlib.Data.List.DropRight
import Snert.CModel.Heap

namespace CModel

/-- A node of a singly linked list. -/
structure Node (α : Type) where
  item : α
  next : Ptr
deriving DecidableEq, Repr

namespace Heap

variable {α : Type}

/-! ### Lists in memory -/

/-- From `head` on, nodes at these pointers with these items are linked up to `tail`. -/
def Segment (m : Heap (Node α)) : Ptr → List (Nat × α) → Ptr → Prop
  | head, [], tail => head = tail
  | head, (p, a) :: cells, tail =>
      head = some p ∧ ∃ next, m.get p = some ⟨a, next⟩ ∧ m.Segment next cells tail

/-- The list at `head` is made of these nodes. -/
def Linked (m : Heap (Node α)) (head : Ptr) (cells : List (Nat × α)) : Prop :=
  m.Segment head cells none

/-- The pointer to the first of some nodes. -/
def first (cells : List (Nat × α)) : Ptr :=
  cells.head?.map Prod.fst

/-- The pointer to the last of some nodes; none for the variable that holds the head. -/
def last (cells : List (Nat × α)) : Ptr :=
  cells.getLast?.map Prod.fst

/-- `*prev = next`, with `prev` the address of the variable of the head, or of a link in a node. -/
def setLink (m : Heap (Node α)) (head prev next : Ptr) : Run (Heap (Node α) × Ptr) :=
  match prev with
  | none => pure (m, next)
  | some q => do
      let m ← m.modify (some q) fun node => { node with next := next }
      pure (m, head)

/-- `*prev = next`, and free the node that `prev` led to. -/
def unlink (m : Heap (Node α)) (head prev : Ptr) (p : Nat) (next : Ptr) :
    Run (Heap (Node α) × Ptr) := do
  let (m, head) ← m.setLink head prev next
  let m ← m.free (some p)
  pure (m, head)

/-- A loop over a list that takes out the nodes for which `drop` holds. It goes on from a node that
    stays with `prev` at its link, or else with `prev` as it was. -/
def unlinkLoop (drop : α → Bool) (advance : Bool) : Nat → Heap (Node α) → Ptr → Ptr → Ptr →
    Run (Heap (Node α) × Ptr)
  | _, m, head, _, none => pure (m, head)
  | 0, _, _, _, some _ => ⟨[], .diverge⟩
  | rounds + 1, m, head, prev, some p => do
      let node ← m.load (some p)
      if drop node.item then do
        let (m, head) ← m.unlink head prev p node.next
        unlinkLoop drop advance rounds m head prev node.next
      else
        unlinkLoop drop advance rounds m head (if advance then some p else prev) node.next

/-- The list of the nodes `cells` is down to `kept`: the others have been freed, and no other record
    has changed. -/
structure Thinned (m m' : Heap (Node α)) (head' : Ptr) (cells kept : List (Nat × α)) : Prop where
  sublist : kept.Sublist cells
  linked : m'.Linked head' kept
  freed : ∀ c ∈ cells, c ∉ kept → m'.get c.1 = none
  frame : ∀ q, q ∉ cells.map Prod.fst → m'.get q = m.get q

section

variable {m m' : Heap (Node α)} {head head' tail mid : Ptr} {p q : Nat} {item : α}
  {a b cells kept rest : List (Nat × α)}

/-! ### Segments -/

theorem segment_append : m.Segment head (a ++ b) tail ↔
    ∃ mid, m.Segment head a mid ∧ m.Segment mid b tail := by
  induction a generalizing head with
  | nil => exact ⟨fun h => ⟨head, rfl, h⟩, fun ⟨_, heq, h⟩ => heq ▸ h⟩
  | cons c a ih =>
      simp only [List.cons_append, Segment, ih]
      constructor
      · rintro ⟨rfl, next, hget, mid, ha, hb⟩
        exact ⟨mid, ⟨rfl, next, hget, ha⟩, hb⟩
      · rintro ⟨mid, ⟨rfl, next, hget, ha⟩, hb⟩
        exact ⟨rfl, next, hget, mid, ha, hb⟩

theorem linked_append : m.Linked head (a ++ b) ↔ ∃ mid, m.Segment head a mid ∧ m.Linked mid b :=
  segment_append

/-- A segment is not concerned by what happens to other nodes. -/
theorem Segment.congr (h : m.Segment head cells tail)
    (hsame : ∀ q ∈ cells.map Prod.fst, m'.get q = m.get q) : m'.Segment head cells tail := by
  induction cells generalizing head with
  | nil => exact h
  | cons c cells ih =>
      obtain ⟨hhead, next, hget, hrest⟩ := h
      exact ⟨hhead, next, (hsame c.1 (List.mem_cons_self ..)).trans hget,
        ih hrest fun q hq => hsame q (List.mem_cons_of_mem _ hq)⟩

theorem Segment.get_of_mem (h : m.Segment head cells tail) {c : Nat × α} (hc : c ∈ cells) :
    ∃ next, m.get c.1 = some ⟨c.2, next⟩ := by
  induction cells generalizing head with
  | nil => simp at hc
  | cons d cells ih =>
      obtain ⟨-, next, hget, hrest⟩ := h
      rcases List.mem_cons.mp hc with rfl | hc
      · exact ⟨next, hget⟩
      · exact ih hrest hc

/-- The nodes of a list are determined by the memory. -/
theorem Linked.unique (ha : m.Linked head a) (hb : m.Linked head b) : a = b := by
  induction a generalizing head b with
  | nil =>
      obtain rfl : head = none := ha
      cases b with
      | nil => rfl
      | cons c b =>
          obtain ⟨heq, -⟩ := hb
          cases heq
  | cons c a ih =>
      obtain ⟨p, x⟩ := c
      obtain ⟨rfl, next, hget, ha⟩ := ha
      cases b with
      | nil => cases hb
      | cons d b =>
          obtain ⟨heq, next', hget', hb⟩ := hb
          obtain rfl : p = d.1 := Option.some.inj heq
          rw [hget] at hget'
          obtain ⟨rfl, rfl⟩ : x = d.2 ∧ next = next' := by simpa using hget'
          rw [ih ha hb]

theorem Linked.eq_first (h : m.Linked head cells) : head = first cells := by
  cases cells with
  | nil => exact h
  | cons c cells => exact h.1

/-- A list that ends with NULL has no node twice. -/
theorem Linked.nodup (h : m.Linked head cells) : (cells.map Prod.fst).Nodup := by
  induction cells generalizing head with
  | nil => exact List.nodup_nil
  | cons c cells ih =>
      have hlinked := h
      obtain ⟨rfl, next, hget, hrest⟩ := h
      refine List.nodup_cons.mpr ⟨fun hmem => ?_, ih hrest⟩
      obtain ⟨d, hd, heq⟩ := List.mem_map.mp hmem
      obtain ⟨l, l', rfl⟩ := List.append_of_mem hd
      -- From the second occurrence on the list would be the same again.
      obtain ⟨mid, -, hfrom⟩ := linked_append.mp hrest
      obtain rfl : mid = some c.1 := hfrom.1.trans (congrArg some heq)
      have hlength := congrArg List.length (hfrom.unique hlinked)
      simp only [List.length_cons, List.length_append] at hlength
      omega

theorem Linked.length_le (h : m.Linked head cells) : cells.length ≤ m.cells.length := by
  have hsub : cells.map Prod.fst ⊆ List.range m.cells.length := fun q hq => by
    obtain ⟨c, hc, rfl⟩ := List.mem_map.mp hq
    obtain ⟨next, hget⟩ := Segment.get_of_mem h hc
    exact List.mem_range.mpr (lt_of_get hget)
  simpa using (List.subperm_of_subset h.nodup hsub).length_le

theorem last_append_singleton (c : Nat × α) : last (kept ++ [c]) = some c.1 := by
  simp [last]

/-- A segment can be led elsewhere through its last link. -/
theorem setLink_ends (h : m.Segment head kept mid) (hnodup : (kept.map Prod.fst).Nodup)
    (next : Ptr) :
    (m.setLink head (last kept) next).Ends fun (m', head') =>
      m'.Segment head' kept next ∧ ∀ q, q ∉ kept.map Prod.fst → m'.get q = m.get q := by
  rcases List.eq_nil_or_concat kept with rfl | ⟨front, c, rfl⟩
  · exact Run.ends_pure.mpr ⟨rfl, fun _ _ => rfl⟩
  · rw [List.concat_eq_append] at h hnodup ⊢
    obtain ⟨p, x⟩ := c
    obtain ⟨_, hfront, rfl, next', hget, -⟩ := segment_append.mp h
    rw [last_append_singleton, setLink, (yields_modify hget _).bind_ends_iff]
    rw [List.map_append, List.nodup_append] at hnodup
    have hp : ∀ q ∈ front.map Prod.fst, q ≠ p := fun q hq =>
      hnodup.2.2 q hq p (List.mem_singleton_self p)
    refine Run.ends_pure.mpr ⟨segment_append.mpr ⟨some p, ?_, rfl, next, ?_, rfl⟩, fun q hq => ?_⟩
    · exact hfront.congr fun q hq => get_set_ne (hp q hq) _
    · exact get_set_self (lt_of_get hget) _
    · exact get_set_ne (fun heq => hq (by simp [heq])) _

/-! ### Taking nodes out -/

theorem Thinned.refl (h : m.Linked head cells) : Thinned m m head cells cells :=
  ⟨List.Sublist.refl _, h, fun _ hc hnot => absurd hc hnot, fun _ _ => rfl⟩

theorem Thinned.trans {m₁ m₂ : Heap (Node α)} {head₁ head₂ : Ptr} {kept₂ : List (Nat × α)}
    (h₁ : Thinned m m₁ head₁ cells kept) (h₂ : Thinned m₁ m₂ head₂ kept kept₂) :
    Thinned m m₂ head₂ cells kept₂ := by
  have hsub := h₁.sublist.map Prod.fst
  refine ⟨h₂.sublist.trans h₁.sublist, h₂.linked, fun c hc hnot => ?_, fun q hq => ?_⟩
  · by_cases hkept : c ∈ kept
    · exact h₂.freed c hkept hnot
    · have hgone := h₁.freed c hc hkept
      refine (h₂.frame c.1 fun hmem => ?_).trans hgone
      obtain ⟨d, hd, heq⟩ := List.mem_map.mp hmem
      obtain ⟨next, hget⟩ := Segment.get_of_mem h₁.linked hd
      simp [heq, hgone] at hget
  · exact (h₂.frame q fun hmem => hq (hsub.subset hmem)).trans (h₁.frame q hq)

/-- What a list is down to when the nodes `gone` are free and the link before them leads behind
them. -/
theorem Linked.thinned (gone : List (Nat × α)) (h : m.Linked head (kept ++ (gone ++ rest)))
    (hkept : m'.Segment head' kept mid) (hrest : m.Linked mid rest)
    (hgone : ∀ q ∈ gone.map Prod.fst, m'.get q = none)
    (hsame : ∀ q, q ∉ kept.map Prod.fst → q ∉ gone.map Prod.fst → m'.get q = m.get q) :
    Thinned m m' head' (kept ++ (gone ++ rest)) (kept ++ rest) := by
  have hnodup := h.nodup
  simp only [List.map_append, List.nodup_append] at hnodup
  refine ⟨(List.sublist_append_right ..).append_left _, linked_append.mpr ⟨mid, hkept, ?_⟩, ?_, ?_⟩
  · refine hrest.congr fun q hq => hsame q (fun hmem => ?_) fun hmem => ?_
    · exact hnodup.2.2 q hmem q (List.mem_append_right _ hq) rfl
    · exact hnodup.2.1.2.2 q hmem q hq rfl
  · intro c hc hnot
    simp only [List.mem_append, not_or] at hc hnot
    have hmem : c ∈ gone := by tauto
    exact hgone c.1 (List.mem_map.mpr ⟨c, hmem, rfl⟩)
  · intro q hq
    simp only [List.map_append, List.mem_append, not_or] at hq
    exact hsame q hq.1 hq.2.1

/-- One node of a list is taken out. -/
theorem unlink_ends {next : Ptr} (h : m.Linked head (kept ++ (p, item) :: rest))
    (hget : m.get p = some ⟨item, next⟩) :
    (m.unlink head (last kept) p next).Ends fun (m', head') =>
      Thinned m m' head' (kept ++ (p, item) :: rest) (kept ++ rest) := by
  obtain ⟨_, hkept, rfl, next', hget', hrest⟩ := linked_append.mp h
  obtain rfl : next = next' := by simpa [hget] using hget'
  have hnodup := h.nodup
  rw [List.map_append, List.nodup_append] at hnodup
  have hp : p ∉ kept.map Prod.fst := fun hmem => hnodup.2.2 p hmem p (List.mem_cons_self ..) rfl
  rw [unlink, Run.ends_bind]
  refine (setLink_ends hkept hnodup.1 next).mono fun ⟨m₁, head₁⟩ ⟨hkept₁, hsame⟩ => ?_
  have hget₁ := (hsame p hp).trans hget
  rw [(yields_free hget₁).bind_ends_iff, Run.ends_pure]
  refine Linked.thinned [(p, item)] h (hkept₁.congr fun q hq => ?_) hrest ?_ ?_
  · exact get_set_ne (ne_of_mem_of_not_mem hq hp) _
  · simpa using get_set_self (lt_of_get hget₁) none
  · intro q hq hqp
    exact (get_set_ne (by simpa using hqp) _).trans (hsame q hq)

/-- A loop that advances leaves the nodes that stay in their order. -/
theorem unlinkLoop_ends (drop : α → Bool) (kept : List (Nat × α)) {rounds : Nat}
    (h : m.Linked head (kept ++ rest)) (hrr : m.Linked mid rest) (hrounds : rest.length ≤ rounds) :
    (unlinkLoop drop true rounds m head (last kept) mid).Ends fun (m', head') =>
      Thinned m m' head' (kept ++ rest) (kept ++ rest.filter fun c => !drop c.2) := by
  induction rest generalizing m head kept mid rounds with
  | nil =>
      obtain rfl : mid = none := hrr
      have hloop : unlinkLoop drop true rounds m head (last kept) none = pure (m, head) := by
        cases rounds <;> rfl
      rw [hloop, Run.ends_pure]
      exact Thinned.refl h
  | cons c rest ih =>
      obtain ⟨p, item⟩ := c
      obtain ⟨rfl, next, hget, hrest⟩ := hrr
      obtain ⟨rounds, rfl⟩ := Nat.exists_eq_succ_of_ne_zero (Nat.ne_zero_of_lt hrounds)
      have hrounds : rest.length ≤ rounds := Nat.le_of_succ_le_succ hrounds
      rw [unlinkLoop, (yields_load hget).bind_ends_iff]
      cases hdrop : drop item with
      | true =>
          rw [if_pos rfl, Run.ends_bind, List.filter_cons_of_neg (by simp [hdrop])]
          refine (unlink_ends h hget).mono fun ⟨m₁, head₁⟩ hthin => ?_
          obtain ⟨mid, -, hrest₁⟩ := linked_append.mp hthin.linked
          obtain rfl : mid = next := hrest₁.eq_first.trans (Linked.eq_first hrest).symm
          exact (ih kept hthin.linked hrest₁ hrounds).mono fun _ hthin' => hthin.trans hthin'
      | false =>
          rw [if_neg Bool.false_ne_true, if_pos rfl, List.filter_cons_of_pos (by simp [hdrop])]
          rw [List.append_cons] at h
          have hloop := ih (kept ++ [(p, item)]) h hrest hrounds
          simpa only [last_append_singleton, List.append_assoc, List.singleton_append] using hloop

/-- What is behind the last item that is dropped, or everything when none is. -/
theorem rtakeWhile_cons (drop : α → Bool) (c : Nat × α) (cells : List (Nat × α)) :
    (c :: cells).rtakeWhile (fun c => !drop c.2) =
      if cells.any fun c => drop c.2 then cells.rtakeWhile fun c => !drop c.2
      else if drop c.2 then cells else c :: cells := by
  rw [List.rtakeWhile, List.reverse_cons]
  split_ifs with hany hc
  · obtain ⟨x, hx, hdrop⟩ := List.any_eq_true.mp hany
    obtain ⟨l, l', hcells⟩ := List.append_of_mem (List.mem_reverse.mpr hx)
    rw [List.rtakeWhile, hcells]
    simp [List.takeWhile_append, hdrop]
  all_goals
    have hall : ∀ x ∈ cells.reverse, !drop x.2 := by simpa using hany
    simp [List.takeWhile_append_of_pos hall, hc]

/-- What a loop that stays at the head returns is what is behind the last node it took out. -/
theorem unlinkLoop_head_ends (drop : α → Bool) {rounds : Nat} (h : m.Linked mid cells)
    (hrounds : cells.length ≤ rounds) :
    (unlinkLoop drop false rounds m head none mid).Ends fun (m', head') =>
      (∀ q, m'.get q =
        if q ∈ (cells.filter fun c => drop c.2).map Prod.fst then none else m.get q) ∧
      head' = if cells.any fun c => drop c.2 then first (cells.rtakeWhile fun c => !drop c.2)
        else head := by
  induction cells generalizing m head mid rounds with
  | nil =>
      obtain rfl : mid = none := h
      have hloop : unlinkLoop drop false rounds m head none none = pure (m, head) := by
        cases rounds <;> rfl
      rw [hloop, Run.ends_pure]
      exact ⟨fun _ => rfl, rfl⟩
  | cons c cells ih =>
      obtain ⟨p, item⟩ := c
      obtain ⟨hp, -⟩ := List.nodup_cons.mp h.nodup
      obtain ⟨rfl, next, hget, hrest⟩ := h
      obtain ⟨rounds, rfl⟩ := Nat.exists_eq_succ_of_ne_zero (Nat.ne_zero_of_lt hrounds)
      have hrounds : cells.length ≤ rounds := Nat.le_of_succ_le_succ hrounds
      rw [unlinkLoop, (yields_load hget).bind_ends_iff, List.any_cons]
      cases hdrop : drop item with
      | true =>
          have hrest' : (m.set p none).Linked next cells :=
            hrest.congr fun q hq => get_set_ne (ne_of_mem_of_not_mem hq hp) _
          rw [if_pos rfl, unlink, setLink, Run.pure_bind, Run.bind_assoc,
            (yields_free hget).bind_ends_iff, Run.pure_bind]
          refine (ih hrest' hrounds).mono fun (m', head') ⟨hmem, hhead⟩ => ⟨fun q => ?_, ?_⟩
          · rw [hmem, List.filter_cons_of_pos (by simp [hdrop]), List.map_cons]
            rcases eq_or_ne q p with rfl | hq
            · simp [get_set_self (lt_of_get hget)]
            · simp only [get_set_ne hq, List.mem_cons, hq, false_or]
          · rw [hhead, Bool.true_or, if_pos rfl, rtakeWhile_cons, if_pos hdrop]
            split_ifs with hany
            · rfl
            · exact Linked.eq_first hrest
      | false =>
          rw [if_neg Bool.false_ne_true, if_neg Bool.false_ne_true]
          refine (ih hrest hrounds).mono fun (m', head') ⟨hmem, hhead⟩ => ⟨fun q => ?_, ?_⟩
          · rw [hmem, List.filter_cons_of_neg (by simp [hdrop])]
          · rw [hhead, Bool.false_or]
            split_ifs with hany
            · rw [rtakeWhile_cons, if_pos hany]
            · rfl

end

end Heap

/-- A list in memory, with its nodes. -/
structure LinkedList (α : Type) where
  memory : Heap (Node α)
  head : Ptr
  cells : List (Nat × α)
  linked : memory.Linked head cells

/-- The items of a list. -/
def LinkedList.items {α : Type} (l : LinkedList α) : List α :=
  l.cells.map Prod.snd

end CModel
