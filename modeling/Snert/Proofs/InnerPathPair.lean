/-
Module: Snert.Proofs.InnerPathPair
Purpose: The span that `findInnerPath` passes back for a path whose brackets nest: it is the pair that
  begins at the last open bracket and ends at the first closing one behind it. `start` moves with every
  open bracket, and since `stop` then lies behind it, the next closing bracket sets `stop` again.
Trusted boundary: none
Main exports: findInnerPath_pair
-/
import Snert.Proofs.InnerPathSpan

namespace Snert

open CModel

/-! ### Nested brackets -/

/-- Every closing bracket has an open one before it, and no bracket stays open. -/
def Nested (bs : List Octet) : Prop :=
  bs.count (ch '<') = bs.count (ch '>') ∧
    ∀ i, (bs.take i).count (ch '>') ≤ (bs.take i).count (ch '<')

instance (bs : List Octet) : Decidable (Nested bs) :=
  decidable_of_iff (bs.count (ch '<') = bs.count (ch '>') ∧
      ∀ i < bs.length, (bs.take i).count (ch '>') ≤ (bs.take i).count (ch '<')) <| by
    refine and_congr_right fun hcount => ⟨fun h i => ?_, fun h i _ => h i⟩
    by_cases hi : i < bs.length
    · exact h i hi
    · rw [List.take_of_length_le (Nat.le_of_not_lt hi)]
      exact Nat.le_of_eq hcount.symm

theorem Nested.not_open_last {bs : List Octet} (h : Nested (bs ++ [ch '<'])) : False := by
  have htake := h.2 bs.length
  rw [List.take_left' rfl] at htake
  have hcount := h.1
  rw [List.count_append, List.count_append, show [ch '<'].count (ch '<') = 1 by decide,
    show [ch '<'].count (ch '>') = 0 by decide] at hcount
  omega

theorem Nested.open_mem {bs : List Octet} (h : Nested bs) (hne : bs ≠ [])
    (honly : ∀ c ∈ bs, c = ch '<' ∨ c = ch '>') : ch '<' ∈ bs := by
  obtain ⟨c, hc⟩ := List.exists_mem_of_ne_nil bs hne
  rcases honly c hc with rfl | rfl
  · exact hc
  · rw [← List.count_pos_iff, h.1]
    exact List.count_pos_iff.mpr hc

/-! ### The invariant -/

/-- The brackets seen stand before `pos`, and behind the last open one `stop` is set by the first that
closes; before that it is not behind `start`. -/
structure PairInv (path : List Octet) (seen : List (Nat × Octet)) (pos : Nat) (s : InnerScan) :
    Prop where
  scan : ScanInv path (seen.map Prod.snd) pos s
  inside : ∀ b ∈ seen, b.1 < pos
  ordered : seen.Pairwise fun a b => a.1 < b.1
  at_octet : ∀ b ∈ seen, path[b.1]? = some b.2
  start_last : ∀ before start after, seen = before ++ (start, ch '<') :: after →
    (∀ b ∈ after, b.2 ≠ ch '<') → s.start = start
  stop_first : ∀ before start close after, seen = before ++ (start, ch '<') :: close :: after →
    (∀ b ∈ close :: after, b.2 ≠ ch '<') → start < close.1 ∧ s.stop = some (close.1 + 1)
  stop_none : ∀ before start, seen = before ++ [(start, ch '<')] → s.stopBehindStart = true

namespace PairInv

variable {path : List Octet} {seen : List (Nat × Octet)} {pos : Nat} {s : InnerScan}

theorem skip (h : PairInv path seen pos s) : PairInv path seen (pos + 1) s where
  scan := h.scan.mono (Nat.le_succ pos)
  inside b hb := Nat.lt_succ_of_lt (h.inside b hb)
  ordered := h.ordered
  at_octet := h.at_octet
  start_last := h.start_last
  stop_first := h.stop_first
  stop_none := h.stop_none

theorem setQuote (h : PairInv path seen pos s) (quote : Bool) :
    PairInv path seen pos { s with quote := quote } where
  scan := h.scan.setQuote quote
  inside := h.inside
  ordered := h.ordered
  at_octet := h.at_octet
  start_last := h.start_last
  stop_first := h.stop_first
  stop_none := h.stop_none

theorem concat_cut {α : Type} {l before after : List α} {x y : α}
    (h : l ++ [x] = before ++ y :: after) :
    (after = [] ∧ l = before ∧ x = y) ∨ ∃ after', after = after' ++ [x] ∧ l = before ++ y :: after' := by
  rcases List.eq_nil_or_concat after with rfl | ⟨after', z, rfl⟩
  · obtain ⟨rfl, hlast⟩ := List.append_inj' h rfl
    exact .inl ⟨rfl, rfl, (List.cons.inj hlast).1⟩
  · rw [List.concat_eq_append, ← List.cons_append, ← List.append_assoc] at h
    rw [List.concat_eq_append]
    obtain ⟨rfl, hlast⟩ := List.append_inj' h rfl
    exact .inr ⟨after', by rw [(List.cons.inj hlast).1], rfl⟩

theorem forall_seen {P : Nat × Octet → Prop} {b : Nat × Octet} (hseen : ∀ b ∈ seen, P b) (hb : P b) :
    ∀ b' ∈ seen ++ [b], P b' :=
  List.forall_mem_append.mpr ⟨hseen, List.forall_mem_singleton.mpr hb⟩

theorem ordered_concat (h : PairInv path seen pos s) (c : Octet) :
    (seen ++ [(pos, c)]).Pairwise fun a b => a.1 < b.1 :=
  List.pairwise_append.mpr ⟨h.ordered, List.pairwise_singleton _ _, fun a ha b hb => by
    rw [List.mem_singleton.mp hb]
    exact h.inside a ha⟩

theorem opening (h : PairInv path seen pos s) (hc : path[pos]? = some (ch '<'))
    (hq : s.quote = false) : PairInv path (seen ++ [(pos, ch '<')]) (pos + 1) (s.opening pos) := by
  have hs : s.opening pos = { s with depth := s.depth + 1, start := pos } := by
    simp [InnerScan.opening, hq]
  have hlast {before after : List (Nat × Octet)} {start : Nat}
      (hcut : seen ++ [(pos, ch '<')] = before ++ (start, ch '<') :: after)
      (hnone : ∀ b ∈ after, b.2 ≠ ch '<') : after = [] ∧ pos = start := by
    rcases concat_cut hcut with ⟨rfl, -, heq⟩ | ⟨after', rfl, -⟩
    · exact ⟨rfl, congrArg Prod.fst heq⟩
    · exact absurd rfl (hnone (pos, ch '<') (by simp))
  constructor
  · rw [List.map_append]
    exact h.scan.opening hc hq
  · exact forall_seen (fun b hb => Nat.lt_succ_of_lt (h.inside b hb)) (Nat.lt_succ_self pos)
  · exact h.ordered_concat _
  · exact forall_seen h.at_octet hc
  · intro before start after hcut hnone
    rw [hs]
    exact (hlast hcut hnone).2
  · intro before start close after hcut hnone
    exact absurd (hlast hcut hnone).1 (List.cons_ne_nil _ _)
  · intro before start _
    rw [hs, InnerScan.stopBehindStart]
    dsimp only
    split
    · rfl
    · next p hp => exact decide_eq_true (h.scan.stop_close p hp).2.1

theorem closing (h : PairInv path seen pos s) (hc : path[pos]? = some (ch '>'))
    (hq : s.quote = false) : PairInv path (seen ++ [(pos, ch '>')]) (pos + 1) (s.closing pos) := by
  have hs : s.closing pos =
      { s with
        stop := if s.stopBehindStart then some (pos + 1) else s.stop
        depth := s.depth - 1 } := by
    simp [InnerScan.closing, hq]
  have hother : ch '>' ≠ ch '<' := by decide
  have hbefore {before after : List (Nat × Octet)} {start : Nat}
      (hcut : seen ++ [(pos, ch '>')] = before ++ (start, ch '<') :: after) :
      ∃ after', after = after' ++ [(pos, ch '>')] ∧ seen = before ++ (start, ch '<') :: after' := by
    rcases concat_cut hcut with ⟨-, -, heq⟩ | hrest
    · exact absurd (congrArg Prod.snd heq) hother
    · exact hrest
  constructor
  · rw [List.map_append]
    exact h.scan.closing hc hq
  · exact forall_seen (fun b hb => Nat.lt_succ_of_lt (h.inside b hb)) (Nat.lt_succ_self pos)
  · exact h.ordered_concat _
  · exact forall_seen h.at_octet hc
  · intro before start after hcut hnone
    obtain ⟨after', rfl, hseen⟩ := hbefore hcut
    rw [hs]
    exact h.start_last before start after' hseen fun b hb => hnone b (List.mem_append_left _ hb)
  · intro before start close after hcut hnone
    obtain ⟨after', hafter, hseen⟩ := hbefore hcut
    rw [hs]
    dsimp only
    cases after' with
    | nil =>
        obtain ⟨rfl, rfl⟩ := List.cons.inj hafter
        rw [if_pos (h.stop_none before start hseen)]
        exact ⟨h.inside (start, ch '<') (by rw [hseen]; simp), rfl⟩
    | cons b after' =>
        obtain ⟨rfl, rfl⟩ := List.cons.inj hafter
        have hkept : ∀ b ∈ close :: after', b.2 ≠ ch '<' := fun b hb =>
          hnone b (List.mem_append_left [(pos, ch '>')] hb)
        obtain ⟨hlt, hstop⟩ := h.stop_first before start close after' hseen hkept
        have hstart := h.start_last before start (close :: after') hseen hkept
        have hbehind : ¬ s.stopBehindStart = true := by
          rw [InnerScan.stopBehindStart, hstop]
          simp only [decide_eq_true_eq]
          omega
        rw [if_neg hbehind]
        exact ⟨hlt, hstop⟩
  · intro before start hcut
    obtain ⟨after', hafter, -⟩ := hbefore hcut
    exact absurd hafter.symm (by simp)

theorem octet (h : PairInv path seen pos s) {c : Octet} (hc : path[pos]? = some c) :
    PairInv path (seen ++ (bracketOf c s.quote).map (pos, ·)) (pos + 1) (scanOctet c pos s) := by
  refine scanOctet_cases (P := fun b s' => PairInv path (seen ++ b.map (pos, ·)) (pos + 1) s')
    c pos s ?_ (fun ho hq => h.opening (ho ▸ hc) hq) (fun hcl hq => h.closing (hcl ▸ hc) hq) ?_
  · rw [List.map_nil, List.append_nil]
    exact h.skip.setQuote _
  · rw [List.map_nil, List.append_nil]
    exact h.skip

theorem initial (path : List Octet) :
    PairInv path [] 0 { depth := 0, quote := false, start := 0, stop := none } := by
  constructor
  · exact scanInv_initial path
  all_goals simp

end PairInv

theorem findInnerPath_pairInv (path : List Octet) :
    PairInv path (placedBrackets path 0 false) path.length
      (innerScan path 0 { depth := 0, quote := false, start := 0, stop := none }) := by
  have hinv := @innerScan_run path (PairInv path) (fun h => h.skip) (fun hc h => h.octet hc)
    path [] [] _ rfl (PairInv.initial path)
  exact hinv

/-! ### The innermost pair -/

/-- A bracket of the path that counts: outside quotes and not behind a backslash. -/
def BracketAt (path : List Octet) (pos : Nat) (c : Octet) : Prop :=
  (pos, c) ∈ placedBrackets path 0 false

/-- The span from the last open bracket to the first closing one behind it, both included. -/
structure InnermostPair (path : List Octet) (start stop : Nat) : Prop where
  opens : path[start]? = some (ch '<') ∧ BracketAt path start (ch '<')
  last : ∀ p, BracketAt path p (ch '<') → p ≤ start
  closes : start + 1 < stop ∧ path[stop - 1]? = some (ch '>') ∧ BracketAt path (stop - 1) (ch '>')
  first : ∀ p, start < p → BracketAt path p (ch '>') → stop - 1 ≤ p

theorem exists_last {α : Type} (P : α → Prop) {l : List α} : (∃ x ∈ l, P x) →
    ∃ before x after, l = before ++ x :: after ∧ P x ∧ ∀ y ∈ after, ¬ P y := by
  induction l with
  | nil => exact fun ⟨_, h, _⟩ => nomatch h
  | cons a l ih =>
      intro h
      by_cases hlater : ∃ x ∈ l, P x
      · obtain ⟨before, x, after, rfl, hx, hnone⟩ := ih hlater
        exact ⟨a :: before, x, after, rfl, hx, hnone⟩
      · have hnone : ∀ x ∈ l, ¬ P x := fun x hx hp => hlater ⟨x, hx, hp⟩
        obtain ⟨x, hx, hp⟩ := h
        rcases List.mem_cons.mp hx with rfl | hx
        · exact ⟨[], x, l, rfl, hp, hnone⟩
        · exact absurd hp (hnone x hx)

/-- In a path whose brackets nest, with at least one pair, `findInnerPath` finds the innermost pair on
the right. -/
theorem findInnerPath_pair (path : List Octet) (hnested : Nested (brackets path false))
    (hpair : brackets path false ≠ []) :
    (findInnerPath path).rc = 0 ∧
      InnermostPair path (findInnerPath path).start (findInnerPath path).stop := by
  have hinv := findInnerPath_pairInv path
  rw [findInnerPath]
  dsimp only
  generalize innerScan path 0 _ = s at hinv
  have hbrackets := placedBrackets_brackets path 0 false
  have honly : ∀ b ∈ placedBrackets path 0 false, b.2 = ch '<' ∨ b.2 = ch '>' := fun b hb =>
    brackets_subset (hbrackets ▸ List.mem_map_of_mem hb)
  -- The last open bracket, and what stands behind it.
  obtain ⟨before, start, after, hcut, hnone⟩ : ∃ before start after, placedBrackets path 0 false =
      before ++ (start, ch '<') :: after ∧ ∀ b ∈ after, b.2 ≠ ch '<' := by
    have hopen := hnested.open_mem hpair fun c hc => brackets_subset hc
    rw [← hbrackets, List.mem_map] at hopen
    obtain ⟨before, ⟨start, c⟩, after, hcut, hc, hnone⟩ :=
      exists_last (fun b : Nat × Octet => b.2 = ch '<') hopen
    exact ⟨before, start, after, hc ▸ hcut, hnone⟩
  cases after with
  | nil =>
      rw [← hbrackets, hcut, List.map_append] at hnested
      exact hnested.not_open_last.elim
  | cons close after =>
      have hdepth := hinv.scan.depth
      rw [hbrackets, hnested.1, Int.sub_self] at hdepth
      obtain rfl := hinv.start_last before start _ hcut hnone
      obtain ⟨hlt, hstop⟩ := hinv.stop_first before s.start close after hcut hnone
      have hmem (b : Nat × Octet) (hb : b = (s.start, ch '<') ∨ b = close ∨ b ∈ after) :
          b ∈ placedBrackets path 0 false := by
        rw [hcut]
        simpa using .inr hb
      have hclose : close.2 = ch '>' :=
        (honly close (hmem close (.inr (.inl rfl)))).resolve_left (hnone close List.mem_cons_self)
      have hcloseMem : (close.1, ch '>') ∈ placedBrackets path 0 false := by
        rw [← hclose]
        exact hmem close (.inr (.inl rfl))
      have hordered := hinv.ordered
      rw [hcut, List.pairwise_append, List.pairwise_cons, List.pairwise_cons] at hordered
      obtain ⟨-, ⟨-, hbehind, -⟩, hfront⟩ := hordered
      have hopenMem := hmem (s.start, ch '<') (.inl rfl)
      rw [if_neg (not_not.mpr hdepth), hstop, Option.getD_some]
      refine ⟨rfl, ⟨hinv.at_octet _ hopenMem, hopenMem⟩, ?_, ⟨by omega,
        hinv.at_octet _ hcloseMem, hcloseMem⟩, ?_⟩
      · intro p hp
        rw [BracketAt, hcut, List.mem_append, List.mem_cons] at hp
        rcases hp with hp | hp | hp
        · exact Nat.le_of_lt (hfront _ hp _ List.mem_cons_self)
        · exact Nat.le_of_eq (congrArg Prod.fst hp)
        · exact absurd rfl (hnone _ hp)
      · intro p hlater hp
        rw [BracketAt, hcut, List.mem_append, List.mem_cons, List.mem_cons] at hp
        rw [Nat.add_sub_cancel]
        rcases hp with hp | hp | hp | hp
        · have hearly := hfront _ hp _ List.mem_cons_self
          dsimp only at hearly
          omega
        · have heq := congrArg Prod.fst hp
          dsimp only at heq
          omega
        · exact Nat.le_of_eq (congrArg Prod.fst hp).symm
        · exact Nat.le_of_lt (hbehind _ hp)

theorem findInnerPath_pair_nested :
    let path := ascii "<a <b> <c \"<\" d> e>"
    Nested (brackets path false) ∧ brackets path false ≠ [] ∧ (findInnerPath path).rc = 0 ∧
      InnermostPair path (findInnerPath path).start (findInnerPath path).stop := by
  have hnested : Nested (brackets (ascii "<a <b> <c \"<\" d> e>") false) := by decide
  exact ⟨hnested, by decide, findInnerPath_pair _ hnested (by decide)⟩

end Snert
