/-
Module: Snert.Proofs.SegmentOrder
Purpose: What `reverseSegmentOrder` of net/reverse.c does to the segments of a string. Turning the
  whole string round puts them in reverse order, each turned round itself, and the last loop turns
  each back. But an empty segment ends that loop, since its length is taken for the end of the
  string: the segments behind it stay turned round. And a delimiter in front of a string comes to
  stand behind it, where a second call drops it.
Trusted boundary: none
Main exports: reverseSegmentOrder_exact_iff
-/
import Snert.Lists.Segments
import Snert.Net.Reverse

namespace Snert

open CModel Lists

/-- The segments of a string between delimiters. -/
def segments (delims s : List Octet) : List (List Octet) :=
  s.splitOnP (· ∈ delims)

theorem segments_single {delims s : List Octet} (h : ∀ x ∈ s, decide (x ∈ delims) = false) :
    segments delims s = [s] :=
  List.splitOnP_eq_singleton h

theorem segments_more {delims seg : List Octet} (h : ∀ x ∈ seg, decide (x ∈ delims) = false)
    {sep : Octet} (hsep : decide (sep ∈ delims) = true) (rest : List Octet) :
    segments delims (seg ++ sep :: rest) = seg :: segments delims rest :=
  List.splitOnP_append_cons_of_forall_mem h sep hsep rest

theorem segments_reverse (delims s : List Octet) :
    segments delims s.reverse = ((segments delims s).map List.reverse).reverse :=
  splitOnP_reverse s

/-- A string without the delimiter behind it. -/
def withoutTrailing (delims s : List Octet) : List Octet :=
  if s.getLast?.any (· ∈ delims) then s.dropLast else s

/-! ### The last loop -/

/-- Turn segments round, up to an empty one. -/
def restoreSegments : List (List Octet) → List (List Octet)
  | [] => []
  | seg :: segs => if seg = [] then seg :: segs else seg.reverse :: restoreSegments segs

theorem reverseEachSegment_segments (delims s : List Octet) :
    segments delims (reverseEachSegment delims s) = restoreSegments (segments delims s) ∧
      (reverseEachSegment delims s).filter (· ∈ delims) = s.filter (· ∈ delims) := by
  have hspan {seg rest : List Octet} (hseg : ∀ x ∈ seg, decide (x ∈ delims) = false)
      (hrest : ∀ x ∈ rest.head?, x ∈ delims) : strcspn (seg ++ rest) delims = seg.length := by
    have hkept : seg.takeWhile (· ∉ delims) = seg :=
      List.takeWhile_eq_self_iff.mpr fun x hx => by simpa using hseg x hx
    rw [strcspn, List.takeWhile_append, hkept, if_pos rfl]
    cases rest with
    | nil => simp
    | cons x rest => simp [hrest x rfl]
  have hturned {seg : List Octet} (hseg : ∀ x ∈ seg, decide (x ∈ delims) = false) :
      ∀ x ∈ seg.reverse, decide (x ∈ delims) = false := fun x hx =>
    hseg x (List.mem_reverse.mp hx)
  have hnone {seg : List Octet} (hseg : ∀ x ∈ seg, decide (x ∈ delims) = false) :
      seg.filter (· ∈ delims) = [] := List.filter_eq_nil_iff.mpr fun x hx => by simp [hseg x hx]
  induction s using segments_induction (fun x => decide (x ∈ delims)) with
  | single s hs =>
      have hlength := @hspan _ [] hs (by simp)
      rw [List.append_nil] at hlength
      rw [reverseEachSegment, hlength]
      by_cases hempty : s = []
      · subst hempty
        exact ⟨rfl, rfl⟩
      · rw [if_neg (fun h => hempty (List.eq_nil_of_length_eq_zero h))]
        have hdrop : s.drop s.length = [] := List.drop_length
        split
        · rw [segments_single hs, segments_single (hturned hs), restoreSegments, if_neg hempty,
            hnone hs, hnone (hturned hs)]
          exact ⟨rfl, rfl⟩
        · next h => exact absurd (hdrop.symm.trans h) (by simp)
  | more seg sep rest hseg hsep ih =>
      have hmem : sep ∈ delims := by simpa using hsep
      have hlength := @hspan _ (sep :: rest) hseg (by simpa using hmem)
      rw [reverseEachSegment, hlength, segments_more hseg hsep, restoreSegments]
      by_cases hempty : seg = []
      · subst hempty
        exact ⟨@segments_more _ [] (by simp) _ hsep rest, rfl⟩
      · rw [if_neg (fun h => hempty (List.eq_nil_of_length_eq_zero h)), if_neg hempty]
        have hdrop : (seg ++ sep :: rest).drop seg.length = sep :: rest := List.drop_left
        split
        · next h => exact absurd (hdrop.symm.trans h) (by simp)
        · next delim rest' h =>
            obtain ⟨rfl, rfl⟩ := List.cons.inj (hdrop.symm.trans h)
            rw [List.take_left, segments_more (hturned hseg) hsep, ih.1]
            refine ⟨rfl, ?_⟩
            rw [List.filter_append, List.filter_append, hnone hseg, hnone (hturned hseg),
              List.filter_cons_of_pos (by exact hsep), List.filter_cons_of_pos (by exact hsep), ih.2]

theorem restoreSegments_reversed (segs : List (List Octet)) :
    restoreSegments (segs.map List.reverse) = segs ↔
      ∀ seg ∈ segs.dropWhile (· ≠ []), seg.reverse = seg := by
  induction segs with
  | nil => exact iff_of_true rfl nofun
  | cons seg segs ih =>
      rw [List.map_cons, restoreSegments]
      by_cases hempty : seg = []
      · subst hempty
        have hall : segs.map List.reverse = segs ↔ ∀ seg ∈ segs, seg.reverse = seg := by
          conv_lhs => rhs; rw [← List.map_id segs]
          exact List.map_inj_left
        rw [if_pos List.reverse_nil, List.dropWhile_cons_of_neg (by simp), List.forall_mem_cons,
          List.cons.injEq, hall]
      · rw [if_neg (fun h => hempty (List.reverse_eq_nil_iff.mp h)),
          List.dropWhile_cons_of_pos (by simpa using hempty), List.reverse_reverse, List.cons.injEq,
          ih, and_iff_right rfl]

/-! ### The whole function -/

theorem reverseSegmentOrder_eq {string : List Octet} {size : Nat} (h : string.length < size)
    (delims : List Octet) : reverseSegmentOrder string delims size =
      (reverseEachSegment delims (withoutTrailing delims string).reverse,
        (withoutTrailing delims string).length) :=
  if_neg (Nat.not_le.mpr h)

theorem dropWhile_no_empty {segs : List (List Octet)} (h : [] ∉ segs) :
    segs.dropWhile (· ≠ []) = [] :=
  List.dropWhile_eq_nil_iff.mpr fun seg hseg => by
    simpa using fun hempty : seg = [] => h (hempty ▸ hseg)

theorem reverseSegmentOrder_segments {string : List Octet} {size : Nat} (h : string.length < size)
    (delims : List Octet) : segments delims (reverseSegmentOrder string delims size).1 =
        (segments delims (withoutTrailing delims string)).reverse ↔
      ∀ seg ∈ (segments delims (withoutTrailing delims string)).reverse.dropWhile (· ≠ []),
        seg.reverse = seg := by
  rw [reverseSegmentOrder_eq h, (reverseEachSegment_segments delims _).1, segments_reverse,
    ← List.map_reverse, restoreSegments_reversed]

theorem length_reverseEachSegment (delims s : List Octet) :
    (reverseEachSegment delims s).length = s.length := by
  fun_induction reverseEachSegment delims s with
  | case1 => rfl
  | case2 s _ hspan hdrop => rw [List.length_reverse]
  | case3 s _ hspan delim rest hdrop ih =>
      have hlength := congrArg List.length hdrop
      rw [List.length_drop, List.length_cons] at hlength
      rw [List.length_append, List.length_reverse, List.length_take, List.length_cons, ih]
      omega

theorem getLast_of_segments {delims s : List Octet} {segs : List (List Octet)}
    (h : segments delims s = segs.reverse) :
    s.getLast?.all (· ∈ delims) = true ↔ segs.head? = some [] := by
  rw [← List.head?_reverse, ← head_splitOnP]
  change (segments delims s.reverse).head? = some [] ↔ _
  rw [segments_reverse, h, List.map_reverse, List.reverse_reverse]
  cases segs with
  | nil => exact iff_of_false nofun nofun
  | cons seg segs => simp

theorem withoutTrailing_eq_self_iff {delims s : List Octet} (hne : s ≠ []) :
    withoutTrailing delims s = s ↔ ¬ s.getLast?.all (· ∈ delims) = true := by
  have hlast := List.getLast?_eq_some_getLast hne
  rw [withoutTrailing, hlast]
  dsimp only [Option.any_some, Option.all_some]
  split
  · next h =>
      refine iff_of_false (fun heq => ?_) (not_not.mpr h)
      have hlength := congrArg List.length heq
      have hpos := List.length_pos_of_ne_nil hne
      rw [List.length_dropLast] at hlength
      omega
  · next h => exact iff_of_true rfl h

theorem length_withoutTrailing_le (delims s : List Octet) :
    (withoutTrailing delims s).length ≤ s.length := by
  rw [withoutTrailing]
  split
  · rw [List.length_dropLast]
    exact Nat.sub_le _ _
  · exact Nat.le_refl _

/-! ### A second call -/

theorem reverseEachSegment_twice {delims s : List Octet} (hne : s ≠ [])
    (hfirst : segments delims (reverseEachSegment delims s.reverse) = (segments delims s).reverse) :
    reverseEachSegment delims
        (withoutTrailing delims (reverseEachSegment delims s.reverse)).reverse = s ↔
      (segments delims s).head? ≠ some [] ∧
        ∀ seg ∈ (segments delims s).dropWhile (· ≠ []), seg.reverse = seg := by
  have hlength := length_reverseEachSegment delims s.reverse
  rw [List.length_reverse] at hlength
  have hne' : reverseEachSegment delims s.reverse ≠ [] := fun h => hne <|
    List.eq_nil_of_length_eq_zero (by rw [← hlength, h]; rfl)
  have hkept := @withoutTrailing_eq_self_iff delims _ hne'
  rw [getLast_of_segments hfirst] at hkept
  rw [ne_eq, ← hkept]
  by_cases hkeeps : withoutTrailing delims (reverseEachSegment delims s.reverse) =
      reverseEachSegment delims s.reverse
  · rw [and_iff_right hkeeps, hkeeps, ← restoreSegments_reversed]
    obtain ⟨hsegments, hseparators⟩ := reverseEachSegment_segments delims
      (reverseEachSegment delims s.reverse).reverse
    rw [segments_reverse, hfirst, List.map_reverse, List.reverse_reverse] at hsegments
    rw [← hsegments]
    refine ⟨fun h => congrArg (segments delims) h, fun h => eq_of_segments h ?_⟩
    rw [hseparators, List.filter_reverse, (reverseEachSegment_segments delims _).2,
      List.filter_reverse, List.reverse_reverse]
  · refine iff_of_false (fun h => ?_) fun h => hkeeps h.1
    have hsame := congrArg List.length h
    rw [length_reverseEachSegment, List.length_reverse, withoutTrailing] at hsame
    rw [withoutTrailing] at hkeeps
    have hpos := List.length_pos_of_ne_nil hne
    split at hsame
    · rw [List.length_dropLast] at hsame
      omega
    · next hlast => exact hkeeps (if_neg hlast)

/-- A string without an empty segment, or the empty string; otherwise no delimiter stands in front
of it, and every segment reads the same both ways. -/
def Reversible (delims s : List Octet) : Prop :=
  s = [] ∨ [] ∉ segments delims s ∨
    (segments delims s).head? ≠ some [] ∧ ∀ seg ∈ segments delims s, seg.reverse = seg

theorem mem_dropWhile_or {α : Type} {p : α → Bool} {l : List α} (hstop : ∃ y ∈ l, p y = false)
    {x : α} (h : x ∈ l) : x ∈ l.dropWhile p ∨ x ∈ l.reverse.dropWhile p := by
  have hsplit : l.takeWhile p ++ l.dropWhile p = l := List.takeWhile_append_dropWhile
  rw [← hsplit, List.mem_append] at h
  refine h.symm.imp_right fun hfront => ?_
  have hrest : (l.dropWhile p).reverse.dropWhile p ≠ [] := fun hnil => by
    rw [List.dropWhile_eq_nil_iff] at hnil
    cases hdrop : l.dropWhile p with
    | nil =>
        obtain ⟨y, hy, hpy⟩ := hstop
        rw [List.dropWhile_eq_nil_iff] at hdrop
        rw [hdrop y hy] at hpy
        cases hpy
    | cons y rest =>
        have hy := List.head?_dropWhile_not p l
        rw [hdrop] at hnil hy
        have hpy : p y = true := hnil y (by simp)
        exact Bool.false_ne_true (hy.symm.trans hpy)
  rw [← hsplit, List.reverse_append, List.dropWhile_append,
    if_neg (by simpa using hrest), List.mem_append]
  exact .inr (List.mem_reverse.mpr hfront)

/-- The segments come in reverse order, each as it was, and a second call gives the string back,
without the delimiter behind it. -/
def ReversesSegments (delims string : List Octet) (size : Nat) : Prop :=
  segments delims (reverseSegmentOrder string delims size).1 =
      (segments delims (withoutTrailing delims string)).reverse ∧
    (reverseSegmentOrder (reverseSegmentOrder string delims size).1 delims size).1 =
      withoutTrailing delims string

/-- In a buffer that is large enough `reverseSegmentOrder` reverses the order of the segments, and
undoes that, exactly for the strings that can be reversed. -/
theorem reverseSegmentOrder_exact_iff (string delims : List Octet) (size : Nat)
    (hroom : string.length < size) : ReversesSegments delims string size ↔
      Reversible delims (withoutTrailing delims string) := by
  have hfirst := reverseSegmentOrder_segments hroom delims
  have hle := length_withoutTrailing_le delims string
  rw [ReversesSegments, hfirst]
  rw [reverseSegmentOrder_eq hroom] at hfirst ⊢
  dsimp only at hfirst ⊢
  generalize withoutTrailing delims string = s at hle hfirst ⊢
  have hlength := length_reverseEachSegment delims s.reverse
  rw [List.length_reverse] at hlength
  rw [reverseSegmentOrder_eq (by omega)]
  dsimp only
  by_cases hempty : s = []
  · subst hempty
    have hnil : reverseEachSegment delims [] = [] := by
      rw [reverseEachSegment]
      rfl
    have hone : segments delims [] = [[]] := segments_single (by simp)
    rw [List.reverse_nil, hnil, hone]
    refine iff_of_true ⟨by simp, ?_⟩ (.inl rfl)
    change reverseEachSegment delims [] = []
    exact hnil
  · rw [Reversible, or_iff_right hempty]
    constructor
    · rintro ⟨hbefore, htwice⟩
      obtain ⟨hhead, hbehind⟩ := (reverseEachSegment_twice hempty (hfirst.mpr hbefore)).mp htwice
      refine or_iff_not_imp_left.mpr fun hmem => ⟨hhead, fun seg hseg => ?_⟩
      have hstop : ∃ y ∈ segments delims s, decide (y ≠ []) = false :=
        ⟨[], not_not.mp hmem, by decide⟩
      exact (mem_dropWhile_or hstop hseg).elim (hbehind seg) (hbefore seg)
    · intro h
      have hall : (segments delims s).head? ≠ some [] ∧
          (∀ seg ∈ (segments delims s).reverse.dropWhile (· ≠ []), seg.reverse = seg) ∧
          ∀ seg ∈ (segments delims s).dropWhile (· ≠ []), seg.reverse = seg := by
        rcases h with hnone | ⟨hhead, hboth⟩
        · have hdrop {l : List (List Octet)} (hl : [] ∉ l) : l.dropWhile (· ≠ []) = [] :=
            List.dropWhile_eq_nil_iff.mpr fun seg hseg => by
              simpa using fun h : seg = [] => hl (h ▸ hseg)
          rw [hdrop hnone, hdrop (fun h => hnone (List.mem_reverse.mp h))]
          exact ⟨fun h => hnone (List.mem_of_mem_head? h), by simp, by simp⟩
        · exact ⟨hhead, fun seg hseg => hboth seg (List.mem_reverse.mp
            ((List.dropWhile_suffix _).subset hseg)), fun seg hseg => hboth seg
            ((List.dropWhile_suffix _).subset hseg)⟩
      exact ⟨hall.2.1, (reverseEachSegment_twice hempty (hfirst.mpr hall.2.1)).mpr
        ⟨hall.1, hall.2.2⟩⟩

/-- The domain of a host, in a buffer of 16 octets. -/
theorem reverseSegmentOrder_exact_host : (ascii "mx.snert.com.").length < 16 ∧
    (ReversesSegments (ascii ".") (ascii "mx.snert.com.") 16 ↔
      Reversible (ascii ".") (withoutTrailing (ascii ".") (ascii "mx.snert.com."))) :=
  ⟨by decide, reverseSegmentOrder_exact_iff _ _ _ (by decide)⟩

/-- The empty segment of `ab..cd` leaves `ab` turned round. -/
theorem reverseSegmentOrder_inexact : ¬ ∀ (string delims : List Octet) (size : Nat),
    string.length < size → ReversesSegments delims string size := by
  intro h
  obtain ⟨hsegments, -⟩ := h (ascii "ab..cd") (ascii ".") 16 (by decide)
  rw [reverseSegmentOrder_segments (by decide)] at hsegments
  have hba := hsegments (ascii "ab") (by decide)
  exact absurd hba (by decide)

end Snert
