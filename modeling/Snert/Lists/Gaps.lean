/-
Module: Snert.Lists.Gaps
Purpose: Patterns of single letters and gaps, as a language. A piece of a pattern is a predicate that
  one letter of the word must satisfy, or a gap, which any letters fill. Two readings of the pieces of
  one pattern give the same language exactly if they agree on each piece, or if neither lets any word
  through.
Trusted boundary: none
Main exports: FitsPieces, fits_gap_iff, fits_gap_gap, fits_iff_forall
-/
import Mathlib.Data.List.Forall2

namespace Lists

variable {α β : Type}

/-- The word fits the pattern. A gap is `none`. -/
def FitsPieces : List (Option (α → Prop)) → List α → Prop
  | [], word => word = []
  | some S :: pieces, word => ∃ c rest, word = c :: rest ∧ S c ∧ FitsPieces pieces rest
  | none :: pieces, word => ∃ filling rest, word = filling ++ rest ∧ FitsPieces pieces rest

variable {pieces : List (Option (α → Prop))} {word : List α}

@[simp] theorem fits_nil : FitsPieces [] word ↔ word = [] := Iff.rfl

@[simp] theorem fits_one_nil {S : α → Prop} : ¬ FitsPieces (some S :: pieces) [] := by
  rintro ⟨c, rest, h, -⟩
  exact absurd h (List.cons_ne_nil c rest).symm

@[simp] theorem fits_one_cons {S : α → Prop} {c : α} :
    FitsPieces (some S :: pieces) (c :: word) ↔ S c ∧ FitsPieces pieces word := by
  constructor
  · rintro ⟨d, rest, h, hd, hrest⟩
    obtain ⟨rfl, rfl⟩ := List.cons.inj h
    exact ⟨hd, hrest⟩
  · rintro ⟨hc, hword⟩
    exact ⟨c, word, rfl, hc, hword⟩

/-- What stands behind a gap fits some end of the word. -/
theorem fits_gap_iff : FitsPieces (none :: pieces) word ↔ ∃ rest, rest <:+ word ∧ FitsPieces pieces rest := by
  constructor
  · rintro ⟨filling, rest, rfl, h⟩
    exact ⟨rest, List.suffix_append filling rest, h⟩
  · rintro ⟨rest, ⟨filling, rfl⟩, h⟩
    exact ⟨filling, rest, rfl, h⟩

theorem FitsPieces.gap (h : FitsPieces pieces word) : FitsPieces (none :: pieces) word :=
  ⟨[], word, rfl, h⟩

/-- Two gaps are as good as one. -/
theorem fits_gap_gap : FitsPieces (none :: none :: pieces) word ↔ FitsPieces (none :: pieces) word := by
  constructor
  · rintro ⟨filling, rest, rfl, more, last, rfl, h⟩
    exact ⟨filling ++ more, last, (List.append_assoc ..).symm, h⟩
  · exact FitsPieces.gap

@[simp] theorem fits_gap_end : FitsPieces [none] word :=
  ⟨word, [], (List.append_nil word).symm, rfl⟩

theorem fits_gap_cons {c : α} :
    FitsPieces (none :: pieces) (c :: word) ↔ FitsPieces pieces (c :: word) ∨ FitsPieces (none :: pieces) word := by
  rw [fits_gap_iff, fits_gap_iff]
  constructor
  · rintro ⟨rest, hrest, h⟩
    rcases List.suffix_cons_iff.mp hrest with rfl | hrest
    · exact .inl h
    · exact .inr ⟨rest, hrest, h⟩
  · rintro (h | ⟨rest, hrest, h⟩)
    · exact ⟨c :: word, List.suffix_refl _, h⟩
    · exact ⟨rest, hrest.trans (List.suffix_cons c word), h⟩

/-! ### The shortest words -/

theorem FitsPieces.length_le (h : FitsPieces pieces word) : (pieces.filterMap id).length ≤ word.length := by
  induction pieces generalizing word with
  | nil => exact Nat.zero_le _
  | cons piece pieces ih =>
      cases piece with
      | none =>
          obtain ⟨filling, rest, rfl, hrest⟩ := h
          have hle := ih hrest
          rw [List.length_append]
          exact Nat.le_trans hle (Nat.le_add_left _ _)
      | some S =>
          obtain ⟨c, rest, rfl, -, hrest⟩ := h
          exact Nat.succ_le_succ (ih hrest)

theorem fits_shortest (hlength : word.length = (pieces.filterMap id).length) :
    FitsPieces pieces word ↔ List.Forall₂ (fun S c => S c) (pieces.filterMap id) word := by
  induction pieces generalizing word with
  | nil =>
      obtain rfl := List.eq_nil_of_length_eq_zero hlength
      exact iff_of_true rfl .nil
  | cons piece pieces ih =>
      cases piece with
      | none =>
          have hrest := ih hlength
          rw [← List.filterMap_cons_none (f := id) (a := none) rfl] at hrest
          rw [← hrest]
          constructor
          · rintro ⟨filling, rest, rfl, h⟩
            have hle := h.length_le
            rw [List.filterMap_cons_none rfl, List.length_append] at hlength
            have hnil : filling.length = 0 := by omega
            obtain rfl := List.eq_nil_of_length_eq_zero hnil
            exact h
          · exact FitsPieces.gap
      | some S =>
          have hcons : (some S :: pieces).filterMap id = S :: pieces.filterMap id := rfl
          rw [hcons] at hlength ⊢
          cases word with
          | nil => simp at hlength
          | cons c word =>
              rw [fits_one_cons, List.forall₂_cons, ih (Nat.succ.inj hlength)]

/-! ### Two readings of one pattern -/

/-- The pattern whose pieces are read by `f`. -/
def readPieces (f : β → α → Prop) (pattern : List (Option β)) : List (Option (α → Prop)) :=
  pattern.map (Option.map f)

theorem filterMap_readPieces (f : β → α → Prop) (pattern : List (Option β)) :
    (readPieces f pattern).filterMap id = (pattern.filterMap id).map f := by
  induction pattern with
  | nil => rfl
  | cons piece pattern ih =>
      cases piece with
      | none => exact ih
      | some b => exact congrArg (f b :: ·) ih

theorem readPieces_congr {f g : β → α → Prop} {pattern : List (Option β)}
    (h : ∀ b, some b ∈ pattern → ∀ c, f b c ↔ g b c) : readPieces f pattern = readPieces g pattern := by
  refine List.map_congr_left fun piece hpiece => ?_
  cases piece with
  | none => rfl
  | some b => exact congrArg some (funext fun c => propext (h b hpiece c))

theorem not_fits_of_void {f : β → α → Prop} {pattern : List (Option β)} {b : β}
    (hb : some b ∈ pattern) (hvoid : ∀ c, ¬ f b c) : ¬ FitsPieces (readPieces f pattern) word := by
  induction pattern generalizing word with
  | nil => exact absurd hb List.not_mem_nil
  | cons piece pattern ih =>
      intro h
      cases piece with
      | none =>
          obtain ⟨-, rest, -, hrest⟩ := h
          exact ih (List.mem_of_ne_of_mem (Option.some_ne_none b) hb) hrest
      | some a =>
          obtain ⟨c, rest, -, hc, hrest⟩ := h
          rcases List.mem_cons.mp hb with hab | hb
          · rw [Option.some.inj hab] at hvoid
            exact hvoid c hc
          · exact ih hb hrest

variable {ok : α → Prop} {f g : β → α → Prop}

theorem forall₂_imp_of_words {items : List β} (hf : ∀ b ∈ items, ∃ c, f b c) (hok : ∀ b c, f b c → ok c)
    (h : ∀ word, (∀ c ∈ word, ok c) → List.Forall₂ f items word → List.Forall₂ g items word) :
    ∀ b ∈ items, ∀ c, f b c → g b c := by
  induction items with
  | nil => exact fun b hb => absurd hb List.not_mem_nil
  | cons a items ih =>
      have hchoice : ∃ word, (∀ c ∈ word, ok c) ∧ List.Forall₂ f items word := by
        clear ih h
        induction items with
        | nil => exact ⟨[], by simp, .nil⟩
        | cons b items ih =>
            obtain ⟨word, hword, hforall⟩ := ih fun d hd =>
              hf d (List.mem_cons.mpr ((List.mem_cons.mp hd).imp_right (List.mem_cons_of_mem b)))
            obtain ⟨c, hc⟩ := hf b (List.mem_cons_of_mem a List.mem_cons_self)
            exact ⟨c :: word, List.forall_mem_cons.mpr ⟨hok b c hc, hword⟩, .cons hc hforall⟩
      obtain ⟨word, hword, hforall⟩ := hchoice
      obtain ⟨first, hfirst⟩ := hf a List.mem_cons_self
      refine List.forall_mem_cons.mpr ⟨fun c hc => ?_, ?_⟩
      · have hall := h (c :: word) (List.forall_mem_cons.mpr ⟨hok a c hc, hword⟩) (.cons hc hforall)
        exact (List.forall₂_cons.mp hall).1
      · refine ih (fun b hb => hf b (List.mem_cons_of_mem a hb)) fun rest hrest hitems => ?_
        have hall := h (first :: rest) (List.forall_mem_cons.mpr ⟨hok a first hfirst, hrest⟩)
          (.cons hfirst hitems)
        exact (List.forall₂_cons.mp hall).2

theorem fits_readPieces {pattern : List (Option β)}
    (hlength : word.length = (pattern.filterMap id).length) :
    FitsPieces (readPieces f pattern) word ↔ List.Forall₂ f (pattern.filterMap id) word := by
  rw [fits_shortest (by rw [filterMap_readPieces, List.length_map, hlength]), filterMap_readPieces,
    List.forall₂_map_left_iff]

/-- Two readings of a pattern let the same words through if and only if they agree on each piece, or
both have a piece that no letter satisfies. -/
theorem fits_iff_forall (hf : ∀ b c, f b c → ok c) (hg : ∀ b c, g b c → ok c)
    (pattern : List (Option β)) :
    (∀ word : List α, (∀ c ∈ word, ok c) →
        (FitsPieces (readPieces f pattern) word ↔ FitsPieces (readPieces g pattern) word)) ↔
      (∀ b, some b ∈ pattern → ∀ c, f b c ↔ g b c) ∨
        ((∃ b, some b ∈ pattern ∧ ∀ c, ¬ f b c) ∧ ∃ b, some b ∈ pattern ∧ ∀ c, ¬ g b c) := by
  have hmem : ∀ b, b ∈ pattern.filterMap id ↔ some b ∈ pattern := by simp
  constructor
  · intro h
    have hwords : ∀ word : List α, (∀ c ∈ word, ok c) →
        word.length = (pattern.filterMap id).length →
          (List.Forall₂ f (pattern.filterMap id) word ↔ List.Forall₂ g (pattern.filterMap id) word) := by
      intro word hword hlength
      rw [← fits_readPieces hlength, ← fits_readPieces hlength]
      exact h word hword
    have himp : (∀ b ∈ pattern.filterMap id, ∃ c, f b c) →
        ∀ b ∈ pattern.filterMap id, ∀ c, f b c → g b c := fun hsome =>
      forall₂_imp_of_words hsome hf fun word hword hforall =>
        (hwords word hword hforall.length_eq.symm).mp hforall
    have hconv : (∀ b ∈ pattern.filterMap id, ∃ c, g b c) →
        ∀ b ∈ pattern.filterMap id, ∀ c, g b c → f b c := fun hsome =>
      forall₂_imp_of_words hsome hg fun word hword hforall =>
        (hwords word hword hforall.length_eq.symm).mpr hforall
    by_cases hsome : ∀ b ∈ pattern.filterMap id, ∃ c, f b c
    · have hle := himp hsome
      have hge := hconv fun b hb => (hsome b hb).imp fun c => hle b hb c
      refine .inl fun b hb c => ?_
      rw [← hmem] at hb
      exact ⟨hle b hb c, hge b hb c⟩
    · push Not at hsome
      obtain ⟨b, hb, hvoid⟩ := hsome
      refine .inr ⟨⟨b, (hmem b).mp hb, hvoid⟩, ?_⟩
      by_contra hnone
      push Not at hnone
      have hgsome : ∀ a ∈ pattern.filterMap id, ∃ c, g a c := fun a ha => hnone a ((hmem a).mp ha)
      obtain ⟨c, hc⟩ := hgsome b hb
      exact hvoid c (hconv hgsome b hb c hc)
  · rintro (hsame | ⟨⟨a, ha, hfvoid⟩, b, hb, hgvoid⟩) word -
    · rw [readPieces_congr hsame]
    · exact iff_of_false (not_fits_of_void ha hfvoid) (not_fits_of_void hb hgvoid)

end Lists
