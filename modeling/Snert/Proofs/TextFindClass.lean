/-
Module: Snert.Proofs.TextFindClass
Purpose: The language of the patterns of `TextFind`. A pattern is a list of elements, each of which
  takes one character or, for the asterisk, any text. `TextFind` takes the text that the pattern
  describes, where each class is read as `textClass` reads it: ranges in the order of signed
  characters, and a hyphen behind a backslash as a member.
Trusted boundary: none
Main exports: textFindOffset_iff
-/
import Snert.Lists.Gaps
import Snert.Util.TextClass

namespace Snert

open CModel Lists

/-! ### Patterns -/

/-- A member of a class: one character, or a range from it to the character behind a hyphen, or a chain
of ranges each of which begins where the one before ends. -/
structure ClassItem where
  start : Octet
  ends : List Octet
  visible : ∀ c ∈ start :: ends, c ≠ 0 ∧ c ≠ ch ']'
  ordered : (start :: ends).IsChain (· ≤ ·)

/-- The two ends of each range. -/
def rangesFrom : Octet → List Octet → List (Octet × Octet)
  | _, [] => []
  | first, last :: ends => (first, last) :: rangesFrom last ends

def ClassItem.text (item : ClassItem) : List Octet :=
  item.start :: item.ends.flatMap fun c => [ch '-', c]

/-- The character is the one that is listed, or it is in a range. -/
def ClassItem.Lists (item : ClassItem) (c : Octet) : Prop :=
  c = item.start ∨ ∃ range ∈ rangesFrom item.start item.ends, range.1 ≤ c ∧ c ≤ range.2

/-- A bracket class: the character that negates it if there is one, whether a right square bracket is
the first member, and the other members. Only the first of these may begin with a hyphen. -/
structure BracketClass where
  negation : Option Octet
  bracket : Bool
  items : List ClassItem
  caret : ∀ c ∈ negation, c = ch '^' ∨ c = ch '!'
  nonempty : bracket ∨ items ≠ []
  hyphen : ∀ item ∈ items.tail, item.start ≠ ch '-'
  plain : negation = none → bracket = false → ∀ item ∈ items.head?,
    item.start ≠ ch '^' ∧ item.start ≠ ch '!'

namespace BracketClass

/-- What stands between the square brackets. -/
def members (k : BracketClass) : List Octet :=
  (if k.bracket then [ch ']'] else []) ++ k.items.flatMap ClassItem.text

def text (k : BracketClass) : List Octet :=
  ch '[' :: k.negation.toList ++ k.members ++ [ch ']']

/-- The class lists the character. -/
def Lists (k : BracketClass) (c : Octet) : Prop :=
  (k.bracket ∧ c = ch ']') ∨ ∃ item ∈ k.items, item.Lists c

end BracketClass

/-- An element of a pattern that takes one character. -/
inductive PinElement where
  | literal (c : Octet) (h : c ≠ 0 ∧ c ∉ ascii "*?[ \\")
  | any
  | space
  | escaped (c : Octet) (h : c ≠ 0)
  | bracket (k : BracketClass)

namespace PinElement

def text : PinElement → List Octet
  | literal c _ => [c]
  | any => [ch '?']
  | space => [ch ' ']
  | escaped c _ => [ch '\\', c]
  | bracket k => k.text

/-- The element takes the character, if a class lists the characters that `lists` says. -/
def Takes (lists : BracketClass → Octet → Prop) : PinElement → Octet → Prop
  | literal d _, c => c = d
  | any, c => c ≠ 0
  | space, c => isspace c
  | escaped d _, c => c = d
  | bracket k, c => c ≠ 0 ∧ (lists k c ↔ k.negation = none)

theorem Takes.ne_zero {lists : BracketClass → Octet → Prop} {e : PinElement} {c : Octet}
    (h : e.Takes lists c) : c ≠ 0 := by
  cases e with
  | literal d hd => exact h ▸ hd.1
  | any => exact h
  | space =>
      rintro rfl
      have hspace : isspace 0 := h
      exact absurd hspace (by decide)
  | escaped d hd => exact h ▸ hd
  | bracket k => exact h.1

end PinElement

/-- A pattern. An asterisk is `none`. -/
abbrev Pin := List (Option PinElement)

/-- The pattern as it is written. -/
def patternText (pattern : Pin) : List Octet :=
  pattern.flatMap fun piece => piece.elim [ch '*'] PinElement.text

/-- The text is described by the pattern: a class takes what it lists, or what it does not list if it is
negated. -/
def Describes (pattern : Pin) (text : List Octet) : Prop :=
  FitsPieces (readPieces (PinElement.Takes BracketClass.Lists) pattern) text

/-! ### What `textClass` takes -/

/-- How `textClass` reads a member: a range goes from the character behind its first one to its last
one, in the order of signed characters, and a range that begins with a backslash has the hyphen as a
member. -/
def ClassItem.Scans (item : ClassItem) (c : Octet) : Prop :=
  c = item.start ∨ (∃ range ∈ rangesFrom item.start item.ends,
      charValue range.1 < charValue c ∧ charValue c ≤ charValue range.2) ∨
    (item.start = ch '\\' ∧ item.ends ≠ [] ∧ c = ch '-')

/-- How `textClass` reads a class. -/
def BracketClass.Scans (k : BracketClass) (c : Octet) : Prop :=
  (k.bracket ∧ c = ch ']') ∨ ∃ item ∈ k.items, item.Scans c

theorem classLoop_end (c before : Octet) (rest : List Octet) :
    classLoop c false before (ch ']' :: rest) = some (ch ']' :: rest) := by
  rw [classLoop.eq_def]
  exact if_pos rfl

theorem classLoop_range (c before d : Octet) (set : List Octet) :
    classLoop c false before (ch '-' :: d :: set) =
      if charValue before < charValue c ∧ charValue c ≤ charValue d then
        some (ch '-' :: d :: set)
      else classLoop c false d set := by
  have hbracket : ch '-' ≠ ch ']' := by decide
  have hbackslash : ¬ (ch '-' = ch '\\' ∧ c = peek (d :: set)) := fun h => absurd h.1 (by decide)
  rw [classLoop.eq_def]
  dsimp only
  rw [if_neg hbracket, if_neg hbackslash, if_pos rfl]
  rfl

theorem classLoop_start (c before : Octet) {d : Octet} (set : List Octet) (hbracket : d ≠ ch ']')
    (hhyphen : d ≠ ch '-') :
    classLoop c false before (d :: set) =
      if d = ch '\\' ∧ c = peek set then some set
      else if c = d then some (d :: set)
      else classLoop c false d set := by
  rw [classLoop.eq_def]
  dsimp only
  rw [if_neg hbracket, if_neg hhyphen]
  rfl

/-- The range from the octet before the hyphen takes the character. -/
def InRanges (before : Octet) (ends : List Octet) (c : Octet) : Prop :=
  ∃ range ∈ rangesFrom before ends, charValue range.1 < charValue c ∧ charValue c ≤ charValue range.2

theorem classLoop_chain {c : Octet} (before : Octet) (ends tail : List Octet) :
    (InRanges before ends c ∧
      ∃ set, classLoop c false before (ends.flatMap (fun d => [ch '-', d]) ++ tail) = some set ∧
        tail.length < set.length) ∨
    (¬ InRanges before ends c ∧
      ∃ last, classLoop c false before (ends.flatMap (fun d => [ch '-', d]) ++ tail) =
        classLoop c false last tail) := by
  induction ends generalizing before with
  | nil => exact .inr ⟨by simp [InRanges, rangesFrom], before, rfl⟩
  | cons d ends ih =>
      have htext : (d :: ends).flatMap (fun d => [ch '-', d]) ++ tail =
          ch '-' :: d :: (ends.flatMap (fun d => [ch '-', d]) ++ tail) := by simp
      rw [htext, classLoop_range]
      by_cases hin : charValue before < charValue c ∧ charValue c ≤ charValue d
      · refine .inl ⟨⟨(before, d), List.mem_cons_self, hin⟩, _, if_pos hin, ?_⟩
        simp only [List.length_cons, List.length_append]
        omega
      · rw [if_neg hin]
        refine (ih d).imp ?_ ?_
        · rintro ⟨⟨range, hrange, hc⟩, hset⟩
          exact ⟨⟨range, List.mem_cons_of_mem _ hrange, hc⟩, hset⟩
        · rintro ⟨hnone, hlast⟩
          refine ⟨?_, hlast⟩
          rintro ⟨range, hrange, hc⟩
          rcases List.mem_cons.mp hrange with rfl | hrange
          · exact hin hc
          · exact hnone ⟨range, hrange, hc⟩

/-- The loop over the members: it stops at the right square bracket if and only if it takes none. -/
theorem classLoop_items {c : Octet} (items : List ClassItem)
    (hyphen : ∀ item ∈ items, item.start ≠ ch '-') (before : Octet) (rest : List Octet) :
    ∃ set, classLoop c false before (items.flatMap ClassItem.text ++ ch ']' :: rest) = some set ∧
      (set = ch ']' :: rest ↔ ¬ ∃ item ∈ items, item.Scans c) := by
  induction items generalizing before with
  | nil =>
      refine ⟨ch ']' :: rest, ?_, by simp⟩
      rw [List.flatMap_nil, List.nil_append, classLoop_end]
  | cons item items ih =>
      have hih := ih (fun item hitem => hyphen item (List.mem_cons_of_mem _ hitem))
      obtain ⟨hzero, hbracket⟩ := item.visible item.start List.mem_cons_self
      have hhyphen := hyphen item List.mem_cons_self
      have htaken : ∀ set : List Octet, item.Scans c → (ch ']' :: rest).length < set.length →
          (set = ch ']' :: rest ↔ ¬ ∃ item' ∈ item :: items, item'.Scans c) := by
        intro set hscans hlength
        refine iff_of_false ?_ (not_not_intro ⟨item, List.mem_cons_self, hscans⟩)
        rintro rfl
        exact absurd hlength (Nat.lt_irrefl _)
      have htext : (item :: items).flatMap ClassItem.text ++ ch ']' :: rest =
          item.start :: (item.ends.flatMap (fun d => [ch '-', d]) ++
            (items.flatMap ClassItem.text ++ ch ']' :: rest)) := by
        simp [ClassItem.text]
      have hle : (ch ']' :: rest).length ≤
          (items.flatMap ClassItem.text ++ ch ']' :: rest).length := by
        rw [List.length_append]
        exact Nat.le_add_left _ _
      rw [htext, classLoop_start _ _ _ hbracket hhyphen]
      by_cases hescape : item.start = ch '\\' ∧ c = peek (item.ends.flatMap (fun d => [ch '-', d]) ++
          (items.flatMap ClassItem.text ++ ch ']' :: rest))
      · rw [if_pos hescape]
        obtain ⟨hbackslash, hc⟩ := hescape
        refine ⟨_, rfl, ?_⟩
        cases hends : item.ends with
        | cons d ends =>
            rw [hends] at hc
            refine htaken _ (.inr (.inr ⟨hbackslash, by simp [hends], hc⟩)) ?_
            simp only [List.flatMap_cons, List.length_cons, List.length_append]
            omega
        | nil =>
            rw [hends] at hc
            cases items with
            | nil =>
                -- What stands behind the backslash is the end of the class.
                refine iff_of_true rfl ?_
                have hc : c = ch ']' := hc
                simp [ClassItem.Scans, hends, rangesFrom, hbackslash, hc]
                decide
            | cons next items =>
                refine iff_of_false (fun h => ?_) (not_not_intro ⟨next, by simp, .inl hc⟩)
                have hlength := congrArg List.length h
                simp only [List.flatMap_nil, List.nil_append, List.flatMap_cons, ClassItem.text,
                  List.cons_append, List.length_cons, List.length_append] at hlength
                omega
      · rw [if_neg hescape]
        by_cases hstart : c = item.start
        · rw [if_pos hstart]
          refine ⟨_, rfl, htaken _ (.inl hstart) ?_⟩
          simp only [List.length_cons, List.length_append]
          omega
        · rw [if_neg hstart]
          obtain ⟨hin, set, hset, hlength⟩ | ⟨hout, last, hlast⟩ := classLoop_chain (c := c) item.start
            item.ends (items.flatMap ClassItem.text ++ ch ']' :: rest)
          · exact ⟨set, hset, htaken set (.inr (.inl hin)) (hle.trans_lt hlength)⟩
          · rw [hlast]
            obtain ⟨set, hset, hiff⟩ := hih last
            refine ⟨set, hset, ?_⟩
            rw [hiff, List.exists_mem_cons_iff, not_or]
            refine (and_iff_right ?_).symm
            rintro (hsame | hin | ⟨hbackslash, hends, hc⟩)
            · exact hstart hsame
            · exact hout hin
            · refine hescape ⟨hbackslash, ?_⟩
              obtain ⟨d, ends, hd⟩ := List.exists_cons_of_ne_nil hends
              rw [hd, hc]
              rfl

theorem ClassItem.bracket_not_mem (item : ClassItem) : ch ']' ∉ item.text := by
  have hhyphen : ch ']' ≠ ch '-' := by decide
  have hvisible := item.visible
  simp only [ClassItem.text, List.mem_cons, List.mem_flatMap, List.not_mem_nil, or_false, not_or,
    not_exists, not_and]
  refine ⟨fun h => (hvisible _ List.mem_cons_self).2 h.symm, fun c hc => ⟨hhyphen, fun h => ?_⟩⟩
  exact (hvisible c (List.mem_cons_of_mem _ hc)).2 h.symm

theorem strchrRest_append {s : List Octet} {c : Octet} (h : c ∉ s) (rest : List Octet) :
    strchrRest (s ++ c :: rest) c = some (c :: rest) := by
  have hdrop : (s ++ c :: rest).dropWhile (· ≠ c) = c :: rest := by
    rw [List.dropWhile_append_of_pos (fun d hd => by simpa using fun hdc : d = c => h (hdc ▸ hd))]
    exact List.dropWhile_cons_of_neg (by simp)
  rw [strchrRest, hdrop]

namespace BracketClass

variable (k : BracketClass) (rest : List Octet)

theorem items_bracket : ch ']' ∉ k.items.flatMap ClassItem.text := by
  intro h
  obtain ⟨item, -, hitem⟩ := List.mem_flatMap.mp h
  exact item.bracket_not_mem hitem

theorem classEnd_text : classEnd (k.negation.toList ++ (k.members ++ ch ']' :: rest))
    (k.members ++ ch ']' :: rest) = some (ch ']' :: rest) := by
  have hcaret : ch ']' ∉ k.negation.toList := by
    intro h
    rcases k.caret _ (Option.mem_toList.mp h) with hc | hc <;> exact absurd hc (by decide)
  have hitems := k.items_bracket
  rw [classEnd]
  cases hbracket : k.bracket with
  | true =>
      have hmembers : k.members ++ ch ']' :: rest =
          ch ']' :: (k.items.flatMap ClassItem.text ++ ch ']' :: rest) := by
        simp [members, hbracket]
      rw [hmembers, strchrRest_append hcaret]
      dsimp only
      rw [if_pos rfl]
      exact strchrRest_append hitems rest
  | false =>
      have hmembers : k.members = k.items.flatMap ClassItem.text := by simp [members, hbracket]
      have hall : ch ']' ∉ k.negation.toList ++ k.items.flatMap ClassItem.text := by
        rw [List.mem_append, not_or]
        exact ⟨hcaret, hitems⟩
      have hne : ch ']' :: rest ≠ k.items.flatMap ClassItem.text ++ ch ']' :: rest := by
        intro h
        have hnil := List.append_left_eq_self.mp h.symm
        obtain ⟨item, items, hcons⟩ := List.exists_cons_of_ne_nil
          (k.nonempty.resolve_left (by simp [hbracket]))
        rw [hcons] at hnil
        simp [ClassItem.text] at hnil
      rw [hmembers, ← List.append_assoc, strchrRest_append hall]
      dsimp only
      rw [if_neg hne]

theorem negate_iff :
    (peek (k.negation.toList ++ (k.members ++ ch ']' :: rest)) = ch '^' ||
      peek (k.negation.toList ++ (k.members ++ ch ']' :: rest)) = ch '!') = k.negation.isSome := by
  cases hnegation : k.negation with
  | some d =>
      obtain rfl | rfl := k.caret d hnegation <;> rfl
  | none =>
      have hplain := k.plain hnegation
      cases hbracket : k.bracket with
      | true =>
          have hmembers : k.members = ch ']' :: k.items.flatMap ClassItem.text := by
            simp [members, hbracket]
          rw [hmembers]
          rfl
      | false =>
          obtain ⟨item, items, hcons⟩ := List.exists_cons_of_ne_nil
            (k.nonempty.resolve_left (by simp [hbracket]))
          have hstart := hplain hbracket item (by simp [hcons])
          simp [members, hbracket, hcons, ClassItem.text, hstart.1, hstart.2]

/-- The members behind a right square bracket that is one, where a hyphen may be the first. -/
theorem classMatch_items {c : Octet} (before : Octet) (negate : Bool) :
    let set := before :: (k.items.flatMap ClassItem.text ++ ch ']' :: rest)
    let hyphen := if peek set.tail = ch '-' then set.tail else set
    ∃ matched, (if peek set.tail = ch '-' ∧ c = ch '-' then some !negate
        else
          match classLoop c false (peek hyphen) hyphen.tail with
          | none => none
          | some set => some (if set = ch ']' :: rest then negate else !negate)) = some matched ∧
      (matched = !negate ↔ ∃ item ∈ k.items, item.Scans c) := by
  intro set hyphen
  have hverdict : ∀ (set : List Octet) (taken : Prop), (set = ch ']' :: rest ↔ ¬ taken) →
      ∃ matched, some (if set = ch ']' :: rest then negate else !negate) = some matched ∧
        (matched = !negate ↔ taken) := by
    intro set taken hiff
    refine ⟨_, rfl, ?_⟩
    by_cases h : set = ch ']' :: rest
    · rw [if_pos h]
      exact iff_of_false (by simp) (hiff.mp h)
    · rw [if_neg h]
      exact iff_of_true rfl (not_not.mp fun htaken => h (hiff.mpr htaken))
  by_cases hfirst : peek set.tail = ch '-'
  · cases hitems : k.items with
    | nil =>
        have hset : set.tail = ch ']' :: rest := by simp [set, hitems]
        rw [hset] at hfirst
        exact absurd hfirst (by show ¬ ch ']' = ch '-'; decide)
    | cons item items =>
        have htext : set.tail = item.start :: (item.ends.flatMap (fun d => [ch '-', d]) ++
            (items.flatMap ClassItem.text ++ ch ']' :: rest)) := by
          simp [set, hitems, ClassItem.text]
        have hstart : item.start = ch '-' := by
          rw [htext] at hfirst
          exact hfirst
        have hhyphen : ∀ item ∈ items, item.start ≠ ch '-' := by
          have htail := k.hyphen
          rwa [hitems] at htail
        by_cases hc : c = ch '-'
        · rw [if_pos ⟨hfirst, hc⟩]
          exact ⟨_, rfl, iff_of_true rfl ⟨item, List.mem_cons_self, .inl (hc.trans hstart.symm)⟩⟩
        · have hbehind : hyphen = set.tail := if_pos hfirst
          rw [if_neg (fun h => hc h.2), hbehind, htext]
          obtain ⟨hin, found, hfound, hlength⟩ | ⟨hout, last, hlast⟩ := classLoop_chain (c := c)
            item.start item.ends (items.flatMap ClassItem.text ++ ch ']' :: rest)
          · have hloop : classLoop c false (peek (item.start :: (item.ends.flatMap
                (fun d => [ch '-', d]) ++ (items.flatMap ClassItem.text ++ ch ']' :: rest))))
                (item.ends.flatMap (fun d => [ch '-', d]) ++
                  (items.flatMap ClassItem.text ++ ch ']' :: rest)) = some found := hfound
            rw [List.tail_cons, hloop]
            refine hverdict found _ (iff_of_false ?_ (not_not_intro ?_))
            · rintro rfl
              rw [List.length_append] at hlength
              omega
            · exact ⟨item, List.mem_cons_self, .inr (.inl hin)⟩
          · obtain ⟨found, hfound, hiff⟩ := classLoop_items (c := c) items hhyphen last rest
            have hloop : classLoop c false (peek (item.start :: (item.ends.flatMap
                (fun d => [ch '-', d]) ++ (items.flatMap ClassItem.text ++ ch ']' :: rest))))
                (item.ends.flatMap (fun d => [ch '-', d]) ++
                  (items.flatMap ClassItem.text ++ ch ']' :: rest)) = some found :=
              hlast.trans hfound
            rw [List.tail_cons, hloop]
            refine hverdict found _ (hiff.trans (not_congr ?_))
            rw [List.exists_mem_cons_iff]
            refine (or_iff_right ?_).symm
            rintro (hsame | hin | ⟨hbackslash, -⟩)
            · exact hc (hsame.trans hstart)
            · exact hout hin
            · rw [hstart] at hbackslash
              exact absurd hbackslash (by decide)
  · have hhyphen : ∀ item ∈ k.items, item.start ≠ ch '-' := by
      intro item hitem
      cases hitems : k.items with
      | nil =>
          rw [hitems] at hitem
          exact absurd hitem List.not_mem_nil
      | cons first items =>
          have htail := k.hyphen
          rw [hitems] at hitem htail
          rcases List.mem_cons.mp hitem with rfl | hitem
          · intro hstart
            refine hfirst ?_
            have hset : peek set.tail = item.start := by simp [set, hitems, ClassItem.text]
            exact hset.trans hstart
          · exact htail item hitem
    obtain ⟨found, hfound, hiff⟩ := classLoop_items (c := c) k.items hhyphen before rest
    have hbehind : hyphen = set := if_neg hfirst
    have hloop : classLoop c false (peek set) set.tail = some found := hfound
    rw [if_neg (fun h => hfirst h.1), hbehind, hloop]
    exact hverdict found _ hiff

theorem classMatch_text {c : Octet} (before : Octet) (negate : Bool) :
    ∃ matched, classMatch c (before :: (k.members ++ ch ']' :: rest)) (ch ']' :: rest) negate false
        = some matched ∧ (matched = !negate ↔ k.Scans c) := by
  rw [classMatch]
  cases hbracket : k.bracket with
  | true =>
      have hmembers : k.members ++ ch ']' :: rest =
          ch ']' :: (k.items.flatMap ClassItem.text ++ ch ']' :: rest) := by
        simp [members, hbracket]
      rw [List.tail_cons, hmembers, peek_cons]
      by_cases hc : c = ch ']'
      · rw [if_pos ⟨rfl, hc⟩]
        exact ⟨_, rfl, iff_of_true rfl (.inl ⟨hbracket, hc⟩)⟩
      · obtain ⟨matched, hmatched, hiff⟩ := k.classMatch_items rest (c := c) (ch ']') negate
        rw [if_neg (fun h => hc h.2), if_pos rfl]
        refine ⟨matched, hmatched, hiff.trans ?_⟩
        exact (or_iff_right (fun h => hc h.2)).symm
  | false =>
      have hmembers : k.members = k.items.flatMap ClassItem.text := by simp [members, hbracket]
      have hfirst : peek (k.items.flatMap ClassItem.text ++ ch ']' :: rest) ≠ ch ']' := by
        obtain ⟨item, items, hcons⟩ := List.exists_cons_of_ne_nil
          (k.nonempty.resolve_left (by simp [hbracket]))
        rw [hcons]
        exact (item.visible _ List.mem_cons_self).2
      obtain ⟨matched, hmatched, hiff⟩ := k.classMatch_items rest (c := c) before negate
      rw [List.tail_cons, hmembers, if_neg (fun h => hfirst h.1), if_neg hfirst]
      refine ⟨matched, hmatched, hiff.trans ?_⟩
      exact (or_iff_right (fun h => absurd h.1 (by simp [hbracket]))).symm

theorem textClass_text (c : Octet) :
    (textClass c (k.text ++ rest) false = some (some (ch ']' :: rest)) ∧
        (k.Scans c ↔ k.negation = none)) ∨
      (textClass c (k.text ++ rest) false = some none ∧ ¬ (k.Scans c ↔ k.negation = none)) := by
  have htext : k.text ++ rest =
      ch '[' :: (k.negation.toList ++ (k.members ++ ch ']' :: rest)) := by
    simp [text]
  have hset : ∃ before, (if k.negation.isSome then k.negation.toList ++ (k.members ++ ch ']' :: rest)
      else ch '[' :: (k.negation.toList ++ (k.members ++ ch ']' :: rest))) =
        before :: (k.members ++ ch ']' :: rest) := by
    cases k.negation with
    | none => exact ⟨ch '[', rfl⟩
    | some d => exact ⟨d, rfl⟩
  obtain ⟨before, hbefore⟩ := hset
  obtain ⟨matched, hmatched, hiff⟩ := k.classMatch_text rest (c := c) before k.negation.isSome
  have hclass : textClass c (k.text ++ rest) false =
      some (if matched then some (ch ']' :: rest) else none) := by
    rw [htext, textClass, List.tail_cons]
    simp only [k.negate_iff rest]
    rw [hbefore, List.tail_cons, k.classEnd_text rest]
    dsimp only
    rw [hmatched]
    rfl
  have hverdict : matched = true ↔ (k.Scans c ↔ k.negation = none) := by
    rw [← hiff]
    cases k.negation <;> cases matched <;> simp
  cases hmatch : matched with
  | true => exact .inl ⟨by rw [hclass, hmatch]; rfl, hverdict.mp hmatch⟩
  | false =>
      refine .inr ⟨by rw [hclass, hmatch]; rfl, fun h => ?_⟩
      rw [hverdict.mpr h] at hmatch
      exact absurd hmatch (by decide)

end BracketClass

/-! ### What `TextFind` takes -/

theorem PinElement.text_cons (e : PinElement) :
    ∃ p text, e.text = p :: text ∧ p ≠ ch '*' ∧ ∀ c ≠ 0, ∀ rest,
      (textFindOctet false c p (text ++ rest) = some (some rest) ∧
          e.Takes BracketClass.Scans c) ∨
        (textFindOctet false c p (text ++ rest) = some none ∧ ¬ e.Takes BracketClass.Scans c) := by
  cases e with
  | literal d hd =>
      obtain ⟨-, hplain⟩ := hd
      have hne : ∀ x ∈ ascii "*?[ \\", d ≠ x := fun x hx h => hplain (h ▸ hx)
      refine ⟨d, [], rfl, hne _ (by decide), fun c _ rest => ?_⟩
      have hstep : textFindOctet false c d rest = if c = d then some (some rest) else some none := by
        rw [textFindOctet, if_neg (hne _ (by decide)), if_neg (hne _ (by decide)),
          if_neg (hne _ (by decide)), if_neg (fun h => hne (ch ' ') (by decide) h.1)]
        rfl
      rw [List.nil_append, hstep]
      by_cases hc : c = d
      · exact .inl ⟨if_pos hc, hc⟩
      · exact .inr ⟨if_neg hc, hc⟩
  | any => exact ⟨ch '?', [], rfl, by decide, fun c hc rest => .inl ⟨rfl, hc⟩⟩
  | space =>
      refine ⟨ch ' ', [], rfl, by decide, fun c _ rest => ?_⟩
      have hstep : textFindOctet false c (ch ' ') rest =
          if isspace c then some (some rest)
          else if c = ch ' ' then some (some rest) else some none := by
        rw [textFindOctet, if_neg (by decide), if_neg (by decide), if_neg (by decide)]
        by_cases hc : isspace c
        · rw [if_pos ⟨rfl, hc⟩, if_pos hc]
        · rw [if_neg (fun h => hc h.2), if_neg hc]
          rfl
      have hspace : isspace (ch ' ') := by decide
      rw [List.nil_append, hstep]
      by_cases hc : isspace c
      · exact .inl ⟨if_pos hc, hc⟩
      · have hne : c ≠ ch ' ' := fun h => hc (h ▸ hspace)
        exact .inr ⟨by rw [if_neg hc, if_neg hne], hc⟩
  | escaped d hd =>
      refine ⟨ch '\\', [d], rfl, by decide, fun c _ rest => ?_⟩
      have hstep : textFindOctet false c (ch '\\') (d :: rest) =
          some (if c = d then some rest else none) := rfl
      rw [List.singleton_append, hstep]
      by_cases hc : c = d
      · exact .inl ⟨by rw [if_pos hc], hc⟩
      · exact .inr ⟨by rw [if_neg hc], hc⟩
  | bracket k =>
      refine ⟨ch '[', k.negation.toList ++ k.members ++ [ch ']'], rfl, by decide, fun c hc rest => ?_⟩
      have hstep : textFindOctet false c (ch '[')
            (k.negation.toList ++ k.members ++ [ch ']'] ++ rest) =
          (textClass c (k.text ++ rest) false).map fun right => right.map List.tail := rfl
      rw [hstep]
      refine (k.textClass_text rest c).imp ?_ ?_
      · rintro ⟨hclass, hscans⟩
        exact ⟨by rw [hclass]; rfl, hc, hscans⟩
      · rintro ⟨hclass, hscans⟩
        exact ⟨by rw [hclass]; rfl, fun h => hscans h.2⟩

/-- The haystack up to the limit. -/
def limited (hay : List Octet) (size : Int) : List Octet :=
  hay.take (haySize size).toNat

/-- The pattern as `TextFind` reads it. -/
abbrev pieces (pattern : Pin) : List (Option (Octet → Prop)) :=
  readPieces (PinElement.Takes BracketClass.Scans) pattern

theorem take_toNat_cons (c : Octet) (hay : List Octet) {size : Int} (h : 0 < size) :
    (c :: hay).take size.toNat = c :: hay.take (size - 1).toNat := by
  obtain ⟨n, hn⟩ : ∃ n, size.toNat = n + 1 := ⟨size.toNat - 1, by omega⟩
  have hprev : (size - 1).toNat = n := by omega
  rw [hn, hprev, List.take_succ_cons]

theorem textFindSearch_fits {find : List Octet → Int → Option Int} {S : Octet → Prop}
    {rest : List (Option (Octet → Prop))}
    (hfind : ∀ hay size, 0 ∉ hay → 0 < size → ∃ r, find hay size = some r ∧
      (r = 0 ↔ FitsPieces (some S :: rest) (hay.take size.toNat)))
    (hay : List Octet) (hnul : 0 ∉ hay) (size : Int) (skipped : Nat) :
    (∃ more, textFindSearch find hay size skipped = some (some (skipped + more)) ∧
        FitsPieces (none :: some S :: rest) (hay.take size.toNat)) ∨
      (textFindSearch find hay size skipped = some none ∧
        ¬ FitsPieces (none :: some S :: rest) (hay.take size.toNat)) := by
  have hnone : ¬ FitsPieces (none :: some S :: rest) [] := by
    rw [fits_gap_iff]
    rintro ⟨last, hlast, h⟩
    rw [List.suffix_nil.mp hlast] at h
    exact fits_one_nil h
  induction hay generalizing size skipped with
  | nil => exact .inr ⟨rfl, by rwa [List.take_nil]⟩
  | cons c hay ih =>
      obtain ⟨-, hnul'⟩ := not_or.mp (fun h => hnul (List.mem_cons.mpr h))
      rw [textFindSearch]
      by_cases hsize : size ≤ 0
      · rw [if_pos hsize, Int.toNat_of_nonpos hsize]
        exact .inr ⟨rfl, hnone⟩
      · have hpos : 0 < size := by omega
        obtain ⟨r, hr, hfits⟩ := hfind (c :: hay) size hnul hpos
        rw [if_neg hsize, hr, take_toNat_cons c hay hpos, fits_gap_cons,
          ← take_toNat_cons c hay hpos, ← hfits]
        dsimp only
        by_cases hzero : r = 0
        · rw [if_pos hzero]
          exact .inl ⟨0, rfl, .inl hzero⟩
        · rw [if_neg hzero]
          refine (ih hnul' (size - 1) (skipped + 1)).imp ?_ ?_
          · rintro ⟨more, hmore, h⟩
            exact ⟨more + 1, by rw [hmore]; congr 2; omega, .inr h⟩
          · rintro ⟨hsearch, h⟩
            exact ⟨hsearch, fun hor => hor.elim hzero h⟩

theorem patternText_stars (pattern : Pin) : ∃ rest : Pin,
    (patternText pattern).dropWhile (· = ch '*') = patternText rest ∧
      rest.length ≤ pattern.length ∧ rest.head? ≠ some none ∧
      (∀ word, FitsPieces (none :: pieces pattern) word ↔ FitsPieces (none :: pieces rest) word) := by
  induction pattern with
  | nil => exact ⟨[], rfl, Nat.le_refl _, nofun, fun _ => Iff.rfl⟩
  | cons piece pattern ih =>
      cases piece with
      | none =>
          obtain ⟨rest, htext, hlength, hhead, hfits⟩ := ih
          refine ⟨rest, ?_, hlength.trans (Nat.le_succ _), hhead, fun word => ?_⟩
          · rw [← htext]
            exact List.dropWhile_cons_of_pos (by simp)
          · rw [← hfits]
            exact fits_gap_gap
      | some e =>
          refine ⟨some e :: pattern, ?_, Nat.le_refl _, by simp, fun _ => Iff.rfl⟩
          obtain ⟨p, text, htext, hp, -⟩ := e.text_cons
          have hcons : patternText (some e :: pattern) = p :: (text ++ patternText pattern) := by
            simp [patternText, htext]
          rw [hcons]
          exact List.dropWhile_cons_of_neg (by simpa using hp)

theorem textFindRest_over {p : Octet} (hp : p ≠ ch '*') (pin : List Octet) (offset : Int) (moved : Nat)
    {hay : List Octet} {size : Int} (h : size ≤ 0 ∨ hay = []) :
    textFindRest false (p :: pin) offset moved hay size = some (-1) := by
  rw [textFindRest.eq_def]
  dsimp only
  rw [if_neg hp]
  by_cases hsize : size ≤ 0
  · rw [if_pos hsize]
  · rw [if_neg hsize, h.resolve_left hsize]

theorem textFindRest_octet {p : Octet} (hp : p ≠ ch '*') (pin : List Octet) (offset : Int) (moved : Nat)
    (c : Octet) (hay : List Octet) {size : Int} (h : 0 < size) :
    textFindRest false (p :: pin) offset moved (c :: hay) size =
      match textFindOctet false c p pin with
      | none => none
      | some none => some (-1)
      | some (some left) =>
          textFindRest false left (if offset < 0 then moved else offset) (moved + 1) hay (size - 1) := by
  rw [textFindRest.eq_def]
  dsimp only
  rw [if_neg hp, if_neg (by omega)]
  split <;> next hmatch => rw [hmatch]

theorem textFindRest_star (pin : List Octet) (offset : Int) (moved : Nat) (hay : List Octet)
    (size : Int) : textFindRest false (ch '*' :: pin) offset moved hay size =
      if pin.dropWhile (· = ch '*') = [] then some (if offset < 0 then (moved : Int) else offset)
      else
        match textFindSearch (fun hay size =>
            textFindRest false (pin.dropWhile (· = ch '*')) (-1) 0 hay (haySize size)) hay size 0 with
        | none => none
        | some none => some (-1)
        | some (some skipped) => some (if offset < 0 then (moved : Int) + skipped else offset) := by
  rw [textFindRest.eq_def]
  exact if_pos rfl

/-- The loop of `TextFind` from some point of the pattern on. What is found is at the start where
something has been found there before, or where the next element takes one character. -/
theorem textFindRest_fits (pattern : Pin) (hay : List Octet) (hnul : 0 ∉ hay) (size : Int)
    (hsize : 0 ≤ size) (offset : Int) (moved : Nat) :
    ∃ r, textFindRest false (patternText pattern) offset moved hay size = some r ∧
      ((0 ≤ r ∧ FitsPieces (pieces pattern) (hay.take size.toNat)) ∨
        (r = -1 ∧ ¬ FitsPieces (pieces pattern) (hay.take size.toNat))) ∧
      (offset = 0 ∨ (moved = 0 ∧ offset < 0 ∧ pattern.head? ≠ some none) → 0 ≤ r → r = 0) := by
  induction hn : pattern.length using Nat.strongRecOn generalizing pattern hay size offset moved with
  | ind n ih =>
    rcases pattern with _ | ⟨_ | e, pattern⟩
    · have hempty : patternText [] = [] := rfl
      have hfits : FitsPieces (pieces []) (hay.take size.toNat) ↔ size = 0 ∨ hay = [] := by
        have hzero : size.toNat = 0 ↔ size = 0 := by omega
        simp [readPieces, hzero]
      rw [hempty, textFindRest]
      by_cases hend : size = 0 ∨ hay = []
      · exact ⟨0, by rw [if_pos hend], .inl ⟨Int.le_refl 0, hfits.mpr hend⟩, fun _ _ => rfl⟩
      · refine ⟨-1, by rw [if_neg hend], .inr ⟨rfl, fun h => hend (hfits.mp h)⟩, fun _ h => ?_⟩
        exact absurd h (by decide)
    · obtain ⟨rest, htext, hlength, hhead, hstars⟩ := patternText_stars pattern
      have hcons : patternText (none :: pattern) = ch '*' :: patternText pattern := rfl
      have hpieces : pieces (none :: pattern) = none :: pieces pattern := rfl
      rw [hcons, textFindRest_star, htext, hpieces, hstars]
      rcases rest with _ | ⟨_ | e, rest⟩
      · have hempty : patternText [] = [] := rfl
        rw [if_pos hempty]
        refine ⟨_, rfl, .inl ⟨?_, fits_gap_end⟩, ?_⟩
        · split <;> omega
        · rintro (rfl | ⟨-, -, hne⟩) _
          · rfl
          · exact absurd rfl hne
      · exact absurd rfl hhead
      · obtain ⟨p, text, hetext, -⟩ := e.text_cons
        have hne : patternText (some e :: rest) ≠ [] := by simp [patternText, hetext]
        have hlt : (some e :: rest).length < n := by
          rw [← hn]
          exact Nat.lt_succ_of_le hlength
        have hfind : ∀ hay size, 0 ∉ hay → 0 < size →
            ∃ r, textFindRest false (patternText (some e :: rest)) (-1) 0 hay (haySize size)
              = some r ∧ (r = 0 ↔ FitsPieces (pieces (some e :: rest)) (hay.take size.toNat)) := by
          intro hay size hnul hpos
          obtain ⟨r, hr, hfits, hzero⟩ := ih _ hlt (some e :: rest) hay hnul size (by omega) (-1) 0 rfl
          have hsame : haySize size = size := if_neg (by omega)
          refine ⟨r, by rw [hsame, hr], ?_⟩
          obtain ⟨hpos, hfits⟩ | ⟨hneg, hfits⟩ := hfits
          · exact iff_of_true (hzero (.inr ⟨rfl, by omega, by simp⟩) hpos) hfits
          · exact iff_of_false (by omega) hfits
        rw [if_neg hne]
        obtain ⟨more, hsearch, hfits⟩ | ⟨hsearch, hfits⟩ :=
          textFindSearch_fits hfind hay hnul size 0
        · rw [hsearch]
          refine ⟨_, rfl, .inl ⟨?_, hfits⟩, ?_⟩
          · split <;> omega
          · rintro (rfl | ⟨-, -, hne⟩) _
            · rfl
            · exact absurd rfl hne
        · rw [hsearch]
          exact ⟨-1, rfl, .inr ⟨rfl, hfits⟩, fun _ h => absurd h (by decide)⟩
    · obtain ⟨p, text, htext, hp, hoctet⟩ := e.text_cons
      have hcons : patternText (some e :: pattern) = p :: (text ++ patternText pattern) := by
        simp [patternText, htext]
      have hpieces : pieces (some e :: pattern) =
          some (e.Takes BracketClass.Scans) :: pieces pattern := rfl
      have hfails : ∀ word, ¬ FitsPieces (pieces (some e :: pattern)) word →
          ∃ r, (some (-1) : Option Int) = some r ∧
            ((0 ≤ r ∧ FitsPieces (pieces (some e :: pattern)) word) ∨
              (r = -1 ∧ ¬ FitsPieces (pieces (some e :: pattern)) word)) ∧
            (offset = 0 ∨ (moved = 0 ∧ offset < 0 ∧ (some e :: pattern).head? ≠ some none) →
              0 ≤ r → r = 0) := fun word hword =>
        ⟨-1, rfl, .inr ⟨rfl, hword⟩, fun _ h => absurd h (by decide)⟩
      rw [hcons]
      by_cases hlimit : size ≤ 0
      · rw [textFindRest_over hp _ _ _ (.inl hlimit), Int.toNat_of_nonpos hlimit]
        exact hfails _ fits_one_nil
      · have hpos : 0 < size := by omega
        cases hay with
        | nil =>
            rw [textFindRest_over hp _ _ _ (.inr rfl), List.take_nil]
            exact hfails _ fits_one_nil
        | cons c hay =>
            obtain ⟨hc, hnul⟩ := not_or.mp (fun h => hnul (List.mem_cons.mpr h))
            rw [take_toNat_cons c hay hpos, textFindRest_octet hp _ _ _ _ _ hpos]
            obtain ⟨hmatch, htakes⟩ | ⟨hmatch, htakes⟩ := hoctet c (Ne.symm hc) (patternText pattern)
            · rw [hmatch]
              dsimp only
              have hlt : pattern.length < n := by
                rw [← hn]
                exact Nat.lt_succ_self _
              obtain ⟨r, hr, hfits, hzero⟩ := ih pattern.length hlt pattern hay hnul (size - 1)
                (by omega) (if offset < 0 then moved else offset) (moved + 1) rfl
              refine ⟨r, hr, ?_, fun h => hzero (.inl ?_)⟩
              · rw [hpieces]
                simpa only [fits_one_cons, htakes, true_and] using hfits
              · obtain h | ⟨hmoved, hoffset, -⟩ := h
                · rw [h]
                  rfl
                · rw [if_pos hoffset, hmoved]
                  rfl
            · rw [hmatch]
              refine hfails _ ?_
              rw [hpieces, fits_one_cons]
              exact fun h => htakes h.1

theorem textFindOffset_fits (pattern : Pin) (hay : CString) (size : Int) :
    (∃ r, textFindOffset hay.octets (patternText pattern) size false = some r ∧ 0 ≤ r) ↔
      FitsPieces (pieces pattern) (limited hay.octets size) := by
  have hsize : 0 ≤ haySize size := by
    rw [haySize]
    split <;> omega
  obtain ⟨r, hr, hfits, -⟩ :=
    textFindRest_fits pattern hay.octets hay.noNul (haySize size) hsize (-1) 0
  rw [textFindOffset, hr, limited]
  obtain ⟨hpos, hfits⟩ | ⟨rfl, hfits⟩ := hfits
  · exact iff_of_true ⟨r, rfl, hpos⟩ hfits
  · refine iff_of_false ?_ hfits
    rintro ⟨r, hr, hpos⟩
    rw [← Option.some.inj hr] at hpos
    exact absurd hpos (by decide)

/-! ### Where classes are read as they are meant -/

/-- Each range is on one side of 0x80, and no range begins with a backslash. -/
def ClassItem.Plain (item : ClassItem) : Prop :=
  (∀ range ∈ rangesFrom item.start item.ends, range.1 < 128 ↔ range.2 < 128) ∧
    (item.start = ch '\\' → item.ends = [])

/-! ### The patterns for which `TextFind` goes right -/

/-- A negated class of whose characters none is left. -/
def BracketClass.Void (lists : BracketClass → Octet → Prop) (k : BracketClass) : Prop :=
  k.negation ≠ none ∧ ∀ c ≠ 0, lists k c

/-- Where `TextFind` goes right: the characters that each class scans are the ones it lists. Or no text
at all is described, and none is found: there are negated classes that list all characters, and that
scan all characters. -/
def PatternFine (pattern : Pin) : Prop :=
  (∀ k, some (.bracket k) ∈ pattern → ∀ c ≠ 0, k.Lists c ↔ k.Scans c) ∨
    ((∃ k, some (.bracket k) ∈ pattern ∧ k.Void BracketClass.Lists) ∧
      ∃ k, some (.bracket k) ∈ pattern ∧ k.Void BracketClass.Scans)

theorem BracketClass.exists_member (k : BracketClass) : ∃ c ≠ 0, k.Lists c ∧ k.Scans c := by
  cases hbracket : k.bracket with
  | true => exact ⟨ch ']', by decide, .inl ⟨hbracket, rfl⟩, .inl ⟨hbracket, rfl⟩⟩
  | false =>
      obtain ⟨item, items, hcons⟩ := List.exists_cons_of_ne_nil
        (k.nonempty.resolve_left (by simp [hbracket]))
      have hmem : item ∈ k.items := by simp [hcons]
      exact ⟨item.start, (item.visible _ List.mem_cons_self).1, .inr ⟨item, hmem, .inl rfl⟩,
        .inr ⟨item, hmem, .inl rfl⟩⟩

theorem PinElement.void_iff {lists : BracketClass → Octet → Prop}
    (hlists : ∀ k, ∃ c ≠ 0, lists k c) (e : PinElement) :
    (∀ c, ¬ e.Takes lists c) ↔ ∃ k, e = .bracket k ∧ k.Void lists := by
  cases e with
  | literal d hd => exact iff_of_false (fun h => h d rfl) (by rintro ⟨k, hk, -⟩; nomatch hk)
  | any =>
      have hone : (1 : Octet) ≠ 0 := by decide
      exact iff_of_false (fun h => h 1 hone) (by rintro ⟨k, hk, -⟩; nomatch hk)
  | space =>
      have hspace : isspace (ch ' ') := by decide
      exact iff_of_false (fun h => h (ch ' ') hspace) (by rintro ⟨k, hk, -⟩; nomatch hk)
  | escaped d hd => exact iff_of_false (fun h => h d rfl) (by rintro ⟨k, hk, -⟩; nomatch hk)
  | bracket k =>
      constructor
      · intro h
        refine ⟨k, rfl, ?_⟩
        obtain ⟨c, hc, hlisted⟩ := hlists k
        have hnegated : k.negation ≠ none := fun hnone => h c ⟨hc, iff_of_true hlisted hnone⟩
        exact ⟨hnegated, fun d hd => not_not.mp fun hnot => h d ⟨hd, iff_of_false hnot hnegated⟩⟩
      · rintro ⟨k', hk, hnegated, hall⟩ c ⟨hc, hiff⟩
        obtain rfl := PinElement.bracket.inj hk
        exact hnegated (hiff.mp (hall c hc))

theorem void_piece_iff {lists : BracketClass → Octet → Prop} (hlists : ∀ k, ∃ c ≠ 0, lists k c)
    (pattern : Pin) : (∃ e, some e ∈ pattern ∧ ∀ c, ¬ e.Takes lists c) ↔
      ∃ k, some (.bracket k) ∈ pattern ∧ k.Void lists := by
  constructor
  · rintro ⟨e, he, hvoid⟩
    obtain ⟨k, rfl, hk⟩ := (PinElement.void_iff hlists e).mp hvoid
    exact ⟨k, he, hk⟩
  · rintro ⟨k, hk, hvoid⟩
    exact ⟨_, hk, (PinElement.void_iff hlists _).mpr ⟨k, rfl, hvoid⟩⟩

theorem PinElement.takes_iff (e : PinElement) :
    (∀ c, e.Takes BracketClass.Lists c ↔ e.Takes BracketClass.Scans c) ↔
      ∀ k, e = .bracket k → ∀ c ≠ 0, k.Lists c ↔ k.Scans c := by
  cases e with
  | bracket k =>
      constructor
      · intro h k' hk c hc
        obtain rfl := PinElement.bracket.inj hk
        have hiff := h c
        by_cases hnone : k.negation = none <;>
          simpa [PinElement.Takes, hc, hnone, not_iff_not] using hiff
      · intro h c
        exact and_congr_right fun hc => iff_congr (h k rfl c hc) Iff.rfl
  | _ => exact iff_of_true (fun c => Iff.rfl) nofun

/-- For every pattern, `TextFind` finds it in exactly the texts that it describes, up to the limit, if
and only if the pattern is one for which it goes right. -/
theorem textFindOffset_iff (pattern : Pin) :
    (∀ (hay : CString) (size : Int),
      (∃ r, textFindOffset hay.octets (patternText pattern) size false = some r ∧ 0 ≤ r) ↔
        Describes pattern (limited hay.octets size)) ↔ PatternFine pattern := by
  have hwords : (∀ (hay : CString) (size : Int),
      (∃ r, textFindOffset hay.octets (patternText pattern) size false = some r ∧ 0 ≤ r) ↔
        Describes pattern (limited hay.octets size)) ↔
      ∀ word : List Octet, (∀ c ∈ word, c ≠ 0) →
        (Describes pattern word ↔ FitsPieces (pieces pattern) word) := by
    constructor
    · intro h word hword
      have hhay := h ⟨word, fun hzero => hword 0 hzero rfl⟩ word.length
      have hlimit : limited word word.length = word := by
        have hsize : haySize word.length = word.length := if_neg (by omega)
        rw [limited, hsize, Int.toNat_natCast, List.take_length]
      rw [textFindOffset_fits, hlimit] at hhay
      exact hhay.symm
    · intro h hay size
      rw [textFindOffset_fits]
      refine (h _ fun c hc hzero => hay.noNul ?_).symm
      rw [← hzero]
      exact List.mem_of_mem_take hc
  have hnull : ∀ lists e c, PinElement.Takes lists e c → c ≠ 0 := fun lists e c =>
    PinElement.Takes.ne_zero
  rw [hwords, PatternFine]
  refine (fits_iff_forall (hnull _) (hnull _) pattern).trans (or_congr ?_ (and_congr ?_ ?_))
  · constructor
    · exact fun h k hk => (PinElement.takes_iff _).mp (h _ hk) k rfl
    · exact fun h e he => (PinElement.takes_iff e).mpr fun k hk => h k (hk ▸ he)
  · exact void_piece_iff (fun k => k.exists_member.imp fun _ h => ⟨h.1, h.2.1⟩) pattern
  · exact void_piece_iff (fun k => k.exists_member.imp fun _ h => ⟨h.1, h.2.2⟩) pattern

/-- The class `[\\-z]`: the characters from the backslash to `z`. -/
def backslashRange : BracketClass where
  negation := none
  bracket := false
  items := [⟨ch '\\', [ch 'z'], by decide, by decide⟩]
  caret := nofun
  nonempty := .inr (List.cons_ne_nil _ _)
  hyphen := nofun
  plain := by simp; decide

/-- The hyphen is not one of the characters from the backslash to `z`, but `TextFind` finds
`[\\-z]` in it. -/
theorem textFindOffset_backslash :
    patternText [some (.bracket backslashRange)] = ascii "[\\-z]" ∧
      textFindOffset (ascii "-") (ascii "[\\-z]") (-1) false = some 0 ∧
        ¬ Describes [some (.bracket backslashRange)] (limited (ascii "-") (-1)) := by
  refine ⟨by decide, ?_, ?_⟩
  · have htext : ascii "[\\-z]" = ch '[' :: ascii "\\-z]" := rfl
    have hhay : ascii "-" = [ch '-'] := rfl
    have hoctet : textFindOctet false (ch '-') (ch '[') (ascii "\\-z]") = some (some []) := by decide
    rw [textFindOffset, htext, hhay, textFindRest_octet (by decide) _ _ _ _ _ (by decide), hoctet]
    dsimp only
    rw [textFindRest]
    decide
  · have hlimit : limited (ascii "-") (-1) = [ch '-'] := List.take_of_length_le (by decide)
    have hlisted : ¬ backslashRange.Lists (ch '-') := by
      rintro (⟨h, -⟩ | ⟨item, hitem, h⟩)
      · exact absurd h (by decide)
      · obtain rfl := List.mem_singleton.mp hitem
        obtain h | ⟨range, hrange, h⟩ := h
        · exact absurd h (by decide)
        · obtain rfl := List.mem_singleton.mp hrange
          exact absurd h (by decide)
    rw [hlimit]
    rintro ⟨c, rest, hword, htakes, -⟩
    obtain ⟨rfl, -⟩ := List.cons.inj hword
    exact hlisted (htakes.2.mpr rfl)

end Snert
