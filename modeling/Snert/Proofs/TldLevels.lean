/-
Module: Snert.Proofs.TldLevels
Purpose: Where the look-ups of top level domains are exact. The labels are found as they should be,
  but an entry that goes on behind them with a dot is taken for them, and a domain with fewer labels
  than asked for is looked up as a whole.
Trusted boundary: none
Main exports: indexValidTLD_iff
-/
import Mathlib.Data.List.Count
import Mathlib.Data.List.GetD
import Snert.Mail.Tlds

namespace Snert

open CModel

/-! ### Names and their labels -/

/-- The entry of a table: a name in lower case, none of whose labels is empty. -/
structure TldName where
  octets : List Octet
  noNul : 0 ∉ octets
  lower : octets.map tolower = octets
  labels : ¬ [ch '.', ch '.'] <:+: ch '.' :: octets ++ [ch '.']

/-- The tables of the levels. -/
abbrev TldTables := Nat → List TldName

/-- `nth_tld`. -/
def TldTables.nth (tables : TldTables) (level : Nat) : List (List Octet) :=
  (tables level).map TldName.octets

/-- A domain without the dot of the root. -/
def withoutRoot (domain : List Octet) : List Octet :=
  if domain.getLast? = some (ch '.') then domain.dropLast else domain

/-- The last labels of a name, as many as asked for, begin at the offset. -/
structure StartsLabels (name : List Octet) (level offset : Nat) : Prop where
  le : offset ≤ name.length
  start : offset = 0 ∨ name[offset - 1]? = some (ch '.')
  labels : (name.drop offset).count (ch '.') + 1 = level

/-- The last labels of a domain are an entry of the table of the level, when case is ignored. -/
def IsTld (tables : TldTables) (domain : List Octet) (level offset : Nat) : Prop :=
  StartsLabels (withoutRoot domain) level offset ∧
    ∃ entry ∈ tables level, entry.octets = ((withoutRoot domain).drop offset).map tolower

theorem StartsLabels.unique {name : List Octet} {level i j : Nat} (hi : StartsLabels name level i)
    (hj : StartsLabels name level j) : i = j := by
  have hle : ∀ i j, StartsLabels name level i → StartsLabels name level j → ¬ i < j := by
    intro i j hi hj hlt
    have hdot := hj.start.resolve_left (by omega)
    obtain ⟨hlength, hget⟩ := List.getElem?_eq_some_iff.mp hdot
    have hsplit : name.drop i = (name.drop i).take (j - 1 - i) ++ ch '.' :: name.drop j := by
      have htail : name.drop (j - 1) = ch '.' :: name.drop j := by
        rw [List.drop_eq_getElem_cons hlength, hget, Nat.sub_add_cancel (by omega)]
      rw [← htail]
      have hdrop : name.drop (j - 1) = (name.drop i).drop (j - 1 - i) := by
        rw [List.drop_drop]
        congr 1
        omega
      rw [hdrop, List.take_append_drop]
    have hcount := hi.labels
    rw [hsplit, List.count_append, List.count_cons_self, ← hj.labels] at hcount
    omega
  rcases Nat.lt_trichotomy i j with h | h | h
  · exact absurd h (hle i j hi hj)
  · exact h
  · exact absurd h (hle j i hj hi)

/-! ### How the labels are found -/

theorem strlrcspn_dot (string : List Octet) {n : Nat} (hn : n ≤ string.length) :
    (strlrcspn string [ch '.'] n = 0 ∨ string[strlrcspn string [ch '.'] n - 1]? = some (ch '.')) ∧
      ch '.' ∉ (string.take n).drop (strlrcspn string [ch '.'] n) := by
  induction n with
  | zero => exact ⟨.inl rfl, by simp⟩
  | succ n ih =>
      have hget : string[n]? = some string[n] := List.getElem?_eq_getElem (by omega)
      have hgetD : string.getD n 0 = string[n] := List.getD_eq_getElem _ _ (by omega)
      rw [strlrcspn, hgetD]
      split
      · next hdot =>
          rw [List.mem_singleton] at hdot
          refine ⟨.inr ?_, ?_⟩
          · rw [Nat.add_sub_cancel, hget, hdot]
          · rw [List.drop_eq_nil_of_le (by simp)]
            exact List.not_mem_nil
      · next hdot =>
          rw [List.mem_singleton] at hdot
          obtain ⟨hstart, hnone⟩ := ih (by omega)
          refine ⟨hstart, ?_⟩
          have hle := strlrcspn_le string [ch '.'] n
          rw [List.take_add_one, hget, Option.toList_some, List.drop_append_of_le_length (by simp; omega),
            List.mem_append, not_or]
          exact ⟨hnone, fun h => hdot (List.mem_singleton.mp h).symm⟩

theorem tldOffset_append (name rest : List Octet) (level : Nat) {lastdot : Nat}
    (h : lastdot ≤ name.length) : tldOffset (name ++ rest) level lastdot = tldOffset name level lastdot := by
  induction level generalizing lastdot with
  | zero => rfl
  | succ level ih =>
      have hle := strlrcspn_le name [ch '.'] (lastdot - 1)
      rw [tldOffset, tldOffset, strlrcspn_append _ _ _ (by omega), ih (by omega)]

theorem tldOffset_zero (name : List Octet) (level : Nat) : tldOffset name level 0 = 0 := by
  induction level with
  | zero => rfl
  | succ level ih => exact ih

theorem tldOffset_le (name : List Octet) (level lastdot : Nat) :
    tldOffset name level lastdot ≤ lastdot := by
  induction level generalizing lastdot with
  | zero => exact Nat.le_refl _
  | succ level ih =>
      have hle := strlrcspn_le name [ch '.'] (lastdot - 1)
      have hih := ih (strlrcspn name [ch '.'] (lastdot - 1))
      rw [tldOffset]
      omega

theorem startsLabels_one {name : List Octet} (hroot : name.getLast? ≠ some (ch '.')) :
    StartsLabels name 1 (strlrcspn name [ch '.'] (name.length - 1)) := by
  have hle := strlrcspn_le name [ch '.'] (name.length - 1)
  obtain ⟨hstart, hnone⟩ := strlrcspn_dot name (Nat.sub_le name.length 1)
  refine ⟨hle.trans (Nat.sub_le _ _), hstart, ?_⟩
  rw [← List.dropLast_eq_take] at hnone
  have hcount : (name.drop (strlrcspn name [ch '.'] (name.length - 1))).count (ch '.') = 0 := by
    rw [List.count_eq_zero]
    intro hmem
    rcases List.eq_nil_or_concat' name with rfl | ⟨front, c, rfl⟩
    · exact absurd hmem (by simp)
    · rw [List.length_append, List.length_singleton, Nat.add_sub_cancel] at hmem hnone hle
      rw [List.drop_append_of_le_length hle, List.mem_append] at hmem
      rw [List.dropLast_concat] at hnone
      rw [List.getLast?_concat] at hroot
      rcases hmem with hmem | hmem
      · exact hnone hmem
      · exact hroot (congrArg some (List.mem_singleton.mp hmem).symm)
  rw [hcount]

theorem StartsLabels.next {name : List Octet} {level offset : Nat} (h : StartsLabels name level offset)
    (hpos : 0 < offset) :
    StartsLabels name (level + 1) (strlrcspn name [ch '.'] (offset - 1)) := by
  have hle := strlrcspn_le name [ch '.'] (offset - 1)
  have hlength := h.le
  obtain ⟨hstart, hnone⟩ := strlrcspn_dot name (n := offset - 1) (by omega)
  obtain ⟨hlt, hget⟩ := List.getElem?_eq_some_iff.mp (h.start.resolve_left (by omega))
  refine ⟨by omega, hstart, ?_⟩
  have hsplit : name.drop (strlrcspn name [ch '.'] (offset - 1)) =
      (name.take (offset - 1)).drop (strlrcspn name [ch '.'] (offset - 1)) ++
        ch '.' :: name.drop offset := by
    have htail : ch '.' :: name.drop offset = name.drop (offset - 1) := by
      rw [List.drop_eq_getElem_cons hlt, hget, Nat.sub_add_cancel (by omega)]
    rw [htail, ← List.drop_append_of_le_length (by rw [List.length_take]; omega),
      List.take_append_drop]
  rw [hsplit, List.count_append, List.count_eq_zero.mpr hnone, List.count_cons_self, ← h.labels]
  omega

theorem StartsLabels.tldOffset {name : List Octet} {level offset : Nat}
    (h : StartsLabels name level offset) (more : Nat) :
    StartsLabels name (level + more) (tldOffset name more offset) ∨
      (name.count (ch '.') + 1 < level + more ∧ tldOffset name more offset = 0) := by
  induction more generalizing level offset with
  | zero => exact .inl h
  | succ more ih =>
      rcases Nat.eq_zero_or_pos offset with rfl | hpos
      · refine .inr ⟨?_, tldOffset_zero name (more + 1)⟩
        have hlabels := h.labels
        rw [List.drop_zero] at hlabels
        omega
      · have hnext := ih (h.next hpos)
        rw [show level + (more + 1) = level + 1 + more by omega]
        exact hnext

theorem tldOffset_startsLabels {name : List Octet} (hroot : name.getLast? ≠ some (ch '.')) {level : Nat}
    (hlevel : 1 ≤ level) : StartsLabels name level (tldOffset name level name.length) ∨
      (name.count (ch '.') + 1 < level ∧ tldOffset name level name.length = 0) := by
  obtain ⟨more, rfl⟩ : ∃ more, level = more + 1 := ⟨level - 1, by omega⟩
  have hmore := (startsLabels_one hroot).tldOffset more
  rwa [Nat.add_comm 1 more] at hmore

theorem not_startsLabels {name : List Octet} {level offset : Nat}
    (h : name.count (ch '.') + 1 < level) : ¬ StartsLabels name level offset := by
  intro hstarts
  have hle := (List.drop_sublist offset name).count_le (ch '.')
  have hlabels := hstarts.labels
  omega

/-! ### The entries that are taken -/

/-- The entry is the text, or it goes on behind it with a dot. -/
def TakenFor (entry : TldName) (text : List Octet) : Prop :=
  entry.octets = text.map tolower ∨ text.map tolower ++ [ch '.'] <+: entry.octets

theorem tldTest_iff {rest text : List Octet} (hnul : 0 ∉ text) (hrest : text <+: rest) (entry : TldName) :
    (strncasecmp rest entry.octets text.length = 0 ∧
      (peek (entry.octets.drop text.length) = 0 ∨ peek (entry.octets.drop text.length) = ch '.')) ↔
      TakenFor entry text := by
  have htake : rest.take text.length = text := List.prefix_iff_eq_take.mp hrest |>.symm
  have hentry : 0 ∉ entry.octets.take text.length := fun h => entry.noNul (List.mem_of_mem_take h)
  have hlower : (entry.octets.take text.length).map tolower = entry.octets.take text.length := by
    rw [List.map_take, entry.lower]
  rw [strncasecmp, htake, strcasecmp_eq_zero_iff hentry (.inl hnul), hlower]
  have hlength : (text.map tolower).length = text.length := List.length_map ..
  constructor
  · rintro ⟨heq, hnext⟩
    have hsplit := List.take_append_drop text.length entry.octets
    rw [← heq] at hsplit
    cases hdrop : entry.octets.drop text.length with
    | nil =>
        rw [hdrop, List.append_nil] at hsplit
        exact .inl hsplit.symm
    | cons c more =>
        rw [hdrop] at hnext hsplit
        rcases hnext with rfl | rfl
        · refine absurd ?_ entry.noNul
          rw [← hsplit]
          simp
        · refine .inr ⟨more, ?_⟩
          rw [← hsplit, List.append_assoc]
          rfl
  · rintro (heq | ⟨more, hmore⟩)
    · rw [heq, ← hlength, List.take_length, List.drop_length]
      exact ⟨rfl, .inl rfl⟩
    · rw [← hmore, List.append_assoc, ← hlength, List.take_left, List.drop_left]
      exact ⟨rfl, .inr rfl⟩

theorem TldName.not_dot (entry : TldName) (before after : List Octet) :
    ch '.' :: entry.octets ++ [ch '.'] ≠ before ++ [ch '.', ch '.'] ++ after := fun h =>
  entry.labels ⟨before, after, h.symm⟩

theorem not_takenFor_of_dot {text : List Octet} (h : text = [] ∨ text.getLast? = some (ch '.'))
    (entry : TldName) : ¬ TakenFor entry text := by
  have hdot : ch '.' :: text.map tolower = (ch '.' :: text).dropLast.map tolower ++ [ch '.'] := by
    rcases List.eq_nil_or_concat' text with rfl | ⟨front, c, rfl⟩
    · rfl
    · obtain hnil | hlast := h
      · simp at hnil
      · rw [List.getLast?_concat] at hlast
        obtain rfl := Option.some.inj hlast
        rw [← List.cons_append, List.dropLast_concat, List.map_append, ← List.cons_append]
        rfl
  rintro (heq | ⟨more, hmore⟩)
  · refine entry.not_dot ((ch '.' :: text).dropLast.map tolower) [] ?_
    rw [heq, hdot]
    simp
  · refine entry.not_dot ((ch '.' :: text).dropLast.map tolower) (more ++ [ch '.']) ?_
    rw [← hmore, ← List.cons_append, ← List.cons_append, hdot]
    simp

/-! ### Where the look-ups are exact -/

/-- What is asked of `indexValidNthTLD`: it gives the offset of the last labels of the domain, as many as
asked for, if they are an entry of the table, and -1 if they are not. -/
def NthExact (tables : TldTables) (domain : List Octet) (level : Nat) : Prop :=
  (∀ offset : Nat, indexValidNthTLD tables.nth domain level = offset ↔
      IsTld tables domain level offset) ∧
    ((∀ offset, ¬ IsTld tables domain level offset) → indexValidNthTLD tables.nth domain level = -1)

/-- What is asked of `indexValidTLD`: the offset for the highest level, or -1 if there is none. -/
def HighestExact (tables : TldTables) (domain : List Octet) : Prop :=
  (∀ offset : Nat, indexValidTLD tables.nth domain = offset ↔
      ∃ level, 1 ≤ level ∧ level ≤ MAX_TLD_LEVELS ∧ IsTld tables domain level offset ∧
        ∀ higher, level < higher → higher ≤ MAX_TLD_LEVELS → ∀ j, ¬ IsTld tables domain higher j) ∧
    ((∀ level, 1 ≤ level → level ≤ MAX_TLD_LEVELS → ∀ offset, ¬ IsTld tables domain level offset) →
      indexValidTLD tables.nth domain = -1)

/-- Where a level goes right. If the domain has as many labels, an entry goes on behind them with a dot
only if they are an entry themselves. If it has fewer labels, no entry is the domain, or goes on behind
it with a dot. -/
def TldFine (tables : TldTables) (domain : List Octet) (level : Nat) : Prop :=
  (∀ offset, StartsLabels (withoutRoot domain) level offset →
      (∃ entry ∈ tables level,
        ((withoutRoot domain).drop offset).map tolower ++ [ch '.'] <+: entry.octets) →
      ∃ entry ∈ tables level, entry.octets = ((withoutRoot domain).drop offset).map tolower) ∧
    ((withoutRoot domain).count (ch '.') + 1 < level →
      ∀ entry ∈ tables level, ¬ TakenFor entry (withoutRoot domain))

theorem indexValidNthTLD_eq (tables : TldTables) (domain : CString) {level : Nat} (hpos : 1 ≤ level)
    (hmax : level ≤ MAX_TLD_LEVELS) :
    let name := withoutRoot domain.octets
    let offset := tldOffset name level name.length
    ((∃ entry ∈ tables level, TakenFor entry (name.drop offset)) ∧
        indexValidNthTLD tables.nth domain.octets level = offset) ∨
      ((¬ ∃ entry ∈ tables level, TakenFor entry (name.drop offset)) ∧
        indexValidNthTLD tables.nth domain.octets level = -1) := by
  intro name offset
  by_cases hempty : domain.octets = []
  · have hname : name = [] := by simp [name, withoutRoot, hempty]
    refine .inr ⟨?_, by rw [indexValidNthTLD, if_pos (.inl hempty)]⟩
    rintro ⟨entry, -, htaken⟩
    rw [hname, List.drop_nil] at htaken
    exact not_takenFor_of_dot (.inl rfl) entry htaken
  · obtain ⟨root, hroot, hlength⟩ : ∃ root, domain.octets = name ++ root ∧
        domain.octets.length - (if domain.octets.getLast? = some (ch '.') then 1 else 0)
          = name.length := by
      by_cases hlast : domain.octets.getLast? = some (ch '.')
      · obtain ⟨front, hfront⟩ := List.getLast?_eq_some_iff.mp hlast
        have hname : name = front := by
          simp only [name, withoutRoot, if_pos hlast]
          rw [hfront, List.dropLast_concat]
        refine ⟨[ch '.'], by rw [hname, hfront], ?_⟩
        rw [if_pos hlast, hfront, hname, List.length_append]
        rfl
      · have hname : name = domain.octets := if_neg hlast
        exact ⟨[], by rw [hname, List.append_nil], by rw [if_neg hlast, hname]; rfl⟩
    have hoffset : tldOffset domain.octets level name.length = offset := by
      rw [hroot]
      exact tldOffset_append name root level (Nat.le_refl _)
    have hle : offset ≤ name.length := tldOffset_le name level name.length
    have htext : name.drop offset <+: domain.octets.drop offset := by
      rw [hroot, List.drop_append_of_le_length hle]
      exact List.prefix_append _ _
    have hnul : 0 ∉ name.drop offset := fun h => domain.noNul (by
      rw [hroot]
      exact List.mem_append_left _ (List.mem_of_mem_drop h))
    have hany : ((tables.nth level).any fun tld =>
        strncasecmp (domain.octets.drop offset) tld (name.length - offset) = 0 &&
          (peek (tld.drop (name.length - offset)) = 0 ||
            peek (tld.drop (name.length - offset)) = ch '.')) = true ↔
        ∃ entry ∈ tables level, TakenFor entry (name.drop offset) := by
      rw [← List.length_drop]
      simp only [TldTables.nth, List.any_map, List.any_eq_true, Function.comp_apply, Bool.and_eq_true,
        Bool.or_eq_true, decide_eq_true_eq, tldTest_iff hnul htext]
    have hnot : ¬ (domain.octets = [] ∨ level < 1 ∨ MAX_TLD_LEVELS < level) := by
      rintro (h | h | h)
      · exact hempty h
      · omega
      · exact absurd hmax (Nat.not_le_of_lt h)
    rw [indexValidNthTLD, if_neg hnot]
    dsimp only
    rw [hlength, hoffset, ← hany]
    by_cases htaken : ((tables.nth level).any fun tld =>
        strncasecmp (domain.octets.drop offset) tld (name.length - offset) = 0 &&
          (peek (tld.drop (name.length - offset)) = 0 ||
            peek (tld.drop (name.length - offset)) = ch '.')) = true
    · exact .inl ⟨htaken, if_pos htaken⟩
    · exact .inr ⟨htaken, if_neg htaken⟩

theorem not_takenFor_drop {name : List Octet} (h : name.getLast? = some (ch '.')) (offset : Nat)
    (entry : TldName) : ¬ TakenFor entry (name.drop offset) := by
  refine not_takenFor_of_dot ?_ entry
  rcases Nat.lt_or_ge offset name.length with hlt | hge
  · exact .inr (by rw [List.getLast?_drop, if_neg (by omega), h])
  · exact .inl (List.drop_eq_nil_of_le hge)

theorem nthExact_iff (tables : TldTables) (domain : CString) {level : Nat} (hpos : 1 ≤ level)
    (hmax : level ≤ MAX_TLD_LEVELS) :
    NthExact tables domain.octets level ↔ TldFine tables domain.octets level := by
  have hresult := indexValidNthTLD_eq tables domain hpos hmax
  dsimp only at hresult
  have hneg : ∀ offset : Nat, (-1 : Int) ≠ offset := fun offset => by omega
  by_cases hlast : (withoutRoot domain.octets).getLast? = some (ch '.')
  · have hnone := not_takenFor_drop hlast
    obtain ⟨⟨entry, -, htaken⟩, -⟩ | ⟨-, hindex⟩ := hresult
    · exact absurd htaken (hnone _ entry)
    · refine iff_of_true ⟨fun offset => ?_, fun _ => hindex⟩ ⟨?_, ?_⟩
      · rw [hindex]
        refine iff_of_false (hneg offset) ?_
        rintro ⟨-, entry, -, heq⟩
        exact hnone offset entry (.inl heq)
      · rintro offset - ⟨entry, -, hbefore⟩
        exact absurd (.inr hbefore) (hnone offset entry)
      · intro _ entry _
        have h := hnone 0 entry
        rwa [List.drop_zero] at h
  · obtain hstarts | ⟨hfewer, hzero⟩ := tldOffset_startsLabels hlast hpos
    · generalize tldOffset (withoutRoot domain.octets) level (withoutRoot domain.octets).length = start
        at hstarts hresult
      have hTld : ∀ offset, IsTld tables domain.octets level offset ↔ offset = start ∧
          ∃ entry ∈ tables level,
            entry.octets = ((withoutRoot domain.octets).drop start).map tolower := by
        intro offset
        constructor
        · rintro ⟨hoffset, hentry⟩
          obtain rfl := hoffset.unique hstarts
          exact ⟨rfl, hentry⟩
        · rintro ⟨rfl, hentry⟩
          exact ⟨hstarts, hentry⟩
      have hfine : TldFine tables domain.octets level ↔
          ((∃ entry ∈ tables level, TakenFor entry ((withoutRoot domain.octets).drop start)) →
            ∃ entry ∈ tables level,
              entry.octets = ((withoutRoot domain.octets).drop start).map tolower) := by
        constructor
        · rintro ⟨hextends, -⟩ ⟨entry, hentry, heq | hbefore⟩
          · exact ⟨entry, hentry, heq⟩
          · exact hextends _ hstarts ⟨entry, hentry, hbefore⟩
        · refine fun h => ⟨?_, fun hfewer => absurd hstarts (not_startsLabels hfewer)⟩
          rintro offset hoffset ⟨entry, hentry, hbefore⟩
          obtain rfl := hoffset.unique hstarts
          exact h ⟨entry, hentry, .inr hbefore⟩
      rw [hfine]
      obtain ⟨htaken, hindex⟩ | ⟨hnone, hindex⟩ := hresult
      · constructor
        · exact fun h _ => ((hTld _).mp ((h.1 _).mp hindex)).2
        · intro h
          have hentry := h htaken
          refine ⟨fun offset => ?_, fun hno => absurd ((hTld _).mpr ⟨rfl, hentry⟩) (hno _)⟩
          rw [hindex, hTld, Int.natCast_inj]
          exact ⟨fun heq => ⟨heq.symm, hentry⟩, fun heq => heq.1.symm⟩
      · refine iff_of_true ⟨fun offset => ?_, fun _ => hindex⟩ fun h => absurd h hnone
        rw [hindex]
        refine iff_of_false (hneg offset) fun h => hnone ?_
        obtain ⟨-, entry, hentry, heq⟩ := (hTld offset).mp h
        exact ⟨entry, hentry, .inl heq⟩
    · rw [hzero, List.drop_zero] at hresult
      have hnotTld : ∀ offset, ¬ IsTld tables domain.octets level offset := fun offset h =>
        not_startsLabels hfewer h.1
      obtain ⟨⟨entry, hentry, htaken⟩, hindex⟩ | ⟨hnone, hindex⟩ := hresult
      · refine iff_of_false (fun h => ?_) (fun h => h.2 hfewer entry hentry htaken)
        exact hnotTld 0 ((h.1 0).mp hindex)
      · refine iff_of_true ⟨fun offset => ?_, fun _ => hindex⟩ ⟨?_, ?_⟩
        · rw [hindex]
          exact iff_of_false (hneg offset) (hnotTld offset)
        · exact fun offset hstarts => absurd hstarts (not_startsLabels hfewer)
        · exact fun _ entry hentry htaken => hnone ⟨entry, hentry, htaken⟩

theorem highestExact {tables : TldTables} {domain : List Octet}
    (h : ∀ level, 1 ≤ level → level ≤ MAX_TLD_LEVELS → NthExact tables domain level) :
    HighestExact tables domain := by
  have hsearch : indexValidTLD tables.nth domain = tldSearch tables.nth domain MAX_TLD_LEVELS := by
    by_cases hempty : domain = []
    · simp [indexValidTLD, tldSearch, indexValidNthTLD, hempty]
    · rw [indexValidTLD, if_neg hempty]
  have hlevels : ∀ n ≤ MAX_TLD_LEVELS,
      (∀ offset : Nat, tldSearch tables.nth domain n = offset ↔
        ∃ level, 1 ≤ level ∧ level ≤ n ∧ IsTld tables domain level offset ∧
          ∀ higher, level < higher → higher ≤ n → ∀ j, ¬ IsTld tables domain higher j) ∧
      ((∀ level, 1 ≤ level → level ≤ n → ∀ offset, ¬ IsTld tables domain level offset) →
        tldSearch tables.nth domain n = -1) := by
    intro n
    induction n with
    | zero =>
        refine fun _ => ⟨fun offset => iff_of_false (by rw [tldSearch]; omega) ?_, fun _ => rfl⟩
        rintro ⟨level, hpos, hle, -⟩
        omega
    | succ n ih =>
        intro hn
        obtain ⟨hbelow, hnone⟩ := ih (by omega)
        obtain ⟨hexact, -⟩ := h (n + 1) (by omega) hn
        rw [tldSearch]
        by_cases hfound : 0 ≤ indexValidNthTLD tables.nth domain (n + 1)
        · obtain ⟨found, hindex⟩ := Int.eq_ofNat_of_zero_le hfound
          have htld := (hexact found).mp hindex
          rw [if_pos hfound]
          refine ⟨fun offset => (hexact offset).trans ⟨fun htld => ?_, ?_⟩, fun hno => ?_⟩
          · exact ⟨n + 1, by omega, Nat.le_refl _, htld, fun higher hlt hle => by omega⟩
          · rintro ⟨level, hpos, hle, hlevel, hhigher⟩
            rcases Nat.lt_or_ge level (n + 1) with hlt | hge
            · exact absurd htld (hhigher (n + 1) hlt (Nat.le_refl _) found)
            · rwa [show n + 1 = level by omega]
          · exact absurd htld (hno (n + 1) (by omega) (Nat.le_refl _) found)
        · have hnot : ∀ j, ¬ IsTld tables domain (n + 1) j := fun j htld => by
            have hindex := (hexact j).mpr htld
            omega
          rw [if_neg hfound]
          refine ⟨fun offset => (hbelow offset).trans (exists_congr fun level => ?_), fun hno => ?_⟩
          · constructor
            · rintro ⟨hpos, hle, hlevel, hhigher⟩
              refine ⟨hpos, by omega, hlevel, fun higher hlt hle j => ?_⟩
              rcases Nat.lt_or_ge higher (n + 1) with hlow | hge
              · exact hhigher higher hlt (by omega) j
              · rw [show higher = n + 1 by omega]
                exact hnot j
            · rintro ⟨hpos, hle, hlevel, hhigher⟩
              refine ⟨hpos, ?_, hlevel, fun higher hlt hle => hhigher higher hlt (by omega)⟩
              rcases Nat.lt_or_ge level (n + 1) with hlt | hge
              · omega
              · rw [show level = n + 1 by omega] at hlevel
                exact absurd hlevel (hnot offset)
          · exact hnone fun level hpos hle => hno level hpos (by omega)
  have hmax := hlevels MAX_TLD_LEVELS (Nat.le_refl _)
  rw [← hsearch] at hmax
  exact hmax

/-- The look-ups of a domain are exact, in each level and for the highest one, if and only if each level
goes right. -/
theorem indexValidTLD_iff (tables : TldTables) (domain : CString) :
    ((∀ level, 1 ≤ level → level ≤ MAX_TLD_LEVELS → NthExact tables domain.octets level) ∧
        HighestExact tables domain.octets) ↔
      ∀ level, 1 ≤ level → level ≤ MAX_TLD_LEVELS → TldFine tables domain.octets level := by
  constructor
  · rintro ⟨hexact, -⟩ level hpos hle
    exact (nthExact_iff tables domain hpos hle).mp (hexact level hpos hle)
  · intro hfine
    have hexact : ∀ level, 1 ≤ level → level ≤ MAX_TLD_LEVELS →
        NthExact tables domain.octets level := fun level hpos hle =>
      (nthExact_iff tables domain hpos hle).mpr (hfine level hpos hle)
    exact ⟨hexact, highestExact hexact⟩

/-- A table of the second level whose only entry is `uk.com`. -/
def ukCom : TldTables := fun level =>
  if level = 2 then [⟨ascii "uk.com", by decide, by decide, by decide⟩] else []

/-- The domain `uk` has a single label, but it is found in the second level. -/
theorem indexValidNthTLD_uk : indexValidNthTLD ukCom.nth (ascii "uk") 2 = 0 ∧
    ∀ offset, ¬ IsTld ukCom (ascii "uk") 2 offset := by
  refine ⟨by decide, ?_⟩
  rintro offset ⟨hstarts, -⟩
  exact not_startsLabels (by decide) hstarts

end Snert
