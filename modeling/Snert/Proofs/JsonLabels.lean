/-
Module: Snert.Proofs.JsonLabels
Purpose: `jspr_find_labels` against what labels mean in a JSON text. As documented, a label that
  begins with a digit is an index, of an element or of a member, and any other label is a name.
  Where no name is mistaken for a label and no token runs out of the array or object that it is in,
  what is found is the value that the labels select, with its exact span, and NULL where there is
  none.
Trusted boundary: human-reviewed spec (`followLabels`, `LabelsClear`)
Main exports: jsprFindLabels_clear
-/
import Snert.CModel.Numeral
import Snert.Proofs.JsonTokens

namespace Snert

open CModel Lists

/-! ### What labels mean -/

/-- The index that a label is: the number that it begins with. -/
def labelIndex (label : List Octet) : Option Nat :=
  if isDigit 10 (peek label) then some (digitsValue 10 (label.takeWhile (isDigit 10))) else none

/-- The value that a label selects in a value, and the text behind it. -/
def selectLabel (label : List Octet) : Json → List Octet → Option (Json × List Octet)
  | .array elements, rest => (labelIndex label).bind fun n => elements.nth n (ch ']' :: rest)
  | .object members, rest =>
      match labelIndex label with
      | some n => members.nth n (ch '\x7d' :: rest)
      | none => members.named label (ch '\x7d' :: rest)
  | _, _ => none

/-- The value that labels lead to, one after another. -/
def followLabels : List (List Octet) → Json → List Octet → Option (Json × List Octet)
  | [], v, rest => some (v, rest)
  | label :: labels, v, rest =>
      (selectLabel label v rest).bind fun found => followLabels labels found.1 found.2

/-- A value as it is passed back: a string without its quotes, and no empty string. -/
def valueFound (found : Json × List Octet) : Option (List Octet × Int) :=
  match found.1 with
  | .string s => if s.body = [] then none else some (s.body ++ ch '"' :: found.2, s.body.length)
  | v => some (v.text ++ found.2, v.text.length)

/-! ### Texts that are read as they are meant -/

/-- The names of an object. -/
def jsonNames : Json → List JsonString
  | .object members => members.names
  | _ => []

/-- The token that skips a last value reaches the closing bracket, or the end of the text. -/
def Closes (closing : Octet) (s : List Octet) : Prop :=
  skipWs (jsprToken s commaWs).2 = [] ∨ peek (skipWs (jsprToken s commaWs).2) = closing

/-- All that a value holds can be skipped. -/
def Contained : Json → List Octet → Prop
  | .array elements, rest => Closes (ch ']') (elements.final ++ ch ']' :: rest)
  | .object members, rest => Closes (ch '\x7d') (members.final ++ ch '\x7d' :: rest)
  | _, _ => True

/-- A label selects what it means: its index is an `int`, no name that it is compared with before is
only the beginning of it, the token of an element found does not stop in front of a colon, and
nothing is looked for behind the value where there is no such member or element. -/
structure LabelClear (label : List Octet) (v : Json) (rest : List Octet) : Prop where
  index : ∀ n, labelIndex label = some n → n < 2 ^ 31
  names : labelIndex label = none → ∀ name ∈ (jsonNames v).takeWhile (·.body ≠ label),
    ¬ name.body <+: label ∧ ¬ name.text <+: label
  element : ∀ elements, v = .array elements → ∀ w r, selectLabel label v rest = some (w, r) →
    peek (skipWs (jsprToken (w.text ++ r) commaWs).2) ≠ ch ':'
  contained : selectLabel label v rest = none → Contained v rest

/-- All labels do, and no closing bracket directly follows the array or object that they lead to. -/
def LabelsClear : List (List Octet) → Json → List Octet → Prop
  | [], v, rest => v.isCompound = true → ∀ c ∈ rest.head?, c ∉ ascii "]\x7d"
  | label :: labels, v, rest =>
      LabelClear label v rest ∧
        ∀ w r, selectLabel label v rest = some (w, r) → LabelsClear labels w r

/-! ### The next member or element -/

/-- Where the loops go on behind a value. -/
def nextItem (s : List Octet) : List Octet :=
  let value := skipWs (jsprToken s commaWs).2
  skipWs (if peek value = ch ',' then value.tail else value)

theorem nextItem_more (v : Json) (after : Blank) (r : List Octet) :
    nextItem (v.text ++ (after.text ++ ch ',' :: r)) = skipWs r := by
  obtain ⟨b, hb, htoken⟩ := jsprToken_value v
  obtain ⟨x, t, htext, hx⟩ := blank_append_cons after (ch ',') r
  have hmem : x ∈ commaWs := by
    rcases hx with hx | rfl
    · exact List.mem_cons_of_mem _ hx
    · exact List.mem_cons_self
  have hstop : skipWs (jsprToken (v.text ++ (after.text ++ ch ',' :: r)) commaWs).2 =
      ch ',' :: r := by
    rw [htoken, htext]
    dsimp only
    rw [jsprScan_commaWs hb hmem, ← htext, skipWs_blank, skipWs_cons (by decide)]
  rw [nextItem, hstop, peek_cons, if_pos rfl, List.tail_cons]

theorem nextItem_final {closing : Octet} {s : List Octet} (h : Closes closing s)
    (hne : closing ≠ ch ',') : nextItem s = [] ∨ peek (nextItem s) = closing := by
  have hcomma : peek (skipWs (jsprToken s commaWs).2) ≠ ch ',' := by
    rcases h with h | h
    · rw [h]
      decide
    · rw [h]
      exact hne
  rw [nextItem, if_neg hcomma, skipWs_skipWs]
  exact h

/-! ### Arrays -/

theorem elements_head : ∀ (es : Elements) (r : List Octet),
    ∃ c t, skipWs (es.text ++ r) = c :: t ∧ c ∉ objectWs
  | .last before value after, r => by
      obtain ⟨c, t, htext, hc⟩ := value_head value
      refine ⟨c, t ++ (after.text ++ r), ?_, hc⟩
      rw [Elements.text, List.append_assoc, List.append_assoc, skipWs_blank, skipWs_value, htext,
        List.cons_append]
  | .more before value after elements, r => by
      obtain ⟨c, t, htext, hc⟩ := value_head value
      refine ⟨c, t ++ (after.text ++ ch ',' :: (elements.text ++ r)), ?_, hc⟩
      rw [Elements.text, List.append_assoc, List.append_assoc, List.append_assoc, skipWs_blank,
        skipWs_value, htext, List.cons_append, List.cons_append]

theorem jsprArray_skipWs {js : List Octet} (h : skipWs js ≠ []) (rounds : Nat) (index : Int) :
    jsprArray rounds index (skipWs js) = jsprArray rounds index js := by
  have hjs : js ≠ [] := by
    rintro rfl
    exact h rfl
  cases rounds with
  | zero => rfl
  | succ rounds => rw [jsprArray, jsprArray, if_neg h, if_neg hjs, jsprToken_skipWs]

theorem jsprArray_round (rounds : Nat) (index : Int) (before : Blank) (v : Json)
    (tail : List Octet) :
    jsprArray (rounds + 1) index (before.text ++ (v.text ++ tail)) =
      if index - 1 < 0 then
        some (v.text ++ tail, skipWs (jsprToken (v.text ++ tail) commaWs).2)
      else if peek (nextItem (v.text ++ tail)) = ch ']' then none
      else jsprArray rounds (index - 1) (nextItem (v.text ++ tail)) := by
  obtain ⟨c, t, htext, hc⟩ := value_head v
  have hne : before.text ++ (v.text ++ tail) ≠ [] := by
    rw [htext]
    simp
  have htoken : jsprToken (before.text ++ (v.text ++ tail)) commaWs =
      jsprToken (v.text ++ tail) commaWs := by
    rw [← jsprToken_skipWs, skipWs_blank, jsprToken_skipWs]
  have hstart : (jsprToken (v.text ++ tail) commaWs).1 = v.text ++ tail := skipWs_value v tail
  have hclose : peek (v.text ++ tail) ≠ ch ']' := by
    rw [htext, List.cons_append, peek_cons]
    exact fun h => hc (h ▸ by decide)
  rw [jsprArray, if_neg hne]
  dsimp only
  rw [htoken, hstart, if_neg hclose]
  rfl

theorem jsprArray_nth : ∀ (es : Elements) (n rounds : Nat) (rest : List Octet),
    es.text.length < rounds →
    (es.nth n (ch ']' :: rest) = none → Closes (ch ']') (es.final ++ ch ']' :: rest)) →
      jsprArray rounds n (es.text ++ ch ']' :: rest) =
        (es.nth n (ch ']' :: rest)).map fun found =>
          (found.1.text ++ found.2, skipWs (jsprToken (found.1.text ++ found.2) commaWs).2)
  | _, _, 0, _, hlt, _ => absurd hlt (Nat.not_lt_zero _)
  | .last before value after, 0, rounds + 1, rest, _, _ => by
      rw [Elements.text, List.append_assoc, List.append_assoc, jsprArray_round, if_pos (by decide)]
      rfl
  | .last before value after, n + 1, rounds + 1, rest, _, hcloses => by
      have hindex : ¬ ((n + 1 : Nat) : Int) - 1 < 0 := by omega
      have hnext := nextItem_final (hcloses rfl) (by decide)
      rw [Elements.final, List.append_assoc] at hnext
      rw [Elements.text, List.append_assoc, List.append_assoc, jsprArray_round, if_neg hindex,
        Elements.nth, Option.map_none]
      rcases hnext with hnext | hnext
      · rw [hnext, if_neg (by decide)]
        cases rounds <;> rfl
      · rw [if_pos hnext]
  | .more before value after elements, 0, rounds + 1, rest, _, _ => by
      rw [Elements.text, List.append_assoc, List.append_assoc, List.append_assoc, jsprArray_round,
        if_pos (by decide)]
      rfl
  | .more before value after elements, n + 1, rounds + 1, rest, hlt, hcloses => by
      have hindex : ¬ ((n + 1 : Nat) : Int) - 1 < 0 := by omega
      have hpred : ((n + 1 : Nat) : Int) - 1 = n := by omega
      obtain ⟨c, t, hhead, hc⟩ := elements_head elements (ch ']' :: rest)
      have hclose : peek (skipWs (elements.text ++ ch ']' :: rest)) ≠ ch ']' := by
        rw [hhead, peek_cons]
        exact fun h => hc (h ▸ by decide)
      have hlen : elements.text.length < rounds := by
        rw [Elements.text] at hlt
        simp only [List.length_append, List.length_cons] at hlt
        omega
      rw [Elements.text, List.append_assoc, List.append_assoc, List.append_assoc, List.cons_append,
        jsprArray_round, if_neg hindex, nextItem_more, if_neg hclose, hpred,
        jsprArray_skipWs (by simp [hhead]), Elements.nth]
      exact jsprArray_nth elements n rounds rest hlen hcloses

/-! ### Objects -/

theorem members_head : ∀ (ms : Members) (r : List Octet),
    ∃ t, skipWs (ms.text ++ r) = ch '"' :: t
  | .last before name afterName afterColon value after, r => by
      simp only [Members.text, List.append_assoc, skipWs_blank, skipWs_string]
      exact ⟨_, rfl⟩
  | .more before name afterName afterColon value after members, r => by
      simp only [Members.text, List.append_assoc, skipWs_blank, skipWs_string]
      exact ⟨_, rfl⟩

theorem jsprObject_skipWs {js : List Octet} (h : skipWs js ≠ []) (key : List Octet) (rounds : Nat)
    (index : Int) : jsprObject key rounds index (skipWs js) = jsprObject key rounds index js := by
  have hjs : js ≠ [] := by
    rintro rfl
    exact h rfl
  cases rounds with
  | zero => rfl
  | succ rounds => rw [jsprObject, jsprObject, if_neg h, if_neg hjs, jsprToken_skipWs]

theorem jsprToken_key (name : JsonString) (afterName : Blank) (s : List Octet) :
    jsprToken (name.text ++ (afterName.text ++ ch ':' :: s)) keyWs =
      (name.text ++ (afterName.text ++ ch ':' :: s), afterName.text ++ ch ':' :: s) := by
  obtain ⟨x, t, htext, hx⟩ := blank_append_cons afterName (ch ':') s
  have hmem : x ∈ keyWs := by
    rcases hx with hx | rfl
    · exact List.mem_append_right _ hx
    · decide
  have hall : ∀ c ∈ ch ':' :: jsprWs, c ∉ ascii "\"'\\" ∧ c ≠ 0xff := by decide
  obtain ⟨h1, h2⟩ := hall x (by rcases hx with hx | rfl <;> simp [*])
  rw [jsprToken_name, htext, jsprScan_stop h1 h2 h2 hmem]

theorem jsprMatches_name (name : JsonString) (s key : List Octet) :
    jsprMatches (name.text ++ s) key name.text.length = true ↔
      name.text <+: key ∨ name.body <+: key := by
  have hlen : name.text.length = name.body.length + 2 := by
    rw [JsonString.text, List.length_cons, List.length_append, List.length_singleton]
  have hpeek : peek (name.text ++ s) = ch '"' := rfl
  have htail : (name.text ++ s).tail.take (name.text.length - 2) = name.body := by
    rw [hlen, Nat.add_sub_cancel, JsonString.text, List.cons_append, List.tail_cons,
      List.append_assoc, List.take_left]
  have hshort : ¬ name.text.length < 2 := by omega
  rw [jsprMatches, List.take_left, Bool.or_eq_true, Bool.and_eq_true, decide_eq_true_eq,
    decide_eq_true_eq, and_iff_right hpeek, if_neg hshort, decide_eq_true_eq, htail, hlen,
    Nat.add_sub_cancel, List.prefix_iff_eq_take, List.prefix_iff_eq_take, hlen]

/-- Is a member what the loop looks for? -/
def MemberTaken (key : List Octet) (index : Int) (name : JsonString) : Prop :=
  index < 0 ∧ (name.text <+: key ∨ name.body <+: key) ∨ index = 0

instance (key : List Octet) (index : Int) (name : JsonString) :
    Decidable (MemberTaken key index name) :=
  inferInstanceAs (Decidable (_ ∨ _))

theorem jsprObject_round (key : List Octet) (rounds : Nat) (index : Int) (before : Blank)
    (name : JsonString) (afterName afterColon : Blank) (v : Json) (tail : List Octet) :
    jsprObject key (rounds + 1) index
        (before.text ++ (name.text ++ (afterName.text ++
          ch ':' :: (afterColon.text ++ (v.text ++ tail))))) =
      if MemberTaken key index name then
        some (name.text ++ (afterName.text ++ ch ':' :: (afterColon.text ++ (v.text ++ tail))),
          ch ':' :: (afterColon.text ++ (v.text ++ tail)))
      else if peek (nextItem (v.text ++ tail)) = ch '\x7d' then none
      else jsprObject key rounds (if index < 0 then index else index - 1)
        (nextItem (v.text ++ tail)) := by
  have hne : before.text ++ (name.text ++ (afterName.text ++
      ch ':' :: (afterColon.text ++ (v.text ++ tail)))) ≠ [] := by
    simp
  have htoken := jsprToken_key name afterName (afterColon.text ++ (v.text ++ tail))
  have hlen (s : List Octet) : (name.text ++ s).length - s.length = name.text.length := by
    rw [List.length_append, Nat.add_sub_cancel]
  have hvalue : jsprToken (afterColon.text ++ (v.text ++ tail)) commaWs =
      jsprToken (v.text ++ tail) commaWs := by
    rw [← jsprToken_skipWs, skipWs_blank, jsprToken_skipWs]
  rw [jsprObject, if_neg hne, ← jsprToken_skipWs, skipWs_blank, jsprToken_skipWs]
  dsimp only
  rw [htoken]
  dsimp only
  rw [skipWs_blank, skipWs_cons (by decide), peek_cons, if_neg (not_not_intro rfl), hlen,
    List.tail_cons, hvalue]
  simp only [jsprMatches_name]
  by_cases hneg : index < 0
  · have hzero : ¬ (0 ≤ index ∧ index - 1 < 0) := fun h => by omega
    have hne0 : index ≠ 0 := by omega
    simp only [MemberTaken, hneg, hzero, hne0, true_and, or_false, if_false]
    rfl
  · have hiff : (0 ≤ index ∧ index - 1 < 0) ↔ index = 0 := by omega
    simp only [MemberTaken, hneg, hiff, false_and, false_or, if_false]
    rfl

/-- What a label found leads on to: the value behind a colon. -/
def labelValue (found : List Octet × List Octet) : List Octet :=
  if peek found.2 = ch ':' then skipWs found.2.tail else found.1

theorem labelValue_member (js : List Octet) (afterColon : Blank) (v : Json) (tail : List Octet) :
    labelValue (js, ch ':' :: (afterColon.text ++ (v.text ++ tail))) = v.text ++ tail := by
  rw [labelValue, peek_cons, if_pos rfl, List.tail_cons, skipWs_blank, skipWs_value]

section Rounds

variable {key : List Octet} {index : Int} {before afterName afterColon after : Blank}
  {name : JsonString} {value : Json}

theorem jsprObject_last_hit (h : MemberTaken key index name) (rounds : Nat) (rest : List Octet) :
    (jsprObject key (rounds + 1) index
      ((Members.last before name afterName afterColon value after).text ++ rest)).map labelValue =
        some (value.text ++ (after.text ++ rest)) := by
  simp only [Members.text, List.append_assoc, List.cons_append]
  rw [jsprObject_round, if_pos h, Option.map_some, labelValue_member]

theorem jsprObject_more_hit (h : MemberTaken key index name) (rounds : Nat) (members : Members)
    (rest : List Octet) :
    (jsprObject key (rounds + 1) index
      ((Members.more before name afterName afterColon value after members).text ++ rest)).map
        labelValue = some (value.text ++ (after.text ++ ch ',' :: (members.text ++ rest))) := by
  simp only [Members.text, List.append_assoc, List.cons_append]
  rw [jsprObject_round, if_pos h, Option.map_some, labelValue_member]

theorem jsprObject_last_miss (h : ¬ MemberTaken key index name) (rounds : Nat) {rest : List Octet}
    (hcloses : Closes (ch '\x7d') (value.text ++ (after.text ++ rest))) :
    jsprObject key (rounds + 1) index
      ((Members.last before name afterName afterColon value after).text ++ rest) = none := by
  simp only [Members.text, List.append_assoc, List.cons_append]
  rw [jsprObject_round, if_neg h]
  rcases nextItem_final hcloses (by decide) with hnext | hnext
  · rw [hnext, if_neg (by decide)]
    cases rounds <;> rfl
  · rw [if_pos hnext]

theorem jsprObject_more_miss (h : ¬ MemberTaken key index name) (rounds : Nat) (members : Members)
    (rest : List Octet) :
    jsprObject key (rounds + 1) index
      ((Members.more before name afterName afterColon value after members).text ++ rest) =
        jsprObject key rounds (if index < 0 then index else index - 1) (members.text ++ rest) := by
  obtain ⟨t, hhead⟩ := members_head members rest
  have hclose : peek (skipWs (members.text ++ rest)) ≠ ch '\x7d' := by
    rw [hhead, peek_cons]
    decide
  simp only [Members.text, List.append_assoc, List.cons_append]
  rw [jsprObject_round, if_neg h, nextItem_more, if_neg hclose, jsprObject_skipWs (by simp [hhead])]

end Rounds

theorem members_rounds {before afterName afterColon after : Blank} {name : JsonString}
    {value : Json} {members : Members} {rounds : Nat}
    (h : (Members.more before name afterName afterColon value after members).text.length <
      rounds + 1) : members.text.length < rounds := by
  rw [Members.text] at h
  simp only [List.length_append, List.length_cons] at h
  omega

theorem jsprObject_nth (key : List Octet) : ∀ (ms : Members) (n rounds : Nat) (rest : List Octet),
    ms.text.length < rounds →
    (ms.nth n (ch '\x7d' :: rest) = none → Closes (ch '\x7d') (ms.final ++ ch '\x7d' :: rest)) →
      (jsprObject key rounds n (ms.text ++ ch '\x7d' :: rest)).map labelValue =
        (ms.nth n (ch '\x7d' :: rest)).map fun found => found.1.text ++ found.2
  | _, _, 0, _, hlt, _ => absurd hlt (Nat.not_lt_zero _)
  | .last .., 0, rounds + 1, rest, _, _ => jsprObject_last_hit (Or.inr rfl) rounds _
  | .last _ name .., n + 1, rounds + 1, rest, _, hcloses => by
      have hmiss : ¬ MemberTaken key ((n + 1 : Nat) : Int) name :=
        not_or.mpr ⟨fun h => by omega, by omega⟩
      have hfinal := hcloses rfl
      rw [Members.final, List.append_assoc] at hfinal
      rw [jsprObject_last_miss hmiss rounds hfinal]
      rfl
  | .more .., 0, rounds + 1, rest, _, _ => jsprObject_more_hit (Or.inr rfl) rounds _ _
  | .more _ name _ _ _ _ members, n + 1, rounds + 1, rest, hlt, hcloses => by
      have hmiss : ¬ MemberTaken key ((n + 1 : Nat) : Int) name :=
        not_or.mpr ⟨fun h => by omega, by omega⟩
      have hindex : ¬ ((n + 1 : Nat) : Int) < 0 := by omega
      have hpred : ((n + 1 : Nat) : Int) - 1 = n := by omega
      rw [jsprObject_more_miss hmiss, if_neg hindex, hpred]
      exact jsprObject_nth key members n rounds rest (members_rounds hlt) hcloses

theorem jsprObject_named (key : List Octet) : ∀ (ms : Members) (rounds : Nat) (rest : List Octet),
    ms.text.length < rounds →
    (∀ name ∈ ms.names.takeWhile (·.body ≠ key), ¬ name.body <+: key ∧ ¬ name.text <+: key) →
    (ms.named key (ch '\x7d' :: rest) = none →
      Closes (ch '\x7d') (ms.final ++ ch '\x7d' :: rest)) →
      (jsprObject key rounds (-1) (ms.text ++ ch '\x7d' :: rest)).map labelValue =
        (ms.named key (ch '\x7d' :: rest)).map fun found => found.1.text ++ found.2
  | _, 0, _, hlt, _, _ => absurd hlt (Nat.not_lt_zero _)
  | .last before name afterName afterColon value after, rounds + 1, rest, _, hnames, hcloses => by
      rw [Members.named] at hcloses ⊢
      by_cases hname : name.body = key
      · have hhit : MemberTaken key (-1) name :=
          Or.inl ⟨by decide, Or.inr (hname ▸ List.prefix_refl _)⟩
        rw [if_pos hname, jsprObject_last_hit hhit]
        rfl
      · rw [if_neg hname] at hcloses ⊢
        have hclear := hnames name (by simp [Members.names, hname])
        have hmiss : ¬ MemberTaken key (-1) name :=
          not_or.mpr ⟨fun h => h.2.elim hclear.2 hclear.1, by decide⟩
        have hfinal := hcloses rfl
        rw [Members.final, List.append_assoc] at hfinal
        rw [jsprObject_last_miss hmiss rounds hfinal]
        rfl
  | .more before name afterName afterColon value after members, rounds + 1, rest, hlt, hnames,
      hcloses => by
      rw [Members.named] at hcloses ⊢
      by_cases hname : name.body = key
      · have hhit : MemberTaken key (-1) name :=
          Or.inl ⟨by decide, Or.inr (hname ▸ List.prefix_refl _)⟩
        rw [if_pos hname, jsprObject_more_hit hhit]
        rfl
      · rw [if_neg hname] at hcloses ⊢
        have htake := List.takeWhile_cons_of_pos (p := fun x : JsonString => decide (x.body ≠ key))
          (l := members.names) (decide_eq_true hname)
        rw [Members.names, htake] at hnames
        have hclear := hnames name List.mem_cons_self
        have hmiss : ¬ MemberTaken key (-1) name :=
          not_or.mpr ⟨fun h => h.2.elim hclear.2 hclear.1, by decide⟩
        have hrest : ∀ name ∈ members.names.takeWhile (·.body ≠ key),
            ¬ name.body <+: key ∧ ¬ name.text <+: key :=
          fun other hmem => hnames other (List.mem_cons_of_mem _ hmem)
        rw [jsprObject_more_miss hmiss, if_pos (by decide)]
        exact jsprObject_named key members rounds rest (members_rounds hlt) hrest hcloses

/-! ### One label -/

theorem jsprIndex_some {label : List Octet} {n : Nat} (h : labelIndex label = some n)
    (hlt : n < 2 ^ 31) : jsprIndex label = n := by
  unfold labelIndex at h
  split at h
  · rename_i hdigit
    have hdigits : IsDigits 10 (label.takeWhile (isDigit 10)) := by
      refine ⟨?_, fun c hc => List.mem_takeWhile_imp hc⟩
      cases label with
      | nil => exact absurd hdigit (by decide)
      | cons c label =>
          rw [peek_cons] at hdigit
          rw [List.takeWhile_cons_of_pos hdigit]
          exact List.cons_ne_nil _ _
    have hrest : isDigit 10 (peek (label.dropWhile (isDigit 10))) = false := by
      cases hdrop : label.dropWhile (isDigit 10) with
      | nil => rfl
      | cons c rest =>
          have hhead := List.head?_dropWhile_not (isDigit 10) label
          rw [hdrop] at hhead
          simpa using hhead
    have hread := strtol_stop hdigits hrest
    rw [List.takeWhile_append_dropWhile, Option.some.inj h, clampLong_natCast (by omega)] at hread
    rw [jsprIndex, if_pos hdigit, hread]
    exact Int.bmod_eq_of_le (by omega) (by omega)
  · exact absurd h (by simp)

theorem jsprIndex_none {label : List Octet} (h : labelIndex label = none) :
    jsprIndex label = -1 := by
  unfold labelIndex at h
  split at h
  · exact absurd h (by simp)
  · rename_i hdigit
    rw [jsprIndex, if_neg hdigit]

theorem jsprFind_object (label : List Octet) (s : List Octet) :
    jsprFind (ch '\x7b' :: s) label =
      jsprObject label (s.length + 2) (jsprIndex label) s := by
  rw [jsprFind, skipWs_cons (by decide), peek_cons, if_pos rfl, List.length_cons, List.tail_cons]

theorem jsprFind_array (label : List Octet) (s : List Octet) :
    jsprFind (ch '[' :: s) label =
      if 0 ≤ jsprIndex label then jsprArray (s.length + 2) (jsprIndex label) s else none := by
  rw [jsprFind, skipWs_cons (by decide), peek_cons, if_neg (by decide), List.length_cons,
    List.tail_cons]
  simp only [true_and]

theorem jsprFind_flat {v : Json} (hv : v.isCompound = false) (rest label : List Octet) :
    jsprFind (v.text ++ rest) label = none := by
  have hhead : peek (v.text ++ rest) ≠ ch '\x7b' ∧ peek (v.text ++ rest) ≠ ch '[' := by
    cases v with
    | scalar s =>
        cases htext : s.text with
        | nil => exact absurd htext s.nonempty
        | cons c t =>
            have hc := (scalar_octets s (htext ▸ List.mem_cons_self : c ∈ s.text)).2.2.2.1
            rw [Json.text, htext, List.cons_append, peek_cons]
            exact ⟨fun h => hc (h ▸ by decide), fun h => hc (h ▸ by decide)⟩
    | string s =>
        rw [Json.text, JsonString.text, List.cons_append, peek_cons]
        decide
    | _ => exact absurd hv (by simp [Json.isCompound])
  rw [jsprFind, skipWs_value, if_neg hhead.1, if_neg fun h => hhead.2 h.1]

theorem jsprObject_empty (key : List Octet) (rounds : Nat) (index : Int) (blank : Blank)
    (rest : List Octet) :
    jsprObject key rounds index (blank.text ++ ch '\x7d' :: rest) = none := by
  cases rounds with
  | zero => rfl
  | succ rounds =>
      have htoken : jsprToken (ch '\x7d' :: rest) keyWs =
          (ch '\x7d' :: rest, ch '\x7d' :: rest) := by
        rw [jsprToken, skipWs_cons (by decide)]
        have hstop := jsprScan_stop (b := (0xff, 0xff)) (d := keyWs) (c := ch '\x7d') (by decide)
          (by decide) (by decide) (by decide) rest
        exact congrArg (Prod.mk _) hstop
      rw [jsprObject, if_neg (by simp), ← jsprToken_skipWs, skipWs_blank, jsprToken_skipWs]
      dsimp only
      rw [htoken]
      dsimp only
      rw [skipWs_cons (by decide), peek_cons, if_pos (by decide)]

theorem jsprArray_empty (rounds : Nat) (index : Int) (blank : Blank) (rest : List Octet) :
    jsprArray rounds index (blank.text ++ ch ']' :: rest) = none := by
  cases rounds with
  | zero => rfl
  | succ rounds =>
      have hws : skipWs (ch ']' :: rest) = ch ']' :: rest := skipWs_cons (by decide) rest
      have hstart : (jsprToken (ch ']' :: rest) commaWs).1 = ch ']' :: rest := hws
      rw [jsprArray, if_neg (by simp), ← jsprToken_skipWs, skipWs_blank, jsprToken_skipWs]
      dsimp only
      rw [hstart, peek_cons, if_pos rfl]

theorem jsprFind_select {label : List Octet} {v : Json} {rest : List Octet}
    (h : LabelClear label v rest) : (jsprFind (v.text ++ rest) label).map labelValue =
      (selectLabel label v rest).map fun found => found.1.text ++ found.2 := by
  cases v with
  | scalar s =>
      rw [jsprFind_flat rfl]
      rfl
  | string s =>
      rw [jsprFind_flat rfl]
      rfl
  | emptyArray blank =>
      rw [Json.text, List.cons_append, List.append_assoc, List.singleton_append, jsprFind_array,
        jsprArray_empty, ite_self]
      rfl
  | emptyObject blank =>
      rw [Json.text, List.cons_append, List.append_assoc, List.singleton_append, jsprFind_object,
        jsprObject_empty]
      rfl
  | array elements =>
      rw [Json.text, List.cons_append, List.append_assoc, List.singleton_append, jsprFind_array]
      have helement := h.element elements rfl
      have hcontained := h.contained
      cases hindex : labelIndex label with
      | none =>
          rw [jsprIndex_none hindex, if_neg (by decide), selectLabel, hindex]
          rfl
      | some n =>
          have hlen : elements.text.length < (elements.text ++ ch ']' :: rest).length + 2 := by
            rw [List.length_append]
            omega
          rw [selectLabel, hindex, Option.bind_some] at hcontained helement ⊢
          rw [jsprIndex_some hindex (h.index n hindex), if_pos (Int.natCast_nonneg n)]
          refine (congrArg _ (jsprArray_nth elements n _ rest hlen hcontained)).trans ?_
          cases hnth : elements.nth n (ch ']' :: rest) with
          | none => rfl
          | some found =>
              rw [Option.map_some, Option.map_some, Option.map_some, labelValue,
                if_neg (helement found.1 found.2 hnth)]
  | object members =>
      rw [Json.text, List.cons_append, List.append_assoc, List.singleton_append, jsprFind_object]
      have hcontained := h.contained
      have hlen : members.text.length < (members.text ++ ch '\x7d' :: rest).length + 2 := by
        rw [List.length_append]
        omega
      cases hindex : labelIndex label with
      | none =>
          rw [selectLabel, hindex] at hcontained ⊢
          rw [jsprIndex_none hindex]
          exact jsprObject_named label members _ rest hlen (h.names hindex) hcontained
      | some n =>
          rw [selectLabel, hindex] at hcontained ⊢
          rw [jsprIndex_some hindex (h.index n hindex)]
          exact jsprObject_nth label members n _ rest hlen hcontained

/-! ### Behind a value -/

/-- A comma, white space, a closing bracket or the end of the text comes next. -/
def ValueEnd (r : List Octet) : Prop :=
  ∀ c ∈ r.head?, c ∈ objectWs

theorem valueEnd_cons {c : Octet} (hc : c ∈ objectWs) (r : List Octet) : ValueEnd (c :: r) := by
  intro x hx
  rw [List.head?_cons, Option.mem_some_iff] at hx
  exact hx ▸ hc

theorem valueEnd_blank (s : Blank) {r : List Octet} (h : ValueEnd r) : ValueEnd (s.text ++ r) := by
  cases htext : s.text with
  | nil => exact h
  | cons c t =>
      have hws := (blank_octets s (htext ▸ List.mem_cons_self : c ∈ s.text)).2.1
      exact valueEnd_cons (List.mem_append_right _ (List.mem_cons_of_mem _ hws)) _

theorem elements_nth_end : ∀ (es : Elements) (n : Nat) {rest : List Octet}, ValueEnd rest →
    ∀ found, es.nth n rest = some found → ValueEnd found.2
  | .last _ value after, 0, rest, hrest, found, h => by
      cases h
      exact valueEnd_blank after hrest
  | .last .., n + 1, rest, _, found, h => absurd h (by simp [Elements.nth])
  | .more _ value after elements, 0, rest, hrest, found, h => by
      cases h
      exact valueEnd_blank after (valueEnd_cons (by decide) _)
  | .more _ _ _ elements, n + 1, rest, hrest, found, h => elements_nth_end elements n hrest found h

theorem members_nth_end : ∀ (ms : Members) (n : Nat) {rest : List Octet}, ValueEnd rest →
    ∀ found, ms.nth n rest = some found → ValueEnd found.2
  | .last _ _ _ _ value after, 0, rest, hrest, found, h => by
      cases h
      exact valueEnd_blank after hrest
  | .last .., n + 1, rest, _, found, h => absurd h (by simp [Members.nth])
  | .more _ _ _ _ value after members, 0, rest, hrest, found, h => by
      cases h
      exact valueEnd_blank after (valueEnd_cons (by decide) _)
  | .more _ _ _ _ _ _ members, n + 1, rest, hrest, found, h =>
      members_nth_end members n hrest found h

theorem members_named_end (key : List Octet) : ∀ (ms : Members) {rest : List Octet}, ValueEnd rest →
    ∀ found, ms.named key rest = some found → ValueEnd found.2
  | .last _ name _ _ value after, rest, hrest, found, h => by
      rw [Members.named] at h
      split at h
      · cases h
        exact valueEnd_blank after hrest
      · exact absurd h (by simp)
  | .more _ name _ _ value after members, rest, hrest, found, h => by
      rw [Members.named] at h
      split at h
      · cases h
        exact valueEnd_blank after (valueEnd_cons (by decide) _)
      · exact members_named_end key members hrest found h

theorem selectLabel_end {label : List Octet} {v : Json} {rest : List Octet}
    {found : Json × List Octet} (h : selectLabel label v rest = some found) :
    ValueEnd found.2 := by
  unfold selectLabel at h
  split at h
  · obtain ⟨n, -, hnth⟩ := Option.bind_eq_some_iff.mp h
    exact elements_nth_end _ n (valueEnd_cons (by decide) _) found hnth
  · split at h
    · exact members_nth_end _ _ (valueEnd_cons (by decide) _) found h
    · exact members_named_end label _ (valueEnd_cons (by decide) _) found h
  · exact absurd h (by simp)

theorem followLabels_end : ∀ (labels : List (List Octet)) (v : Json) (rest : List Octet),
    ValueEnd rest → LabelsClear labels v rest →
      ∀ found, followLabels labels v rest = some found →
        ValueEnd found.2 ∧
          (found.1.isCompound = true → ∀ c ∈ found.2.head?, c ∉ ascii "]\x7d")
  | [], v, rest, hrest, hclear, found, h => by
      cases h
      exact ⟨hrest, hclear⟩
  | label :: labels, v, rest, hrest, hclear, found, h => by
      obtain ⟨next, hnext, hfollow⟩ := Option.bind_eq_some_iff.mp h
      exact followLabels_end labels next.1 next.2 (selectLabel_end hnext)
        (hclear.2 next.1 next.2 hnext) found hfollow

/-! ### All labels -/

theorem jsprFind_skipWs (js key : List Octet) : jsprFind (skipWs js) key = jsprFind js key := by
  rw [jsprFind, jsprFind, skipWs_skipWs]

theorem jsprWalk_follow : ∀ (labels : List (List Octet)) (v : Json) (rest : List Octet),
    labels ≠ [] → LabelsClear labels v rest →
      (jsprWalk false (v.text ++ rest) labels).map Prod.fst =
        (followLabels labels v rest).map fun found => found.1.text ++ found.2
  | [], _, _, hne, _ => absurd rfl hne
  | label :: labels, v, rest, _, hclear => by
      have hfind := jsprFind_select hclear.1
      rw [jsprWalk, followLabels]
      cases hselect : selectLabel label v rest with
      | none =>
          rw [hselect, Option.map_none, Option.map_eq_none_iff] at hfind
          rw [hfind]
          rfl
      | some next =>
          rw [hselect, Option.map_some, Option.map_eq_some_iff] at hfind
          obtain ⟨⟨js, stop⟩, hfound, hvalue⟩ := hfind
          have hjs : (if peek stop = ch ':' ∧ (labels ≠ [] ∨ ¬ false = true) then
              skipWs stop.tail else js) = next.1.text ++ next.2 := by
            rw [← hvalue, labelValue]
            exact if_congr (and_iff_left (Or.inr Bool.false_ne_true)) rfl rfl
          rw [hfound, Option.bind_some]
          refine (congrArg _ (Option.bind_some _ _)).trans ?_
          dsimp only
          rw [hjs]
          by_cases hlabels : labels = []
          · rw [if_pos hlabels, hlabels]
            rfl
          · rw [if_neg hlabels]
            exact jsprWalk_follow labels next.1 next.2 hlabels (hclear.2 _ _ hselect)

/-! ### What is passed back -/

theorem jsprToken_target (v : Json) {r : List Octet} (hend : ValueEnd r)
    (hbracket : v.isCompound = true → ∀ c ∈ r.head?, c ∉ ascii "]\x7d") :
    jsprToken (v.text ++ r)
      (if peek (v.text ++ r) = ch '\x7b' ∨ peek (v.text ++ r) = ch '[' ∨ v.text ++ r = []
        then commaWs else objectWs) = (v.text ++ r, r) := by
  have hflat : jsprScan (0xff, 0xff) objectWs r 0 false 0 = r := by
    cases r with
    | nil => rfl
    | cons c r =>
        have hall : ∀ c ∈ objectWs, c ∉ ascii "\"'\\" ∧ c ≠ 0xff := by decide
        have hc : c ∈ objectWs := hend c rfl
        exact jsprScan_stop (hall c hc).1 (hall c hc).2 (hall c hc).2 hc r
  have hcompound (hv : v.isCompound = true) :
      jsprToken (v.text ++ r) commaWs = (v.text ++ r, r) := by
    obtain ⟨b, hb, htoken⟩ := jsprToken_value v
    rw [htoken]
    cases r with
    | nil => rfl
    | cons c r =>
        have hall : ∀ c ∈ objectWs, c ∉ ascii "]\x7d" → c ∈ commaWs := by decide
        rw [jsprScan_commaWs hb (hall c (hend c rfl) (hbracket hv c rfl))]
  cases v with
  | scalar s =>
      cases htext : s.text with
      | nil => exact absurd htext s.nonempty
      | cons c t =>
          have hc := (scalar_octets s (htext ▸ List.mem_cons_self : c ∈ s.text)).2.2.2.1
          have hpeek : ¬ (peek (s.text ++ r) = ch '\x7b' ∨ peek (s.text ++ r) = ch '[' ∨
              s.text ++ r = []) := by
            rw [htext, List.cons_append, peek_cons]
            rintro (h | h | h)
            · exact hc (h ▸ by decide)
            · exact hc (h ▸ by decide)
            · exact List.cons_ne_nil _ _ h
          rw [Json.text, if_neg hpeek, jsprToken_scalar s r (Or.inr rfl), hflat]
  | string s =>
      have hpeek : ¬ (peek (s.text ++ r) = ch '\x7b' ∨ peek (s.text ++ r) = ch '[' ∨
          s.text ++ r = []) := by
        rw [JsonString.text, List.cons_append, peek_cons]
        rintro (h | h | h)
        · exact absurd h (by decide)
        · exact absurd h (by decide)
        · exact List.cons_ne_nil _ _ h
      rw [Json.text, if_neg hpeek, jsprToken_name, hflat]
  | emptyArray blank => exact (congrArg _ (if_pos (Or.inr (Or.inl rfl)))).trans (hcompound rfl)
  | array elements => exact (congrArg _ (if_pos (Or.inr (Or.inl rfl)))).trans (hcompound rfl)
  | emptyObject blank => exact (congrArg _ (if_pos (Or.inl rfl))).trans (hcompound rfl)
  | object members => exact (congrArg _ (if_pos (Or.inl rfl))).trans (hcompound rfl)

theorem jsprUnquote_value (v : Json) (r : List Octet) :
    (if 0 < (jsprUnquote (v.text ++ r) r).2 then some (jsprUnquote (v.text ++ r) r) else none) =
      valueFound (v, r) := by
  have htake : (v.text ++ r).take ((v.text ++ r).length - r.length) = v.text := by
    rw [List.length_append, Nat.add_sub_cancel, List.take_left]
  have hplain (hpeek : peek (v.text ++ r) ≠ ch '"') :
      (if 0 < (jsprUnquote (v.text ++ r) r).2 then some (jsprUnquote (v.text ++ r) r) else none) =
        some (v.text ++ r, (v.text.length : Int)) := by
    obtain ⟨c, t, htext, -⟩ := value_head v
    have hpos : (0 : Int) < v.text.length := by
      rw [htext, List.length_cons]
      omega
    rw [jsprUnquote, htake, if_neg hpeek, if_pos hpos]
  cases v with
  | string s =>
      have hlen : ((Json.string s).text.length : Int) - 2 -
          (Json.string s).text.reverse.idxOf (ch '"') = s.body.length := by
        rw [Json.text, JsonString.text, List.reverse_cons, List.reverse_append,
          List.reverse_singleton, List.singleton_append, List.cons_append, List.idxOf_cons_self,
          List.length_cons, List.length_append, List.length_singleton]
        omega
      have htail : ((Json.string s).text ++ r).tail = s.body ++ ch '"' :: r := by
        rw [Json.text, JsonString.text, List.cons_append, List.tail_cons, List.append_assoc,
          List.singleton_append]
      have hpeek : peek ((Json.string s).text ++ r) = ch '"' := rfl
      have hfound : valueFound (.string s, r) =
          if s.body = [] then none else some (s.body ++ ch '"' :: r, (s.body.length : Int)) := rfl
      rw [jsprUnquote, htake, if_pos hpeek, hlen, htail, hfound]
      by_cases hbody : s.body = []
      · have hzero : ¬ (0 : Int) < ([] : List Octet).length := by decide
        rw [if_pos hbody, hbody]
        exact if_neg hzero
      · have hpos : (0 : Int) < s.body.length := by
          have := List.length_pos_of_ne_nil hbody
          omega
        rw [if_neg hbody, if_pos hpos]
  | scalar s =>
      refine hplain ?_
      cases htext : s.text with
      | nil => exact absurd htext s.nonempty
      | cons c t =>
          have hc := (scalar_octets s (htext ▸ List.mem_cons_self : c ∈ s.text)).1
          rw [Json.text, htext, List.cons_append, peek_cons]
          exact fun h => hc (h ▸ by decide)
  | emptyArray blank => exact hplain (by decide : ch '[' ≠ ch '"')
  | array elements => exact hplain (by decide : ch '[' ≠ ch '"')
  | emptyObject blank => exact hplain (by decide : ch '\x7b' ≠ ch '"')
  | object members => exact hplain (by decide : ch '\x7b' ≠ ch '"')

theorem jsprFindLabels_walk {labels : List (List Octet)} (hne : labels ≠ []) (js : List Octet) :
    jsprFindLabels js labels false =
      ((jsprWalk false js labels).map Prod.fst).bind fun js =>
        let token := jsprToken js
          (if peek js = ch '\x7b' ∨ peek js = ch '[' ∨ js = [] then commaWs else objectWs)
        let found := jsprUnquote token.1 token.2
        if 0 < found.2 then some found else none := by
  rw [jsprFindLabels]
  cases hlast : labels.getLast? with
  | none => exact absurd (List.getLast?_eq_none_iff.mp hlast) hne
  | some last =>
      cases jsprWalk false js labels with
      | none => rfl
      | some found => rfl

/-- Where labels select what they mean and nothing is read behind the array or object that it is in,
`jspr_find_labels` passes back the value that they lead to, a string without its quotes, with the
text behind it and the exact span, and NULL where there is no such value or it is the empty string.
Without labels it passes back the whole text. -/
theorem jsprFindLabels_clear (v : Json) (before after : Blank) (labels : List (List Octet))
    (h : LabelsClear labels v after.text) :
    jsprFindLabels (before.text ++ v.text ++ after.text) labels false =
      if labels = [] then
        some (before.text ++ v.text ++ after.text,
          ((before.text ++ v.text ++ after.text).length : Int))
      else (followLabels labels v after.text).bind valueFound := by
  by_cases hne : labels = []
  · rw [if_pos hne, hne]
    rfl
  · have hend : ValueEnd after.text := by
      have hnil := valueEnd_blank after (r := []) fun c hc => absurd hc (by simp)
      rwa [List.append_nil] at hnil
    have hwalk : (jsprWalk false (before.text ++ v.text ++ after.text) labels).map Prod.fst =
        (followLabels labels v after.text).map fun found => found.1.text ++ found.2 := by
      refine Eq.trans ?_ (jsprWalk_follow labels v after.text hne h)
      cases labels with
      | nil => exact absurd rfl hne
      | cons label labels =>
          rw [List.append_assoc, jsprWalk, jsprWalk, ← jsprFind_skipWs, skipWs_blank,
            jsprFind_skipWs]
    rw [if_neg hne, jsprFindLabels_walk hne, hwalk]
    cases hfollow : followLabels labels v after.text with
    | none => rfl
    | some found =>
        obtain ⟨hfound, hbracket⟩ := followLabels_end labels v after.text hend h found hfollow
        rw [Option.map_some, Option.bind_some, Option.bind_some,
          jsprToken_target found.1 hfound hbracket]
        exact jsprUnquote_value found.1 found.2

/-- The object `{"b":1,"0":2}`. -/
def digitNames : Members :=
  .more ⟨[], by decide⟩ ⟨ascii "b", by decide⟩ ⟨[], by decide⟩ ⟨[], by decide⟩
    (.scalar ⟨ascii "1", by decide, by decide⟩) ⟨[], by decide⟩
    (.last ⟨[], by decide⟩ ⟨ascii "0", by decide⟩ ⟨[], by decide⟩ ⟨[], by decide⟩
      (.scalar ⟨ascii "2", by decide, by decide⟩) ⟨[], by decide⟩)

/-- The member named `0` has the value 2, and the label `0` finds the first member, whose value is
1. -/
theorem jsprFindLabels_digit_name :
    (Json.object digitNames).text = ascii "\x7b\"b\":1,\"0\":2\x7d" ∧
      ((digitNames.named (ascii "0") (ascii "\x7d")).bind valueFound) = some (ascii "2\x7d", 1) ∧
      jsprFindLabels (Json.object digitNames).text [ascii "0"] false =
        some (ascii "1,\"0\":2\x7d", 1) := by
  decide

/-- The array `[7, "x"]` in an object, as its member `a`. -/
def nestedArray : Members :=
  .last ⟨[], by decide⟩ ⟨ascii "a", by decide⟩ ⟨[], by decide⟩ ⟨ascii " ", by decide⟩
    (.array (.more ⟨[], by decide⟩ (.scalar ⟨ascii "7", by decide, by decide⟩) ⟨[], by decide⟩
      (.last ⟨ascii " ", by decide⟩ (.string ⟨ascii "x", by decide⟩) ⟨[], by decide⟩)))
    ⟨[], by decide⟩

theorem jsprFindLabels_nested :
    jsprFindLabels (ascii "\x7b\"a\": [7, \"x\"]\x7d") [ascii "a", ascii "1"] false =
      some (ascii "x\"]\x7d", 1) := by
  have hclear : LabelsClear [ascii "a", ascii "1"] (.object nestedArray) [] := by
    have hname : labelIndex (ascii "a") = none := by decide
    refine ⟨{ index := ?_, names := ?_, element := ?_, contained := ?_ }, ?_⟩
    · intro n h
      rw [hname] at h
      exact absurd h (by simp)
    · exact fun _ => by decide
    · exact fun _ h => Json.noConfusion h
    · intro h
      cases h
    · intro w r hselect
      cases hselect
      refine ⟨{ index := ?_, names := ?_, element := ?_, contained := ?_ }, ?_⟩
      · intro n h
        cases h
        decide
      · exact fun h => absurd h (by decide)
      · intro _ _ w r hselect
        cases hselect
        decide
      · intro h
        cases h
      · intro w r hselect
        cases hselect
        exact fun h => absurd h (by decide)
  exact jsprFindLabels_clear (.object nestedArray) ⟨[], by decide⟩ ⟨[], by decide⟩
    [ascii "a", ascii "1"] hclear

end Snert
