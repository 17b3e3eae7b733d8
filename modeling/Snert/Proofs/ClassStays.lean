/-
Module: Snert.Proofs.ClassStays
Purpose: When `textClass` stays inside a class. Its loop stops at the right square bracket unless the
  class ends in a hyphen that begins a range, which takes the bracket for the end of the range and
  steps over it; then only a character that some member takes keeps it inside.
Trusted boundary: none
Main exports: scanClass_stays_iff
-/
import Mathlib.Data.List.TakeWhile
import Snert.Util.TextClass

namespace Snert

open CModel CModel.Run

/-! ### Classes -/

/-- Does a hyphen at the end of the members begin a range? -/
def dangles : List Octet → Bool
  | [] => false
  | c :: set =>
      if c = ch '-' then
        match set with
        | [] => true
        | _ :: set => dangles set
      else dangles set

/-- Does one of the members take the character? A range at their end goes up to the right square
bracket. `before` stands in front of the members. -/
def memberTakes (hay : Octet) (caseless : Bool) : Octet → List Octet → Bool
  | _, [] => false
  | before, c :: set =>
      if c = ch '-' then
        match set with
        | [] => inClassRange hay caseless before (ch ']')
        | last :: set =>
            inClassRange hay caseless before last || memberTakes hay caseless last set
      else
        (c = ch '\\' && set.head? = some hay) || isMember hay caseless c ||
          memberTakes hay caseless c set

/-- `textClass` reads nothing behind the right square bracket that it found, nor behind the NUL of the
pattern, and it ends. -/
def StaysInClass (hay : Octet) (caseless : Bool) (p : ClassText) : Prop :=
  (scanClass hay caseless p).Ends fun _ => True

/-- The octet in front of the members, and what is behind it: the character that negates a class is
not a member. -/
def classSet (pin : List Octet) : Octet × List Octet :=
  if peek pin.tail = ch '^' ∨ peek pin.tail = ch '!' then (peek pin.tail, pin.tail.tail)
  else (peek pin, pin.tail)

/-- A literal at the beginning of the members is passed. -/
def passLiteral (c : Octet) (set : Octet × List Octet) : Octet × List Octet :=
  if peek set.2 = c then (c, set.2.tail) else set

/-- The classes in which `textClass` stays for a character: there is no right square bracket, or the
character is one of the literals at the beginning, or the members do not end in a hyphen that begins a
range, or one of them takes the character. -/
def ClassCloses (hay : Octet) (caseless : Bool) (pin : List Octet) : Prop :=
  let set := classSet pin
  let behind := passLiteral (ch ']') set
  let members := passLiteral (ch '-') behind
  let body := members.2.takeWhile (· ≠ ch ']')
  ch ']' ∉ behind.2 ∨
    (peek set.2 = ch ']' ∧ hay = ch ']') ∨ (peek behind.2 = ch '-' ∧ hay = ch '-') ∨
    dangles body = false ∨ memberTakes hay caseless members.1 body = true

section

variable {hay : Octet} {caseless : Bool} {p : ClassText}

/-! ### The loop -/

theorem read_yields {extent i : Nat} {front rest : List Octet} {c : Octet}
    (hpin : p.pin = front ++ c :: rest) (hi : i = front.length) (hlt : i < extent) :
    (p.read extent i).Yields c := by
  have hoctet : p.octet i = c := by
    rw [ClassText.octet, hpin, hi]
    simp
  unfold ClassText.read
  rw [hoctet]
  exact yields_load (Access.inBounds_iff_le.mpr (by omega)) _

theorem classStep_right {front rest : List Octet} {extent i : Nat}
    (hpin : p.pin = front ++ ch ']' :: rest) (hi : i = front.length) (hlt : i < extent) :
    (classStep hay caseless p extent i).Yields (.inr i) := by
  unfold classStep
  exact (read_yields hpin hi hlt).bind (yields_pure _)

theorem classStep_member {front rest : List Octet} {before c next : Octet} {extent i : Nat}
    (hpin : p.pin = front ++ before :: c :: next :: rest) (hc : c ≠ ch ']')
    (hi : i = front.length + 1) (hlt : i + 1 < extent) :
    (classStep hay caseless p extent i).Yields
      (if c = ch '\\' ∧ hay = next then .inr (i + 1)
      else if c = ch '-' then
        if inClassRange hay caseless before next then .inr i else .inl (i + 2)
      else if isMember hay caseless c then .inr i else .inl (i + 1)) := by
  have hbefore : (p.read extent (i - 1)).Yields before :=
    read_yields hpin (by omega) (by omega)
  have hpin₁ : p.pin = (front ++ [before]) ++ c :: next :: rest := by
    rw [hpin]
    simp
  have hpin₂ : p.pin = (front ++ [before, c]) ++ next :: rest := by
    rw [hpin]
    simp
  have hread : (p.read extent i).Yields c := read_yields hpin₁ (by simp [hi]) (by omega)
  have hnext : (p.read extent (i + 1)).Yields next := read_yields hpin₂ (by simp [hi]) hlt
  have hescape : (classEscape hay p extent i c).Yields (c = ch '\\' ∧ hay = next : Bool) := by
    unfold classEscape
    by_cases hbackslash : c = ch '\\'
    · rw [if_pos hbackslash]
      exact hnext.bind (by simp [hbackslash])
    · rw [if_neg hbackslash]
      simp [hbackslash]
  have hrange : (classRange hay caseless p extent i).Yields
      (inClassRange hay caseless before next) := by
    unfold classRange
    refine hbefore.bind ?_
    by_cases hbelow : charBelow caseless before hay
    · rw [if_pos hbelow]
      exact hnext.bind (yields_pure _)
    · rw [if_neg hbelow]
      simp [inClassRange, hbelow]
  unfold classStep
  refine hread.bind ?_
  rw [if_neg hc]
  refine hescape.bind ?_
  by_cases hesc : c = ch '\\' ∧ hay = next
  · rw [if_pos (decide_eq_true hesc), if_pos hesc]
    exact yields_pure _
  · rw [if_neg (by simpa using hesc), if_neg hesc]
    by_cases hhyphen : c = ch '-'
    · rw [if_pos hhyphen, if_pos hhyphen]
      exact hrange.bind (yields_pure _)
    · rw [if_neg hhyphen, if_neg hhyphen]
      exact yields_pure _

theorem classLoop_behind (rounds : Nat) {extent i : Nat} (hi : extent ≤ i)
    {Q : Nat → Prop} : ¬ (Run.loop (classStep hay caseless p extent) rounds i).Ends Q := by
  cases rounds with
  | zero => exact fun ⟨_, _, hdone, _⟩ => nomatch hdone
  | succ rounds =>
      rintro ⟨hin, -⟩
      rw [Run.loop, inBounds_bind] at hin
      have hread := ((inBounds_load_bind _ _ _).mp hin.1).1
      rw [Access.inBounds_iff_le] at hread
      omega

/-- Members in front of the right square bracket: the loop stops at the first that takes the
character, or at the bracket, unless it steps over that. -/
theorem classLoop_ends_iff {front body rest : List Octet} {before : Octet} {rounds right : Nat}
    (hpin : p.pin = front ++ before :: (body ++ ch ']' :: rest))
    (hright : right = front.length + 1 + body.length) (hbody : ch ']' ∉ body)
    (hrounds : body.length < rounds) {Q : Nat → Prop}
    (hQ : ∀ stop, (stop ≠ right ↔ memberTakes hay caseless before body = true) → Q stop) :
    (Run.loop (classStep hay caseless p (right + 1)) rounds (front.length + 1)).Ends Q ↔
      (dangles body = true → memberTakes hay caseless before body = true) := by
  induction rounds generalizing front body before with
  | zero => omega
  | succ rounds ih =>
      rw [Run.loop]
      cases body with
      | nil =>
          have hpin' : p.pin = (front ++ [before]) ++ ch ']' :: rest := by
            rw [hpin]
            simp
          have hstep : (classStep hay caseless p (right + 1) (front.length + 1)).Yields
              (.inr (front.length + 1)) :=
            classStep_right hpin' (by simp) (by rw [hright]; simp)
          rw [hstep.bind_ends_iff, ends_pure]
          exact iff_of_true (hQ _ (by simp [hright, memberTakes])) (by simp [dangles])
      | cons c set =>
          obtain ⟨hc, hset⟩ : c ≠ ch ']' ∧ ch ']' ∉ set := by
            rw [List.mem_cons, not_or] at hbody
            exact ⟨fun h => hbody.1 h.symm, hbody.2⟩
          rw [List.length_cons] at hright hrounds
          -- What the loop finds behind this member.
          have hbehind : ∃ next rest', set ++ ch ']' :: rest = next :: rest' ∧
              next = set.head?.getD (ch ']') := by
            cases set with
            | nil => exact ⟨ch ']', rest, rfl, rfl⟩
            | cons d set => exact ⟨d, set ++ ch ']' :: rest, rfl, rfl⟩
          obtain ⟨next, rest', hnext, hhead⟩ := hbehind
          have hpin' : p.pin = front ++ before :: c :: next :: rest' := by
            rw [hpin, List.cons_append, hnext]
          have hstep : (classStep hay caseless p (right + 1) (front.length + 1)).Yields _ :=
            classStep_member hpin' hc rfl (by omega)
          rw [hstep.bind_ends_iff]
          by_cases hhyphen : c = ch '-'
          · have hescape : ¬ (c = ch '\\' ∧ hay = next) := by
              rintro ⟨hbackslash, -⟩
              rw [hhyphen] at hbackslash
              exact absurd hbackslash (by decide)
            rw [if_neg hescape, if_pos hhyphen]
            subst hhyphen
            cases set with
            | nil =>
                obtain rfl : next = ch ']' := hhead
                have htakes : memberTakes hay caseless before [ch '-'] =
                    inClassRange hay caseless before (ch ']') := rfl
                rw [htakes]
                by_cases hinside : inClassRange hay caseless before (ch ']') = true
                · rw [if_pos hinside, ends_pure]
                  exact iff_of_true (hQ _ (iff_of_true (by simp [hright]) (htakes.trans hinside)))
                    fun _ => hinside
                · rw [if_neg hinside]
                  refine iff_of_false (classLoop_behind rounds ?_) ?_
                  · simp [hright]
                  · exact fun h => hinside (h rfl)
            | cons last set =>
                obtain rfl : next = last := hhead
                have htakes : memberTakes hay caseless before (ch '-' :: next :: set) =
                    (inClassRange hay caseless before next ||
                      memberTakes hay caseless next set) := rfl
                have hdangles : dangles (ch '-' :: next :: set) = dangles set := rfl
                rw [htakes, hdangles]
                by_cases hinside : inClassRange hay caseless before next = true
                · rw [if_pos hinside, ends_pure, hinside]
                  rw [List.length_cons] at hright
                  exact iff_of_true (hQ _ (iff_of_true (by omega) (by rw [htakes, hinside]; rfl)))
                    fun _ => rfl
                · rw [if_neg hinside]
                  rw [Bool.eq_false_of_not_eq_true hinside, Bool.false_or] at htakes ⊢
                  rw [htakes] at hQ
                  have hpin' : p.pin =
                      (front ++ [before, ch '-']) ++ next :: (set ++ ch ']' :: rest) := by
                    rw [hpin]
                    simp
                  have hrange := ih hpin' (by rw [hright]; simp; omega)
                    (fun h => hset (List.mem_cons_of_mem _ h))
                    (by rw [List.length_cons] at hrounds; omega) hQ
                  rwa [List.length_append] at hrange
          · have htakes : memberTakes hay caseless before (c :: set) =
                ((c = ch '\\' && set.head? = some hay) || isMember hay caseless c ||
                  memberTakes hay caseless c set) := by
              rw [memberTakes.eq_def]
              exact if_neg hhyphen
            have hdangles : dangles (c :: set) = dangles set := by
              rw [dangles.eq_def]
              exact if_neg hhyphen
            rw [htakes, hdangles]
            by_cases hescape : c = ch '\\' ∧ hay = next
            · rw [if_pos hescape, ends_pure]
              obtain ⟨rfl, rfl⟩ := hescape
              cases set with
              | nil =>
                  obtain rfl : hay = ch ']' := hhead
                  have hmember : isMember (ch ']') caseless (ch '\\') = false := by
                    cases caseless <;> decide
                  exact iff_of_true (hQ _ (by rw [htakes]; simp [hright, memberTakes, hmember]))
                    (by simp [dangles])
              | cons d set =>
                  obtain rfl : hay = d := hhead
                  rw [List.length_cons] at hright
                  exact iff_of_true (hQ _ (iff_of_true (by omega) (by rw [htakes]; simp)))
                    fun _ => by simp
            · rw [if_neg hescape, if_neg hhyphen]
              have hnone : (c = ch '\\' && set.head? = some hay) = false := by
                rw [← Bool.not_eq_true]
                intro h
                simp only [Bool.and_eq_true, decide_eq_true_eq] at h
                refine hescape ⟨h.1, ?_⟩
                rw [hhead, h.2]
                rfl
              rw [hnone, Bool.false_or] at htakes ⊢
              by_cases hmember : isMember hay caseless c = true
              · rw [if_pos hmember, ends_pure, hmember]
                exact iff_of_true (hQ _ (iff_of_true (by omega) (by rw [htakes, hmember]; rfl)))
                  fun _ => rfl
              · rw [if_neg hmember]
                rw [Bool.eq_false_of_not_eq_true hmember, Bool.false_or] at htakes ⊢
                rw [htakes] at hQ
                have hpin' : p.pin = (front ++ [before]) ++ c :: (set ++ ch ']' :: rest) := by
                  rw [hpin]
                  simp
                have hpass := ih hpin' (by rw [hright]; simp; omega) hset (by omega) hQ
                rwa [List.length_append] at hpass

/-! ### The whole class -/

theorem classMembers_ends_iff {front body rest : List Octet} {before : Octet} {right : Nat}
    (hpin : p.pin = front ++ before :: (body ++ ch ']' :: rest))
    (hright : right = front.length + 1 + body.length) (hbody : ch ']' ∉ body) {Q : Bool → Prop}
    (hQ : Q (memberTakes hay caseless before body)) :
    (classMembers hay caseless p right (front.length + 1)).Ends Q ↔
      (dangles body = true → memberTakes hay caseless before body = true) := by
  have hrounds : body.length < p.size := by
    rw [ClassText.size, hpin]
    simp
    omega
  unfold classMembers
  rw [ends_bind]
  refine classLoop_ends_iff hpin hright hbody hrounds fun stop hstop => ends_pure.mpr ?_
  rwa [Bool.decide_congr hstop, Bool.decide_eq_true]

theorem classHyphen_ends_iff {front set rest : List Octet} {before : Octet} {right : Nat}
    (hpin : p.pin = front ++ before :: (set ++ ch ']' :: rest))
    (hright : right = front.length + 1 + set.length) (hset : ch ']' ∉ set) :
    (p.read (right + 1) (front.length + 1) >>= fun c =>
        if c = ch '-' ∧ hay = ch '-' then pure true
        else classMembers hay caseless p right
          (if c = ch '-' then front.length + 1 + 1 else front.length + 1)).Ends (fun _ => True) ↔
      (peek set = ch '-' ∧ hay = ch '-') ∨
        dangles (passLiteral (ch '-') (before, set)).2 = false ∨
        memberTakes hay caseless (passLiteral (ch '-') (before, set)).1
          (passLiteral (ch '-') (before, set)).2 = true := by
  cases set with
  | nil =>
      have hpin' : p.pin = (front ++ [before]) ++ ch ']' :: rest := by
        rw [hpin]
        simp
      have hread : (p.read (right + 1) (front.length + 1)).Yields (ch ']') :=
        read_yields hpin' (by simp) (by rw [hright]; simp)
      have hne : ch ']' ≠ ch '-' := by decide
      rw [hread.bind_ends_iff, if_neg (fun h => hne h.1), if_neg hne,
        classMembers_ends_iff hpin hright hset trivial]
      exact iff_of_true nofun (.inr (.inl rfl))
  | cons c set =>
      obtain ⟨-, htail⟩ : ch ']' ≠ c ∧ ch ']' ∉ set := by
        rwa [List.mem_cons, not_or] at hset
      have hpin' : p.pin = (front ++ [before]) ++ c :: (set ++ ch ']' :: rest) := by
        rw [hpin]
        simp
      have hread : (p.read (right + 1) (front.length + 1)).Yields c :=
        read_yields hpin' (by simp) (by rw [hright, List.length_cons]; omega)
      rw [hread.bind_ends_iff]
      by_cases hhyphen : c = ch '-'
      · subst hhyphen
        have hpass : passLiteral (ch '-') (before, ch '-' :: set) = (ch '-', set) := if_pos rfl
        rw [hpass, if_pos rfl]
        by_cases hhay : hay = ch '-'
        · rw [if_pos ⟨rfl, hhay⟩]
          exact iff_of_true (ends_pure.mpr trivial) (.inl ⟨rfl, hhay⟩)
        · have hmembers :
              (classMembers hay caseless p right ((front ++ [before]).length + 1)).Ends
                  (fun _ => True) ↔
                (dangles set = true → memberTakes hay caseless (ch '-') set = true) :=
            classMembers_ends_iff hpin' (by rw [hright]; simp; omega) htail trivial
          rw [List.length_append, List.length_singleton] at hmembers
          rw [if_neg (fun h => hhay h.2), hmembers]
          simp [hhay, imp_iff_not_or]
      · have hpass : passLiteral (ch '-') (before, c :: set) = (before, c :: set) := if_neg hhyphen
        rw [hpass, if_neg (fun h => hhyphen h.1), if_neg hhyphen,
          classMembers_ends_iff hpin hright hset trivial]
        simp [hhyphen, imp_iff_not_or]

/-! ### The right square bracket -/

theorem takeWhile_before_right {set rest : List Octet} (hset : ch ']' ∉ set) :
    (set ++ ch ']' :: rest).takeWhile (· ≠ ch ']') = set := by
  rw [List.takeWhile_append_of_pos, List.takeWhile_cons_of_neg (by simp), List.append_nil]
  intro c hc
  have hne : c ≠ ch ']' := fun h => hset (h ▸ hc)
  simpa using hne

theorem strchrRight_found {front set rest : List Octet}
    (hpin : p.pin = front ++ (set ++ ch ']' :: rest)) (hset : ch ']' ∉ set) :
    (p.strchrRight front.length).Yields (some (front.length + set.length)) := by
  have hspan : (p.pin.drop front.length).takeWhile (· ≠ ch ']') = set := by
    rw [hpin, List.drop_left, takeWhile_before_right hset]
  have hlt : front.length + set.length < p.pin.length := by
    rw [hpin]
    simp
  unfold ClassText.strchrRight
  simp only [hspan]
  rw [if_pos hlt]
  exact yields_load (Access.inBounds_iff_le.mpr (by rw [ClassText.size]; omega)) _

theorem strchrRight_none {front set : List Octet} (hpin : p.pin = front ++ set)
    (hset : ch ']' ∉ set) : (p.strchrRight front.length).Yields none := by
  have hspan : (p.pin.drop front.length).takeWhile (· ≠ ch ']') = set := by
    rw [hpin, List.drop_left, List.takeWhile_eq_self_iff]
    intro c hc
    have hne : c ≠ ch ']' := fun h => hset (h ▸ hc)
    simpa using hne
  have hlength : p.pin.length = front.length + set.length := by
    rw [hpin, List.length_append]
  unfold ClassText.strchrRight
  simp only [hspan]
  rw [if_neg (by omega)]
  exact yields_load (Access.inBounds_iff_le.mpr (by rw [ClassText.size]; omega)) _

theorem classRight_plain {lead body rest : List Octet} {c : Octet}
    (hpin : p.pin = c :: lead ++ (body ++ ch ']' :: rest)) (hlead : ch ']' ∉ lead)
    (hbody : ch ']' ∉ body) (hne : body ≠ []) :
    (classRight p (c :: lead).length).Yields (some ((c :: lead).length + body.length)) := by
  have hpin' : p.pin = [c] ++ ((lead ++ body) ++ ch ']' :: rest) := by
    rw [hpin]
    simp
  have hfound : (p.strchrRight [c].length).Yields (some ([c].length + (lead ++ body).length)) :=
    strchrRight_found hpin' (by simp [hlead, hbody])
  have hpos : 0 < body.length := List.length_pos_iff.mpr hne
  unfold classRight
  refine hfound.bind ?_
  rw [List.length_append, List.length_singleton, List.length_cons]
  dsimp only
  rw [if_neg (by omega)]
  have hsame : 1 + (lead.length + body.length) = lead.length + 1 + body.length := by omega
  rw [hsame]
  exact yields_pure _

theorem classRight_literal {lead body rest : List Octet} {c : Octet}
    (hpin : p.pin = c :: lead ++ ch ']' :: (body ++ ch ']' :: rest)) (hlead : ch ']' ∉ lead)
    (hbody : ch ']' ∉ body) :
    (classRight p (c :: lead).length).Yields (some ((c :: lead).length + 1 + body.length)) := by
  have hfirst : (p.strchrRight [c].length).Yields (some ([c].length + lead.length)) :=
    strchrRight_found (by rw [hpin]; rfl) hlead
  have hpin' : p.pin = (c :: lead ++ [ch ']']) ++ (body ++ ch ']' :: rest) := by
    rw [hpin]
    simp
  have hfound : (p.strchrRight (c :: lead ++ [ch ']']).length).Yields
      (some ((c :: lead ++ [ch ']']).length + body.length)) :=
    strchrRight_found hpin' hbody
  rw [List.length_append, List.length_singleton] at hfound
  unfold classRight
  refine hfirst.bind ?_
  rw [List.length_singleton, Nat.add_comm]
  dsimp only
  rw [List.length_cons, if_pos rfl]
  exact hfound

theorem classRight_none {lead set : List Octet} {c : Octet} (hpin : p.pin = c :: lead ++ set)
    (hlead : ch ']' ∉ lead) (hset : ch ']' ∉ set) :
    (classRight p (c :: lead).length).Yields none := by
  have hnone : (p.strchrRight [c].length).Yields none :=
    strchrRight_none (by rw [hpin]; rfl) (by simp [hlead, hset])
  unfold classRight
  exact hnone.bind (yields_pure _)

theorem classRight_literal_none {lead set : List Octet} {c : Octet}
    (hpin : p.pin = c :: lead ++ ch ']' :: set) (hlead : ch ']' ∉ lead) (hset : ch ']' ∉ set) :
    (classRight p (c :: lead).length).Yields none := by
  have hfirst : (p.strchrRight [c].length).Yields (some ([c].length + lead.length)) :=
    strchrRight_found (by rw [hpin]; rfl) hlead
  have hnone : (p.strchrRight (c :: lead ++ [ch ']']).length).Yields none :=
    strchrRight_none (by rw [hpin]; simp) hset
  rw [List.length_append, List.length_singleton] at hnone
  unfold classRight
  refine hfirst.bind ?_
  rw [List.length_singleton, Nat.add_comm]
  dsimp only
  rw [List.length_cons, if_pos rfl]
  exact hnone

/-! ### The whole scan -/

theorem peek_before_right (body rest : List Octet) :
    peek (body ++ ch ']' :: rest) = ch '-' ↔ peek body = ch '-' := by
  cases body with
  | nil =>
      have hne : ch ']' ≠ ch '-' := by decide
      exact iff_of_false hne (by decide)
  | cons c body => exact Iff.rfl

theorem passLiteral_before_right {body : List Octet} (before : Octet) (rest : List Octet)
    (hbody : ch ']' ∉ body) :
    (passLiteral (ch '-') (before, body ++ ch ']' :: rest)).1 =
        (passLiteral (ch '-') (before, body)).1 ∧
      (passLiteral (ch '-') (before, body ++ ch ']' :: rest)).2.takeWhile (· ≠ ch ']') =
        (passLiteral (ch '-') (before, body)).2 := by
  cases body with
  | nil =>
      refine ⟨rfl, ?_⟩
      exact takeWhile_before_right (List.not_mem_nil)
  | cons c body =>
      by_cases hhyphen : c = ch '-'
      · subst hhyphen
        exact ⟨rfl, takeWhile_before_right fun h => hbody (List.mem_cons_of_mem _ h)⟩
      · have hpass : ∀ set, passLiteral (ch '-') (before, c :: set) = (before, c :: set) :=
          fun set => if_neg hhyphen
        rw [List.cons_append, hpass, hpass]
        exact ⟨rfl, takeWhile_before_right hbody⟩

theorem classLiterals_plain {front set rest : List Octet} {before c : Octet} {right : Nat}
    (hpin : p.pin = front ++ before :: ((c :: set) ++ ch ']' :: rest))
    (hright : right = front.length + 1 + (c :: set).length) (hset : ch ']' ∉ c :: set) :
    (classLiterals hay caseless p right (front.length + 1)).Ends (fun _ => True) ↔
      (c = ch '-' ∧ hay = ch '-') ∨
        dangles (passLiteral (ch '-') (before, c :: set)).2 = false ∨
        memberTakes hay caseless (passLiteral (ch '-') (before, c :: set)).1
          (passLiteral (ch '-') (before, c :: set)).2 = true := by
  have hpin' : p.pin = (front ++ [before]) ++ c :: (set ++ ch ']' :: rest) := by
    rw [hpin]
    simp
  have hread : (p.read (right + 1) (front.length + 1)).Yields c :=
    read_yields hpin' (by simp) (by rw [hright, List.length_cons]; omega)
  have hc : c ≠ ch ']' := fun h => hset (h ▸ List.mem_cons_self)
  unfold classLiterals
  rw [hread.bind_ends_iff, if_neg (fun h => hc h.1)]
  dsimp only
  rw [if_neg hc]
  exact classHyphen_ends_iff hpin hright hset

theorem classLiterals_literal {front set rest : List Octet} {right : Nat}
    (hpin : p.pin = front ++ ch ']' :: (set ++ ch ']' :: rest))
    (hright : right = front.length + 1 + set.length) (hset : ch ']' ∉ set) :
    (classLiterals hay caseless p right front.length).Ends (fun _ => True) ↔
      hay = ch ']' ∨ (peek set = ch '-' ∧ hay = ch '-') ∨
        dangles (passLiteral (ch '-') (ch ']', set)).2 = false ∨
        memberTakes hay caseless (passLiteral (ch '-') (ch ']', set)).1
          (passLiteral (ch '-') (ch ']', set)).2 = true := by
  have hread : (p.read (right + 1) front.length).Yields (ch ']') :=
    read_yields hpin rfl (by omega)
  unfold classLiterals
  rw [hread.bind_ends_iff]
  by_cases hhay : hay = ch ']'
  · rw [if_pos ⟨rfl, hhay⟩]
    exact iff_of_true (ends_pure.mpr trivial) (.inl hhay)
  · rw [if_neg (fun h => hhay h.2)]
    dsimp only
    rw [if_pos rfl]
    exact (classHyphen_ends_iff hpin hright hset).trans (or_iff_right hhay).symm

theorem classBody_ends_iff {lead set : List Octet} {c before : Octet} {front : List Octet}
    (hpin : p.pin = c :: lead ++ set) (hlead : ch ']' ∉ lead)
    (hbefore : c :: lead = front ++ [before]) (negate : Bool) :
    (classRight p (c :: lead).length >>= fun found =>
        match found with
        | none => pure none
        | some right => do
            let matched ← classLiterals hay caseless p right (c :: lead).length
            pure (if matched = negate then none else some right)).Ends (fun _ => True) ↔
      let behind := passLiteral (ch ']') (before, set)
      let members := passLiteral (ch '-') behind
      let body := members.2.takeWhile (· ≠ ch ']')
      ch ']' ∉ behind.2 ∨ (peek set = ch ']' ∧ hay = ch ']') ∨
        (peek behind.2 = ch '-' ∧ hay = ch '-') ∨
        dangles body = false ∨ memberTakes hay caseless members.1 body = true := by
  have hdrop : ∀ {m : Run Bool} {right : Nat},
      (m >>= fun matched => pure (if matched = negate then none else some right)).Ends
        (fun _ => True) ↔ m.Ends fun _ => True := by
    intro m right
    rw [ends_bind]
    simp only [ends_pure]
  by_cases hliteral : peek set = ch ']'
  · obtain ⟨set, rfl⟩ : ∃ tail, set = ch ']' :: tail := by
      cases set with
      | nil => exact absurd hliteral (by decide)
      | cons d set => exact ⟨set, by rw [← hliteral]; rfl⟩
    have hbehind : passLiteral (ch ']') (before, ch ']' :: set) = (ch ']', set) := if_pos rfl
    rw [hbehind]
    by_cases hset : ch ']' ∈ set
    · obtain ⟨body, rest, rfl, hbody⟩ := List.eq_append_cons_of_mem hset
      obtain ⟨hfirst, hsecond⟩ := passLiteral_before_right (ch ']') rest hbody
      rw [(classRight_literal hpin hlead hbody).bind_ends_iff]
      dsimp only
      rw [hdrop, classLiterals_literal hpin rfl hbody, hfirst, hsecond, peek_before_right]
      simp [hset, peek]
    · rw [(classRight_literal_none hpin hlead hset).bind_ends_iff]
      exact iff_of_true (ends_pure.mpr trivial) (.inl hset)
  · have hbehind : passLiteral (ch ']') (before, set) = (before, set) := if_neg hliteral
    rw [hbehind]
    by_cases hset : ch ']' ∈ set
    · obtain ⟨body, rest, rfl, hbody⟩ := List.eq_append_cons_of_mem hset
      obtain ⟨hfirst, hsecond⟩ := passLiteral_before_right before rest hbody
      cases body with
      | nil => exact absurd rfl hliteral
      | cons d body =>
          have hlength : (c :: lead).length = front.length + 1 := by
            rw [hbefore, List.length_append, List.length_singleton]
          have hpin' : p.pin = front ++ before :: ((d :: body) ++ ch ']' :: rest) := by
            rw [hpin, hbefore]
            simp
          rw [(classRight_plain hpin hlead hbody (by simp)).bind_ends_iff]
          dsimp only
          rw [hdrop, hlength, classLiterals_plain hpin' rfl hbody, hfirst, hsecond]
          refine Iff.trans ?_ (or_iff_right (not_not.mpr hset)).symm
          exact (or_iff_right fun h => hliteral h.1).symm
    · rw [(classRight_none hpin hlead hset).bind_ends_iff]
      exact iff_of_true (ends_pure.mpr trivial) (.inl hset)

end

/-- `textClass` stays inside the class for a character exactly when the class closes for it. -/
theorem scanClass_stays_iff (hay : Octet) (caseless : Bool) (p : ClassText) :
    StaysInClass hay caseless p ↔ ClassCloses hay caseless p.pin := by
  have hpeek : p.octet 1 = peek p.text.octets := by
    rw [ClassText.octet, ClassText.pin]
    cases p.text.octets <;> rfl
  have hread : (p.read p.size 1).Yields (peek p.text.octets) := by
    unfold ClassText.read
    rw [hpeek]
    exact yields_load (Access.inBounds_iff_le.mpr (by simp [ClassText.size, ClassText.pin])) _
  unfold StaysInClass ClassCloses scanClass
  rw [hread.bind_ends_iff, classSet, ClassText.pin, List.tail_cons]
  dsimp only
  by_cases hnegate : peek p.text.octets = ch '^' ∨ peek p.text.octets = ch '!'
  · rw [if_pos hnegate, if_pos (decide_eq_true hnegate)]
    have hright : ch ']' ∉ [peek p.text.octets] := by
      rw [List.mem_singleton]
      rintro heq
      rw [← heq] at hnegate
      exact absurd hnegate (by decide)
    have htext : p.pin = ch '[' :: [peek p.text.octets] ++ p.text.octets.tail := by
      rw [ClassText.pin]
      cases htext : p.text.octets with
      | nil =>
          rw [htext] at hnegate
          exact absurd hnegate (by decide)
      | cons c set => rfl
    have hfront : [ch '[', peek p.text.octets] = [ch '['] ++ [peek p.text.octets] := rfl
    exact classBody_ends_iff htext hright hfront _
  · rw [if_neg hnegate, if_neg (by simpa using hnegate)]
    have hfront : [ch '['] = [] ++ [ch '['] := rfl
    exact classBody_ends_iff rfl List.not_mem_nil hfront _

/-- The class of the pattern `[a-]`. -/
def hyphenClass : ClassText :=
  ⟨⟨ascii "a-]", by decide⟩, fun _ => 0⟩

theorem scanClass_overrun : ¬ StaysInClass (ch 'x') false hyphenClass := by
  have hoverrun : ¬ (scanClass (ch 'x') false hyphenClass).InBounds := by
    decide
  exact fun hstays => hoverrun hstays.1

end Snert
