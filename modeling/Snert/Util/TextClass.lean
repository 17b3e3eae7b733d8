/-
Module: Snert.Util.TextClass
Purpose: `TextFind` of util/TextFind.c: for patterns of literals and asterisks, when case is ignored
  (given by whether it finds the pattern, which is what its callers ask for), and with all of its
  patterns, and `textClass`. A pointer into the haystack or the pattern is what is left of the
  string. `none` is a read behind the NUL of the pattern, which a class whose range has no end leads
  to. `textClass` stands here a second time, octet by octet: each octet of the pattern that it looks
  at is an access. Up to where the right square bracket is found the object is the pattern with its
  NUL, and from there on the class up to that bracket; pointers are indices into the pattern, which
  begins at the left square bracket, and what memory holds behind the NUL is an input. A `char` is
  signed. The pointers are not NULL, and `OTHER` and `OFF` are not defined.
Trusted boundary: human-reviewed spec
Main exports: textFind, charValue, textClass, textFindOffset
-/
import Mathlib.Data.List.Basic
import Snert.CModel.CString

namespace Snert

open CModel

/-- The loop of `TextFind`. Behind an asterisk the rest of the pattern is looked for at each octet
    that is left, unless nothing of the pattern is left. -/
def textFindLoop : List Octet → List Octet → Bool
  | [], hay => hay = []
  | p :: pin, hay =>
      if p = ch '*' then
        pin = [] || (hay.tails.filter (· ≠ [])).any (textFindLoop pin)
      else
        match hay with
        | [] => false
        | h :: hay => tolower h = tolower p && textFindLoop pin hay

/-- `0 <= TextFind (hay, pin, hay_size, 1)`, for the `hay_size` octets `hay`. A NUL ends the string
    that is searched. -/
def textFind (hay pin : List Octet) : Bool :=
  textFindLoop pin (hay.takeWhile (· ≠ 0))

/-! ### All patterns -/

/-- The value of an octet as a `char`. -/
def charValue (c : Octet) : Int :=
  if c < 128 then c.toNat else c.toNat - 256

/-- `strchr (s, c)` for a `c` that is not NUL. -/
def strchrRest (s : List Octet) (c : Octet) : Option (List Octet) :=
  match s.dropWhile (· ≠ c) with
  | [] => none
  | rest => some rest

/-! ### `textClass` -/

/-- The right square bracket of a class: one that is the first member is not meant. -/
def classEnd (pin set : List Octet) : Option (List Octet) :=
  match strchrRest pin (ch ']') with
  | none => none
  | some right => if right = set then strchrRest right.tail (ch ']') else some right

/-- The loop of `textClass` over the members, from `set` on. `before` is `set[-1]`. -/
def classLoop (hay : Octet) (caseless : Bool) : Octet → List Octet → Option (List Octet)
  | _, [] => none
  | before, c :: set =>
      if c = ch ']' then some (c :: set)
      else if c = ch '\\' ∧ hay = peek set then some set
      else if c = ch '-' then
        if if caseless then
            charValue (tolower before) < charValue (tolower hay) ∧
              charValue (tolower hay) ≤ charValue (tolower (peek set))
          else charValue before < charValue hay ∧ charValue hay ≤ charValue (peek set) then
          some (c :: set)
        else
          match set with
          | [] => none
          | last :: set => classLoop hay caseless last set
      else if if caseless then tolower hay = tolower c else hay = c then some (c :: set)
      else classLoop hay caseless c set

/-- Whether `textClass` takes the character for a match, once it has found the right square bracket.
    The members begin behind the octet that `set` points at here. -/
def classMatch (hay : Octet) (set right : List Octet) (negate caseless : Bool) : Option Bool :=
  -- Closing square bracket immediately following an open square bracket.
  if peek set.tail = ch ']' ∧ hay = ch ']' then some !negate
  else
    let set := if peek set.tail = ch ']' then set.tail else set
    -- A hyphen following an open square bracket.
    if peek set.tail = ch '-' ∧ hay = ch '-' then some !negate
    else
      let set := if peek set.tail = ch '-' then set.tail else set
      match classLoop hay caseless (peek set) set.tail with
      | none => none
      -- Did we reach the end of the class without matching?
      | some set => some (if set = right then negate else !negate)

/-- `textClass (hay, pin, caseless)`. -/
def textClass (hay : Octet) (pin : List Octet) (caseless : Bool) : Option (Option (List Octet)) :=
  let negate := peek pin.tail = ch '^' || peek pin.tail = ch '!'
  let set := if negate then pin.tail else pin
  match classEnd pin.tail set.tail with
  | none => some none
  | some right =>
      (classMatch hay set right negate caseless).map fun matched =>
        if matched then some right else none

/-! ### `TextFind` -/

/-- One character of the haystack against the character `*pin` and what is behind it: what is left of
    the pattern, if they match. -/
def textFindOctet (caseless : Bool) (hay p : Octet) (pin : List Octet) :
    Option (Option (List Octet)) :=
  if p = ch '\\' then some (if hay = peek pin then some pin.tail else none)
  else if p = ch '?' then some (some pin)
  else if p = ch '[' then (textClass hay (p :: pin) caseless).map fun right => right.map List.tail
  else if p = ch ' ' ∧ isspace hay then some (some pin)
  else if if caseless then tolower hay = tolower p else hay = p then some (some pin)
  else some none

theorem strchrRest_length {s rest : List Octet} {c : Octet} (h : strchrRest s c = some rest) :
    rest.length ≤ s.length := by
  rw [strchrRest] at h
  split at h
  · exact absurd h (Option.some_ne_none rest).symm
  · rw [← Option.some.inj h]
    exact (List.dropWhile_suffix _).length_le

theorem classEnd_length {pin set right : List Octet} (h : classEnd pin set = some right) :
    right.length ≤ pin.length := by
  rw [classEnd] at h
  split at h
  · exact absurd h (Option.some_ne_none right).symm
  · next first hfirst =>
      have hle := strchrRest_length hfirst
      split at h
      · have hnext := strchrRest_length h
        rw [List.length_tail] at hnext
        omega
      · rwa [← Option.some.inj h]

theorem textClass_length {hay : Octet} {pin right : List Octet} {caseless : Bool}
    (h : textClass hay pin caseless = some (some right)) : right.length ≤ pin.tail.length := by
  rw [textClass] at h
  split at h
  · simp at h
  · next found hfound =>
      obtain ⟨matched, -, hmatched⟩ := Option.map_eq_some_iff.mp h
      cases matched with
      | false => simp at hmatched
      | true =>
          rw [← Option.some.inj hmatched]
          exact classEnd_length hfound

theorem textFindOctet_length {caseless : Bool} {hay p : Octet} {pin left : List Octet}
    (h : textFindOctet caseless hay p pin = some (some left)) : left.length ≤ pin.length := by
  have hself : some (some pin) = some (some left) → left.length ≤ pin.length := fun heq =>
    (congrArg List.length (Option.some.inj (Option.some.inj heq))).ge
  rw [textFindOctet] at h
  split_ifs at h
  · rw [← Option.some.inj (Option.some.inj h), List.length_tail]
    exact Nat.sub_le _ _
  · simp at h
  · exact hself h
  · obtain ⟨found, hclass, hright⟩ := Option.map_eq_some_iff.mp h
    obtain ⟨right, rfl, rfl⟩ := Option.map_eq_some_iff.mp hright
    rw [List.length_tail]
    exact (Nat.sub_le _ _).trans (textClass_length hclass)
  all_goals first | exact hself h | simp at h

/-- The loop behind an asterisk: how many octets are skipped before the rest of the pattern is found,
    if it is. -/
def textFindSearch (find : List Octet → Int → Option Int) :
    List Octet → Int → Nat → Option (Option Nat)
  | [], _, _ => some none
  | c :: hay, size, skipped =>
      if size ≤ 0 then some none
      else
        match find (c :: hay) size with
        | none => none
        | some found =>
            if found = 0 then some (some skipped) else textFindSearch find hay (size - 1) (skipped + 1)

/-- `hay_size`, or the largest `long` for a negative one. -/
def haySize (size : Int) : Int :=
  if size < 0 then 2 ^ 63 - 1 else size

/-- The loop of `TextFind`. `moved` is `hay - start`. -/
def textFindRest (caseless : Bool) (pin : List Octet) (offset : Int) (moved : Nat)
    (hay : List Octet) (size : Int) : Option Int :=
  match pin with
  -- Have we stop at the end of the pin AND the hay?
  | [] => some (if size = 0 ∨ hay = [] then 0 else -1)
  | p :: pin =>
      if p = ch '*' then
        -- Skip redundant astrisks.
        let rest := pin.dropWhile (· = ch '*')
        if rest = [] then some (if offset < 0 then moved else offset)
        else
          let find hay size := textFindRest caseless rest (-1) 0 hay (haySize size)
          match textFindSearch find hay size 0 with
          | none => none
          | some none => some (-1)
          | some (some skipped) => some (if offset < 0 then moved + skipped else offset)
      else if size ≤ 0 then some (-1)
      else
        match hay with
        | [] => some (-1)
        | c :: hay =>
            match hmatch : textFindOctet caseless c p pin with
            | none => none
            | some none => some (-1)
            | some (some left) =>
                textFindRest caseless left (if offset < 0 then moved else offset) (moved + 1) hay
                  (size - 1)
termination_by pin.length
decreasing_by
  · exact Nat.lt_succ_of_le (List.dropWhile_suffix _).length_le
  · exact Nat.lt_succ_of_le (textFindOctet_length hmatch)

/-- `TextFind (hay, pin, hay_size, caseless)`. -/
def textFindOffset (hay pin : List Octet) (size : Int) (caseless : Bool) : Option Int :=
  textFindRest caseless pin (-1) 0 hay (haySize size)

/-! ### Octet by octet -/

/-- What a pattern has behind the left square bracket of a class, and the memory behind its NUL. -/
structure ClassText where
  text : CString
  behind : Nat → Octet

namespace ClassText

/-- The pattern from the left square bracket on. -/
def pin (p : ClassText) : List Octet :=
  ch '[' :: p.text.octets

/-- The octet at an index. -/
def octet (p : ClassText) (i : Nat) : Octet :=
  (p.pin ++ [0]).getD i (p.behind i)

/-- The octets of the pattern with its NUL. -/
def size (p : ClassText) : Nat :=
  p.pin.length + 1

/-- Read the octet at an index, of an object with `extent` octets. -/
def read (p : ClassText) (extent i : Nat) : Run Octet :=
  Run.load ⟨i, 1, extent⟩ (p.octet i)

/-- `strchr (p + i, ']')`: it reads up to the bracket, or up to the NUL. -/
def strchrRight (p : ClassText) (i : Nat) : Run (Option Nat) :=
  let span := ((p.pin.drop i).takeWhile (· ≠ ch ']')).length
  Run.load ⟨i, span + 1, p.size⟩
    (if i + span < p.pin.length then some (i + span) else none)

end ClassText

/-- The right square bracket of the class whose members begin at `set`. -/
def classRight (p : ClassText) (set : Nat) : Run (Option Nat) := do
  match ← p.strchrRight 1 with
  | none => pure none
  | some pin => if pin = set then p.strchrRight (pin + 1) else pure (some pin)

/-! ### The members -/

/-- The order of characters, when case may be ignored. -/
def charBelow (caseless : Bool) (a b : Octet) : Bool :=
  if caseless then charValue (tolower a) < charValue (tolower b) else charValue a < charValue b

/-- Is the character in the range behind one octet, up to another? -/
def inClassRange (hay : Octet) (caseless : Bool) (before last : Octet) : Bool :=
  charBelow caseless before hay && !charBelow caseless last hay

/-- Is the character the member itself? -/
def isMember (hay : Octet) (caseless : Bool) (c : Octet) : Bool :=
  if caseless then tolower hay = tolower c else hay = c

/-- `*set == '\\' && *hay == set[1]`, for the octet `c` at `set`. -/
def classEscape (hay : Octet) (p : ClassText) (extent set : Nat) (c : Octet) : Run Bool :=
  if c = ch '\\' then do
    let d ← p.read extent (set + 1)
    pure (hay = d)
  else pure false

/-- The test of a range whose hyphen is at `set`. -/
def classRange (hay : Octet) (caseless : Bool) (p : ClassText) (extent set : Nat) : Run Bool := do
  let before ← p.read extent (set - 1)
  if charBelow caseless before hay then do
    let last ← p.read extent (set + 1)
    pure (inClassRange hay caseless before last)
  else pure false

/-- One round of the loop over the members; the result is where it stops. -/
def classStep (hay : Octet) (caseless : Bool) (p : ClassText) (extent set : Nat) :
    Run (Nat ⊕ Nat) := do
  let c ← p.read extent set
  if c = ch ']' then pure (.inr set)
  else do
    let escaped ← classEscape hay p extent set c
    if escaped then pure (.inr (set + 1))
    else if c = ch '-' then do
      let inside ← classRange hay caseless p extent set
      pure (if inside then .inr set else .inl (set + 2))
    else pure (if isMember hay caseless c then .inr set else .inl (set + 1))

/-- The loop over the members, with a round for every octet of the pattern: did it stop before it
    reached the end of the class at `right`? -/
def classMembers (hay : Octet) (caseless : Bool) (p : ClassText) (right set : Nat) : Run Bool := do
  let stop ← Run.loop (classStep hay caseless p (right + 1)) p.size set
  pure (stop ≠ right)

/-! ### `textClass` -/

/-- A right square bracket and then a hyphen at the beginning are literals; then the loop. -/
def classLiterals (hay : Octet) (caseless : Bool) (p : ClassText) (right set : Nat) : Run Bool := do
  let c ← p.read (right + 1) set
  if c = ch ']' ∧ hay = ch ']' then pure true
  else do
    let set := if c = ch ']' then set + 1 else set
    let c ← p.read (right + 1) set
    if c = ch '-' ∧ hay = ch '-' then pure true
    else classMembers hay caseless p right (if c = ch '-' then set + 1 else set)

/-- `textClass (hay, pin, caseless)`: the index of the right square bracket, or NULL. -/
def scanClass (hay : Octet) (caseless : Bool) (p : ClassText) : Run (Option Nat) := do
  let c ← p.read p.size 1
  let negate : Bool := c = ch '^' ∨ c = ch '!'
  let set := if negate then 2 else 1
  match ← classRight p set with
  | none => pure none
  | some right => do
      let matched ← classLiterals hay caseless p right set
      pure (if matched = negate then none else some right)

end Snert
