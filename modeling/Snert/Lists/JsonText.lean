/-
Module: Snert.Lists.JsonText
Purpose: JSON values as they are written, with the white space between their parts, and the members
  and elements of a value together with the text behind each. A scalar is any text of letters,
  digits, signs and dots, which numbers and literals are, and a string may hold any escape.
Trusted boundary: human-reviewed spec
Main exports: Json, Json.text, Elements.nth, Members.nth
-/
import Snert.CModel.CString

namespace Lists

open CModel

/-! ### Parts without structure -/

/-- White space of JSON. -/
structure Blank where
  text : List Octet
  valid : ∀ c ∈ text, c ∈ ascii " \t\n\r"

/-- A number or a literal. -/
structure JsonScalar where
  text : List Octet
  nonempty : text ≠ []
  valid : ∀ c ∈ text, isalnum c = true ∨ c ∈ ascii "+-."

/-- Is a text what may stand between the quotes of a string? A backslash escapes the octet behind
    it. -/
def isBody : List Octet → Bool
  | [] => true
  | [c] => c ≠ 0 && c ≠ ch '"' && c ≠ ch '\\'
  | c :: d :: s =>
      if c = ch '\\' then d ≠ 0 && isBody s else c ≠ 0 && c ≠ ch '"' && isBody (d :: s)

/-- A string, by what stands between its quotes. -/
structure JsonString where
  body : List Octet
  valid : isBody body = true

/-- A string with its quotes. -/
def JsonString.text (s : JsonString) : List Octet :=
  ch '"' :: (s.body ++ [ch '"'])

/-! ### Values -/

mutual

/-- A value. -/
inductive Json where
  | scalar (s : JsonScalar)
  | string (s : JsonString)
  | emptyArray (blank : Blank)
  | array (elements : Elements)
  | emptyObject (blank : Blank)
  | object (members : Members)

/-- The elements of an array, with the white space around each. -/
inductive Elements where
  | last (before : Blank) (value : Json) (after : Blank)
  | more (before : Blank) (value : Json) (after : Blank) (elements : Elements)

/-- The members of an object, with the white space around each name and value. -/
inductive Members where
  | last (before : Blank) (name : JsonString) (afterName afterColon : Blank) (value : Json)
      (after : Blank)
  | more (before : Blank) (name : JsonString) (afterName afterColon : Blank) (value : Json)
      (after : Blank) (members : Members)

end

mutual

/-- How a value is written. -/
def Json.text : Json → List Octet
  | .scalar s => s.text
  | .string s => s.text
  | .emptyArray blank => ch '[' :: (blank.text ++ [ch ']'])
  | .array elements => ch '[' :: (elements.text ++ [ch ']'])
  | .emptyObject blank => ch '\x7b' :: (blank.text ++ [ch '\x7d'])
  | .object members => ch '\x7b' :: (members.text ++ [ch '\x7d'])

/-- How the elements of an array are written, without its brackets. -/
def Elements.text : Elements → List Octet
  | .last before value after => before.text ++ value.text ++ after.text
  | .more before value after elements =>
      before.text ++ value.text ++ after.text ++ ch ',' :: elements.text

/-- How the members of an object are written, without its brackets. -/
def Members.text : Members → List Octet
  | .last before name afterName afterColon value after =>
      before.text ++ name.text ++ afterName.text ++
        ch ':' :: (afterColon.text ++ value.text ++ after.text)
  | .more before name afterName afterColon value after members =>
      before.text ++ name.text ++ afterName.text ++
        ch ':' :: (afterColon.text ++ value.text ++ after.text ++ ch ',' :: members.text)

end

/-- Is a value an array or an object? -/
def Json.isCompound : Json → Bool
  | .scalar _ | .string _ => false
  | _ => true

/-! ### Elements and members

Each comes with the text behind its value, where `rest` is the text behind all of them. -/

/-- The element of an index. -/
def Elements.nth : Elements → Nat → List Octet → Option (Json × List Octet)
  | .last _ value after, 0, rest => some (value, after.text ++ rest)
  | .last .., _ + 1, _ => none
  | .more _ value after elements, 0, rest =>
      some (value, after.text ++ ch ',' :: (elements.text ++ rest))
  | .more _ _ _ elements, n + 1, rest => elements.nth n rest

/-- The last value, with the white space behind it. -/
def Elements.final : Elements → List Octet
  | .last _ value after => value.text ++ after.text
  | .more _ _ _ elements => elements.final

/-- The value of the member of an index. -/
def Members.nth : Members → Nat → List Octet → Option (Json × List Octet)
  | .last _ _ _ _ value after, 0, rest => some (value, after.text ++ rest)
  | .last .., _ + 1, _ => none
  | .more _ _ _ _ value after members, 0, rest =>
      some (value, after.text ++ ch ',' :: (members.text ++ rest))
  | .more _ _ _ _ _ _ members, n + 1, rest => members.nth n rest

/-- The value of the first member of a name, as the name is written. -/
def Members.named (key : List Octet) : Members → List Octet → Option (Json × List Octet)
  | .last _ name _ _ value after, rest =>
      if name.body = key then some (value, after.text ++ rest) else none
  | .more _ name _ _ value after members, rest =>
      if name.body = key then some (value, after.text ++ ch ',' :: (members.text ++ rest))
      else members.named key rest

/-- The last value, with the white space behind it. -/
def Members.final : Members → List Octet
  | .last _ _ _ _ value after => value.text ++ after.text
  | .more _ _ _ _ _ _ members => members.final

/-- The names of all members. -/
def Members.names : Members → List JsonString
  | .last _ name .. => [name]
  | .more _ name _ _ _ _ members => name :: members.names

end Lists
