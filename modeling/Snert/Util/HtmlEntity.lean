/-
Module: Snert.Util.HtmlEntity
Purpose: `htmlEntityDecode` of util/htmlEntity.c with its table of entities, for a source and a
  buffer that lie in one object. Every octet that is read and written is an access to that object.
Trusted boundary: human-reviewed spec
Main exports: entities, strncmpAt, strtolAt, findEntity
-/
import Snert.CModel.Buffer
import Snert.CModel.CString

namespace Snert

open CModel

/-- The table `entities`: names, and the octets that they stand for. -/
def entities : List (String × Octet) :=
  [("&lt;", 0x3C), ("&gt;", 0x3E), ("&amp;", 0x26), ("&quot;", 0x22), ("&apos;", 0x27),
    ("&euro;", 0x80), ("&nbsp;", 0xA0), ("&iexcl;", 0xA1), ("&cent;", 0xA2), ("&pound;", 0xA3),
    ("&curren;", 0xA4), ("&yen;", 0xA5), ("&brvbar;", 0xA6), ("&sect;", 0xA7), ("&uml;", 0xA8),
    ("&copy;", 0xA9), ("&ordf;", 0xAA), ("&laquo;", 0xAB), ("&not;", 0xAC), ("&shy;", 0xAD),
    ("&reg;", 0xAE), ("&macr;", 0xAF), ("&deg;", 0xB0), ("&plusmn;", 0xB1), ("&sup2;", 0xB2),
    ("&sup3;", 0xB3), ("&acute;", 0xB4), ("&micro;", 0xB5), ("&para;", 0xB6), ("&middot;", 0xB7),
    ("&cedil;", 0xB8), ("&sup1;", 0xB9), ("&ordm;", 0xBA), ("&raquo;", 0xBB), ("&frac14;", 0xBC),
    ("&frac12;", 0xBD), ("&frac34;", 0xBE), ("&iquest;", 0xBF), ("&Agrave;", 0xC0),
    ("&Aacute;", 0xC1), ("&Acirc;", 0xC2), ("&Atilde;", 0xC3), ("&Auml;", 0xC4),
    ("&Aring;", 0xC5), ("&AElig;", 0xC6), ("&Ccedil;", 0xC7), ("&Egrave;", 0xC8),
    ("&Eacute;", 0xC9), ("&Ecirc;", 0xCA), ("&Euml;", 0xCB), ("&Igrave;", 0xCC),
    ("&Iacute;", 0xCD), ("&Icirc;", 0xCE), ("&Iuml;", 0xCF), ("&eth;", 0xD0), ("&Ntilde;", 0xD1),
    ("&Ograve;", 0xD2), ("&Oacute;", 0xD3), ("&Ocirc;", 0xD4), ("&Otilde;", 0xD5),
    ("&Ouml;", 0xD6), ("&times;", 0xD7), ("&Oslash;", 0xD8), ("&Ugrave;", 0xD9),
    ("&Uacute;", 0xDA), ("&Ucirc;", 0xDB), ("&Uuml;", 0xDC), ("&Yacute;", 0xDD),
    ("&THORN;", 0xDE), ("&szlig;", 0xDF), ("&agrave;", 0xE0), ("&aacute;", 0xE1),
    ("&acirc;", 0xE2), ("&atilde;", 0xE3), ("&auml;", 0xE4), ("&aring;", 0xE5), ("&aelig;", 0xE6),
    ("&ccedil;", 0xE7), ("&egrave;", 0xE8), ("&eacute;", 0xE9), ("&ecirc;", 0xEA),
    ("&euml;", 0xEB), ("&igrave;", 0xEC), ("&iacute;", 0xED), ("&icirc;", 0xEE), ("&iuml;", 0xEF),
    ("&eth;", 0xF0), ("&ntilde;", 0xF1), ("&ograve;", 0xF2), ("&oacute;", 0xF3),
    ("&ocirc;", 0xF4), ("&otilde;", 0xF5), ("&ouml;", 0xF6), ("&divide;", 0xF7),
    ("&oslash;", 0xF8), ("&ugrave;", 0xF9), ("&uacute;", 0xFA), ("&ucirc;", 0xFB),
    ("&uuml;", 0xFC), ("&yacute;", 0xFD), ("&thorn;", 0xFE), ("&yuml;", 0xFF)]

section Object

variable {n : Nat}

/-- `strncmp (object + i, entity, length of the entity) == 0`. -/
def strncmpAt (object : Buffer n) (i : Nat) : List Octet → Run Bool
  | [] => pure true
  | e :: entity => do
      let c ← object.read i
      if c = e then strncmpAt object (i + 1) entity else return false

/-- `strtol (object + i, &stop, base)`: the number and the index of `stop`. It looks at no octet
    behind the first one that cannot be part of a number. -/
def strtolAt (object : Buffer n) (i base : Nat) : Run (Int × Nat) :=
  let text := object.octets.drop i
  let (value, rest) := strtol text base
  Run.load ⟨i, (text.takeWhile fun c => ¬ Delimiter c).length + 1, n⟩
    (value, i + (text.length - rest.length))

/-- The loop over the table: the length of the name and the octet of the first entity that stands at
    an index. -/
def findEntity (object : Buffer n) (i : Nat) : List (String × Octet) → Run (Option (Nat × Octet))
  | [] => pure none
  | (entity, c) :: rest => do
      if ← strncmpAt object i (ascii entity) then return some ((ascii entity).length, c)
      findEntity object i rest

/-- The octet of a numeric entity that stands at an index, and the index behind it. -/
def numericEntity (object : Buffer n) (s : Nat) : Run (Option (Octet × Nat)) := do
  let x ← object.read (s + 2 : Nat)
  let (start, base) := if x = ch 'x' then (s + 3, 16) else (s + 2, 10)
  let (code, stop) ← strtolAt object start base
  if ¬ (0 ≤ code ∧ code < 256) then return none
  let c ← object.read stop
  return if c = ch ';' then some (code.toNat.toUInt8, stop + 1) else none

/-- What a round writes for the octet `c` at an index, and the index of what is read next. -/
def decodeOctet (object : Buffer n) (s : Nat) (c : Octet) : Run (Octet × Nat) := do
  if c ≠ ch '&' then return (c, s + 1)
  let numeric := (← object.read (s + 1 : Nat)) = ch '#'
  if numeric then
    match ← numericEntity object s with
    -- Write the decoded byte.
    | some decoded => return decoded
    -- Unknown numeric. Copy as is.
    | none => return (c, s + 1)
  else
    match ← findEntity object s entities with
    -- Replace entity name by byte.
    | some (length, code) => return (code, s + length)
    -- No entity by that name. Copy as is.
    | none => return (c, s + 1)

/-- A round of the loop: the indices of what is read and of what is written next. -/
def decodeRound (source length start size : Nat) :
    Buffer n × Nat × Nat → Run (Buffer n × Nat × Nat ⊕ Buffer n × Nat)
  | (object, s, buffer) => do
      if length ≤ s - source then return .inr (object, buffer)
      let c ← object.read s
      if c = 0 ∨ size ≤ buffer - start then return .inr (object, buffer)
      let (code, s) ← decodeOctet object s c
      return .inl (← object.write buffer [code], s, buffer + 1)

/-- `htmlEntityDecode (object + source, length, object + start, size)`: the object, and the length
    of what has been decoded. -/
def htmlEntityDecode (object : Buffer n) (source length start size : Nat) :
    Run (Buffer n × Nat) := do
  if size = 0 then return (object, 0)
  let (object, buffer) ←
    Run.loop (decodeRound source length start size) (length + 1) (object, source, start)
  if buffer - start < size then return (← object.write buffer [0], buffer - start)
  return (object, buffer - start)

end Object

end Snert
