/-
Module: Snert.Util.Jspr
Purpose: `jspr_token`, `jspr_find` and `jspr_find_labels` of util/jspr.c, which find values in a
  JSON text by labels. A pointer into the text is what is left of the string, so two pointers give a
  span. A `char` is signed. The debug output and the guard against NULL are left out.
Trusted boundary: human-reviewed spec
Main exports: jsprToken, jsprFind, jsprFindLabels
-/
import Snert.CModel.CString
import Snert.Util.UriMime

namespace Snert

open CModel

/-- `WS`. -/
def jsprWs : List Octet :=
  ascii " \t\n\r" ++ [12]

/-- `COMMA_WS`. -/
def commaWs : List Octet :=
  ch ',' :: jsprWs

/-- `OBJECT_WS`. -/
def objectWs : List Octet :=
  ascii "\x7d]" ++ commaWs

/-- White space is skipped: `s + strspn (s, WS)`. -/
def skipWs (s : List Octet) : List Octet :=
  s.dropWhile (· ∈ jsprWs)

/-! ### Tokens -/

/-- The brackets that `jspr_token` counts. Those of an unquoted string are the `char` -1. -/
def jsprBrackets (c : Octet) : Octet × Octet :=
  if c = ch '\x7b' then (ch '\x7b', ch '\x7d')
  else if c = ch '[' then (ch '[', ch ']')
  else (0xff, 0xff)

/-- The count of brackets behind an octet. -/
def countBracket (brackets : Octet × Octet) (c : Octet) (bcount : Int) : Int :=
  if c = brackets.1 then bcount + 1 else if c = brackets.2 then bcount - 1 else bcount

/-- The loop of `jspr_token`: what is left of the string where it stops. A `quote` of 0 is none. -/
def jsprScan (brackets : Octet × Octet) (delims : List Octet) :
    List Octet → Int → Bool → Octet → List Octet
  | [], _, _, _ => []
  | c :: s, bcount, escape, quote =>
      if escape then jsprScan brackets delims s bcount false quote
      else if c = ch '"' ∨ c = ch '\'' then
        jsprScan brackets delims s bcount false
          (if quote = 0 then c else if c = quote then 0 else quote)
      else if c = ch '\\' then jsprScan brackets delims s bcount true quote
      else if quote = 0 then
        let bcount := countBracket brackets c bcount
        if bcount = 0 ∧ c ∈ delims then c :: s else jsprScan brackets delims s bcount false quote
      else jsprScan brackets delims s bcount false quote

/-- `jspr_token (str, &stop, delims)`: the start of the token, and where the scanner stops. -/
def jsprToken (str delims : List Octet) : List Octet × List Octet :=
  let str := skipWs str
  (str, jsprScan (jsprBrackets (peek str)) delims str 0 false 0)

/-! ### Keys and elements -/

/-- The index that a key is, or -1. -/
def jsprIndex (key : List Octet) : Int :=
  if isDigit 10 (peek key) then toInt32 (strtol key 10).1 else -1

/-- Does a token of `length` octets at `js` match a key? Two octets less than one are no limit. -/
def jsprMatches (js key : List Octet) (length : Nat) : Bool :=
  js.take length = key.take length ||
    (peek js = ch '"' &&
      if length < 2 then js.tail = key else js.tail.take (length - 2) = key.take (length - 2))

/-- The loop of `jspr_find` over an object, which gives the key and `*end`. Each round takes an
    octet at least. -/
def jsprObject (key : List Octet) : Nat → Int → List Octet → Option (List Octet × List Octet)
  | 0, _, _ => none
  | rounds + 1, index, js =>
      if js = [] then none
      else
        let token := jsprToken js (ascii ":\x7d" ++ jsprWs)
        let js := token.1
        let stop := skipWs token.2
        -- A colon must follow the key.
        if peek stop ≠ ch ':' then none
        else if index < 0 ∧ jsprMatches js key (js.length - token.2.length) then some (js, stop)
        else if 0 ≤ index ∧ index - 1 < 0 then some (js, stop)
        else
          let value := skipWs (jsprToken stop.tail commaWs).2
          let next := skipWs (if peek value = ch ',' then value.tail else value)
          if peek next = ch '\x7d' then none
          else jsprObject key rounds (if index < 0 then index else index - 1) next

/-- The loop of `jspr_find` over an array. Each round takes an octet at least. -/
def jsprArray : Nat → Int → List Octet → Option (List Octet × List Octet)
  | 0, _, _ => none
  | rounds + 1, index, js =>
      if js = [] then none
      else
        let token := jsprToken js commaWs
        let stop := skipWs token.2
        -- The end of the array comes before the index.
        if peek token.1 = ch ']' then none
        else if index - 1 < 0 then some (token.1, stop)
        else
          let next := skipWs (if peek stop = ch ',' then stop.tail else stop)
          if peek next = ch ']' then none else jsprArray rounds (index - 1) next

/-- `jspr_find (js, &end, key)`. -/
def jsprFind (js key : List Octet) : Option (List Octet × List Octet) :=
  let index := jsprIndex key
  let js := skipWs js
  if peek js = ch '\x7b' then jsprObject key (js.length + 1) index js.tail
  else if peek js = ch '[' ∧ 0 ≤ index then jsprArray (js.length + 1) index js.tail
  else none

/-! ### Labels -/

/-- The loop of `jspr_find_labels`: `js` and `stop` behind the labels. -/
def jsprWalk (keyName : Bool) : List Octet → List (List Octet) →
    Option (List Octet × List Octet)
  | _, [] => none
  | js, label :: labels => do
      let (js, stop) ← jsprFind js label
      let js := if peek stop = ch ':' ∧ (labels ≠ [] ∨ ¬ keyName) then skipWs stop.tail else js
      if labels = [] then return (js, stop) else jsprWalk keyName js labels

/-- What is found, without the quotes of a string: the last quote before `stop` ends it. -/
def jsprUnquote (js stop : List Octet) : List Octet × Int :=
  let text := js.take (js.length - stop.length)
  if peek js = ch '"' then (js.tail, (text.length : Int) - 2 - text.reverse.idxOf (ch '"'))
  else (js, text.length)

/-- `jspr_find_labels (js, labels, &span, flags)`, with `JSPR_KEY_NAME` in the flags or not: the
    start of what is found, and its span. -/
def jsprFindLabels (js : List Octet) (labels : List (List Octet)) (keyName : Bool) :
    Option (List Octet × Int) :=
  match labels.getLast? with
  | none => some (js, js.length)
  | some last => do
      let (js, stop) ← jsprWalk keyName js labels
      let (js, stop) :=
        if keyName then if peek stop ≠ ch ':' then (last, []) else (js, stop)
        else jsprToken js
          (if peek js = ch '\x7b' ∨ peek js = ch '[' ∨ js = [] then commaWs else objectWs)
      let (js, span) := jsprUnquote js stop
      if 0 < span then some (js, span) else none

end Snert
