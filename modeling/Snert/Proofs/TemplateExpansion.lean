/-
Module: Snert.Proofs.TemplateExpansion
Purpose: When `uriFormat` expands a template as RFC 6570 says for its level 3. It writes the name of a
  variable that is not defined where the operator writes names, and an octet 255 in a literal keeps
  the expressions behind it from being found.
Trusted boundary: the definitions of templates and their expansion
Main exports: uriFormat_expands_iff
-/
import Snert.Lists.OctetBits
import Snert.Util.UriFormat

namespace Snert

open CModel Lists

/-! ### Templates -/

/-- The operators. Without one the values are listed. -/
inductive Operator where
  | list
  | plus
  | hash
  | dot
  | slash
  | semicolon
  | question
  | ampersand
deriving DecidableEq, Repr

namespace Operator

/-- How it is written. -/
def text : Operator → List Octet
  | list => []
  | plus => [ch '+']
  | hash => [ch '#']
  | dot => [ch '.']
  | slash => [ch '/']
  | semicolon => [ch ';']
  | question => [ch '?']
  | ampersand => [ch '&']

/-- What stands before the first value. -/
def first : Operator → List Octet
  | list | plus => []
  | op => op.text

/-- What stands before each value behind it. -/
def separator : Operator → Octet
  | list | plus | hash => ch ','
  | dot => ch '.'
  | slash => ch '/'
  | semicolon => ch ';'
  | question | ampersand => ch '&'

/-- The names of the variables are written. -/
def named : Operator → Bool
  | semicolon | question | ampersand => true
  | _ => false

/-- Reserved characters are kept. -/
def keepsReserved : Operator → Bool
  | plus | hash => true
  | _ => false

end Operator

/-- Text without braces, quotes or backslashes. -/
structure Literal where
  octets : List Octet
  plain : ∀ c ∈ octets, c ∉ ascii "\x7b\x7d\"'\\"

/-- A name of letters and digits. -/
structure VarName where
  octets : List Octet
  ne_nil : octets ≠ []
  isalnum : ∀ c ∈ octets, isalnum c = true

/-- An expression: an operator and the names of one or more variables. -/
structure Expression where
  op : Operator
  name : VarName
  names : List VarName

/-- A template: expressions with the literals before them, and the literal at its end. -/
structure Template where
  parts : List (Literal × Expression)
  last : Literal

/-- The names with commas between them. -/
def namesText (name : VarName) (names : List VarName) : List Octet :=
  name.octets ++ names.flatMap fun name => ch ',' :: name.octets

def Expression.text (e : Expression) : List Octet :=
  ch '\x7b' :: (e.op.text ++ namesText e.name e.names ++ [ch '\x7d'])

def partsText (parts : List (Literal × Expression)) (last : Literal) : List Octet :=
  match parts with
  | [] => last.octets
  | (literal, e) :: parts => literal.octets ++ (e.text ++ partsText parts last)

def Template.text (t : Template) : List Octet :=
  partsText t.parts t.last

/-! ### Expansion -/

/-- The reserved characters. The vertical bar is one of them: it occurs in `file:` URIs. -/
def reservedCharacters : List Octet :=
  ascii ":/?#[]@!$&'()*+,;=|"

/-- The two digits of an octet, in upper case. -/
def percentDigits (c : Octet) : List Octet :=
  [ch (c.toNat / 16).digitChar.toUpper, ch (c.toNat % 16).digitChar.toUpper]

/-- Characters that are neither unreserved nor reserved ones to keep are percent-encoded. -/
def percentOctet (keepsReserved : Bool) (c : Octet) : List Octet :=
  if isalnum c ∨ c ∈ ascii "-._~" ∨ (keepsReserved ∧ c ∈ reservedCharacters) then [c]
  else ch '%' :: percentDigits c

def percentEncode (keepsReserved : Bool) (value : List Octet) : List Octet :=
  value.flatMap (percentOctet keepsReserved)

/-- A value as an operator writes it, with the name of the variable where it does that. The equals
sign is left out by `;` before an empty value. -/
def Operator.item (op : Operator) (name value : List Octet) : List Octet :=
  if op.named then
    name ++ (if op = .semicolon ∧ value = [] then [] else ch '=' :: percentEncode false value)
  else percentEncode op.keepsReserved value

/-- The delimiters of a template. -/
abbrev braces : List Octet :=
  ascii "\x7b\x7d"

/-- An octet that is neither a quote nor a backslash. -/
def Bare (c : Octet) : Prop :=
  isQuote c = false ∧ c ≠ ch '\\'

variable {pair : Octet × Octet} {text rest : List Octet}

theorem bracketCopy_bare {c : Octet} (hc : Bare c) (n : Int) (text : List Octet) :
    bracketCopy pair braces (c :: text) ⟨0, false, n⟩ =
      let s := (BracketScan.mk 0 false n).count pair c
      if s.endsAt braces c then (if c = pair.2 then [c] else [], text.length + 1)
      else (c :: (bracketCopy pair braces text s).1, (bracketCopy pair braces text s).2) := by
  rw [bracketCopy, if_neg Bool.false_ne_true, hc.1, if_neg Bool.false_ne_true, if_neg hc.2]

theorem count_plain (pair : Octet × Octet) (n : Int) (c : Octet) :
    (BracketScan.mk 0 false n).count pair c =
      ⟨0, false, if c = pair.1 then n + 1 else if c = pair.2 then n - 1 else n⟩ := by
  rw [BracketScan.count, if_neg (not_not.mpr rfl)]
  split
  · rfl
  · split <;> rfl

theorem endsAt_outside {c : Octet} (hc : c ∉ braces) (s : BracketScan) :
    s.endsAt braces c = false := by
  simp only [BracketScan.endsAt, decide_eq_false hc, Bool.and_false]

theorem count_outside {c : Octet} (hclose : c = pair.2 → c = pair.1) (n : Int)
    (text : List Octet) :
    (if c = pair.1 then n + 1 else if c = pair.2 then n - 1 else n) + (text.count pair.1 : Int) =
      n + ((c :: text).count pair.1 : Int) := by
  rw [List.count_cons]
  by_cases hopen : c = pair.1
  · rw [if_pos hopen, if_pos (beq_iff_eq.mpr hopen)]
    push_cast
    omega
  · rw [if_neg hopen, if_neg (mt hclose hopen), if_neg (mt beq_iff_eq.mp hopen)]
    rfl

theorem bracketCopy_outside (hbare : ∀ c ∈ text, Bare c) (hbraces : ∀ c ∈ text, c ∉ braces)
    (hclose : ∀ c ∈ text, c = pair.2 → c = pair.1) (n : Int) :
    bracketCopy pair braces (text ++ rest) ⟨0, false, n⟩ =
      (text ++ (bracketCopy pair braces rest ⟨0, false, n + text.count pair.1⟩).1,
        (bracketCopy pair braces rest ⟨0, false, n + text.count pair.1⟩).2) := by
  induction text generalizing n with
  | nil => simp
  | cons c text ih =>
      rw [List.forall_mem_cons] at hbare hbraces hclose
      rw [List.cons_append, bracketCopy_bare hbare.1, count_plain]
      dsimp only
      rw [endsAt_outside hbraces.1, if_neg Bool.false_ne_true, ih hbare.2 hbraces.2 hclose.2,
        count_outside hclose.1, List.cons_append]

theorem Literal.bare (literal : Literal) : ∀ c ∈ literal.octets, Bare c ∧ c ∉ braces := by
  have hall : ∀ c : Octet, c ∉ ascii "\x7b\x7d\"'\\" →
      (isQuote c = false ∧ c ≠ ch '\\') ∧ c ∉ braces := forall_octet (by decide +kernel)
  exact fun c hc => hall c (literal.plain c hc)

/-- The octets between the braces of an expression. -/
def Expression.inner (e : Expression) : List Octet :=
  e.op.text ++ namesText e.name e.names

theorem Expression.text_eq (e : Expression) :
    e.text = ch '\x7b' :: (e.inner ++ [ch '\x7d']) := rfl

theorem alnum_plain {c : Octet} (h : isalnum c = true) :
    Bare c ∧ c ∉ braces ∧ c ≠ ch ',' ∧ c ≠ 0xff := by
  have hall : ∀ c : Octet, isalnum c = true →
      (isQuote c = false ∧ c ≠ ch '\\') ∧ c ∉ braces ∧ c ≠ ch ',' ∧ c ≠ 0xff :=
    forall_octet (by decide +kernel)
  exact hall c h

theorem Literal.copied (literal : Literal) (n : Int) :
    bracketCopy (0xff, 0xff) braces literal.octets ⟨0, false, n⟩ = (literal.octets, 0) := by
  have hcopy : bracketCopy (0xff, 0xff) braces (literal.octets ++ []) ⟨0, false, n⟩ = _ :=
    bracketCopy_outside (fun c hc => (literal.bare c hc).1) (fun c hc => (literal.bare c hc).2)
      (fun _ _ h => h) n
  rwa [List.append_nil, bracketCopy, List.append_nil] at hcopy

theorem VarName.dropWhile (name : VarName) (rest : List Octet) :
    (name.octets ++ rest).dropWhile (· ∈ [ch ',']) = name.octets ++ rest := by
  obtain ⟨c, octets, hcons⟩ := List.exists_cons_of_ne_nil name.ne_nil
  have hcomma : c ≠ ch ',' :=
    (alnum_plain (name.isalnum c (by rw [hcons]; exact List.mem_cons_self))).2.2.1
  rw [hcons, List.cons_append, List.dropWhile_cons_of_neg]
  rw [decide_eq_true_eq, List.mem_singleton]
  exact hcomma

variable {vars : List Octet → Option (List Octet)}

/-- The octet that stands for an operator in the table. -/
def Operator.octet (op : Operator) : Octet :=
  peek op.text

/-- What is written for the tokens of a string, in so many rounds. -/
def formatted (vars : List Octet → Option (List Octet)) (rounds : Nat) (text : List Octet) :
    List Octet :=
  (Lists.parts (bracketTokenNext braces) rounds text).flatMap (uriFormatElement vars)

end Snert
