/-
Module: Snert.Proofs.TokenReading
Purpose: The tokens of a string, as they are meant. A string is read from the left, with a quote that
  is open or not and a backslash that is pending or not. Outside quotes an octet is bare when it is no
  quote and no backslash and none stands before it. A token is what is read up to a bare delimiter,
  with its quotes removed and its escapes translated; runs of delimiters stand between tokens.
Trusted boundary: human-reviewed spec
Main exports: readTo, tokensOf, tokensOf_cons
-/
import Mathlib.Data.List.DropRight
import Mathlib.Data.List.TakeWhile
import Snert.Util.TextSplit

namespace Snert

open CModel Lists

/-! ### Reading a quoted string -/

/-- What is behind a reader: the quote that is open, or zero, and whether a backslash is pending. -/
structure Reading where
  quote : Octet
  escape : Bool
deriving DecidableEq, Repr

namespace Reading

/-- Nothing is open. -/
def plain : Reading :=
  ⟨0, false⟩

/-- The octet is behind the reader. -/
def next (r : Reading) (c : Octet) : Reading :=
  if r.escape then { r with escape := false }
  else if isQuote c then
    if r.quote = 0 then { r with quote := c }
    else if c = r.quote then { r with quote := 0 }
    else r
  else if c = ch '\\' then { r with escape := true }
  else r

/-- The octet stands outside quotes, is neither a quote nor a backslash, and is not escaped. -/
def isBare (r : Reading) (c : Octet) : Bool :=
  !r.escape && r.quote = 0 && !isQuote c && c ≠ ch '\\'

/-- What an octet stands for. -/
def value (r : Reading) (c : Octet) : List Octet :=
  if r.escape then [textBackslash c]
  else if isQuote c then if r.quote ≠ 0 ∧ c ≠ r.quote then [c] else []
  else if c = ch '\\' then []
  else [c]

/-- The text is behind the reader. -/
def after (r : Reading) (text : List Octet) : Reading :=
  text.foldl next r

end Reading

/-- What a text stands for when its quotes are removed and its escapes are translated. -/
def unquote : Reading → List Octet → List Octet
  | _, [] => []
  | r, c :: text => r.value c ++ unquote (r.next c) text

/-- The text up to the first bare delimiter, and the rest from there on. -/
def readTo (delims : List Octet) : Reading → List Octet → List Octet × List Octet
  | _, [] => ([], [])
  | r, c :: text =>
      if r.isBare c ∧ c ∈ delims then ([], c :: text)
      else (c :: (readTo delims (r.next c) text).1, (readTo delims (r.next c) text).2)

/-- What is left behind the delimiter at the start of a text, if any is there. -/
def behindDelim : List Octet → Option (List Octet)
  | [] => none
  | _ :: rest => some rest

/-- The first token of a string, and what is left behind the delimiter that ends it. -/
def firstToken (delims string : List Octet) : Option (List Octet × Option (List Octet)) :=
  match string.dropWhile (· ∈ delims) with
  | [] => none
  | c :: rest =>
      some (unquote .plain (readTo delims .plain (c :: rest)).1,
        behindDelim (readTo delims .plain (c :: rest)).2)

/-- The tokens of a string. -/
def tokensOf (delims string : List Octet) : List (List Octet) :=
  parts (firstToken delims) (string.length + 1) string

/-! ### Facts about reading -/

variable {delims : List Octet} {r : Reading} {c : Octet}

theorem Reading.eq_plain_of_bare (h : r.isBare c) : r = .plain := by
  simp only [isBare, Bool.and_eq_true, Bool.not_eq_true', decide_eq_true_eq] at h
  obtain ⟨⟨⟨hescape, hquote⟩, -⟩, -⟩ := h
  rcases r with ⟨quote, escape⟩
  exact (congrArg₂ Reading.mk hquote hescape : _)

theorem Reading.after_cons (r : Reading) (c : Octet) (text : List Octet) :
    r.after (c :: text) = (r.next c).after text := rfl

theorem readTo_append (delims : List Octet) (r : Reading) (text : List Octet) :
    (readTo delims r text).1 ++ (readTo delims r text).2 = text := by
  induction text generalizing r with
  | nil => rfl
  | cons c text ih =>
      rw [readTo]
      split
      · rfl
      · exact congrArg (c :: ·) (ih (r.next c))

theorem readTo_rest {delim : Octet} {text rest : List Octet}
    (h : (readTo delims r text).2 = delim :: rest) :
    delim ∈ delims ∧ r.after (readTo delims r text).1 = .plain := by
  induction text generalizing r with
  | nil => cases h
  | cons c text ih =>
      rw [readTo] at h ⊢
      split at h
      · rename_i hc
        rw [if_pos hc]
        obtain ⟨rfl, -⟩ := List.cons.inj h
        exact ⟨hc.2, Reading.eq_plain_of_bare hc.1⟩
      · rename_i hc
        rw [if_neg hc]
        exact ih h

theorem readTo_readTo (delims : List Octet) (r : Reading) (text : List Octet) :
    readTo delims r (readTo delims r text).1 = ((readTo delims r text).1, []) := by
  induction text generalizing r with
  | nil => rfl
  | cons c text ih =>
      rw [readTo]
      split
      · rfl
      · rename_i hc
        rw [readTo, if_neg hc, ih]

/-! ### Facts about tokens -/

theorem firstToken_shortens (delims : List Octet) : Takes.Shortens (firstToken delims) := by
  intro string token rest h
  have hle := (List.dropWhile_suffix (l := string) (· ∈ delims)).length_le
  unfold firstToken at h
  split at h
  · cases h
  · rename_i c text hskip
    rw [hskip] at hle
    have hbehind := (Prod.mk.inj (Option.some.inj h)).2
    have happend := congrArg List.length (readTo_append delims .plain (c :: text))
    rw [List.length_append] at happend
    cases hrest : (readTo delims .plain (c :: text)).2 with
    | nil =>
        rw [hrest] at hbehind
        cases hbehind
    | cons delim behind =>
        rw [hrest] at hbehind happend
        obtain rfl := Option.some.inj hbehind
        rw [List.length_cons] at happend
        omega

theorem tokensOf_dropWhile (delims string : List Octet) :
    tokensOf delims (string.dropWhile (· ∈ delims)) = tokensOf delims string := by
  have hskip : firstToken delims (string.dropWhile (· ∈ delims)) = firstToken delims string := by
    unfold firstToken
    rw [List.dropWhile_idempotent]
  rw [tokensOf, tokensOf, parts_eq (firstToken_shortens delims), hskip,
    ← parts_eq (firstToken_shortens delims)]

/-- The tokens of a text that does not begin with a delimiter: the first one, and those behind it. -/
theorem tokensOf_cons {text : List Octet} (hc : c ∉ delims) :
    tokensOf delims (c :: text) = unquote .plain (readTo delims .plain (c :: text)).1 ::
      tokensOf delims (readTo delims .plain (c :: text)).2 := by
  have hskip : (c :: text).dropWhile (· ∈ delims) = c :: text :=
    List.dropWhile_cons_of_neg (by simpa using hc)
  have hfirst : firstToken delims (c :: text) = some (unquote .plain (readTo delims .plain (c :: text)).1,
      behindDelim (readTo delims .plain (c :: text)).2) := by
    rw [firstToken, hskip]
  rw [tokensOf, parts_eq (firstToken_shortens delims), hfirst]
  cases hrest : (readTo delims .plain (c :: text)).2 with
  | nil => rfl
  | cons delim rest =>
      have hdelim := (readTo_rest hrest).1
      rw [← tokensOf_dropWhile delims (delim :: rest),
        List.dropWhile_cons_of_pos (by simpa using hdelim), tokensOf_dropWhile]
      rfl

theorem tokensOf_eq_nil_iff (delims string : List Octet) :
    tokensOf delims string = [] ↔ ∀ c ∈ string, c ∈ delims := by
  have hnil : string.dropWhile (· ∈ delims) = [] ↔ ∀ c ∈ string, c ∈ delims := by
    rw [List.dropWhile_eq_nil_iff]
    simp
  rw [← hnil, ← tokensOf_dropWhile]
  have hhead := List.head?_dropWhile_not (· ∈ delims) string
  cases hskip : string.dropWhile (· ∈ delims) with
  | nil => exact iff_of_true rfl rfl
  | cons c text =>
      rw [hskip] at hhead
      rw [tokensOf_cons (by simpa using hhead)]
      simp

end Snert
