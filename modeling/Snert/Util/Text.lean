/-
Module: Snert.Util.Text
Purpose: The string functions of util/ that the mail and network code is built on: `TextCopy`,
  `TextTransliterate`, `TextInsensitiveStartsWith`, `TextInsensitiveEndsWith`, `strlrspn` and
  `strlrcspn`, and `TextFindQuote` of util/TextFind.c, which writes a pattern for `TextFind` into
  the object of `size` octets that the caller promises. A string argument is the list of its octets;
  `TextCopy` writes into a buffer and returns, as the repository's version does, the length of the
  whole source string when it had to truncate.
Trusted boundary: human-reviewed spec
Main exports: strlrspn, strlrcspn, textInsensitiveStartsWith, textInsensitiveEndsWith
-/
import Mathlib.Data.List.GetD
import Snert.CModel.Buffer
import Snert.CModel.CString

namespace Snert

open CModel CModel.Run

/-! ### Backward spans -/

/-- `strlrspn (string, offset, delims)`: scan backwards over delimiters. -/
def strlrspn (string delims : List Octet) : Nat → Nat
  | 0 => 0
  | offset + 1 =>
      if string.getD offset 0 ∈ delims then strlrspn string delims offset else offset + 1

/-- `strlrcspn (string, offset, delims)`: scan backwards over octets that are no delimiters. -/
def strlrcspn (string delims : List Octet) : Nat → Nat
  | 0 => 0
  | offset + 1 =>
      if string.getD offset 0 ∈ delims then offset + 1 else strlrcspn string delims offset

theorem strlrspn_le (string delims : List Octet) (offset : Nat) :
    strlrspn string delims offset ≤ offset := by
  induction offset with
  | zero => exact Nat.le_refl 0
  | succ offset ih =>
      unfold strlrspn
      split
      · exact Nat.le_succ_of_le ih
      · exact Nat.le_refl _

theorem strlrcspn_le (string delims : List Octet) (offset : Nat) :
    strlrcspn string delims offset ≤ offset := by
  induction offset with
  | zero => exact Nat.le_refl 0
  | succ offset ih =>
      unfold strlrcspn
      split
      · exact Nat.le_refl _
      · exact Nat.le_succ_of_le ih

theorem strlrspn_append (string rest delims : List Octet) {n : Nat} (hn : n ≤ string.length) :
    strlrspn (string ++ rest) delims n = strlrspn string delims n := by
  induction n with
  | zero => rfl
  | succ n ih => rw [strlrspn, strlrspn, List.getD_append _ _ _ _ hn, ih (Nat.le_of_succ_le hn)]

theorem strlrcspn_append (string rest delims : List Octet) {n : Nat} (hn : n ≤ string.length) :
    strlrcspn (string ++ rest) delims n = strlrcspn string delims n := by
  induction n with
  | zero => rfl
  | succ n ih => rw [strlrcspn, strlrcspn, List.getD_append _ _ _ _ hn, ih (Nat.le_of_succ_le hn)]

/-! ### Comparison and transliteration -/

/-- `TextInsensitiveStartsWith (text, prefix)`: the length of the prefix, or -1. -/
def textInsensitiveStartsWith : List Octet → List Octet → Int
  | _, [] => 0
  | [], _ :: _ => -1
  | c :: text, d :: start =>
      if tolower c ≠ tolower d then -1
      else
        let n := textInsensitiveStartsWith text start
        if n < 0 then -1 else n + 1

/-- `TextInsensitiveEndsWith (text, suffix)`: the strings are compared from their ends. -/
def textInsensitiveEndsWith (text suffix : List Octet) : Int :=
  let n := textInsensitiveStartsWith text.reverse suffix.reverse
  if n < 0 then -1 else text.length - n

theorem textInsensitiveStartsWith_nonneg {text start : List Octet} :
    0 ≤ textInsensitiveStartsWith text start ↔ start.map tolower <+: text.map tolower := by
  induction start generalizing text with
  | nil => simp [textInsensitiveStartsWith]
  | cons d start ih =>
      cases text with
      | nil => simp [textInsensitiveStartsWith]
      | cons c text =>
          rw [textInsensitiveStartsWith, List.map_cons, List.map_cons, List.cons_prefix_cons, ← ih]
          by_cases hcd : tolower c = tolower d
          · rw [if_neg (not_not.mpr hcd), and_iff_right hcd.symm]
            dsimp only
            split <;> omega
          · rw [if_pos hcd]
            exact iff_of_false (by decide) fun h => hcd h.1.symm

theorem textInsensitiveStartsWith_le (text start : List Octet) :
    textInsensitiveStartsWith text start ≤ text.length := by
  induction start generalizing text with
  | nil => simp [textInsensitiveStartsWith]
  | cons d start ih =>
      cases text with
      | nil => simp [textInsensitiveStartsWith]
      | cons c text =>
          have hrest := ih text
          rw [textInsensitiveStartsWith, List.length_cons]
          split
          · omega
          · dsimp only
            split <;> omega

theorem textInsensitiveEndsWith_nonneg {text suffix : List Octet} :
    0 ≤ textInsensitiveEndsWith text suffix ↔ suffix.map tolower <:+ text.map tolower := by
  have hstart : 0 ≤ textInsensitiveStartsWith text.reverse suffix.reverse ↔
      suffix.map tolower <:+ text.map tolower := by
    rw [textInsensitiveStartsWith_nonneg, List.map_reverse, List.map_reverse, List.reverse_prefix]
  have hle : textInsensitiveStartsWith text.reverse suffix.reverse ≤ (text.length : Int) :=
    @List.length_reverse _ text ▸ textInsensitiveStartsWith_le _ _
  rw [textInsensitiveEndsWith, ← hstart]
  split <;> omega

/-- Where an octet goes: to the octet of `toSet` in its place, or to the last one when `toSet` is
    too short. -/
def transliterateOctet (fromSet toSet : List Octet) (c : Octet) : Octet :=
  if c ∈ fromSet then toSet.getD (min (fromSet.idxOf c) (toSet.length - 1)) 0 else c

/-- `TextTransliterate (string, from_set, to_set)`, the string it leaves. An empty `to_set` deletes
    the octets of `from_set`. -/
def textTransliterate (string fromSet toSet : List Octet) : List Octet :=
  if toSet = [] then string.filter (· ∉ fromSet)
  else string.map (transliterateOctet fromSet toSet)

theorem textTransliterate_length {string fromSet toSet : List Octet} (h : toSet ≠ []) :
    (textTransliterate string fromSet toSet).length = string.length := by
  simp [textTransliterate, h]

/-! ### `TextCopy` -/

/-- The copying loop of `TextCopy`: octets go to index `t` until the NUL of the source has been
    copied or `tsize` octets have been. The result holds the source that was not copied, unless the
    NUL was. -/
def textCopyLoop {n : Nat} (b : Buffer n) (t : Int) :
    Nat → List Octet → Run (Buffer n × Option (List Octet))
  | 0, s => pure (b, some s)
  | _ + 1, [] => do
      let b ← b.write t [0]
      pure (b, none)
  | tsize + 1, c :: s => do
      let b ← b.write t [c]
      textCopyLoop b (t + 1) tsize s

/-- `TextCopy (b + t, tsize, s)`. The length returned is that of the source string, except that
    nothing is looked at when `tsize` is zero. -/
def textCopy {n : Nat} (b : Buffer n) (t : Int) (tsize : Nat) (s : List Octet) :
    Run (Buffer n × Nat) := do
  match ← textCopyLoop b t tsize s with
  | (b, none) => pure (b, s.length)
  | (b, some rest) =>
      if 0 < tsize then do
        let b ← b.write (t + tsize - 1) [0]
        pure (b, tsize + rest.length)
      else pure (b, 0)

/-- What the copying loop leaves behind the index `t`. -/
def copiedOctets (tsize : Nat) (s : List Octet) : List Octet :=
  if s.length < tsize then s ++ [0] else s.take tsize

theorem copiedOctets_cons (tsize : Nat) (c : Octet) (s : List Octet) :
    copiedOctets (tsize + 1) (c :: s) = c :: copiedOctets tsize s := by
  unfold copiedOctets
  by_cases h : s.length < tsize
  · rw [if_pos h, if_pos (by simpa using h), List.cons_append]
  · rw [if_neg h, if_neg (by simpa using h), List.take_succ_cons]

theorem copiedOctets_length_le (tsize : Nat) (s : List Octet) :
    (copiedOctets tsize s).length ≤ tsize := by
  unfold copiedOctets
  split
  · rw [List.length_append, List.length_singleton]
    omega
  · exact List.length_take_le _ _

theorem textCopyLoop_yields {n t tsize : Nat} {s : List Octet} : ∀ {b : Buffer n}, t + tsize ≤ n →
    (textCopyLoop b t tsize s).Yields
      (b.splice t (copiedOctets tsize s), if s.length < tsize then none else some (s.drop tsize)) := by
  induction tsize generalizing t s with
  | zero =>
      intro b hroom
      have hsame : b.splice t [] = b := by
        apply Buffer.ext
        rw [Buffer.octets_splice _ (by simpa using hroom)]
        simp
      simp [textCopyLoop, copiedOctets, hsame]
  | succ tsize ih =>
      intro b hroom
      cases s with
      | nil =>
          apply (b.yields_write [0] (by simp only [List.length_singleton]; omega)).bind
          simp [copiedOctets]
      | cons c s =>
          apply (b.yields_write [c] (by simp only [List.length_singleton]; omega)).bind
          have hlen := copiedOctets_length_le tsize s
          have hsplice := b.splice_splice [c] (copiedOctets tsize s) (i := t)
            (by simp only [List.length_singleton]; omega)
          rw [List.length_singleton, List.singleton_append, ← copiedOctets_cons] at hsplice
          have hrest := ih (s := s) (b := b.splice t [c]) (show t + 1 + tsize ≤ n by omega)
          rw [hsplice] at hrest
          simpa using hrest

theorem textCopy_yields {n t tsize : Nat} (b : Buffer n) (s : List Octet) (hpos : 0 < tsize)
    (hroom : t + tsize ≤ n) :
    (textCopy b t tsize s).Yields (b.splice t (s.take (tsize - 1) ++ [0]), s.length) := by
  apply (textCopyLoop_yields hroom).bind
  by_cases hfit : s.length < tsize
  · simp only [if_pos hfit, copiedOctets]
    rw [List.take_of_length_le (by omega)]
    exact yields_pure _
  · have hlast : s.take tsize = s.take (tsize - 1) ++ [s.getD (tsize - 1) 0] := by
      have hget : s[tsize - 1]? = some (s.getD (tsize - 1) 0) := by
        rw [List.getD_eq_getElem?_getD, List.getElem?_eq_getElem (by omega)]
        rfl
      have htake := List.take_add_one (l := s) (i := tsize - 1)
      rw [hget, Nat.sub_add_cancel hpos] at htake
      exact htake
    have hfront : (s.take (tsize - 1)).length = tsize - 1 := by
      rw [List.length_take]
      omega
    have hindex : (t : Int) + tsize - 1 = ((t + (s.take (tsize - 1)).length : Nat) : Int) := by
      rw [hfront]
      omega
    have hlength : tsize + (s.drop tsize).length = s.length := by
      rw [List.length_drop]
      omega
    simp only [if_neg hfit, copiedOctets, if_pos hpos]
    rw [hlast, hindex, hlength]
    apply (Buffer.yields_write _ [0] (by rw [hfront, List.length_singleton]; omega)).bind
    rw [Buffer.splice_splice_last _ (by rw [hfront]; omega)]
    exact yields_pure _

/-! ### `TextFindQuote` -/

/-- `case '*': case '?': case '[': case '\\':` -/
def isFindSpecial (c : Octet) : Bool :=
  c = ch '*' || c = ch '?' || c = ch '[' || c = ch '\\'

/-- The loop of `TextFindQuote`, with `buffer` at the index `i`. The result is `buffer - start` and the
    object. `size` is decremented once a round. -/
def textFindQuoteFrom {n : Nat} :
    List Octet → Nat → Nat → Buffer n → Run (Nat × Buffer n)
  | [], _, i, b => pure (i, b)
  | _ :: _, 0, i, b => pure (i, b)
  | c :: string, size + 1, i, b =>
      if isFindSpecial c then do
        let b ← b.write i [ch '\\']
        if size = 0 then pure (i + 1, b)
        else do
          let b ← b.write ((i + 1 : Nat) : Int) [c]
          textFindQuoteFrom string size (i + 2) b
      else do
        let b ← b.write i [c]
        textFindQuoteFrom string size (i + 1) b

/-- `TextFindQuote (string, buffer, size)`. -/
def textFindQuote (string : CString) (size : Nat) (buffer : Buffer size) :
    Run (Nat × Buffer size) :=
  textFindQuoteFrom string.octets size 0 buffer

end Snert
