/-
Module: Snert.Net.FormatIP
Purpose: `formatIP` of net/formatIP.c: the text of an IPv4 or IPv6 address is written into a string
  buffer by `snprintf`. The NULL guards are left out; the arguments are never NULL here.
Trusted boundary: human-reviewed spec
Main exports: decimal, hexWord, snprintf, FormatScan
-/
import Snert.CModel.Buffer

namespace Snert

open CModel

/-! ### `snprintf` -/

/-- `%d` of a number that is not negative. -/
def decimal (n : Nat) : List Octet :=
  (Nat.toDigits 10 n).map ch

/-- `%x`, or `%04x` when `full`. -/
def hexWord (full : Bool) (word : Nat) : List Octet :=
  let digits := (Nat.toDigits 16 word).map ch
  if full then List.replicate (4 - digits.length) (ch '0') ++ digits else digits

/-- `%d.%d.%d.%d`. -/
def dottedDecimal (ip : List Octet) : List Octet :=
  decimal (ip.getD 0 0).toNat ++ ch '.' :: decimal (ip.getD 1 0).toNat ++
    ch '.' :: decimal (ip.getD 2 0).toNat ++ ch '.' :: decimal (ip.getD 3 0).toNat

/-- `snprintf (buffer + t, size, ...)` of a text: what fits of it and a NUL, and the length of the
    whole text. -/
def snprintf {n : Nat} (buffer : Buffer n) (t size : Nat) (text : List Octet) :
    Run (Buffer n × Nat) :=
  if size = 0 then pure (buffer, text.length)
  else do
    let buffer ← buffer.write t (text.take (size - 1) ++ [0])
    pure (buffer, text.length)

/-! ### `formatIP` -/

/-- The words of an IPv6 address. -/
def netWords (ip : List Octet) : List Nat :=
  (List.range 8).map fun i => (ip.getD (2 * i) 0).toNat * 256 + (ip.getD (2 * i + 1) 0).toNat

/-- The variables of the loop of `formatIP`, with `i` counted in words. -/
structure FormatScan (n : Nat) where
  buffer : Buffer n
  length : Nat
  i : Nat
  z : Nat
  compact : Nat

section

variable {n : Nat}

/-- The inner loop: on to the next word that is not zero, still counting leading zero words. The
    result has the index, the count and the word. -/
def skipZeros (words : List Nat) : Nat → Nat → Nat → Nat → Nat × Nat × Nat
  | 0, i, z, word => (i, z, word)
  | rounds + 1, i, z, word =>
      if 8 ≤ i then (i, z, word)
      else if words.getD i 0 ≠ 0 then (i, z, words.getD i 0)
      else skipZeros words rounds (i + 1) (if i = z then z + 1 else z) 0

/-- A colon behind a word that is not the last, when there is room. -/
def formatColon (s : FormatScan n) : Run (FormatScan n) :=
  if s.i < 7 ∧ s.length + 1 < n then do
    let buffer ← s.buffer.write s.length [ch ':']
    pure { s with buffer := buffer, length := s.length + 1 }
  else pure s

/-- The end of a round: the word, and a colon when more may follow. The result `.inr` is a `break`. -/
def formatWord (full : Bool) (word : Nat) (s : FormatScan n) :
    Run (FormatScan n ⊕ FormatScan n) :=
  -- IPv4-compatible IPv6: the rest is put as a dotted quad.
  if s.z = 6 ∧ s.i = 6 then pure (.inr s)
  else do
    let put ← snprintf s.buffer s.length (n - s.length) (hexWord full word)
    if n - s.length ≤ put.2 then pure (.inr { s with buffer := put.1 })
    else do
      let s ← formatColon { s with buffer := put.1, length := s.length + put.2 }
      -- IPv4-mapped IPv6.
      pure (if s.z = 5 ∧ s.i = 5 ∧ word = 0xffff then .inr s else .inl { s with i := s.i + 1 })

/-- The first zero word when zeros are to be compacted. -/
def formatZeros (words : List Nat) (full : Bool) (s : FormatScan n) :
    Run (FormatScan n ⊕ FormatScan n) := do
  let put ← snprintf s.buffer s.length (n - s.length)
    (if 0 < s.i then [ch ':'] else [ch ':', ch ':'])
  let s := { s with buffer := put.1, compact := 0 }
  if n - s.length ≤ put.2 then pure (.inr s)
  else
    let s := { s with length := s.length + put.2 }
    if s.i = 7 then pure (.inr s)
    else
      let skipped := skipZeros words 8 (s.i + 1) s.z 0
      formatWord full skipped.2.2 { s with i := skipped.1, z := skipped.2.1 }

/-- Count leading zero words. -/
def countZero (word : Nat) (s : FormatScan n) : FormatScan n :=
  if word = 0 ∧ s.i = s.z then { s with z := s.z + 1 } else s

/-- One round of the loop over the words. -/
def formatStep (words : List Nat) (full : Bool) (s : FormatScan n) :
    Run (FormatScan n ⊕ FormatScan n) :=
  if 8 ≤ s.i then pure (.inr s)
  else
    let word := words.getD s.i 0
    if s.compact = 1 ∧ word = 0 then formatZeros words full (countZero word s)
    else formatWord full word (countZero word s)

/-- The NUL behind the words. -/
def formatNul (s : FormatScan n) : Run (Buffer n) :=
  if s.length < n then s.buffer.write s.length [0] else pure s.buffer

/-- What follows the loop: the NUL, and the dotted quad of an address that has one. -/
def formatTail (ip : List Octet) (s : FormatScan n) : Run (Buffer n × Nat) := do
  let buffer ← formatNul s
  if (s.z = 6 ∧ s.i = 6) ∨ (s.z = 5 ∧ s.i = 5) then do
    let put ← snprintf buffer s.length (n - s.length) (dottedDecimal (ip.drop 12))
    pure (put.1, s.length + put.2)
  else pure (buffer, s.length)

/-- `formatIP (ip, ip_length, compact, buffer, size)`, the octets of the address being `ip`: the
    buffer, and the length of the text. -/
def formatIP (ip : List Octet) (compact : Nat) (buffer : Buffer n) : Run (Buffer n × Nat) :=
  if ip.length = 4 then snprintf buffer 0 n (dottedDecimal ip)
  else if ip.length ≠ 16 then pure (buffer, 0)
  else do
    let s ← Run.loop (formatStep (netWords ip) (compact = 2)) 9
      { buffer := buffer, length := 0, i := 0, z := 0, compact := compact }
    formatTail ip s

/-! ### It stays in its buffer -/

theorem snprintf_ends (buffer : Buffer n) {t size : Nat} (text : List Octet) (h : t + size ≤ n) :
    (snprintf buffer t size text).Ends fun put => put.2 = text.length := by
  unfold snprintf
  by_cases hsize : size = 0
  · rw [if_pos hsize]
    exact Run.ends_pure.mpr rfl
  · rw [if_neg hsize, Run.ends_bind]
    refine (buffer.yields_write _ ?_).ends_iff.mpr (Run.ends_pure.mpr rfl)
    rw [List.length_append, List.length_take, List.length_singleton]
    omega

/-- The text put out so far leaves room for its NUL. -/
def FormatInv (s : FormatScan n) : Prop :=
  s.length < n

theorem formatColon_ends {s : FormatScan n} (h : FormatInv s) :
    (formatColon s).Ends fun t => FormatInv t ∧ t.i = s.i := by
  unfold FormatInv at h
  unfold formatColon
  split
  · rename_i hroom
    rw [Run.ends_bind]
    refine (s.buffer.yields_write [ch ':'] ?_).ends_iff.mpr (Run.ends_pure.mpr ⟨hroom.2, rfl⟩)
    rw [List.length_singleton]
    omega
  · exact Run.ends_pure.mpr ⟨h, rfl⟩

/-- What a round of the loop leaves: a state further on, or the last one. -/
def FormatRound (i : Nat) : FormatScan n ⊕ FormatScan n → Prop
  | .inl t => FormatInv t ∧ i < t.i
  | .inr t => FormatInv t

theorem formatWord_ends (full : Bool) (word : Nat) {s : FormatScan n} (h : FormatInv s) :
    (formatWord full word s).Ends (FormatRound s.i) := by
  unfold FormatInv at h
  unfold formatWord
  split
  · exact Run.ends_pure.mpr h
  · rw [Run.ends_bind]
    refine (snprintf_ends s.buffer (hexWord full word) (by omega)).mono fun put hput => ?_
    split
    · exact Run.ends_pure.mpr h
    · rename_i hroom
      rw [Run.ends_bind]
      refine (formatColon_ends (show FormatInv _ from ?_)).mono fun t ht => Run.ends_pure.mpr ?_
      · show s.length + put.2 < n
        omega
      · split
        · exact ht.1
        · refine ⟨ht.1, ?_⟩
          have hi : t.i = s.i := ht.2
          show s.i < t.i + 1
          omega

theorem skipZeros_le (words : List Nat) (rounds i z word : Nat) :
    i ≤ (skipZeros words rounds i z word).1 := by
  induction rounds generalizing i z word with
  | zero => exact Nat.le_refl i
  | succ rounds ih =>
      unfold skipZeros
      split
      · exact Nat.le_refl i
      · split
        · exact Nat.le_refl i
        · exact Nat.le_of_succ_le (ih _ _ _)

theorem formatZeros_ends (words : List Nat) (full : Bool) {s : FormatScan n} (h : FormatInv s) :
    (formatZeros words full s).Ends (FormatRound s.i) := by
  unfold FormatInv at h
  unfold formatZeros
  rw [Run.ends_bind]
  refine (snprintf_ends s.buffer _ (by omega)).mono fun put hput => ?_
  dsimp only
  split
  · exact Run.ends_pure.mpr h
  · rename_i hroom
    split
    · refine Run.ends_pure.mpr ?_
      show s.length + put.2 < n
      omega
    · refine (formatWord_ends full _ (show FormatInv _ from ?_)).mono fun r hr => ?_
      · show s.length + put.2 < n
        omega
      · have hle := skipZeros_le words 8 (s.i + 1) s.z 0
        cases r with
        | inl t => exact ⟨hr.1, by have := hr.2; dsimp only at this; omega⟩
        | inr t => exact hr

@[simp] theorem countZero_i (word : Nat) (s : FormatScan n) : (countZero word s).i = s.i := by
  unfold countZero
  split
  · rfl
  · rfl

theorem countZero_inv {s : FormatScan n} (word : Nat) (h : FormatInv s) :
    FormatInv (countZero word s) := by
  unfold countZero
  split
  · exact h
  · exact h

/-- The words still to come. -/
def FormatScan.rest (s : FormatScan n) : Nat :=
  8 - s.i

theorem FormatRound.round {s : FormatScan n} {r : FormatScan n ⊕ FormatScan n}
    (hr : FormatRound s.i r) (hi : s.i < 8) :
    Run.Round FormatInv FormatScan.rest FormatInv s r := by
  cases r with
  | inl t =>
      refine ⟨hr.1, ?_⟩
      have := hr.2
      unfold FormatScan.rest
      omega
  | inr t => exact hr

theorem formatStep_ends (words : List Nat) (full : Bool) {s : FormatScan n} (h : FormatInv s) :
    (formatStep words full s).Ends (Run.Round FormatInv FormatScan.rest FormatInv s) := by
  unfold formatStep
  split
  · exact Run.ends_pure.mpr h
  · rename_i hi
    dsimp only
    have hcount := countZero_inv (words.getD s.i 0) h
    split
    · refine (formatZeros_ends words full hcount).mono fun r hr => ?_
      rw [countZero_i] at hr
      exact hr.round (Nat.not_le.mp hi)
    · refine (formatWord_ends full _ hcount).mono fun r hr => ?_
      rw [countZero_i] at hr
      exact hr.round (Nat.not_le.mp hi)

theorem formatTail_ends (ip : List Octet) {s : FormatScan n} (h : FormatInv s) :
    (formatTail ip s).Ends fun _ => True := by
  unfold FormatInv at h
  unfold formatTail formatNul
  rw [if_pos h, Run.ends_bind]
  refine (s.buffer.yields_write [0] ?_).ends_iff.mpr ?_
  · rw [List.length_singleton]
    omega
  · split
    · rw [Run.ends_bind]
      exact (snprintf_ends _ _ (by omega)).mono fun _ _ => Run.ends_pure.mpr trivial
    · exact Run.ends_pure.mpr trivial

theorem formatIP_ends (ip : List Octet) (compact : Nat) (buffer : Buffer n) (hpos : 0 < n) :
    (formatIP ip compact buffer).Ends fun _ => True := by
  unfold formatIP
  split
  · exact (snprintf_ends buffer _ (by omega)).mono fun _ _ => trivial
  · split
    · exact Run.ends_pure.mpr trivial
    · rw [Run.ends_bind]
      have hstart : FormatInv (n := n)
          { buffer := buffer, length := 0, i := 0, z := 0, compact := compact } := hpos
      have hscan := Run.loop_ends FormatScan.rest
        (fun t ht => formatStep_ends (netWords ip) (compact = 2) ht) hstart (Nat.lt_succ_self 8)
      exact hscan.mono fun s hs => formatTail_ends ip hs

end

end Snert
