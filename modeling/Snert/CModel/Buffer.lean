/-
Module: Snert.CModel.Buffer
Purpose: Fixed-size objects of octets. A `Buffer n` always holds `n` octets. The operations are the
  stores and block operations of C; each is a `Run` that makes its access known, so that an index or
  a count outside the object shows. `sizeT` is the conversion of a signed count to `size_t`, which
  turns a negative count into an enormous one.
Trusted boundary: human-reviewed spec
Main exports: Buffer, Buffer.splice, Buffer.write, Buffer.fill
-/
import Snert.CModel.Run

namespace CModel

/-- Conversion of a signed 64-bit quantity to `size_t`. -/
def sizeT (x : Int) : Nat :=
  (x % 2 ^ 64).toNat

theorem sizeT_of_nonneg {x : Int} (h : 0 ≤ x) (hlt : x < 2 ^ 64) : sizeT x = x.toNat := by
  rw [sizeT, Int.emod_eq_of_lt h hlt]

theorem le_sizeT_of_neg {x : Int} (h : x < 0) (hge : -2 ^ 63 ≤ x) : 2 ^ 63 ≤ sizeT x := by
  have : x % 2 ^ 64 = x + 2 ^ 64 := by
    rw [← Int.add_emod_right, Int.emod_eq_of_lt (by omega) (by omega)]
  rw [sizeT, this]
  omega

/-- An object of `n` octets. -/
structure Buffer (n : Nat) where
  octets : List Octet
  length_octets : octets.length = n
deriving DecidableEq, Repr

namespace Buffer

variable {n : Nat}

@[ext] theorem ext {b c : Buffer n} (h : b.octets = c.octets) : b = c := by
  cases b
  cases c
  cases h
  rfl

/-- An object filled with one octet, as after `calloc` when that octet is zero. -/
def replicate (n : Nat) (v : Octet) : Buffer n :=
  ⟨List.replicate n v, List.length_replicate⟩

instance : Inhabited (Buffer n) := ⟨replicate n 0⟩

/-- The octet at an index. -/
def get (b : Buffer n) (i : Nat) : Octet :=
  b.octets.getD i 0

/-- Put the octets `os` at index `i`, when there is room for them. -/
def splice (b : Buffer n) (i : Nat) (os : List Octet) : Buffer n :=
  if h : i + os.length ≤ n then
    ⟨b.octets.take i ++ os ++ b.octets.drop (i + os.length), by
      simp only [List.length_append, List.length_take, List.length_drop, b.length_octets]
      omega⟩
  else b

theorem octets_splice (b : Buffer n) {i : Nat} {os : List Octet} (h : i + os.length ≤ n) :
    (b.splice i os).octets = b.octets.take i ++ os ++ b.octets.drop (i + os.length) := by
  simp [splice, h]

theorem octets_splice_append {b : Buffer n} {front rest os : List Octet}
    (hb : b.octets = front ++ rest) (hlen : os.length ≤ rest.length) :
    (b.splice front.length os).octets = front ++ os ++ rest.drop os.length := by
  have hn := b.length_octets
  rw [hb, List.length_append] at hn
  rw [octets_splice _ (by omega), hb]
  simp [List.drop_append]

@[simp] theorem splice_nil (b : Buffer n) (i : Nat) : b.splice i [] = b := by
  unfold splice
  split
  · apply ext
    simp
  · rfl

theorem splice_splice (b : Buffer n) (os os' : List Octet) {i : Nat}
    (h : i + os.length + os'.length ≤ n) :
    (b.splice i os).splice (i + os.length) os' = b.splice i (os ++ os') := by
  have hn := b.length_octets
  have hsum : (os ++ os').length = os.length + os'.length := List.length_append
  apply ext
  rw [octets_splice _ h, octets_splice _ (by omega), octets_splice _ (by omega)]
  have hfront : (b.octets.take i ++ os).length = i + os.length := by
    rw [List.length_append, List.length_take]
    omega
  rw [List.take_left' hfront, List.drop_append, hfront]
  simp only [List.append_assoc, List.drop_drop]
  rw [List.drop_of_length_le (by omega), List.nil_append]
  congr 4
  omega

theorem splice_splice_front (b : Buffer n) {i : Nat} {os : List Octet} (c : Octet)
    (h : i + 1 + os.length ≤ n) : (b.splice (i + 1) os).splice i [c] = b.splice i (c :: os) := by
  have hn := b.length_octets
  apply ext
  rw [octets_splice _ (by rw [List.length_singleton]; omega), octets_splice _ h,
    octets_splice _ (by rw [List.length_cons]; omega)]
  have hfront : (b.octets.take (i + 1)).length = i + 1 := by
    rw [List.length_take]
    omega
  rw [List.append_assoc (b.octets.take (i + 1)), List.take_append, List.drop_append, hfront,
    List.take_take, List.length_singleton, Nat.sub_self,
    List.drop_of_length_le (Nat.le_of_eq hfront)]
  simp only [List.length_cons]
  rw [show i - (i + 1) = 0 by omega, show min i (i + 1) = i by omega,
    show i + (os.length + 1) = i + 1 + os.length by omega]
  simp

theorem splice_splice_last (b : Buffer n) {i : Nat} {os : List Octet} {c d : Octet}
    (h : i + os.length + 1 ≤ n) :
    (b.splice i (os ++ [c])).splice (i + os.length) [d] = b.splice i (os ++ [d]) := by
  have hn := b.length_octets
  have hc : i + (os ++ [c]).length ≤ n := by
    rw [List.length_append]
    exact h
  have hd : i + (os ++ [d]).length ≤ n := by
    rw [List.length_append]
    exact h
  apply ext
  rw [octets_splice _ (by simpa using h), octets_splice _ hc, octets_splice _ hd]
  have hfront : (b.octets.take i ++ os).length = i + os.length := by
    rw [List.length_append, List.length_take]
    omega
  have hassoc : b.octets.take i ++ (os ++ [c]) = b.octets.take i ++ os ++ [c] :=
    (List.append_assoc _ _ _).symm
  rw [hassoc, List.append_assoc (_ ++ os), List.take_left' hfront, List.drop_append, hfront]
  simp [List.drop_of_length_le, hfront]

theorem drop_splice (b : Buffer n) {i j : Nat} {os : List Octet} (hij : i + os.length ≤ j)
    (hj : i + os.length ≤ n) : (b.splice i os).octets.drop j = b.octets.drop j := by
  have hn := b.length_octets
  have hfront : (b.octets.take i ++ os).length = i + os.length := by
    rw [List.length_append, List.length_take]
    omega
  rw [octets_splice _ hj, List.drop_append, hfront, List.drop_drop,
    List.drop_of_length_le (Nat.le_trans (Nat.le_of_eq hfront) hij), List.nil_append]
  congr 1
  omega

theorem take_splice (b : Buffer n) {i j : Nat} {os : List Octet} (hji : j ≤ i)
    (hi : i + os.length ≤ n) : (b.splice i os).octets.take j = b.octets.take j := by
  have hn := b.length_octets
  rw [octets_splice _ hi, List.append_assoc, List.take_append_of_le_length, List.take_take,
    Nat.min_eq_left hji]
  rw [List.length_take]
  omega

theorem drop_splice_self (b : Buffer n) {i : Nat} {os : List Octet} (h : i + os.length ≤ n) :
    (b.splice i os).octets.drop i = os ++ b.octets.drop (i + os.length) := by
  have hn := b.length_octets
  rw [octets_splice _ h, List.append_assoc, List.drop_left' (List.length_take_of_le (by omega))]

@[simp] theorem get_splice_self (b : Buffer n) {i : Nat} {c : Octet} (hi : i < n) :
    (b.splice i [c]).get i = c := by
  have hn := b.length_octets
  have hfront : (b.octets.take i).length = i := List.length_take_of_le (by omega)
  rw [get, octets_splice _ (Nat.succ_le_of_lt hi), List.append_assoc, List.getD_eq_getElem?_getD,
    List.getElem?_append_right (Nat.le_of_eq hfront), hfront, Nat.sub_self]
  rfl

theorem get_eq_of_drop_eq {b c : Buffer n} {i j : Nat}
    (h : b.octets.drop i = c.octets.drop i) (hij : i ≤ j) : b.get j = c.get j := by
  obtain ⟨k, rfl⟩ := Nat.exists_eq_add_of_le hij
  have hk := congrArg (fun l : List Octet => l[k]?) h
  simp only [List.getElem?_drop] at hk
  rw [get, get, List.getD_eq_getElem?_getD, List.getD_eq_getElem?_getD, hk]

theorem get_eq_of_take_eq {b c : Buffer n} {i j : Nat}
    (h : b.octets.take i = c.octets.take i) (hji : j < i) : b.get j = c.get j := by
  have hj := congrArg (fun l : List Octet => l[j]?) h
  simp only [List.getElem?_take_of_lt hji] at hj
  rw [get, get, List.getD_eq_getElem?_getD, List.getD_eq_getElem?_getD, hj]

/-- Read the octet at an index. -/
def read (b : Buffer n) (i : Int) : Run Octet :=
  Run.load ⟨i, 1, n⟩ (b.get i.toNat)

/-- Store octets from index `i` on: an assignment, `memcpy`, `strncpy`. -/
def write (b : Buffer n) (i : Int) (os : List Octet) : Run (Buffer n) :=
  Run.store ⟨i, os.length, n⟩ (b.splice i.toNat os)

/-- `memset (b + i, v, count)`. The octets put are bounded by the object, so that a count that went
    wrong stays cheap to evaluate. -/
def fill (b : Buffer n) (i : Int) (v : Octet) (count : Nat) : Run (Buffer n) :=
  Run.store ⟨i, count, n⟩ (b.splice i.toNat (List.replicate (min count n) v))

/-- `memmove (b + dst, b + src, count)`. -/
def move (b : Buffer n) (dst src : Int) (count : Nat) : Run (Buffer n) := do
  let os ← Run.load ⟨src, count, n⟩ ((b.octets.drop src.toNat).take count)
  Run.store ⟨dst, count, n⟩ (b.splice dst.toNat os)

theorem yields_read (b : Buffer n) {i : Nat} (h : i < n) : (b.read i).Yields (b.get i) :=
  ⟨(Run.inBounds_load _ _).mpr (Access.inBounds_iff_le.mpr h), _, rfl, by rw [Int.toNat_natCast]⟩

@[simp] theorem inBounds_write (b : Buffer n) (i : Int) (os : List Octet) :
    (b.write i os).InBounds ↔ 0 ≤ i ∧ i + os.length ≤ n := by
  simp [write, Access.InBounds]

theorem outcome_write (b : Buffer n) {i : Int} {os : List Octet} (h0 : 0 ≤ i)
    (h : i + os.length ≤ n) : (b.write i os).outcome = .done (b.splice i.toNat os) :=
  Run.outcome_store_of_inBounds ⟨h0, h⟩ _

@[simp] theorem ends_write (b : Buffer n) (i : Int) (os : List Octet) {Q : Buffer n → Prop} :
    (b.write i os).Ends Q ↔ (0 ≤ i ∧ i + os.length ≤ n) ∧ Q (b.splice i.toNat os) :=
  Run.ends_store

theorem yields_write (b : Buffer n) (os : List Octet) {i : Nat} (h : i + os.length ≤ n) :
    (b.write i os).Yields (b.splice i os) :=
  (b.ends_write i os).mpr ⟨⟨Int.natCast_nonneg i, by exact_mod_cast h⟩, rfl⟩

@[simp] theorem touched_write (b : Buffer n) (i : Int) (os : List Octet) :
    (b.write i os).touched = Set.Ico i (i + os.length) :=
  Run.touched_store _ _

@[simp] theorem inBounds_fill (b : Buffer n) (i : Int) (v : Octet) (count : Nat) :
    (b.fill i v count).InBounds ↔ 0 ≤ i ∧ i + count ≤ n := by
  simp [fill, Access.InBounds]

theorem outcome_fill (b : Buffer n) {i : Int} {count : Nat} (v : Octet) (h0 : 0 ≤ i)
    (h : i + count ≤ n) :
    (b.fill i v count).outcome = .done (b.splice i.toNat (List.replicate count v)) := by
  have hmin : min count n = count := by omega
  rw [fill, Run.outcome_store_of_inBounds ⟨h0, h⟩, hmin]

@[simp] theorem inBounds_move (b : Buffer n) (dst src : Int) (count : Nat) :
    (b.move dst src count).InBounds ↔
      (0 ≤ src ∧ src + count ≤ n) ∧ 0 ≤ dst ∧ dst + count ≤ n := by
  simp [move, Access.InBounds]

theorem outcome_move (b : Buffer n) {dst : Int} {count : Nat} (src : Int) (h0 : 0 ≤ dst)
    (h : dst + count ≤ n) :
    (b.move dst src count).outcome =
      .done (b.splice dst.toNat ((b.octets.drop src.toNat).take count)) := by
  rw [move, Run.outcome_load_bind]
  exact Run.outcome_store_of_inBounds ⟨h0, h⟩ _

theorem yields_fill (b : Buffer n) (v : Octet) {i count : Nat} (h : i + count ≤ n) :
    (b.fill i v count).Yields (b.splice i (List.replicate count v)) :=
  ⟨(b.inBounds_fill i v count).mpr ⟨Int.natCast_nonneg i, by exact_mod_cast h⟩, _,
    b.outcome_fill v (Int.natCast_nonneg i) (by exact_mod_cast h), rfl⟩

theorem yields_move (b : Buffer n) {dst src count : Nat} (hsrc : src + count ≤ n)
    (hdst : dst + count ≤ n) :
    (b.move dst src count).Yields (b.splice dst ((b.octets.drop src).take count)) :=
  ⟨(b.inBounds_move dst src count).mpr ⟨⟨Int.natCast_nonneg src, by exact_mod_cast hsrc⟩,
      Int.natCast_nonneg dst, by exact_mod_cast hdst⟩, _,
    b.outcome_move src (Int.natCast_nonneg dst) (by exact_mod_cast hdst), rfl⟩

/-! ### The C string held in an object -/

/-- The octets before the first NUL of the object. -/
def cstring (b : Buffer n) : List Octet :=
  b.octets.takeWhile (· ≠ 0)

/-- A NUL ends the string inside the object. -/
def Terminated (b : Buffer n) : Prop :=
  0 ∈ b.octets

instance (b : Buffer n) : Decidable b.Terminated :=
  inferInstanceAs (Decidable (_ ∈ _))

theorem cstring_of_octets {b : Buffer n} {s rest : List Octet} (h : b.octets = s ++ 0 :: rest)
    (hs : 0 ∉ s) : b.cstring = s := by
  rw [cstring, h, List.takeWhile_append_of_pos]
  · simp
  · intro c hc
    simp only [ne_eq, decide_not, Bool.not_eq_eq_eq_not, Bool.not_true, decide_eq_false_iff_not]
    rintro rfl
    exact hs hc

theorem terminated_of_octets {b : Buffer n} {s rest : List Octet} (h : b.octets = s ++ 0 :: rest) :
    b.Terminated := by
  simp [Terminated, h]

theorem octets_splice_zero (b : Buffer n) {s : List Octet} (h : s.length + 1 ≤ n) :
    (b.splice 0 (s ++ [0])).octets = s ++ 0 :: b.octets.drop (s.length + 1) := by
  have hlen : (s ++ [0]).length = s.length + 1 := by simp
  rw [octets_splice _ (by omega), hlen]
  simp

theorem cstring_splice_zero (b : Buffer n) {s : List Octet} (h : s.length + 1 ≤ n) (hs : 0 ∉ s) :
    (b.splice 0 (s ++ [0])).cstring = s :=
  cstring_of_octets (b.octets_splice_zero h) hs

theorem noNul_of_length_cstring (b : Buffer n) {s : List Octet} (h : s.length + 1 ≤ n)
    (hlength : (b.splice 0 (s ++ [0])).cstring.length = s.length) : 0 ∉ s := by
  intro hmem
  obtain ⟨front, back, hs, hfront⟩ := List.eq_append_cons_of_mem hmem
  have hoctets : (b.splice 0 (s ++ [0])).octets =
      front ++ 0 :: (back ++ 0 :: b.octets.drop (s.length + 1)) := by
    rw [b.octets_splice_zero h, hs]
    simp
  rw [cstring_of_octets hoctets hfront, hs, List.length_append, List.length_cons] at hlength
  omega

end Buffer

end CModel
