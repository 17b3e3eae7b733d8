/-
Module: Snert.Proofs.RowSizes
Purpose: What sequences of calls make of the sizes and the data of cache rows. A text and the other
  size have to fit together: otherwise a size is masked, or the room left for a value is taken of a
  key that is longer than the data. Only the calls that give back a length report a text that has
  lost its last octet to the NUL.
Trusted boundary: none
Main exports: mccCalls_exact_iff
-/
import Snert.Mcc.Row

namespace Snert

open CModel CModel.Run

/-! ### Formatting -/

theorem length_rowText (room : Nat) (text : List Octet) :
    (rowText room text).length = min (text.length + 1) room := by
  unfold rowText
  split
  · rw [List.length_nil]
    omega
  · rw [List.length_append, List.length_take, List.length_singleton]
    omega

theorem maskSize_of_lt {n : Nat} (h : n < 512) : (maskSize n : Nat) = n :=
  Nat.mod_eq_of_lt h

theorem drop_take_rowText (b : Buffer n) {first : Nat} {text : List Octet}
    (h : first + text.length < n) :
    ((b.splice first (rowText (n - first) text)).octets.drop first).take text.length = text := by
  have hlength := length_rowText (n - first) text
  have hformatted : rowText (n - first) text = text ++ [0] := by
    rw [rowText, if_neg (by omega), List.take_of_length_le (by omega)]
  rw [b.drop_splice_self (by omega), hformatted, List.append_assoc, List.take_left]

theorem drop_take_rowText_ne (b : Buffer n) {first : Nat} {text : List Octet} (hzero : 0 ∉ text)
    (hne : text ≠ []) (h : first + text.length = n) :
    ((b.splice first (rowText (n - first) text)).octets.drop first).take text.length ≠ text := by
  have hpos := List.length_pos_iff.mpr hne
  have hlength := length_rowText (n - first) text
  rw [b.drop_splice_self (by omega), List.take_left' (by omega)]
  intro htext
  rw [rowText, if_neg (by omega)] at htext
  exact hzero (htext ▸ List.mem_append_right _ (List.mem_singleton_self 0))

/-! ### Keys and values -/

/-- A row with another key. -/
def MccRow.withKey (row : MccRow) (text : List Octet) : MccRow :=
  { row with data := row.data.splice 0 (rowText (MCC_DATA_SIZE - 0) text)
             k_size := maskSize text.length }

/-- A row with another value. -/
def MccRow.withValue (row : MccRow) (text : List Octet) : MccRow :=
  { row with data := row.data.splice row.k_size (rowText (MCC_DATA_SIZE - row.k_size) text)
             v_size := maskSize text.length }

theorem valueSpace_of_le {row : MccRow} (h : (row.k_size : Nat) ≤ MCC_DATA_SIZE) :
    row.valueSpace = MCC_DATA_SIZE - row.k_size := by
  have hsize : MCC_DATA_SIZE = 488 := rfl
  rw [MccRow.valueSpace, sizeT_of_nonneg (by omega) (by omega)]
  omega

theorem mccSetKey_ends_iff (row : MccRow) (text : List Octet) {Q : Nat × MccRow → Prop} :
    (mccSetKey row text).Ends Q ↔ Q (text.length, row.withKey text) := by
  have hlength := length_rowText MCC_DATA_SIZE text
  rw [mccSetKey, ends_bind, Buffer.ends_write, and_iff_right ⟨Int.le_refl 0, by omega⟩, ends_pure]
  rfl

theorem mccSetValue_ends_iff (row : MccRow) (text : List Octet) {Q : Nat × MccRow → Prop} :
    (mccSetValue row text).Ends Q ↔
      (row.k_size : Nat) ≤ MCC_DATA_SIZE ∧ Q (text.length, row.withValue text) := by
  have hlength := length_rowText row.valueSpace text
  rw [mccSetValue, ends_bind, Buffer.ends_write, ends_pure]
  have hk := row.k_size.isLt
  by_cases hle : (row.k_size : Nat) ≤ MCC_DATA_SIZE
  · rw [valueSpace_of_le hle] at hlength ⊢
    rw [and_iff_right hle, and_iff_right ⟨by omega, by omega⟩, Int.toNat_natCast]
    rfl
  · have hspace : 2 ^ 63 ≤ row.valueSpace := le_sizeT_of_neg (by omega) (by omega)
    exact iff_of_false (fun h => by omega) fun h => hle h.1

/-- The sizes of a row fit into the data. -/
def MccRow.Within (row : MccRow) : Prop :=
  (row.k_size : Nat) + row.v_size ≤ MCC_DATA_SIZE

theorem MccRow.length_key {row : MccRow} (h : (row.k_size : Nat) ≤ MCC_DATA_SIZE) :
    row.key.length = row.k_size :=
  List.length_take_of_le (row.data.length_octets.symm ▸ h)

theorem MccRow.Within.key_le {row : MccRow} (h : row.Within) :
    (row.k_size : Nat) ≤ MCC_DATA_SIZE :=
  Nat.le_trans (Nat.le_add_right _ _) h

theorem MccRow.Within.length_value {row : MccRow} (h : row.Within) :
    row.value.length = row.v_size :=
  List.length_take_of_le (by
    rw [List.length_drop, row.data.length_octets]
    exact Nat.le_sub_of_add_le' h)

theorem key_withKey (row : MccRow) {text : List Octet} (h : text.length < MCC_DATA_SIZE) :
    (row.withKey text).key = text := by
  have htake := @drop_take_rowText _ row.data 0 text (by omega)
  rwa [List.drop_zero, ← maskSize_of_lt (Nat.lt_trans h (by decide))] at htake

theorem value_withValue (row : MccRow) {text : List Octet}
    (h : row.k_size + text.length < MCC_DATA_SIZE) : (row.withValue text).value = text := by
  have htake := drop_take_rowText row.data h
  rwa [← maskSize_of_lt (Nat.lt_of_le_of_lt (Nat.le_add_left _ _) (Nat.lt_trans h (by decide)))]
    at htake

theorem key_withValue (row : MccRow) (text : List Octet) (h : (row.k_size : Nat) ≤ MCC_DATA_SIZE) :
    (row.withValue text).key = row.key := by
  have hlength := length_rowText (MCC_DATA_SIZE - row.k_size) text
  exact row.data.take_splice (Nat.le_refl _) (by omega)

theorem key_withKey_iff (row : MccRow) (text : CString)
    (h : (maskSize text.octets.length : Nat) ≤ MCC_DATA_SIZE) :
    (row.withKey text.octets).key = text.octets ↔ text.octets.length < MCC_DATA_SIZE := by
  refine ⟨fun htext => ?_, key_withKey row⟩
  have hlength : (row.withKey text.octets).key.length = maskSize text.octets.length :=
    MccRow.length_key h
  rw [htext] at hlength
  refine Nat.lt_of_le_of_ne (hlength ▸ h) fun heq => ?_
  refine @drop_take_rowText_ne _ row.data 0 _ text.noNul (List.ne_nil_of_length_eq_add_one heq)
    ((Nat.zero_add _).trans heq) (Eq.trans ?_ htext)
  rw [List.drop_zero, hlength]
  rfl

theorem value_withValue_iff (row : MccRow) {text : List Octet} (hzero : 0 ∉ text) (hne : text ≠ [])
    (h : (row.withValue text).Within) :
    (row.withValue text).value = text ↔ row.k_size + text.length < MCC_DATA_SIZE := by
  refine ⟨fun htext => ?_, value_withValue row⟩
  have hlength := h.length_value
  rw [htext] at hlength
  refine Nat.lt_of_le_of_ne (hlength ▸ h) fun heq => ?_
  refine drop_take_rowText_ne row.data hzero hne heq (Eq.trans ?_ htext)
  rw [hlength]
  rfl

/-! ### Calls -/

/-- A text is stored, or else the length that the call gives back tells that it takes more room, and
the size is that length. -/
def StoredOrTold (room : Nat) (stored text : List Octet) (size : Fin 512) (length : Nat) : Prop :=
  stored = text ∨ room ≤ length ∧ (size : Nat) = text.length

/-- The number that is stored: a value that is found is read as a number first. -/
def addedNumber (found : MccFound) (add : Int64) : Int64 :=
  match found with
  | .row value => Int64.ofInt (strtol (value.take (maskSize value.length)) 10).1 + add
  | _ => add

/-- In every call the writes stay in the data, the sizes fit, and a text that does not fit is
reported rather than stored under another length. -/
def CallsExact : MccRow → List MccCall → Prop
  | _, [] => True
  | row, .setKey text :: calls => (mccSetKey row text).Ends fun (length, row') =>
      row'.Within ∧ StoredOrTold MCC_DATA_SIZE row'.key text row'.k_size length ∧
        CallsExact row' calls
  | row, .setValue text :: calls => (mccSetValue row text).Ends fun (length, row') =>
      row'.Within ∧ StoredOrTold row.valueSpace row'.value text row'.v_size length ∧
        CallsExact row' calls
  | row, .putKeyValue stored fresh key value :: calls =>
      (mccPutKeyValue stored fresh key value).Ends fun (rc, row') =>
        row'.Within ∧ (rc ≠ .ok ∨ row'.key = key.octets ∧ row'.value = value.octets) ∧
          CallsExact row calls
  | row, .addRowLocal stored found add :: calls =>
      (mccAddRowLocal stored found add row).Ends fun (rc, row') =>
        row'.Within ∧ (rc ≠ .ok ∨ row'.value = longText (addedNumber found add)) ∧
          CallsExact row' calls

/-- A number fits behind a key of `k` octets, and its NUL too unless the database refuses it. -/
def NumberFits (k : Nat) (stored : MccReturn) (number : Int64) : Prop :=
  let n := (longText number).length
  k + n < MCC_DATA_SIZE ∨ stored ≠ .ok ∧ k + maskSize n ≤ MCC_DATA_SIZE

/-- A number is added to what is found, and then `R` holds of the sizes. -/
def AddFits (k v : Nat) (stored : MccReturn) (found : MccFound) (add : Int64)
    (R : Nat → Nat → Prop) : Prop :=
  let number := addedNumber found add
  let n := (maskSize (longText number).length : Nat)
  match found with
  | .failed => k + v ≤ MCC_DATA_SIZE ∧ R k v
  | .done => NumberFits k stored number ∧ R k n
  | .row value =>
      let m := (maskSize value.length : Nat)
      if MCC_DATA_SIZE - 1 ≤ k + m then k + m ≤ MCC_DATA_SIZE ∧ R k m
      else NumberFits k stored number ∧ R k n

/-- Every text fits, behind a key of `k` octets or with a value of `v` octets. -/
def CallsFit : Nat → Nat → List MccCall → Prop
  | _, _, [] => True
  | _, v, .setKey text :: calls => text.length + v ≤ MCC_DATA_SIZE ∧ CallsFit text.length v calls
  | k, _, .setValue text :: calls => k + text.length ≤ MCC_DATA_SIZE ∧ CallsFit k text.length calls
  | k, v, .putKeyValue stored _ key value :: calls =>
      (key.octets.length + value.octets.length < MCC_DATA_SIZE ∨ stored ≠ .ok ∧
        (maskSize key.octets.length : Nat) + maskSize value.octets.length ≤ MCC_DATA_SIZE) ∧
        CallsFit k v calls
  | k, v, .addRowLocal stored found add :: calls =>
      AddFits k v stored found add fun k v => CallsFit k v calls

theorem mccSetKey_exact_iff (row : MccRow) (text : List Octet) {R : Nat → Nat → Prop} :
    ((mccSetKey row text).Ends fun (length, row') =>
      row'.Within ∧ StoredOrTold MCC_DATA_SIZE row'.key text row'.k_size length ∧
        R row'.k_size row'.v_size) ↔
      text.length + row.v_size ≤ MCC_DATA_SIZE ∧ R text.length row.v_size := by
  refine (mccSetKey_ends_iff row text).trans ⟨?_, ?_⟩
  · rintro ⟨hin, hstored, hR⟩
    have hsize : (maskSize text.length : Nat) = text.length := by
      rcases hstored with htext | ⟨-, hsize⟩
      · exact (MccRow.length_key hin.key_le).symm.trans (congrArg List.length htext)
      · exact hsize
    have hin' : (maskSize text.length : Nat) + row.v_size ≤ MCC_DATA_SIZE := hin
    exact ⟨hsize ▸ hin', hsize ▸ hR⟩
  · rintro ⟨hfit, hR⟩
    have hsize : (maskSize text.length : Nat) = text.length :=
      maskSize_of_lt (Nat.lt_of_le_of_lt (Nat.le_trans (Nat.le_add_right _ _) hfit) (by decide))
    refine ⟨Nat.le_trans (Nat.le_of_eq (congrArg (· + _) hsize)) hfit, ?_, hsize.symm ▸ hR⟩
    rcases Nat.lt_or_ge text.length MCC_DATA_SIZE with hlt | hge
    · exact .inl (key_withKey row hlt)
    · exact .inr ⟨hge, hsize⟩

theorem mccSetValue_exact_iff (row : MccRow) (text : List Octet) {R : Nat → Nat → Prop} :
    ((mccSetValue row text).Ends fun (length, row') =>
      row'.Within ∧ StoredOrTold row.valueSpace row'.value text row'.v_size length ∧
        R row'.k_size row'.v_size) ↔
      row.k_size + text.length ≤ MCC_DATA_SIZE ∧ R row.k_size text.length := by
  refine (mccSetValue_ends_iff row text).trans ⟨?_, ?_⟩
  · rintro ⟨-, hin, hstored, hR⟩
    have hsize : (maskSize text.length : Nat) = text.length := by
      rcases hstored with htext | ⟨-, hsize⟩
      · exact hin.length_value.symm.trans (congrArg List.length htext)
      · exact hsize
    have hin' : (row.k_size : Nat) + maskSize text.length ≤ MCC_DATA_SIZE := hin
    exact ⟨hsize ▸ hin', hsize ▸ hR⟩
  · rintro ⟨hfit, hR⟩
    have hk : (row.k_size : Nat) ≤ MCC_DATA_SIZE := Nat.le_trans (Nat.le_add_right _ _) hfit
    have hsize : (maskSize text.length : Nat) = text.length :=
      maskSize_of_lt (Nat.lt_of_le_of_lt (Nat.le_trans (Nat.le_add_left _ _) hfit) (by decide))
    refine ⟨hk, Nat.le_trans (Nat.le_of_eq (congrArg (_ + ·) hsize)) hfit, ?_, hsize.symm ▸ hR⟩
    rcases Nat.lt_or_ge (row.k_size + text.length) MCC_DATA_SIZE with hlt | hge
    · exact .inl (value_withValue row hlt)
    · refine .inr ⟨?_, hsize⟩
      rw [valueSpace_of_le hk]
      exact Nat.sub_le_iff_le_add'.mpr hge

theorem mccPutKeyValue_exact_iff (stored : MccReturn) (fresh : MccRow) (key value : CString)
    {P : Prop} :
    ((mccPutKeyValue stored fresh key value).Ends fun (rc, row') =>
      row'.Within ∧ (rc ≠ .ok ∨ row'.key = key.octets ∧ row'.value = value.octets) ∧ P) ↔
      (key.octets.length + value.octets.length < MCC_DATA_SIZE ∨ stored ≠ .ok ∧
        (maskSize key.octets.length : Nat) + maskSize value.octets.length ≤ MCC_DATA_SIZE) ∧
        P := by
  rw [mccPutKeyValue]
  refine ends_bind.trans ((mccSetKey_ends_iff _ _).trans (ends_bind.trans
    ((mccSetValue_ends_iff _ _).trans ?_)))
  rw [ends_pure]
  constructor
  · rintro ⟨hk, hin, hstored, hP⟩
    refine ⟨hstored.elim (fun hrc => .inr ⟨hrc, hin⟩) fun ⟨hkey, hvalue⟩ => .inl ?_, hP⟩
    have hkey' := (key_withKey_iff fresh key hk).mp ((key_withValue _ _ hk).symm.trans hkey)
    by_cases hne : value.octets = []
    · rwa [hne]
    · have hfit := (value_withValue_iff _ value.noNul hne hin).mp hvalue
      rwa [MccRow.withKey, maskSize_of_lt (Nat.lt_trans hkey' (by decide))] at hfit
  · rintro ⟨hfits | ⟨hrc, hin⟩, hP⟩
    · have hkey : key.octets.length < MCC_DATA_SIZE :=
        Nat.lt_of_le_of_lt (Nat.le_add_right _ _) hfits
      have hk : ((fresh.withKey key.octets).k_size : Nat) = key.octets.length :=
        maskSize_of_lt (Nat.lt_trans hkey (by decide))
      have hv : (maskSize value.octets.length : Nat) = value.octets.length :=
        maskSize_of_lt (Nat.lt_of_le_of_lt (Nat.le_add_left _ _) (Nat.lt_trans hfits (by decide)))
      have hle : ((fresh.withKey key.octets).k_size : Nat) ≤ MCC_DATA_SIZE :=
        hk ▸ Nat.le_of_lt hkey
      refine ⟨hle, ?_, .inr ⟨?_, ?_⟩, hP⟩
      · exact Nat.le_trans (Nat.le_of_eq (congrArg₂ (· + ·) hk hv)) (Nat.le_of_lt hfits)
      · exact (key_withValue _ _ hle).trans (key_withKey fresh hkey)
      · exact value_withValue _ (hk.symm ▸ hfits)
    · exact ⟨Nat.le_trans (Nat.le_add_right _ _) hin, hin, .inl hrc, hP⟩

/-! ### Numbers -/

theorem longText_ne_nil (number : Int64) : longText number ≠ [] :=
  List.append_ne_nil_of_right_ne_nil _ (numeral_reads 10 (by decide) (by decide) _).1.1

theorem zero_notMem_longText (number : Int64) : 0 ∉ longText number := by
  intro hmem
  rcases List.mem_append.mp hmem with hsign | hdigits
  · split at hsign
    · exact absurd hsign (by decide)
    · cases hsign
  · exact absurd ((numeral_reads 10 (by decide) (by decide) _).1.2 0 hdigits) (by decide)

theorem putNumber_exact_iff (stored : MccReturn) (row : MccRow) (number : Int64)
    {R : Nat → Nat → Prop} :
    ((mccSetValue row (longText number) >>= fun r => (pure (stored, r.2) : Run _)).Ends
      fun (rc, row') => row'.Within ∧ (rc ≠ .ok ∨ row'.value = longText number) ∧
        R row'.k_size row'.v_size) ↔
      NumberFits row.k_size stored number ∧
        R row.k_size (maskSize (longText number).length) := by
  refine ends_bind.trans ((mccSetValue_ends_iff row _).trans ?_)
  rw [ends_pure]
  constructor
  · rintro ⟨-, hin, hstored, hR⟩
    refine ⟨hstored.elim (fun hrc => .inr ⟨hrc, hin⟩) fun hvalue => .inl ?_, hR⟩
    exact (value_withValue_iff row (zero_notMem_longText number) (longText_ne_nil number)
      hin).mp hvalue
  · rintro ⟨hfits | ⟨hrc, hin⟩, hR⟩
    · have hmask := Nat.mod_le (longText number).length 512
      exact ⟨Nat.le_trans (Nat.le_add_right _ _) (Nat.le_of_lt hfits),
        Nat.le_trans (Nat.add_le_add_left hmask _) (Nat.le_of_lt hfits),
        .inr (value_withValue row hfits), hR⟩
    · exact ⟨Nat.le_trans (Nat.le_add_right _ _) hin, hin, .inl hrc, hR⟩

theorem mccGetRow_ends_iff (row : MccRow) (value : List Octet) {Q : MccReturn × MccRow → Prop} :
    (mccGetRow (.row value) row).Ends Q ↔
      row.k_size + (maskSize value.length : Nat) ≤ MCC_DATA_SIZE ∧
        Q (.ok, { row with data := row.data.splice row.k_size (value.take (maskSize value.length))
                           v_size := maskSize value.length }) := by
  have hlength : (value.take (maskSize value.length)).length = maskSize value.length :=
    List.length_take_of_le (Nat.mod_le _ _)
  rw [mccGetRow]
  refine (ends_bind.trans ends_store).trans ?_
  rw [ends_bind, Buffer.ends_write, ends_pure, Int.toNat_natCast, hlength, Access.InBounds]
  dsimp only
  refine ⟨fun h => ⟨by omega, h.2.2⟩, fun h => ⟨by omega, by omega, h.2⟩⟩

theorem mccAddRowLocal_exact_iff (stored : MccReturn) (found : MccFound) (add : Int64)
    (row : MccRow) {R : Nat → Nat → Prop} :
    ((mccAddRowLocal stored found add row).Ends fun (rc, row') =>
      row'.Within ∧ (rc ≠ .ok ∨ row'.value = longText (addedNumber found add)) ∧
        R row'.k_size row'.v_size) ↔
      AddFits row.k_size row.v_size stored found add R := by
  rw [mccAddRowLocal, ends_bind]
  cases found with
  | failed =>
      refine ends_pure.trans (ends_pure.trans ?_)
      exact ⟨fun h => ⟨h.1, h.2.2⟩, fun h => ⟨h.1, .inl nofun, h.2⟩⟩
  | done => exact ends_pure.trans (putNumber_exact_iff stored row add)
  | row value =>
      refine (mccGetRow_ends_iff row value).trans ?_
      rw [AddFits]
      by_cases hroom : MCC_DATA_SIZE - 1 ≤ row.k_size + (maskSize value.length : Nat)
      · dsimp only
        rw [if_pos hroom, if_pos hroom]
        exact and_congr_right fun hin =>
          ends_pure.trans ⟨fun h => h.2.2, fun h => ⟨hin, .inl nofun, h⟩⟩
      · have hsize : MCC_DATA_SIZE = 488 := rfl
        have hlength : (value.take (maskSize value.length)).length = maskSize value.length :=
          List.length_take_of_le (Nat.mod_le _ _)
        have hvalue : ((row.data.splice row.k_size
            (value.take (maskSize value.length))).octets.drop row.k_size).take
              (maskSize value.length) = value.take (maskSize value.length) := by
          rw [row.data.drop_splice_self (by omega), List.take_left' hlength]
        dsimp only [MccRow.value]
        rw [if_neg hroom, if_neg hroom, and_iff_right (by omega), hvalue, ends_bind,
          Buffer.ends_write, and_iff_right (by simp; omega)]
        exact putNumber_exact_iff stored _ (addedNumber (.row value) add)

/-- In every sequence of calls, from every row, the writes stay in the data, the sizes fit and no
text is stored under another length without a report, exactly if the texts fit. -/
theorem mccCalls_exact_iff (row : MccRow) (calls : List MccCall) :
    CallsExact row calls ↔ CallsFit row.k_size row.v_size calls := by
  induction calls generalizing row with
  | nil => exact Iff.rfl
  | cons call calls ih =>
      cases call with
      | setKey text =>
          simp only [CallsExact, ih]
          exact mccSetKey_exact_iff row text (R := fun k v => CallsFit k v calls)
      | setValue text =>
          simp only [CallsExact, ih]
          exact mccSetValue_exact_iff row text (R := fun k v => CallsFit k v calls)
      | putKeyValue stored fresh key value =>
          simp only [CallsExact, ih]
          exact mccPutKeyValue_exact_iff stored fresh key value
      | addRowLocal stored found add =>
          simp only [CallsExact, ih]
          exact mccAddRowLocal_exact_iff stored found add row (R := fun k v => CallsFit k v calls)

/-- A key of 500 octets, behind which a value is written outside of the data. -/
theorem mccCalls_outside :
    ¬ CallsExact ⟨0, 0, .replicate _ 0⟩ [.putKeyValue .ok ⟨0, 0, .replicate _ 0⟩
      ⟨List.replicate 500 (ch 'k'), fun h => absurd (List.eq_of_mem_replicate h) (by decide)⟩
      ⟨ascii "v", by decide⟩] := by
  intro h
  rcases ((mccPutKeyValue_exact_iff _ _ _ _).mp h).1 with hfits | ⟨hrc, -⟩
  · exact absurd hfits (by rw [List.length_replicate]; decide)
  · exact hrc rfl

end Snert
