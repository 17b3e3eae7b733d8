/-
Module: Snert.Proofs.FormRoundTrip
Purpose: What `uriEncode` writes is read back by `uriDecode`, and a form of encoded names and values
  by `cgiParseForm`. Both decoders take the encoding of an octet as one character.
Trusted boundary: none
Main exports: cgiParseForm_encodedForm
-/
import Mathlib.Data.List.TakeWhile
import Snert.Lists.OctetBits
import Snert.Proofs.FormFields
import Snert.Util.UriEncode

namespace Snert

open CModel Run

/-! ### One octet -/

/-- The digits that stand for an octet. -/
def highDigit (c : Octet) : Octet :=
  hexDigit.getD (c.toNat / 16) 0

def lowDigit (c : Octet) : Octet :=
  hexDigit.getD (c.toNat % 16) 0

theorem digits_spec (c : Octet) :
    hexValue (highDigit c) = some (c.toNat / 16) ∧ hexValue (lowDigit c) = some (c.toNat % 16) ∧
      isspace (highDigit c) = false ∧ sscanfHex2 [highDigit c, lowDigit c] = some c ∧
      highDigit c ≠ ch '&' ∧ lowDigit c ≠ ch '&' :=
  Lists.forall_octet (P := fun c => hexValue (highDigit c) = some (c.toNat / 16) ∧
    hexValue (lowDigit c) = some (c.toNat % 16) ∧ isspace (highDigit c) = false ∧
      sscanfHex2 [highDigit c, lowDigit c] = some c ∧ highDigit c ≠ ch '&' ∧ lowDigit c ≠ ch '&')
    (by decide +kernel) c

theorem uriEncodeOctet_cases (c : Octet) :
    (uriEncodeOctet false c = [c] ∧ c ≠ ch '=' ∧ c ≠ ch '&' ∧ c ≠ ch '+' ∧ c ≠ ch '%') ∨
      uriEncodeOctet false c = [ch '%', highDigit c, lowDigit c] :=
  Lists.forall_octet (P := fun c =>
    (uriEncodeOctet false c = [c] ∧ c ≠ ch '=' ∧ c ≠ ch '&' ∧ c ≠ ch '+' ∧ c ≠ ch '%') ∨
      uriEncodeOctet false c = [ch '%', highDigit c, lowDigit c]) (by decide +kernel) c

theorem sscanfHex2_cons_cons {a : Octet} (ha : isspace a = false) (b : Octet) (s : List Octet) :
    sscanfHex2 (a :: b :: s) = sscanfHex2 [a, b] := by
  rw [sscanfHex2, sscanfHex2, List.dropWhile_cons_of_neg (by simp [ha]),
    List.dropWhile_cons_of_neg (by simp [ha])]
  rfl

theorem decoded_uriEncodeOctet (c : Octet) (s : List Octet) :
    decoded (uriEncodeOctet false c ++ s) = (decoded s).map (Prod.map (List.cons c) id) := by
  rcases uriEncodeOctet_cases c with ⟨hself, hequals, hamp, hplus, hpercent⟩ | hdigits
  · rw [hself, List.singleton_append, decoded.eq_def]
    dsimp only
    rw [if_neg (not_or.mpr ⟨hequals, hamp⟩), if_neg hplus, if_neg hpercent]
  · obtain ⟨-, -, hspace, hscan, -, -⟩ := digits_spec c
    have hread : sscanfHex2 (highDigit c :: lowDigit c :: s) = some c :=
      (sscanfHex2_cons_cons hspace _ s).trans hscan
    rw [hdigits, List.cons_append, List.cons_append, List.singleton_append, decoded.eq_def]
    dsimp only
    rw [if_neg (by decide), if_neg (by decide), if_pos rfl, hread]

theorem uriDecodeSelf_uriEncodeOctet (c : Octet) (s : List Octet) :
    uriDecodeSelf (uriEncodeOctet false c ++ s) = c :: uriDecodeSelf s := by
  rcases uriEncodeOctet_cases c with ⟨hself, -, -, hplus, hpercent⟩ | hdigits
  · rw [hself, List.singleton_append, uriDecodeSelf.eq_def]
    dsimp only
    rw [if_neg hplus, if_neg hpercent]
  · obtain ⟨hhigh, hlow, -⟩ := digits_spec c
    have hvalue : c.toNat / 16 * 16 + c.toNat % 16 = c.toNat := by omega
    rw [hdigits, List.cons_append, List.cons_append, List.singleton_append, uriDecodeSelf.eq_def]
    dsimp only
    rw [if_neg (by decide), if_pos rfl, hhigh, hlow]
    dsimp only
    rw [hvalue, UInt8.ofNat_toNat]

/-! ### Strings -/

theorem uriEncode_cons (c : Octet) (string : List Octet) :
    uriEncode (c :: string) = uriEncodeOctet false c ++ uriEncode string :=
  List.flatMap_cons

theorem decoded_uriEncode (string : List Octet) {rest r : List Octet}
    (hrest : decoded rest = some ([], r)) :
    decoded (uriEncode string ++ rest) = some (string, r) := by
  induction string with
  | nil => exact hrest
  | cons c string ih =>
      rw [uriEncode_cons, List.append_assoc, decoded_uriEncodeOctet, ih]
      rfl

theorem takeWhile_nonzero {s : List Octet} (hs : 0 ∉ s) : s.takeWhile (· ≠ 0) = s :=
  List.takeWhile_eq_self_iff.mpr fun _ hc => decide_eq_true fun h => hs (h ▸ hc)

theorem uriDecode_uriEncode {s : List Octet} (hs : 0 ∉ s) : uriDecode (uriEncode s) = s := by
  have hself : uriDecodeSelf (uriEncode s) = s := by
    induction s with
    | nil => rfl
    | cons c s ih =>
        rw [uriEncode_cons, uriDecodeSelf_uriEncodeOctet, ih fun h => hs (List.mem_cons_of_mem c h)]
  rw [uriDecode, hself]
  exact takeWhile_nonzero hs

theorem length_le_uriEncode (string : List Octet) : string.length ≤ (uriEncode string).length := by
  induction string with
  | nil => exact Nat.le_refl 0
  | cons c string ih =>
      have hpos : 1 ≤ (uriEncodeOctet false c).length := by
        rcases uriEncodeOctet_cases c with ⟨hself, -⟩ | hdigits
        · rw [hself]
          rfl
        · rw [hdigits]
          exact Nat.le_add_left 1 2
      rw [uriEncode_cons, List.length_append, List.length_cons]
      omega

theorem count_uriEncode (string : List Octet) : (uriEncode string).count (ch '&') = 0 := by
  induction string with
  | nil => rfl
  | cons c string ih =>
      rw [uriEncode_cons, List.count_append, ih, Nat.add_zero, List.count_eq_zero]
      rcases uriEncodeOctet_cases c with ⟨hself, -, hamp, -⟩ | hdigits
      · rw [hself, List.mem_singleton]
        exact hamp.symm
      · obtain ⟨-, -, -, -, hhigh, hlow⟩ := digits_spec c
        rw [hdigits]
        have hpercent : ch '&' ≠ ch '%' := by decide
        simp [hhigh.symm, hlow.symm, hpercent]

/-! ### Forms -/

/-- The encoded form of names and values: encoded, joined by `=` within and `&` between the
pairs. -/
def encodedForm (pairs : List (List Octet × List Octet)) : List Octet :=
  [ch '&'].intercalate (pairs.map fun (name, value) => uriEncode name ++ ch '=' :: uriEncode value)

/-- What stands behind the first pair of a form. -/
def formTail (pairs : List (List Octet × List Octet)) : List Octet :=
  if pairs = [] then [] else ch '&' :: encodedForm pairs

theorem encodedForm_cons (name value : List Octet) (pairs : List (List Octet × List Octet)) :
    encodedForm ((name, value) :: pairs) =
      uriEncode name ++ ch '=' :: (uriEncode value ++ formTail pairs) := by
  cases pairs with
  | nil => simp [encodedForm, formTail]
  | cons pair pairs =>
      rw [formTail, if_neg (List.cons_ne_nil _ _), encodedForm, encodedForm, List.map_cons,
        List.map_cons, List.intercalate_cons_cons]
      simp

theorem decoded_formTail (pairs : List (List Octet × List Octet)) :
    decoded (formTail pairs) = some ([], encodedForm pairs) := by
  unfold formTail
  split
  · rename_i hnil
    rw [hnil]
    rfl
  · rw [decoded.eq_def]
    rfl

/-- The names and values as `cgiParseForm` stores them, each with its NUL. -/
def packed : List (List Octet × List Octet) → List Octet
  | [] => []
  | (name, value) :: pairs => name ++ 0 :: (value ++ 0 :: packed pairs)

/-- Where the names and values start. -/
def packedAt (t : Nat) : List (List Octet × List Octet) → List (Nat × Nat)
  | [] => []
  | (name, value) :: pairs =>
      (t, t + name.length + 1) :: packedAt (t + name.length + 1 + value.length + 1) pairs

theorem length_packed_le (pairs : List (List Octet × List Octet)) :
    (packed pairs).length ≤ (encodedForm pairs).length + 1 := by
  induction pairs with
  | nil => exact Nat.zero_le _
  | cons pair pairs ih =>
      obtain ⟨name, value⟩ := pair
      have hname := length_le_uriEncode name
      have hvalue := length_le_uriEncode value
      have htail : pairs = [] ∨ (formTail pairs).length = (encodedForm pairs).length + 1 := by
        unfold formTail
        by_cases hnil : pairs = []
        · exact .inl hnil
        · rw [if_neg hnil]
          exact .inr rfl
      rw [encodedForm_cons]
      simp only [packed, List.length_append, List.length_cons]
      rcases htail with rfl | htail
      · simp only [packed, List.length_nil]
        omega
      · omega

theorem cgiFieldCount_encodedForm {pairs : List (List Octet × List Octet)} (hpairs : pairs ≠ []) :
    cgiFieldCount (encodedForm pairs) = pairs.length := by
  have hequals : ch '=' ≠ ch '&' := by decide
  rw [cgiFieldCount]
  induction pairs with
  | nil => exact absurd rfl hpairs
  | cons pair pairs ih =>
      obtain ⟨name, value⟩ := pair
      rw [encodedForm_cons, List.count_append, List.count_cons_of_ne hequals, List.count_append,
        count_uriEncode, count_uriEncode, List.length_cons, formTail]
      split
      · rename_i hnil
        rw [hnil]
        rfl
      · rename_i hcons
        rw [List.count_cons_self, ← ih hcons]
        omega

theorem octetBefore_append (front : List Octet) (c : Octet) (r : List Octet) :
    octetBefore (front ++ c :: r) r = c := by
  have hindex : (front ++ c :: r).length - r.length - 1 = front.length := by
    rw [List.length_append, List.length_cons]
    omega
  rw [octetBefore, hindex, List.getD_eq_getElem?_getD, List.getElem?_append_right (Nat.le_refl _),
    Nat.sub_self]
  rfl

theorem encodedForm_suffix (name value : List Octet) (pairs : List (List Octet × List Octet)) :
    encodedForm pairs <:+ encodedForm ((name, value) :: pairs) := by
  have htail : encodedForm pairs <:+ formTail pairs := by
    unfold formTail
    split
    · rename_i hnil
      rw [hnil]
      exact List.suffix_refl _
    · exact List.suffix_cons _ _
  rw [encodedForm_cons]
  exact (htail.trans (List.suffix_append _ _)).trans
    ((List.suffix_cons _ _).trans (List.suffix_append _ _))

theorem cgiFields_encodedForm {n : Nat} {text : List Octet}
    (pairs : List (List Octet × List Octet)) (htext : encodedForm pairs <:+ text)
    (block : Buffer n) {t : Nat} (out : List (Nat × Nat)) (ht : t + (packed pairs).length ≤ n)
    (hout : CGI_MAP_SIZE * (out.length + pairs.length + 1) ≤ n) :
    (cgiFields text block t (encodedForm pairs) out pairs.length).Yields
      ⟨out ++ packedAt t pairs, block.splice t (packed pairs)⟩ := by
  induction pairs generalizing block t out with
  | nil =>
      rw [List.length_nil, cgiFields, packedAt, packed, List.append_nil, Buffer.splice_nil, Yields,
        ends_bind, ends_store]
      exact ⟨entry_inBounds (Nat.le_refl _) hout, ends_pure.mpr rfl⟩
  | cons pair pairs ih =>
      obtain ⟨name, value⟩ := pair
      have hrest := (encodedForm_suffix name value pairs).trans htext
      rw [encodedForm_cons] at htext ⊢
      obtain ⟨front, rfl⟩ := htext
      have hbefore : octetBefore (front ++ (uriEncode name ++ ch '=' :: (uriEncode value ++
          formTail pairs))) (uriEncode value ++ formTail pairs) = ch '=' := by
        rw [← List.append_assoc]
        exact octetBefore_append _ _ _
      have hname : decoded (uriEncode name ++ ch '=' :: (uriEncode value ++ formTail pairs)) =
          some (name, uriEncode value ++ formTail pairs) :=
        decoded_uriEncode name (by rw [decoded.eq_def]; rfl)
      have hvalue : decodedValue (front ++ (uriEncode name ++ ch '=' :: (uriEncode value ++
          formTail pairs))) (uriEncode value ++ formTail pairs) =
            some (value, encodedForm pairs) := by
        rw [decodedValue, if_pos hbefore]
        exact decoded_uriEncode value (decoded_formTail pairs)
      have hlonger : (uriEncode name ++ ch '=' :: (uriEncode value ++ formTail pairs)).length ≤
          (front ++ (uriEncode name ++ ch '=' :: (uriEncode value ++ formTail pairs))).length :=
        (List.suffix_append front _).length_le
      have hshorter : (uriEncode value ++ formTail pairs).length <
          (front ++ (uriEncode name ++ ch '=' :: (uriEncode value ++ formTail pairs))).length := by
        simp only [List.length_append, List.length_cons]
        omega
      simp only [packed, List.length_append, List.length_cons] at ht
      simp only [List.length_cons] at hout
      rw [List.length_cons, cgiFields, Yields, ends_bind, ends_store]
      refine ⟨entry_inBounds (Nat.le_add_right _ (pairs.length + 1)) hout, ?_⟩
      refine Yields.bind ((cgiUrlDecode_ends hlonger _ _ _).mpr
        ⟨name, _, hname, by omega, rfl⟩) ?_
      refine Yields.bind ((cgiFieldValue_ends hshorter _ _ _).mpr
        ⟨value, _, hvalue, by omega, rfl⟩) ?_
      have hfields := ih hrest ((block.splice t (name ++ [0])).splice (t + name.length + 1)
        (value ++ [0])) (t := t + name.length + 1 + value.length + 1)
        (out ++ [(t, t + name.length + 1)]) (by omega) (by
          rw [List.length_append, List.length_singleton, Nat.add_right_comm out.length 1]
          exact hout)
      have hblock : ((block.splice t (name ++ [0])).splice (t + name.length + 1)
          (value ++ [0])).splice (t + name.length + 1 + value.length + 1) (packed pairs) =
            block.splice t (packed ((name, value) :: pairs)) := by
        have hone := block.splice_splice (name ++ [0]) (value ++ [0]) (i := t)
          (by simp only [List.length_append, List.length_singleton]; omega)
        have htwo := block.splice_splice ((name ++ [0]) ++ (value ++ [0])) (packed pairs) (i := t)
          (by simp only [List.length_append, List.length_singleton]; omega)
        simp only [List.length_append, List.length_singleton, ← Nat.add_assoc] at hone htwo
        rw [hone, htwo]
        simp [packed]
      rw [hblock, List.append_assoc] at hfields
      exact hfields

/-! ### What the pointers point to -/

theorem string_of_drop {n : Nat} (form : CgiForm n) {i : Nat} {s rest : List Octet} (hs : 0 ∉ s)
    (hdrop : form.block.octets.drop i = s ++ 0 :: rest) : form.string i = s := by
  have hall : ∀ c ∈ s, decide (c ≠ 0) = true := fun c hc =>
    decide_eq_true fun h : c = 0 => hs (h ▸ hc)
  rw [CgiForm.string, hdrop, List.takeWhile_append_of_pos hall,
    List.takeWhile_cons_of_neg (by decide), List.append_nil]

theorem pairs_packedAt {n : Nat} (block : Buffer n) {pairs : List (List Octet × List Octet)}
    (hpairs : ∀ pair ∈ pairs, 0 ∉ pair.1 ∧ 0 ∉ pair.2) {t : Nat} (rest : List Octet)
    (hdrop : block.octets.drop t = packed pairs ++ rest) :
    (CgiForm.mk (packedAt t pairs) block).pairs = pairs := by
  induction pairs generalizing t with
  | nil => rfl
  | cons pair pairs ih =>
      obtain ⟨name, value⟩ := pair
      obtain ⟨⟨hname, hvalue⟩, hpairs⟩ := List.forall_mem_cons.mp hpairs
      rw [packed, List.append_assoc, List.cons_append, List.append_assoc, List.cons_append] at hdrop
      have hdrop' : block.octets.drop (t + name.length + 1) =
          value ++ 0 :: (packed pairs ++ rest) := by
        rw [Nat.add_assoc, ← List.drop_drop, hdrop, List.drop_append]
        simp
      have hdrop'' : block.octets.drop (t + name.length + 1 + value.length + 1) =
          packed pairs ++ rest := by
        rw [Nat.add_assoc, ← List.drop_drop, hdrop', List.drop_append]
        simp
      have hrest := ih hpairs hdrop''
      have hone := string_of_drop ⟨packedAt t ((name, value) :: pairs), block⟩ hname hdrop
      have htwo := string_of_drop ⟨packedAt t ((name, value) :: pairs), block⟩ hvalue hdrop'
      exact congrArg₂ List.cons (congrArg₂ Prod.mk hone htwo) hrest

/-- Names and values of any octets but NUL, encoded and joined, are what `cgiParseForm` returns; and
a string is what its encoding is decoded to. -/
theorem cgiParseForm_encodedForm :
    (∀ pairs : List (List Octet × List Octet), pairs ≠ [] →
      (∀ pair ∈ pairs, 0 ∉ pair.1 ∧ 0 ∉ pair.2) →
      ∀ block : Buffer (cgiFormSize (encodedForm pairs)),
        (cgiParseForm (encodedForm pairs) block).Ends fun form => form.pairs = pairs) ∧
      ∀ s : List Octet, 0 ∉ s → uriDecode (uriEncode s) = s := by
  refine ⟨fun pairs hne hpairs block => ?_, fun s => uriDecode_uriEncode⟩
  have hcount := cgiFieldCount_encodedForm hne
  have hpacked := length_packed_le pairs
  have hroom : CGI_MAP_SIZE * (0 + pairs.length + 1) ≤ cgiFormSize (encodedForm pairs) := by
    rw [cgiFormSize, hcount, Nat.zero_add, Nat.mul_comm]
    omega
  have hspace : (pairs.length + 1) * CGI_MAP_SIZE + (packed pairs).length ≤
      cgiFormSize (encodedForm pairs) := by
    rw [cgiFormSize, hcount]
    omega
  rw [cgiParseForm, load_restOf_bind_ends (Nat.le_refl _) (Nat.le_refl _), hcount,
    (cgiFields_encodedForm pairs (List.suffix_refl _) block [] hspace hroom).ends_iff]
  refine pairs_packedAt _ hpairs (block.octets.drop
    ((pairs.length + 1) * CGI_MAP_SIZE + (packed pairs).length)) ?_
  have hlength : (block.octets.take ((pairs.length + 1) * CGI_MAP_SIZE)).length =
      (pairs.length + 1) * CGI_MAP_SIZE := by
    rw [List.length_take, block.length_octets]
    omega
  rw [Buffer.octets_splice _ hspace, List.append_assoc, List.drop_left' hlength]

/-- A form of two pairs. -/
theorem cgiParseForm_two :
    (cgiParseForm (encodedForm [([97], [98, 38]), ([], [255])]) (Buffer.replicate _ 0)).Ends
      (fun form => form.pairs = [([97], [98, 38]), ([], [255])]) ∧
      uriDecode (uriEncode [37, 43]) = [37, 43] :=
  ⟨cgiParseForm_encodedForm.1 _ (by decide) (by decide) _,
    cgiParseForm_encodedForm.2 [37, 43] (by decide)⟩

end Snert
