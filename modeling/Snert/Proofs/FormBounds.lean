/-
Module: Snert.Proofs.FormBounds
Purpose: When `cgiParseForm` and `cgiUrlDecode` stay inside the encoded string and the block they
  write to. An escape with one digit before the NUL leads behind the string; and a field has two
  terminators, of which the encoded string pays one with the `&` and the other only with a `=` or an
  escape.
Trusted boundary: none
Main exports: cgiForm_inBounds_iff
-/
import Snert.Proofs.FormFields

namespace Snert

open CModel Run

/-! ### Characters and fields -/

/-- The number of characters up to the next separator, and what stands behind the separator. An
escape is one character; it takes two octets behind the percent sign, and there is no count if one
of them is the NUL. -/
def characters : List Octet → Option (Nat × List Octet)
  | [] => some (0, [])
  | c :: s =>
      if c = ch '=' ∨ c = ch '&' then some (0, s)
      else if c = ch '%' ∧ (sscanfHex2 s).isSome then
        match s with
        | _ :: _ :: s' => (characters s').map (Prod.map Nat.succ id)
        | _ => none
      else (characters s).map (Prod.map Nat.succ id)

/-- The characters can be counted. -/
def Readable (text : List Octet) : Prop :=
  (characters text).isSome

/-- The characters of a value, of which there are none unless the name ended at an equals sign. -/
def valueCharacters (text s : List Octet) : Option (Nat × List Octet) :=
  if octetBefore text s = ch '=' then characters s else some (0, s)

/-- The number of characters in the names and values of the next fields. -/
def formCharacters (text : List Octet) : Nat → List Octet → Option Nat
  | 0, _ => some 0
  | count + 1, s => do
      let (name, s) ← characters s
      let (value, s) ← valueCharacters text s
      let rest ← formCharacters text count s
      return name + value + rest

/-- There is room for the characters of the fields, of which there is one more than there are `&`,
with two terminators each. -/
def FormFits (text : List Octet) : Prop :=
  ∃ count ∈ formCharacters text (1 + text.count (ch '&')) text,
    count + 2 * (1 + text.count (ch '&')) ≤ text.length + 1

instance (text : List Octet) : Decidable (Readable text) := by
  unfold Readable
  infer_instance

instance (text : List Octet) : Decidable (FormFits text) := by
  unfold FormFits
  infer_instance

theorem characters_cons (c : Octet) (s : List Octet) :
    characters (c :: s) =
      if c = ch '=' ∨ c = ch '&' then some (0, s)
      else if c = ch '%' ∧ (sscanfHex2 s).isSome then
        match s with
        | _ :: _ :: s' => (characters s').map (Prod.map Nat.succ id)
        | _ => none
      else (characters s).map (Prod.map Nat.succ id) :=
  characters.eq_def (c :: s)

theorem characters_eq (s : List Octet) :
    characters s = (decoded s).map (Prod.map List.length id) := by
  have hnext : ∀ (x : Octet) (reading : Option (List Octet × List Octet)),
      (reading.map (Prod.map List.length id)).map (Prod.map Nat.succ id) =
        (reading.map (Prod.map (List.cons x) id)).map (Prod.map List.length id) := by
    intro x reading
    cases reading <;> rfl
  fun_induction decoded s with
  | case1 => rfl
  | case2 c s hsep =>
      rw [characters_cons, if_pos hsep]
      rfl
  | case3 s hsep ih =>
      have hplus : ch '+' ≠ ch '%' := by decide
      rw [characters_cons, if_neg hsep, if_neg fun h => hplus h.1, ih, hnext]
  | case4 hex a b s' hsep hplus hscan ih =>
      rw [characters_cons, if_neg hsep, if_pos ⟨rfl, Option.isSome_iff_exists.mpr ⟨hex, hscan⟩⟩,
        ← hnext, ← ih]
  | case5 s hex hscan hshort hsep hplus =>
      rw [characters_cons, if_neg hsep, if_pos ⟨rfl, Option.isSome_iff_exists.mpr ⟨hex, hscan⟩⟩]
      rcases s with _ | ⟨a, _ | ⟨b, s'⟩⟩
      · rfl
      · rfl
      · exact absurd rfl (hshort a b s')
  | case6 s hscan hsep hplus ih =>
      have hnone : ¬ (ch '%' = ch '%' ∧ (sscanfHex2 s).isSome) := by
        rw [hscan]
        exact fun h => absurd h.2 (by simp)
      rw [characters_cons, if_neg hsep, if_neg hnone, ih, hnext]
  | case7 c s hsep hplus hpercent ih =>
      rw [characters_cons, if_neg hsep, if_neg fun h => hpercent h.1, ih, hnext]

theorem formCharacters_succ {text s : List Octet} {count k : Nat} :
    formCharacters text (count + 1) s = some k ↔
      ∃ name r value r' rest, decoded s = some (name, r) ∧ decodedValue text r = some (value, r') ∧
        formCharacters text count r' = some rest ∧ name.length + value.length + rest = k := by
  have hvalue : ∀ r : List Octet, valueCharacters text r =
      (decodedValue text r).map (Prod.map List.length id) := by
    intro r
    rw [valueCharacters, decodedValue, characters_eq]
    split <;> rfl
  rw [formCharacters]
  simp only [hvalue, characters_eq, Option.bind_eq_bind, Option.bind_eq_some_iff,
    Option.map_eq_some_iff, Option.pure_def, Option.some.injEq]
  constructor
  · rintro ⟨_, ⟨⟨name, r⟩, hname, rfl⟩, _, ⟨⟨value, r'⟩, hval, rfl⟩, rest, hrest, hk⟩
    exact ⟨name, r, value, r', rest, hname, hval, hrest, hk⟩
  · rintro ⟨name, r, value, r', rest, hname, hval, hrest, hk⟩
    exact ⟨_, ⟨⟨name, r⟩, hname, rfl⟩, _, ⟨⟨value, r'⟩, hval, rfl⟩, rest, hrest, hk⟩

/-! ### The loop over the fields -/

section

variable {text : List Octet} {n : Nat}

theorem cgiFields_ends_iff (htext : 0 < text.length) {count : Nat} (block : Buffer n) {t : Nat}
    {s : List Octet} (out : List (Nat × Nat)) (hs : s.length ≤ text.length) (ht : t ≤ n)
    (hout : CGI_MAP_SIZE * (out.length + count + 1) ≤ n) :
    ((cgiFields text block t s out count).Ends fun _ => True) ↔
      ∃ k, formCharacters text count s = some k ∧ t + k + 2 * count ≤ n := by
  induction count generalizing block t s out with
  | zero =>
      have hend := entry_inBounds (Nat.le_of_eq (Nat.add_zero out.length).symm) hout
      rw [cgiFields, ends_bind, ends_store]
      exact iff_of_true ⟨hend, ends_pure.mpr trivial⟩ ⟨0, rfl, ht⟩
  | succ count ih =>
      have hentry := entry_inBounds (Nat.le_add_right out.length (count + 1)) hout
      rw [cgiFields, ends_bind, ends_store, and_iff_right hentry, ends_bind,
        cgiUrlDecode_ends hs block t]
      have hentries : CGI_MAP_SIZE * ((out ++ [(t, t)]).length + count + 1) ≤ n := by
        rw [List.length_append, List.length_singleton, Nat.add_right_comm out.length 1]
        exact hout
      have hrest : ∀ {name r}, decoded s = some (name, r) → r.length < text.length := fun h => by
        have hle := decoded_rest_length s _ _ h
        omega
      have hvalue : ∀ {r value r'}, r.length < text.length →
          decodedValue text r = some (value, r') → r'.length ≤ text.length := fun hr h =>
        (decodedValue_rest_length h).trans hr.le
      constructor
      · rintro ⟨name, r, hname, hfits, hends⟩
        obtain ⟨value, r', hval, hfits', hends⟩ :=
          (cgiFieldValue_ends (hrest hname) _ _ _).mp (ends_bind.mp hends)
        obtain ⟨rest, hcount, hle⟩ := (ih _ (out ++ [(t, _)]) (hvalue (hrest hname) hval) hfits'
          (by simpa using hentries)).mp hends
        exact ⟨_, formCharacters_succ.mpr ⟨name, r, value, r', rest, hname, hval, hcount, rfl⟩,
          by omega⟩
      · rintro ⟨k, hcount, hle⟩
        obtain ⟨name, r, value, r', rest, hname, hval, hrest', rfl⟩ := formCharacters_succ.mp hcount
        refine ⟨name, r, hname, by omega, ends_bind.mpr
          ((cgiFieldValue_ends (hrest hname) _ _ _).mpr ⟨value, r', hval, by omega, ?_⟩)⟩
        exact (ih _ (out ++ [(t, _)]) (hvalue (hrest hname) hval) (by omega)
          (by simpa using hentries)).mpr ⟨rest, hrest', by omega⟩

theorem cgiFields_total (count : Nat) (block : Buffer n) (t : Nat) (s : List Octet)
    (out : List (Nat × Nat)) : (cgiFields text block t s out count).Total := by
  induction count generalizing block t s out with
  | zero => exact (total_store _ _).bind fun _ => total_pure _
  | succ count ih =>
      refine (total_store _ _).bind fun _ => (cgiUrlDecode_total s block t).bind ?_
      rintro ⟨block, t', s⟩
      refine (cgiFieldValue_total s block t').bind ?_
      rintro ⟨block, t'', s⟩
      exact ih block t'' s _

end

/-! ### The whole -/

theorem cgiParseForm_nil (block : Buffer (cgiFormSize [])) :
    ¬ (cgiParseForm [] block).Ends fun _ => True := by
  have hentry : Access.InBounds ⟨(CGI_MAP_SIZE * 0 : Nat), CGI_MAP_SIZE, cgiFormSize []⟩ :=
    entry_inBounds (Nat.le_refl 0) (by decide)
  have hcount : cgiFieldCount [] = 0 + 1 := rfl
  intro hends
  rw [cgiParseForm, load_restOf_bind_ends (Nat.le_refl _) (Nat.le_refl _), hcount, cgiFields,
    ends_bind, ends_store, List.length_nil, and_iff_right hentry, ends_bind,
    cgiUrlDecode_ends (Nat.le_refl _)] at hends
  obtain ⟨name, r, hname, -, hends⟩ := hends
  cases hname
  obtain ⟨hvalue, -⟩ := ends_bind.mp hends
  have hfirst := (inBounds_bind.mp hvalue).1 _ (List.mem_singleton_self _)
  exact absurd hfirst.1 (by decide)

/-- `cgiParseForm` stays inside the string and its block exactly if the characters of the fields and
two terminators for each field fit into as many octets as the string has with its NUL;
`cgiUrlDecode`, with a destination as large as the source, exactly if no escape takes the NUL. -/
theorem cgiForm_inBounds_iff (text : List Octet) (block : Buffer (cgiFormSize text))
    (dest : Buffer (text.length + 1)) :
    ((cgiParseForm text block).InBounds ↔ FormFits text) ∧
      ((cgiUrlDecode text dest 0 text).InBounds ↔ Readable text) := by
  constructor
  · have htotal : (cgiParseForm text block).Total :=
      (total_load _ _).bind fun _ => cgiFields_total _ _ _ _ _
    rw [htotal.inBounds_iff]
    rcases Nat.eq_zero_or_pos text.length with hzero | hpos
    · obtain rfl := List.eq_nil_of_length_eq_zero hzero
      exact iff_of_false (cgiParseForm_nil block) (by decide)
    · have hroom : CGI_MAP_SIZE * (0 + cgiFieldCount text + 1) ≤ cgiFormSize text := by
        rw [cgiFormSize, Nat.zero_add, Nat.mul_comm]
        omega
      rw [cgiParseForm, load_restOf_bind_ends (Nat.le_refl _) (Nat.le_refl _),
        cgiFields_ends_iff hpos block [] (Nat.le_refl _) (by rw [cgiFormSize]; omega) hroom]
      refine exists_congr fun k => and_congr_right fun _ => ?_
      rw [cgiFormSize, cgiFieldCount]
      omega
  · rw [(cgiUrlDecode_total text dest 0).inBounds_iff, cgiUrlDecode_ends (Nat.le_refl _), Readable,
      characters_eq, Option.isSome_map, Option.isSome_iff_exists]
    constructor
    · rintro ⟨d, r, hd, -⟩
      exact ⟨(d, r), hd⟩
    · rintro ⟨⟨d, r⟩, hd⟩
      have hsum := (decoded_lengths text d r hd).2
      exact ⟨d, r, hd, by omega, trivial⟩

/-- A name without a value has no room for its second terminator. -/
theorem cgiParseForm_name :
    ¬ (cgiParseForm [ch 'a'] (Buffer.replicate _ 0)).InBounds := by
  decide

end Snert
