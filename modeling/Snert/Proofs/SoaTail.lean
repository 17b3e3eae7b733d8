/-
Module: Snert.Proofs.SoaTail
Purpose: What the code of `pdqListHasValidSOA` says about the name, and what is left of the list. The
  first SOA record decides: it is good only if its owner, with or without the root dot, is the tail of
  the name or of the domain of the last CNAME target before it. The octet of the root dot is a NUL
  during the second comparison, and put back when that holds.
Trusted boundary: none
Main exports: pdqListHasValidSOA_tail
-/
import Mathlib.Data.List.TakeWhile
import Snert.Pdq.ValidSoa

namespace Snert

open CModel CModel.Run

/-! ### Owners -/

/-- The owner, with or without its last octet, is the tail of the name, whatever the case. -/
def HasTail (name : List Octet) (owner : PdqName) : Prop :=
  owner.string.map tolower <:+ name.map tolower ∨
    (owner.string.take (owner.length - 1)).map tolower <:+ name.map tolower

/-- The last octet of a name is its root dot. -/
def EndsInRootDot (name : PdqName) : Prop :=
  0 < name.length ∧ name.value.get (name.length - 1) = ch '.'

/-- Is the name the text of an IP address? -/
def IsAddress (name : List Octet) (ipv6 : Ipv6) : Prop :=
  ∃ parsed, (parseIPv6 name ipv6).outcome = .done parsed ∧ 0 < parsed.1

/-- The name that an SOA record behind some records is compared with. -/
def soaName (nthTld : Nat → List (List Octet)) (name : List Octet) : List PdqRr → List Octet
  | [] => name
  | rr :: front =>
      if rr.type = PDQ_TYPE_CNAME then soaName nthTld (targetDomain nthTld rr.host.string) front
      else soaName nthTld name front

/-! ### The octet of the root dot -/

theorem splice_cstring {n : Nat} (value : Buffer n) {i : Nat} (h : i < n) :
    (value.splice i [0]).cstring = value.cstring.take i := by
  have hroom : i + [(0 : Octet)].length ≤ n := h
  have hlen := value.length_octets
  have hfront : (value.octets.take i).length = i := by
    rw [List.length_take]
    omega
  have hsplit := List.take_append_drop i value.octets
  rw [Buffer.cstring, Buffer.octets_splice value hroom, List.append_assoc]
  conv_rhs => rw [Buffer.cstring, ← hsplit]
  by_cases hnul : ∀ c ∈ value.octets.take i, (c ≠ 0 : Bool)
  · rw [List.takeWhile_append_of_pos hnul, List.takeWhile_append_of_pos hnul, List.take_left' hfront]
    simp
  · have hshort : ¬ ((value.octets.take i).takeWhile (· ≠ 0)).length =
        (value.octets.take i).length := fun hlength => hnul fun c hc => by
      rw [← (List.takeWhile_prefix _).eq_of_length hlength] at hc
      exact List.mem_takeWhile_imp (p := fun x => decide (x ≠ 0)) hc
    rw [List.takeWhile_append, if_neg hshort, List.takeWhile_append, if_neg hshort]
    refine (List.take_of_length_le ?_).symm
    exact Nat.le_trans (List.takeWhile_prefix _).length_le (List.length_take_le _ _)

theorem splice_get {n : Nat} (value : Buffer n) {i : Nat} (h : i < n) :
    value.splice i [value.get i] = value := by
  have hlen := value.length_octets
  apply Buffer.ext
  rw [Buffer.octets_splice _ h, Buffer.get, List.getD_eq_getElem?_getD,
    List.getElem?_eq_getElem (by omega), Option.getD_some, List.append_assoc, List.singleton_append,
    List.length_singleton, ← List.drop_eq_getElem_cons, List.take_append_drop]

theorem splice_back {n : Nat} (value : Buffer n) {i : Nat} (h : i < n) (c : Octet) :
    (value.splice i [c]).splice i [value.get i] = value :=
  (@Buffer.splice_splice_last _ value i [] _ _ h).trans (splice_get value h)

theorem setLast_done {rr rr' : PdqRr} {c : Octet} (h : (rr.setLast c).outcome = .done rr') :
    0 < rr.name.length ∧ rr.name.length ≤ 256 ∧
      rr' = { rr with name := { rr.name with
        value := rr.name.value.splice (rr.name.length - 1) [c] } } := by
  obtain ⟨value, hvalue, hrr⟩ := outcome_bind_eq_done.mp h
  have hroom : (⟨(rr.name.length : Int) - 1, [c].length, 256⟩ : Access).InBounds := by
    by_contra hout
    rw [Buffer.write, outcome_store_of_not_inBounds hout] at hvalue
    cases hvalue
  rw [Buffer.write, outcome_store_of_inBounds hroom] at hvalue
  cases hvalue
  cases hrr
  have hindex : ((rr.name.length : Int) - 1).toNat = rr.name.length - 1 := by omega
  obtain ⟨hlow, hhigh⟩ := hroom
  dsimp only [List.length_singleton] at hlow hhigh
  rw [hindex]
  exact ⟨by omega, by omega, rfl⟩

theorem soaTail_done {name : List Octet} {rr rr' : PdqRr}
    (h : (soaTail name rr).outcome = .done (true, rr')) :
    HasTail name rr.name ∧ (EndsInRootDot rr.name → rr' = rr) := by
  rw [soaTail] at h
  by_cases hwhole : 0 ≤ textInsensitiveEndsWith name rr.name.string
  · rw [if_pos hwhole] at h
    cases h
    exact ⟨.inl (textInsensitiveEndsWith_nonneg.mp hwhole), fun _ => rfl⟩
  · rw [if_neg hwhole] at h
    obtain ⟨cut, hcut, h⟩ := outcome_bind_eq_done.mp h
    obtain ⟨hpos, hle, rfl⟩ := setLast_done hcut
    split at h
    · cases h
    · next htail =>
        obtain ⟨put, hput, h⟩ := outcome_bind_eq_done.mp h
        obtain ⟨-, -, rfl⟩ := setLast_done hput
        cases h
        have hstring : (rr.name.value.splice (rr.name.length - 1) [0]).cstring =
            rr.name.string.take (rr.name.length - 1) := splice_cstring _ (by omega)
        rw [Int.not_lt, textInsensitiveEndsWith_nonneg, PdqName.string] at htail
        dsimp only at htail
        rw [hstring] at htail
        refine ⟨.inr htail, fun hdot => ?_⟩
        dsimp only
        rw [← hdot.2, splice_back _ (by omega)]

theorem checkSoa_done {nthTld : Nat → List (List Octet)} {behind : Octet} {name : List Octet}
    {rr : PdqRr} {checked : PdqValidSoa × PdqRr}
    (h : (checkSoa nthTld behind name rr).outcome = .done checked) :
    (checked.1 = .ok → HasTail name rr.name) ∧
      (checked.1 ≠ .mismatch → EndsInRootDot rr.name → checked.2 = rr) := by
  obtain ⟨rooted, -, h⟩ := outcome_bind_eq_done.mp h
  cases rooted with
  | true =>
      cases h
      exact ⟨nofun, fun _ _ => rfl⟩
  | false =>
      rw [if_neg Bool.false_ne_true] at h
      obtain ⟨⟨matched, rr'⟩, htail, h⟩ := outcome_bind_eq_done.mp h
      cases matched with
      | true =>
          rw [if_pos rfl] at h
          obtain ⟨code, -, h⟩ := outcome_bind_eq_done.mp h
          cases h
          obtain ⟨hmatch, hsame⟩ := soaTail_done htail
          exact ⟨fun _ => hmatch, fun _ => hsame⟩
      | false =>
          rw [if_neg Bool.false_ne_true] at h
          cases h
          exact ⟨nofun, fun hcode => absurd rfl hcode⟩

/-- The first SOA record decides about the name, and a list whose owners end in root dots is left as it
was unless the owner did not match. -/
theorem validSoaLoop_done {nthTld : Nat → List (List Octet)} {behind : Octet} :
    ∀ {list : List PdqRr} {name : List Octet} {code : PdqValidSoa} {left : List PdqRr},
      (validSoaLoop nthTld behind list name).outcome = .done (code, left) →
      (code = .ok → ∃ front rr back, list = front ++ rr :: back ∧
        (∀ r ∈ front, r.type ≠ PDQ_TYPE_SOA) ∧ rr.type = PDQ_TYPE_SOA ∧
        HasTail (soaName nthTld name front) rr.name) ∧
      (code ≠ .mismatch → (∀ rr ∈ list, rr.type = PDQ_TYPE_SOA → EndsInRootDot rr.name) →
        left = list) := by
  intro list
  induction list with
  | nil =>
      intro name code left h
      cases h
      exact ⟨nofun, fun _ _ => rfl⟩
  | cons rr list ih =>
      intro name code left h
      have hgo {name' : List Octet} {rest : PdqValidSoa × List PdqRr}
          (hname : soaName nthTld name [rr] = name') (htype : rr.type ≠ PDQ_TYPE_SOA)
          (hrest : (validSoaLoop nthTld behind list name').outcome = .done rest)
          (hdone : (pure (rest.1, rr :: rest.2) : Run (PdqValidSoa × List PdqRr)).outcome =
            .done (code, left)) :
          (code = .ok → ∃ front rr' back, rr :: list = front ++ rr' :: back ∧
            (∀ r ∈ front, r.type ≠ PDQ_TYPE_SOA) ∧ rr'.type = PDQ_TYPE_SOA ∧
            HasTail (soaName nthTld name front) rr'.name) ∧
          (code ≠ .mismatch → (∀ rr' ∈ rr :: list, rr'.type = PDQ_TYPE_SOA →
            EndsInRootDot rr'.name) → left = rr :: list) := by
        cases hdone
        obtain ⟨htail, hsame⟩ := ih hrest
        constructor
        · intro hok
          obtain ⟨front, rr', back, rfl, hfront, hsoa, hmatch⟩ := htail hok
          refine ⟨rr :: front, rr', back, rfl, List.forall_mem_cons.mpr ⟨htype, hfront⟩, hsoa, ?_⟩
          have hcons : soaName nthTld name (rr :: front) = soaName nthTld name' front := by
            rw [← hname]
            simp only [soaName]
            split <;> rfl
          rw [hcons]
          exact hmatch
        · intro hcode hdots
          rw [hsame hcode fun r hr => hdots r (List.mem_cons_of_mem _ hr)]
      rw [validSoaLoop] at h
      by_cases hcname : rr.type = PDQ_TYPE_CNAME
      · rw [if_pos hcname] at h
        obtain ⟨target, htarget, h⟩ := outcome_bind_eq_done.mp h
        have hhost : target = rr.host.string := by
          rw [cnameTarget] at htarget
          rw [PdqRr.host]
          split at htarget
          · next host hdata => rw [hdata]; cases htarget; rfl
          · cases htarget
        subst hhost
        by_cases hbad : indexValidTLD nthTld rr.host.string < 0
        · rw [if_pos hbad] at h
          cases h
          exact ⟨nofun, fun _ _ => rfl⟩
        · rw [if_neg hbad] at h
          obtain ⟨rest, hrest, h⟩ := outcome_bind_eq_done.mp h
          refine hgo ?_ ?_ hrest h
          · simp only [soaName, if_pos hcname]
          · rw [hcname]
            decide
      · rw [if_neg hcname] at h
        by_cases hsoa : rr.type = PDQ_TYPE_SOA
        · rw [if_pos hsoa] at h
          obtain ⟨checked, hchecked, h⟩ := outcome_bind_eq_done.mp h
          cases h
          have hcheck := checkSoa_done hchecked
          refine ⟨fun hok => ⟨[], rr, list, rfl, nofun, hsoa, hcheck.1 hok⟩, fun hcode hdots => ?_⟩
          rw [hcheck.2 hcode (hdots rr List.mem_cons_self hsoa)]
        · rw [if_neg hsoa] at h
          obtain ⟨rest, hrest, h⟩ := outcome_bind_eq_done.mp h
          exact hgo (by simp only [soaName, if_neg hcname]) hsoa hrest h

/-! ### The code and the list -/

/-- The first SOA record of a list, behind its query records, and the name it is compared with. -/
def FirstSoa (nthTld : Nat → List (List Octet)) (list : List PdqRr) (name : List Octet)
    (P : List Octet → PdqName → Prop) : Prop :=
  ∃ front rr back, list.dropWhile PdqRr.isQuery = front ++ rr :: back ∧
    (∀ r ∈ front, r.type ≠ PDQ_TYPE_SOA) ∧ rr.type = PDQ_TYPE_SOA ∧
    P (soaName nthTld name front) rr.name

theorem FirstSoa.of_singleton {nthTld : Nat → List (List Octet)} {rr : PdqRr} {name : List Octet}
    {P : List Octet → PdqName → Prop} (h : FirstSoa nthTld [rr] name P) (hquery : rr.isQuery = false) :
    P name rr.name := by
  obtain ⟨front, rr', back, hcut, -, -, hP⟩ := h
  rw [List.dropWhile_cons, hquery, if_neg Bool.false_ne_true] at hcut
  cases front with
  | nil =>
      obtain ⟨rfl, -⟩ := List.cons.inj hcut
      exact hP
  | cons r front => exact absurd (List.cons.inj hcut).2 (by simp)

/-- What a code says about the name, and the records left about the list. -/
structure SoaDecides (nthTld : Nat → List (List Octet)) (ipv6 : Ipv6) (list : List PdqRr)
    (name : Option CString) (code : PdqValidSoa) (left : List PdqRr) : Prop where
  tail : code = .ok → ∀ text, name = some text → ¬ IsAddress text.octets ipv6 →
    FirstSoa nthTld list text.octets HasTail
  same : code ≠ .mismatch → (∀ rr ∈ list, rr.type = PDQ_TYPE_SOA → EndsInRootDot rr.name) →
    left = list

/-- The code is good only for an IP address, for no name, or for a name with the owner of the first SOA
record as its tail; and the records are left as they were unless that owner did not match. -/
theorem pdqListHasValidSOA_tail (nthTld : Nat → List (List Octet)) (behind : Octet) (ipv6 : Ipv6)
    (list left : List PdqRr) (name : Option CString) (code : PdqValidSoa)
    (h : (pdqListHasValidSOA nthTld behind ipv6 list name).outcome = .done (code, left)) :
    SoaDecides nthTld ipv6 list name code left := by
  cases name with
  | none =>
      cases h
      exact ⟨fun _ _ => nofun, fun _ _ => rfl⟩
  | some text =>
      obtain ⟨parsed, hparsed, h⟩ := outcome_bind_eq_done.mp h
      by_cases hip : 0 < parsed.1
      · rw [if_pos hip] at h
        cases h
        refine ⟨fun _ text' htext hnot => ?_, fun _ _ => rfl⟩
        cases htext
        exact absurd ⟨parsed, hparsed, hip⟩ hnot
      · rw [if_neg hip] at h
        obtain ⟨rest, hrest, h⟩ := outcome_bind_eq_done.mp h
        cases h
        obtain ⟨htail, hsame⟩ := validSoaLoop_done hrest
        constructor
        · intro hok text' htext _
          cases htext
          exact htail hok
        · intro hcode hdots
          have hkept := hsame hcode fun rr hrr => hdots rr ((List.dropWhile_suffix _).subset hrr)
          rw [hkept, List.takeWhile_append_dropWhile]

/-- A name as it is read from a reply. -/
def namedBy (text : List Octet) : PdqName :=
  ⟨text.length, (Buffer.replicate 256 0).splice 0 text⟩

/-- An SOA record with good contacts. -/
def soaOf (owner : List Octet) : PdqRr :=
  ⟨.answer, namedBy owner, PDQ_CLASS_IN, PDQ_TYPE_SOA, 3600,
    .soa (namedBy (ascii "ns.example.com.")) (namedBy (ascii "root.example.com.")) 1 2 3 4 5, rfl⟩

/-- A table with one top level domain. -/
def comTld (level : Nat) : List (List Octet) :=
  if level = 1 then [ascii "com"] else []

theorem pdqListHasValidSOA_tail_host :
    (pdqListHasValidSOA comTld 0 (Buffer.replicate 16 0) [soaOf (ascii "example.com.")]
        (some ⟨ascii "www.example.com", by decide⟩)).outcome =
      .done (.ok, [soaOf (ascii "example.com.")]) ∧
    SoaDecides comTld (Buffer.replicate 16 0) [soaOf (ascii "example.com.")]
      (some ⟨ascii "www.example.com", by decide⟩) .ok [soaOf (ascii "example.com.")] := by
  have hdone : (pdqListHasValidSOA comTld 0 (Buffer.replicate 16 0) [soaOf (ascii "example.com.")]
      (some ⟨ascii "www.example.com", by decide⟩)).outcome =
        .done (.ok, [soaOf (ascii "example.com.")]) := by
    decide +kernel
  exact ⟨hdone, pdqListHasValidSOA_tail _ _ _ _ _ _ _ hdone⟩

/-- A name without its root dot, whatever the case. -/
def rootlessLower (name : List Octet) : List Octet :=
  (if name.getLast? = some (ch '.') then name.dropLast else name).map tolower

/-- The name is the owner, or ends with a dot and the owner. -/
def WithinOwner (name : List Octet) (owner : PdqName) : Prop :=
  rootlessLower name = rootlessLower owner.string ∨
    ch '.' :: rootlessLower owner.string <:+ rootlessLower name

/-- An IP address needs no SOA record; the tail of another name need not be made of whole labels; and a
list with an owner that does not match is left without a root dot. -/
theorem pdqListHasValidSOA_strays :
    (¬ ∀ list (name : CString) left, (pdqListHasValidSOA comTld 0 (Buffer.replicate 16 0) list
        name).outcome = .done (.ok, left) → FirstSoa comTld list name.octets WithinOwner) ∧
    (¬ ∀ list (name : CString) left, ¬ IsAddress name.octets (Buffer.replicate 16 0) →
        (pdqListHasValidSOA comTld 0 (Buffer.replicate 16 0) list name).outcome =
          .done (.ok, left) → FirstSoa comTld list name.octets WithinOwner) ∧
    ¬ ∀ list (name : CString) code left, (pdqListHasValidSOA comTld 0 (Buffer.replicate 16 0) list
        name).outcome = .done (code, left) → left = list := by
  refine ⟨fun hall => ?_, fun hall => ?_, fun hall => ?_⟩
  · have hdone : (pdqListHasValidSOA comTld 0 (Buffer.replicate 16 0) []
        (some ⟨ascii "::1", by decide⟩)).outcome = .done (.ok, []) := by
      decide
    obtain ⟨front, rr, back, hcut, -⟩ := hall _ _ _ hdone
    exact absurd hcut.symm (by simp)
  · have hdone : (pdqListHasValidSOA comTld 0 (Buffer.replicate 16 0) [soaOf (ascii "example.com.")]
        (some ⟨ascii "notexample.com", by decide⟩)).outcome =
          .done (.ok, [soaOf (ascii "example.com.")]) := by
      decide +kernel
    have hparsed : (parseIPv6 (ascii "notexample.com") (Buffer.replicate 16 0)).result.map Prod.fst =
        some 0 := by
      decide
    have hnot : ¬ IsAddress (ascii "notexample.com") (Buffer.replicate 16 0) := by
      rintro ⟨parsed, hresult, hpos⟩
      rw [result_eq_some.mpr hresult] at hparsed
      exact absurd (Option.some.inj hparsed) (Nat.ne_of_gt hpos)
    have hwithin := (hall [soaOf (ascii "example.com.")] ⟨ascii "notexample.com", by decide⟩ _
      hnot hdone).of_singleton rfl
    revert hwithin
    rw [WithinOwner]
    decide
  · have hdone : (pdqListHasValidSOA comTld 0 (Buffer.replicate 16 0) [soaOf (ascii "example.com.")]
        (some ⟨ascii "other.com", by decide⟩)).outcome =
          .done (.mismatch, [{ soaOf (ascii "example.com.") with
            name := ⟨12, (Buffer.replicate 256 0).splice 0 (ascii "example.com")⟩ }]) := by
      decide +kernel
    have hsame := hall _ _ _ _ hdone
    revert hsame
    decide

end Snert
