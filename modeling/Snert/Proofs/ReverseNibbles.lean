/-
Module: Snert.Proofs.ReverseNibbles
Purpose: The nibbles that `reverseByNibble` puts are those of the numbers between the colons of its
  text. Without a pair of colons these are the groups that the scan of `parseIPv6` reads, with the
  empty field in front and what stands behind them; in the text that `formatIP` writes they are the
  words of the address, unless it ends in a dotted quad.
Trusted boundary: none
Main exports: formatText_groups, nibbleName, reverseByNibble_name_iff
-/
import Snert.Net.Reverse
import Snert.Proofs.AddressRoundTrip
import Snert.Proofs.AddressScan

namespace Snert

open CModel CModel.Run Lists

/-! ### Nibbles -/

/-- The nibbles of a word, the lowest first, with a dot behind each. -/
def nibbleText (word : Nat) : List Octet :=
  [word % 16, word / 16 % 16, word / 256 % 16, word / 4096 % 16].flatMap fun d =>
    hexWord false d ++ [ch '.']

/-- The nibbles of words, the last word first. -/
def nibblesText (words : List Nat) : List Octet :=
  words.reverse.flatMap nibbleText

theorem hexWord_nibble {d : Nat} (h : d < 16) : ∃ c, hexWord false d = [c] ∧ c ≠ ch '.' := by
  have hall : ∀ i : Fin 16, (hexWord false i).length = 1 ∧ (hexWord false i).head? ≠ some (ch '.') := by
    decide
  obtain ⟨hlength, hhead⟩ := hall ⟨d, h⟩
  obtain ⟨c, hc⟩ := List.length_eq_one_iff.mp hlength
  dsimp only at hc hhead
  refine ⟨c, hc, ?_⟩
  rintro rfl
  rw [hc] at hhead
  exact hhead rfl

theorem hexWord_nibble_inj {d e : Nat} (hd : d < 16) (he : e < 16)
    (h : hexWord false d = hexWord false e) : d = e := by
  have hall : ∀ i j : Fin 16, hexWord false i = hexWord false j → i = j := by decide
  exact congrArg Fin.val (hall ⟨d, hd⟩ ⟨e, he⟩ h)

theorem length_nibbleText (word : Nat) : (nibbleText word).length = 8 := by
  have hnibble {d : Nat} (h : d < 16) : (hexWord false d).length = 1 := by
    obtain ⟨c, hc, -⟩ := hexWord_nibble h
    rw [hc]
    rfl
  simp only [nibbleText, List.flatMap_cons, List.flatMap_nil, List.length_append, List.length_nil,
    List.length_singleton]
  rw [hnibble (Nat.mod_lt _ (by decide)), hnibble (Nat.mod_lt _ (by decide)),
    hnibble (Nat.mod_lt _ (by decide)), hnibble (Nat.mod_lt _ (by decide))]

theorem nibbleText_inj {v w : Nat} (hv : v < 65536) (hw : w < 65536) (h : nibbleText v = nibbleText w) :
    v = w := by
  have hlt (k : Nat) : k % 16 < 16 := Nat.mod_lt _ (by decide)
  have hsingle (k : Nat) : (hexWord false (k % 16) ++ [ch '.']).length = 2 := by
    obtain ⟨c, hc, -⟩ := hexWord_nibble (hlt k)
    rw [hc]
    rfl
  have hcut {j k : Nat} {l m : List Octet}
      (h : hexWord false (j % 16) ++ [ch '.'] ++ l = hexWord false (k % 16) ++ [ch '.'] ++ m) :
      j % 16 = k % 16 ∧ l = m := by
    obtain ⟨hfirst, hrest⟩ := List.append_inj h (by rw [hsingle, hsingle])
    exact ⟨hexWord_nibble_inj (hlt j) (hlt k) (List.append_cancel_right hfirst), hrest⟩
  simp only [nibbleText, List.flatMap_cons, List.flatMap_nil] at h
  obtain ⟨h0, h⟩ := hcut h
  obtain ⟨h1, h⟩ := hcut h
  obtain ⟨h2, h⟩ := hcut h
  obtain ⟨h3, -⟩ := hcut h
  omega

theorem length_nibblesText (words : List Nat) : (nibblesText words).length = 8 * words.length := by
  rw [nibblesText, List.length_flatMap]
  simp [length_nibbleText, Nat.mul_comm]

theorem nibblesText_cons (w : Nat) (words : List Nat) :
    nibblesText (w :: words) = nibblesText words ++ nibbleText w := by
  rw [nibblesText, List.reverse_cons, List.flatMap_append, List.flatMap_singleton, nibblesText]

theorem nibblesText_singleton (w : Nat) : nibblesText [w] = nibbleText w :=
  nibblesText_cons w []

theorem nibblesText_inj : ∀ {words words' : List Nat}, (∀ w ∈ words, w < 65536) →
    (∀ w ∈ words', w < 65536) → nibblesText words = nibblesText words' → words = words' := by
  intro words
  induction words with
  | nil =>
      intro words' _ _ h
      have hlength := congrArg List.length h
      rw [length_nibblesText, length_nibblesText, List.length_nil] at hlength
      exact (List.eq_nil_of_length_eq_zero (by omega)).symm
  | cons w words ih =>
      intro words' hlt hlt' h
      cases words' with
      | nil =>
          have hlength := congrArg List.length h
          rw [length_nibblesText, length_nibblesText, List.length_nil, List.length_cons] at hlength
          omega
      | cons w' words' =>
          rw [nibblesText_cons, nibblesText_cons] at h
          obtain ⟨hrest, hlast⟩ := List.append_inj' h (by
            rw [length_nibbleText, length_nibbleText])
          rw [List.forall_mem_cons] at hlt hlt'
          rw [nibbleText_inj hlt.1 hlt'.1 hlast, ih hlt.2 hlt'.2 hrest]

theorem putNibbles_eq {size word : Nat} {text : List Octet} (h : text.length + 8 < size) :
    putNibbles size 4 word ⟨text, []⟩ = ⟨text ++ nibbleText word, []⟩ := by
  have hput {rounds v : Nat} {t : List Octet} (ht : t.length + 2 < size) :
      putNibbles size (rounds + 1) v ⟨t, []⟩ =
        putNibbles size rounds (v / 16) ⟨t ++ (hexWord false (v % 16) ++ [ch '.']), []⟩ ∧
      (t ++ (hexWord false (v % 16) ++ [ch '.'])).length = t.length + 2 := by
    obtain ⟨c, hc, -⟩ := hexWord_nibble (Nat.mod_lt v (by decide : 16 > 0))
    rw [putNibbles, hc, if_neg]
    · exact ⟨rfl, List.length_append⟩
    · dsimp only [List.length_append, List.length_singleton]
      simp only [List.length_append, List.length_singleton]
      omega
  obtain ⟨h1, l1⟩ := @hput 3 word text (by omega)
  obtain ⟨h2, l2⟩ := @hput 2 (word / 16)
    (text ++ (hexWord false (word % 16) ++ [ch '.'])) (by omega)
  obtain ⟨h3, l3⟩ := @hput 1 (word / 16 / 16)
    (text ++ (hexWord false (word % 16) ++ [ch '.']) ++
      (hexWord false (word / 16 % 16) ++ [ch '.'])) (by omega)
  obtain ⟨h4, -⟩ := @hput 0 (word / 16 / 16 / 16)
    (text ++ (hexWord false (word % 16) ++ [ch '.']) ++
      (hexWord false (word / 16 % 16) ++ [ch '.']) ++
      (hexWord false (word / 16 / 16 % 16) ++ [ch '.'])) (by omega)
  rw [h1, h2, h3, h4, putNibbles]
  have hdiv : word / 16 / 16 = word / 256 := by omega
  simp only [hdiv, nibbleText, List.flatMap_cons, List.flatMap_nil, List.append_nil,
    List.append_assoc]
  rw [show word / 256 / 16 = word / 4096 by omega]

/-! ### The numbers between colons -/

/-- The numbers of a text that `reverseByNibble` reads. -/
def hexGroups (group : List Octet) : List Nat :=
  match _h : (strtol group 16).2 with
  | [] => [((strtol group 16).1 % 2 ^ 16).toNat]
  | c :: rest =>
      if c = ch ':' then ((strtol group 16).1 % 2 ^ 16).toNat :: hexGroups rest
      else [((strtol group 16).1 % 2 ^ 16).toNat]
termination_by group.length
decreasing_by
  have hlen := (strtol_suffix group 16).length_le
  rw [_h, List.length_cons] at hlen
  omega

theorem reverseByNibble_eq (group : List Octet) : ∀ {size : Nat},
    8 * (hexGroups group).length < size →
    reverseByNibble group size = ⟨nibblesText (hexGroups group), []⟩ := by
  fun_induction hexGroups group with
  | case1 group hstop =>
      intro size hsize
      rw [List.length_singleton] at hsize
      rw [reverseByNibble]
      split
      · rw [nibblesText_singleton]
        exact @putNibbles_eq _ _ [] hsize
      · next h => exact absurd (hstop.symm.trans h) (by simp)
  | case2 group rest hstop ih =>
      intro size hsize
      rw [List.length_cons] at hsize
      rw [reverseByNibble]
      split
      · next h => exact absurd (hstop.symm.trans h) (by simp)
      · next c rest' h =>
          obtain ⟨rfl, rfl⟩ := List.cons.inj (hstop.symm.trans h)
          rw [if_pos rfl, ih (by omega), putNibbles_eq (by rw [length_nibblesText]; omega),
            nibblesText_cons]
  | case3 group c rest hstop hcolon =>
      intro size hsize
      rw [List.length_singleton] at hsize
      rw [reverseByNibble]
      split
      · next h => exact absurd (hstop.symm.trans h) (by simp)
      · next c rest' h =>
          obtain ⟨rfl, rfl⟩ := List.cons.inj (hstop.symm.trans h)
          rw [if_neg hcolon, nibblesText_singleton]
          exact @putNibbles_eq _ _ [] hsize

/-- The number that a group is. -/
def groupValue (field : List Octet) : Nat :=
  (strtol field 16).1.toNat

theorem toNat_emod {x : Int} (h : 0 ≤ x ∧ x ≤ 0xffff) : (x % 2 ^ 16).toNat = x.toNat := by
  rw [Int.emod_eq_of_lt h.1 (by omega)]

theorem hexGroups_field {f : List Octet} (hf : f = [] ∨ IsGroup f) (u : List Octet) :
    hexGroups (f ++ ch ':' :: u) = groupValue f :: hexGroups u := by
  obtain ⟨hread, hrange⟩ := strtol_field hf u
  rw [hexGroups]
  split
  · next h => exact nomatch (congrArg Prod.snd hread).symm.trans h
  · next c rest h =>
      obtain ⟨rfl, rfl⟩ := List.cons.inj ((congrArg Prod.snd hread).symm.trans h)
      rw [if_pos rfl, hread, toNat_emod hrange, groupValue]

theorem hexGroups_last {t : List Octet} (hstop : peek (strtol t 16).2 ≠ ch ':')
    (hrange : 0 ≤ (strtol t 16).1 ∧ (strtol t 16).1 ≤ 0xffff) : hexGroups t = [groupValue t] := by
  rw [hexGroups]
  split
  · rw [toNat_emod hrange, groupValue]
  · next c rest h =>
      rw [h, peek_cons] at hstop
      rw [if_neg hstop, toNat_emod hrange, groupValue]

theorem hexGroups_fieldsText {fields : List (List Octet)} (hfields : ∀ f ∈ fields, f = [] ∨ IsGroup f)
    (last : List Octet) :
    hexGroups (fieldsText fields ++ last) = fields.map groupValue ++ hexGroups last := by
  induction fields with
  | nil => rfl
  | cons f fields ih =>
      obtain ⟨hf, hfields⟩ := List.forall_mem_cons.mp hfields
      have htext : fieldsText (f :: fields) ++ last = f ++ ch ':' :: (fieldsText fields ++ last) := by
        simp [fieldsText]
      rw [htext, hexGroups_field hf, ih hfields, List.map_cons, List.cons_append]

/-! ### A text without a pair of colons -/

/-- The number behind the fields counts as a group. -/
def lastGroup (ip : List Octet) : List Nat :=
  if ScannedGroups.counts ip then [groupValue ip] else []

theorem scanGroups_cases {rounds : Nat} {s s' : ScannedGroups}
    (h : scanGroups (rounds + 1) s = some s') :
    (¬ s.words.length < 8 ∧ s' = s) ∨
    (s.words.length < 8 ∧ (0 ≤ (strtol s.ip 16).1 ∧ (strtol s.ip 16).1 ≤ 0xffff) ∧
      ((peek (strtol s.ip 16).2 ≠ ch ':' ∧ s' = s.read) ∨
        (peek (strtol s.ip 16).2 = ch ':' ∧ ∃ t : ScannedGroups, scanGroups rounds t = some s' ∧
          t.ip = (strtol s.ip 16).2.tail ∧ t.words = s.read.words ∧ t.stop = (strtol s.ip 16).2 ∧
          (t.mark = s.mark ∨ peek (strtol s.ip 16).2.tail = ch ':')))) := by
  rw [scanGroups, ScannedGroups.step] at h
  by_cases hroom : s.words.length < 8
  · rw [if_pos hroom] at h
    by_cases hrange : (strtol s.ip 16).1 < 0 ∨ 0xffff < (strtol s.ip 16).1
    · rw [if_pos hrange] at h
      cases h
    · rw [if_neg hrange, ScannedGroups.next] at h
      refine .inr ⟨hroom, by omega, ?_⟩
      have hread : s.read.stop = (strtol s.ip 16).2 := rfl
      rw [hread] at h
      by_cases hcolon : peek (strtol s.ip 16).2 = ch ':'
      · rw [if_neg (not_not.mpr hcolon)] at h
        refine .inr ⟨hcolon, ?_⟩
        by_cases hpair : peek (strtol s.ip 16).2.tail = ch ':'
        · rw [if_pos hpair] at h
          by_cases hmark : s.read.mark.isSome = true
          · rw [if_pos hmark] at h
            cases h
          · rw [if_neg hmark] at h
            exact ⟨_, h, rfl, rfl, rfl, .inr hpair⟩
        · rw [if_neg hpair] at h
          exact ⟨_, h, rfl, rfl, rfl, .inl rfl⟩
      · rw [if_pos hcolon] at h
        cases h
        exact .inl ⟨hcolon, rfl⟩
  · rw [if_neg hroom] at h
    cases h
    exact .inl ⟨hroom, rfl⟩

theorem scan_fields (rounds : Nat) : ∀ {s s' : ScannedGroups}, scanGroups rounds s = some s' →
    peek s'.stop ≠ ch ':' → s.words.length < 8 →
    ∃ fields, s.ip = fieldsText fields ++ s'.ip ∧ (∀ f ∈ fields, f = [] ∨ IsGroup f) ∧
      s'.stop = (strtol s'.ip 16).2 ∧
      (0 ≤ (strtol s'.ip 16).1 ∧ (strtol s'.ip 16).1 ≤ 0xffff) ∧
      s.words.length + (fields.filter (· ≠ [])).length < 8 ∧
      s'.words = s.words ++ (fields.filter (· ≠ [])).map groupValue ++ lastGroup s'.ip := by
  induction rounds with
  | zero => exact fun h => (by cases h)
  | succ rounds ih =>
      intro s s' hscan hstop hroom
      rcases scanGroups_cases hscan with ⟨hfull, -⟩ | ⟨-, hrange, ⟨hcolon, rfl⟩ | ⟨hcolon, hgo⟩⟩
      · exact absurd hroom hfull
      · refine ⟨[], rfl, by simp, rfl, hrange, by simpa using hroom, ?_⟩
        rw [ScannedGroups.read, lastGroup]
        dsimp only [List.filter_nil, List.map_nil]
        split <;> simp [groupValue]
      · obtain ⟨f, hip, hf, hcount⟩ := field_of_stop hcolon hrange
        have hvalue : groupValue f = (strtol s.ip 16).1.toNat := by
          rw [hip, (strtol_field hf _).1, groupValue]
        have hcounts : ScannedGroups.counts s.ip ↔ f ≠ [] := by
          rw [fieldCount] at hcount
          change (_ ∧ _) ↔ _
          split at hcount
          · next h =>
              refine iff_of_true h fun hnil => ?_
              rw [if_pos hnil] at hcount
              cases hcount
          · next h =>
              refine iff_of_false h fun hne => ?_
              rw [if_neg hne] at hcount
              cases hcount
        have hwords : s.read.words = s.words ++ ([f].filter (· ≠ [])).map groupValue := by
          rw [ScannedGroups.read]
          dsimp only
          by_cases hne : f = []
          · rw [if_neg (fun h => hcounts.mp h hne), hne]
            simp
          · rw [if_pos (hcounts.mpr hne), ← hvalue]
            simp [hne]
        obtain ⟨t, ht, htip, htwords, htstop, -⟩ := hgo
        -- With eight groups the scan ends on the colon.
        have htroom : t.words.length < 8 := by
          by_contra hfull
          cases rounds with
          | zero => cases ht
          | succ rounds =>
              rw [scanGroups, ScannedGroups.step, if_neg hfull] at ht
              cases ht
              exact hstop (by rw [htstop, hcolon])
        obtain ⟨fields, hfip, hfields, hlast, hlrange, hfew, hfwords⟩ := ih ht hstop htroom
        have hfilter : (f :: fields).filter (· ≠ []) =
            [f].filter (· ≠ []) ++ fields.filter (· ≠ []) := by
          rw [← List.filter_append, List.singleton_append]
        have hlength := congrArg List.length (htwords.trans hwords)
        rw [List.length_append, List.length_map] at hlength
        refine ⟨f :: fields, ?_, List.forall_mem_cons.mpr ⟨hf, hfields⟩, hlast, hlrange, ?_, ?_⟩
        · rw [htip] at hfip
          rw [hip, hfip]
          simp [fieldsText]
        · rw [hfilter, List.length_append]
          omega
        · rw [hfwords, htwords, hwords, hfilter, List.map_append]
          simp only [List.append_assoc]

theorem eq_cons_of_peek {s : List Octet} {c : Octet} (h : peek s = c) (hc : c ≠ 0) :
    s = c :: s.tail := by
  cases s with
  | nil => exact absurd h.symm hc
  | cons d s => rw [peek_cons] at h; rw [h, List.tail_cons]

theorem scan_mark (rounds : Nat) : ∀ {s s' : ScannedGroups}, scanGroups rounds s = some s' →
    ¬ [ch ':', ch ':'] <:+: s.ip → s'.mark = s.mark := by
  induction rounds with
  | zero => exact fun h => nomatch h
  | succ rounds ih =>
      intro s s' hscan hnone
      have hsuffix := strtol_suffix s.ip 16
      rcases scanGroups_cases hscan with ⟨-, rfl⟩ | ⟨-, -, ⟨-, rfl⟩ | ⟨hcolon, t, ht, htip, -, -, hmark⟩⟩
      · rfl
      · rfl
      · have htail : (strtol s.ip 16).2.tail <:+ s.ip := (List.tail_suffix _).trans hsuffix
        have hno : peek (strtol s.ip 16).2.tail ≠ ch ':' := by
          intro hpair
          apply hnone
          refine List.IsInfix.trans ?_ hsuffix.isInfix
          rw [eq_cons_of_peek hcolon (by decide), eq_cons_of_peek hpair (by decide)]
          exact (List.prefix_append [ch ':', ch ':'] _).isInfix
        rw [← hmark.resolve_right hno]
        exact ih ht fun hcolons => hnone (hcolons.trans (htip ▸ htail.isInfix))

/-! ### Where a text stands -/

theorem delimiter_colon_mem {f : List Octet} (h : f = [] ∨ IsGroup f) : ch ':' ∉ f := by
  rcases h with rfl | hf
  · exact List.not_mem_nil
  · obtain ⟨g, hg, hnone⟩ := strtol_consumed f 16
    rw [hf.2.1, List.append_nil] at hg
    exact fun hmem => hnone (ch ':') (hg ▸ hmem) (by decide)

theorem count_fieldsText {fields : List (List Octet)} (h : ∀ f ∈ fields, f = [] ∨ IsGroup f) :
    (fieldsText fields).count (ch ':') = fields.length := by
  induction fields with
  | nil => rfl
  | cons f fields ih =>
      obtain ⟨hf, hfields⟩ := List.forall_mem_cons.mp h
      have hcons : fieldsText (f :: fields) = f ++ [ch ':'] ++ fieldsText fields := rfl
      rw [hcons, List.count_append, List.count_append, ih hfields,
        List.count_eq_zero.mpr (delimiter_colon_mem hf), List.length_cons]
      simp [Nat.add_comm]

theorem fields_not_empty {fields : List (List Octet)} {rest : List Octet} :
    ∀ {f : List Octet}, ¬ [ch ':', ch ':'] <:+: fieldsText (f :: fields) ++ rest →
    ∀ g ∈ fields, g ≠ [] := by
  induction fields with
  | nil => exact fun _ => nofun
  | cons g fields ih =>
      intro f hnone
      have hcons : fieldsText (f :: g :: fields) ++ rest =
          f ++ [ch ':'] ++ (fieldsText (g :: fields) ++ rest) := by
        simp [fieldsText]
      rw [hcons] at hnone
      refine List.forall_mem_cons.mpr ⟨?_, ih fun hcolons =>
        hnone (hcolons.trans (List.suffix_append _ _).isInfix)⟩
      rintro rfl
      exact hnone ⟨f, fieldsText fields ++ rest, by simp [fieldsText]⟩

theorem strtol_none {c : Octet} (h : isspace c = false ∧ c ≠ ch '-' ∧ c ≠ ch '+' ∧ isDigit 16 c = false)
    (rest : List Octet) : strtol (c :: rest) 16 = (0, c :: rest) := by
  have hdigits : (numberPrefix 16 (c :: rest)).takeWhile (isDigit 16) = [] := by
    rcases numberPrefix_cases (c :: rest) with hsame | ⟨z, x, d, r, hcons, -, -, -⟩
    · rw [hsame, List.takeWhile_cons, h.2.2.2]
      rfl
    · have hz : ch '0' ≠ c := by
        rintro rfl
        exact absurd h.2.2.2 (by decide)
      rw [hcons, numberPrefix, if_neg (fun hp => hz (hp.2.1.symm.trans (List.cons.inj hcons).1.symm)),
        ← hcons, List.takeWhile_cons, h.2.2.2]
      rfl
  have hsign : numberSign ((c :: rest).dropWhile isspace) = (false, c :: rest) := by
    rw [List.dropWhile_cons, h.1, if_neg Bool.false_ne_true, numberSign, if_neg h.2.1,
      if_neg h.2.2.1]
  rw [strtol, hsign]
  dsimp only
  rw [if_pos hdigits]

theorem not_accepts_of_peek {text quad : List Octet} {s : ScannedGroups} (hscan : scanText text = some s)
    (haccepts : s.Accepts quad) (hdelim : isspace (peek text) = false ∧ peek text ≠ ch '-' ∧
      peek text ≠ ch '+' ∧ isDigit 16 (peek text) = false)
    (hother : peek text ≠ 0 ∧ peek text ≠ ch ':' ∧ peek text ≠ ch '.' ∧ peek text ≠ ch ']') : False := by
  cases text with
  | nil => exact hother.1 rfl
  | cons c text =>
      rw [peek_cons] at hdelim hother
      have hread := strtol_none hdelim text
      rcases scanGroups_cases hscan with ⟨hroom, -⟩ | ⟨-, -, ⟨-, rfl⟩ | ⟨hcolon, -⟩⟩
      · exact hroom (Nat.zero_lt_succ 7)
      · have hstop : (strtol (c :: text) 16).2 = c :: text := congrArg Prod.snd hread
        rcases haccepts with ⟨hdot, -⟩ | ⟨-, -, hends, -⟩
        · rw [ScannedGroups.read] at hdot
          dsimp only at hdot
          rw [hstop, peek_cons] at hdot
          exact hother.2.2.1 hdot
        · rw [ScannedGroups.read] at hends
          dsimp only at hends
          rw [hstop] at hends
          rcases hends with hnil | hbracket
          · cases hnil
          · exact hother.2.2.2 (List.cons.inj hbracket).1
      · dsimp only at hcolon
        rw [congrArg Prod.snd hread, peek_cons] at hcolon
        exact hother.2.1 hcolon

/-- The address without the tag in front. -/
def untagged (source : List Octet) : List Octet :=
  if strncasecmp source IPV6_TAG 5 = 0 then source.drop 5 else source

theorem peek_of_tag {p : List Octet} (h : strncasecmp p IPV6_TAG 5 = 0) : tolower (peek p) = ch 'i' := by
  have htag := (strncasecmp_tag p).mp h
  cases p with
  | nil => exact absurd (congrArg List.length htag) (by decide)
  | cons c p => exact (List.cons.inj htag).1

theorem not_tag_of_bracket {p : List Octet} (h : peek p = ch '[') : ¬ strncasecmp p IPV6_TAG 5 = 0 :=
  fun htag => absurd (h ▸ peek_of_tag htag) (by decide)

theorem untagged_of_bracket {source : List Octet} (h : peek source = ch '[') :
    untagged source = source :=
  if_neg (not_tag_of_bracket h)

theorem addressText_of_no_bracket {source : List Octet} (h : peek source ≠ ch '[') :
    addressText source = untagged source := by
  rw [addressText, if_neg h, untagged]

theorem addressText_untagged {source quad : List Octet} {s : ScannedGroups}
    (hscan : scanText (addressText source) = some s) (haccepts : s.Accepts quad) :
    addressText (untagged source) = addressText source := by
  have hother : ∀ c : Octet, tolower c = ch 'i' → (isspace c = false ∧ c ≠ ch '-' ∧ c ≠ ch '+' ∧
      isDigit 16 c = false) ∧ c ≠ 0 ∧ c ≠ ch ':' ∧ c ≠ ch '.' ∧ c ≠ ch ']' :=
    forall_octet (by decide +kernel)
  by_cases hbracket : peek source = ch '['
  · rw [untagged_of_bracket hbracket]
  · rw [addressText_of_no_bracket hbracket] at hscan ⊢
    by_cases htag : strncasecmp source IPV6_TAG 5 = 0
    · by_cases hopen : peek (untagged source) = ch '['
      · exact (not_accepts_of_peek hscan haccepts (by rw [hopen]; decide) (by rw [hopen]; decide)).elim
      · rw [addressText_of_no_bracket hopen]
        refine if_neg fun htwice => ?_
        obtain ⟨hdelim, hrest⟩ := hother _ (peek_of_tag htwice)
        exact not_accepts_of_peek hscan haccepts hdelim hrest
    · have hsame : untagged source = source := if_neg htag
      rw [hsame, addressText_of_no_bracket hbracket, hsame]

/-! ### The text that `formatIP` writes -/

/-- The rest of an address is put as a dotted quad: it is IPv4-compatible, with more than a last
word behind its zeros, or IPv4-mapped. -/
def HasQuad (address : Ipv6) : Prop :=
  ((netWords address.octets).take 6 = List.replicate 6 0 ∧ (netWords address.octets).getD 6 0 ≠ 0) ∨
    (netWords address.octets).take 6 = List.replicate 5 0 ++ [0xffff]

instance (address : Ipv6) : Decidable (HasQuad address) :=
  inferInstanceAs (Decidable (_ ∨ _))

theorem hasQuad_iff (address : Ipv6) :
    dottedBehind 0 (netWords address.octets) = true ↔ HasQuad address := by
  have hwords := length_netWords address.octets
  rw [HasQuad]
  match netWords address.octets, hwords with
  | [w₀, w₁, w₂, w₃, w₄, w₅, w₆, w₇], _ =>
      simp [dottedBehind, List.replicate]
      grind

theorem hexGroups_groupsText (full : Bool) {words : List Nat} (hne : words ≠ [])
    (hlt : ∀ w ∈ words, w < 65536) : hexGroups (AddressForm.groupsText full none words) = words := by
  have hvalue {w : Nat} (h : w < 65536) : groupValue (hexWord full w) = w := by
    rw [groupValue, strtol_hexWord full h, Int.toNat_natCast]
  induction words with
  | nil => exact absurd rfl hne
  | cons w words ih =>
      obtain ⟨hw, hwords⟩ := List.forall_mem_cons.mp hlt
      rw [AddressForm.groupsText]
      by_cases hlast : words = []
      · rw [if_pos ⟨hlast, rfl⟩, List.append_nil, hexGroups_last, hvalue hw, hlast]
        · rw [strtol_hexWord full hw]
          exact (by decide : peek [] ≠ ch ':')
        · rw [strtol_hexWord full hw]
          dsimp only
          omega
      · rw [if_neg fun h => hlast h.1, hexGroups_field (.inr (isGroup_hexWord full hw)), hvalue hw,
          ih hlast hwords]

theorem length_groupsText_lt (full : Bool) {words : List Nat} (hne : words ≠ [])
    (hlt : ∀ w ∈ words, w < 65536) :
    (AddressForm.groupsText full none words).length < 5 * words.length := by
  induction words with
  | nil => exact absurd rfl hne
  | cons w words ih =>
      obtain ⟨hw, hwords⟩ := List.forall_mem_cons.mp hlt
      have hword := length_hexWord full hw
      rw [AddressForm.groupsText, List.length_append, List.length_cons]
      by_cases hlast : words = []
      · rw [if_pos ⟨hlast, rfl⟩, List.length_nil]
        omega
      · have hrest := ih hlast hwords
        rw [if_neg fun h => hlast h.1, List.length_cons]
        omega

/-- A text of `formatIP` fits its buffer, and its numbers are the words of an address without a
dotted quad, of an address with one only seven. -/
theorem formatText_groups (address : Ipv6) : (formatText 0 address).length < IPV6_STRING_SIZE ∧
    hexGroups (formatText 0 address) ≠ [] ∧ (hexGroups (formatText 0 address)).length ≤ 8 ∧
    (hexGroups (formatText 0 address) = netWords address.octets ↔ ¬ HasQuad address) := by
  have hlength := length_netWords address.octets
  have hlt := netWords_lt address.octets
  have hne : netWords address.octets ≠ [] := List.ne_nil_of_length_pos (by omega)
  by_cases hquad : HasQuad address
  · have hdotted := (hasQuad_iff address).mpr hquad
    obtain ⟨front, back, hwords, hback, hfront, -⟩ := dottedBehind_cases hlength hdotted
    have hsix : front.length = 6 := by
      have := congrArg List.length hwords
      rw [List.length_append] at this
      omega
    have htext : formatText 0 address =
        fieldsText (front.map (hexWord false)) ++ dottedDecimal (quadOf address).octets := by
      rw [formatText, addressForm, formOf, if_neg (by simp), if_pos hdotted]
      change AddressForm.groupsText _ _ _ = _
      rw [groupsText_quad, hwords, List.take_left' hsix]
      rfl
    obtain ⟨word, rest, hword, hread⟩ := strtol_dottedDecimal (quadOf address)
    have hgroups : hexGroups (formatText 0 address) =
        (front.map (hexWord false)).map groupValue ++ [groupValue (dottedDecimal (quadOf address).octets)] := by
      rw [htext, hexGroups_fieldsText, hexGroups_last]
      · rw [hread]
        exact (by rw [peek_cons]; decide)
      · rw [hread]
        dsimp only
        omega
      · intro f hf
        obtain ⟨w, hw, rfl⟩ := List.mem_map.mp hf
        exact .inr (isGroup_hexWord false (hlt w (hwords ▸ List.mem_append_left back hw)))
    have hseven := congrArg List.length hgroups
    rw [List.length_append, List.length_map, List.length_map, hsix, List.length_singleton] at hseven
    refine ⟨?_, List.ne_nil_of_length_pos (by omega), by omega, ?_⟩
    · have hdotted := length_dottedDecimal (quadOf address).octets
      have hzeros : (fieldsText (front.map (hexWord false))).length ≤ 15 := by
        rcases hfront with rfl | rfl
        · decide
        · decide
      rw [htext, List.length_append, IPV6_STRING_SIZE]
      omega
    · refine iff_of_false (fun heq => ?_) (not_not.mpr hquad)
      rw [heq] at hseven
      omega
  · have htext : formatText 0 address = AddressForm.groupsText false none (netWords address.octets) := by
      rw [formatText, addressForm, formOf, if_neg (by simp),
        if_neg (mt (hasQuad_iff address).mp hquad)]
      rfl
    have hgroups := hexGroups_groupsText false hne hlt
    rw [htext, hgroups]
    have hfit := length_groupsText_lt false hne hlt
    rw [hlength] at hfit
    exact ⟨hfit, hne, Nat.le_of_eq hlength, iff_of_true rfl hquad⟩

/-! ### Names -/

/-- The 32 nibbles of an address, the least significant first, separated by dots. -/
def nibbleName (address : Ipv6) : List Octet :=
  [ch '.'].intercalate (address.octets.reverse.flatMap fun c =>
    [hexWord false (c.toNat % 16), hexWord false (c.toNat / 16)])

theorem intercalate_append {α : Type} (d : α) {l : List (List α)} (hne : l ≠ []) :
    [d].intercalate l ++ [d] = l.flatMap (· ++ [d]) := by
  induction l with
  | nil => exact absurd rfl hne
  | cons piece l ih =>
      by_cases hl : l = []
      · rw [hl, List.intercalate_singleton, List.flatMap_singleton]
      · rw [List.intercalate_cons_of_ne_nil hl, List.append_assoc, List.append_assoc, ih hl,
          List.flatMap_cons, List.append_assoc]

theorem nibblesText_groupsOctets {words : List Nat} (hlt : ∀ w ∈ words, w < 65536) :
    nibblesText words = ((AddressForm.groupsOctets words).reverse.flatMap fun c =>
      [hexWord false (c.toNat % 16), hexWord false (c.toNat / 16)]).flatMap (· ++ [ch '.']) := by
  induction words with
  | nil => rfl
  | cons w words ih =>
      obtain ⟨hw, hwords⟩ := List.forall_mem_cons.mp hlt
      have hcons : AddressForm.groupsOctets (w :: words) =
          [UInt8.ofNat (w / 256), UInt8.ofNat (w % 256)] ++ AddressForm.groupsOctets words := rfl
      have hhigh : (UInt8.ofNat (w / 256)).toNat = w / 256 := UInt8.toNat_ofNat_of_lt' (by
        change w / 256 < 256
        omega)
      have hlow : (UInt8.ofNat (w % 256)).toNat = w % 256 := UInt8.toNat_ofNat_of_lt' (by
        change w % 256 < 256
        omega)
      have hdigits : w % 256 % 16 = w % 16 ∧ w % 256 / 16 = w / 16 % 16 ∧
          w / 256 / 16 = w / 4096 % 16 := by omega
      rw [nibblesText_cons, ih hwords, hcons, List.reverse_append, List.flatMap_append,
        List.flatMap_append]
      congr 1
      simp [nibbleText, hhigh, hlow, hdigits]

theorem nibbleName_dot (address : Ipv6) :
    nibbleName address ++ [ch '.'] = nibblesText (netWords address.octets) := by
  have hlength := address.length_octets
  rw [nibblesText_groupsOctets (netWords_lt _), groupsOctets_netWords]
  refine intercalate_append _ fun hnil => ?_
  have hzero := congrArg List.length hnil
  rw [List.length_flatMap] at hzero
  simp [hlength] at hzero

theorem getLast_nibblesText {words : List Nat} (hne : words ≠ []) :
    (nibblesText words).getLast? = some (ch '.') := by
  cases words with
  | nil => exact absurd rfl hne
  | cons w words =>
      have hlast : nibbleText w = hexWord false (w % 16) ++ [ch '.'] ++ hexWord false (w / 16 % 16) ++
          [ch '.'] ++ hexWord false (w / 256 % 16) ++ [ch '.'] ++ hexWord false (w / 4096 % 16) ++
          [ch '.'] := by
        simp [nibbleText]
      rw [nibblesText_cons, hlast, ← List.append_assoc, List.getLast?_concat]

theorem dropDot_nibblesText {words : List Nat} (hne : words ≠ []) :
    (NibbleText.dropDot ⟨nibblesText words, []⟩) =
      ((nibblesText words).dropLast, (nibblesText words).dropLast.length) := by
  rw [NibbleText.dropDot, if_pos (getLast_nibblesText hne), List.length_dropLast]

/-- A name is read off a text exactly if the numbers of the text are the words. -/
theorem reverseByNibble_name_iff {text : List Octet} {size : Nat} {address : Ipv6}
    (hne : hexGroups text ≠ []) (hsize : 8 * (hexGroups text).length < size) :
    (reverseByNibble text size).dropDot = (nibbleName address, (nibbleName address).length) ↔
      hexGroups text = netWords address.octets := by
  have hlt : ∀ w ∈ hexGroups text, w < 65536 := by
    clear hne hsize
    have hmod (x : Int) : (x % 2 ^ 16).toNat < 65536 := by omega
    fun_induction hexGroups text with
    | case1 => simpa using hmod _
    | case2 _ _ _ ih => exact List.forall_mem_cons.mpr ⟨hmod _, ih⟩
    | case3 => simpa using hmod _
  rw [reverseByNibble_eq text hsize, dropDot_nibblesText hne]
  constructor
  · intro heq
    refine nibblesText_inj hlt (netWords_lt _) ?_
    have hdrop := congrArg Prod.fst heq
    dsimp only at hdrop
    rw [← nibbleName_dot, ← hdrop]
    exact (List.dropLast_append_getLast? _ (getLast_nibblesText hne)).symm
  · intro heq
    rw [heq, ← nibbleName_dot, List.dropLast_concat]

theorem strtol_zero {s : List Octet} (hdot : peek (strtol s 10).2 = ch '.')
    (hzero : (strtol s 10).1 = 0) : (strtol s 16).1 = 0 := by
  have hvalue {base : Nat} (hbase : 0 < base) (digits : List Octet) :
      digitsValue base digits = 0 ↔ ∀ c ∈ digits, (digitValue c).getD 0 = 0 := by
    induction digits using List.reverseRecOn with
    | nil => exact iff_of_true rfl nofun
    | append_singleton digits c ih =>
        rw [digitsValue_append, List.forall_mem_append, ← ih]
        simp [Nat.add_eq_zero_iff, Nat.ne_of_gt hbase]
  obtain ⟨t, ht⟩ : ∃ t, (numberSign (s.dropWhile isspace)).2 = t := ⟨_, rfl⟩
  simp only [strtol, ht, numberPrefix_ten] at hdot hzero
  by_cases hnone : t.takeWhile (isDigit 10) = []
  · rw [if_pos hnone] at hdot
    have hcons := eq_cons_of_peek (s := s) hdot (by decide)
    rw [hcons]
    exact congrArg Prod.fst (strtol_none (by decide) s.tail)
  · rw [if_neg hnone] at hdot hzero
    dsimp only at hdot hzero
    have hsplit := List.takeWhile_append_dropWhile (p := isDigit 10) (l := t)
    rw [eq_cons_of_peek hdot (by decide)] at hsplit
    have hdigits : ∀ c ∈ t.takeWhile (isDigit 10), isDigit 10 c := fun c hc => List.mem_takeWhile_imp hc
    have hhex : ∀ c ∈ t.takeWhile (isDigit 10), isDigit 16 c := fun c hc =>
      isDigit_mono (by decide) (hdigits c hc)
    have hten0 : digitsValue 10 (t.takeWhile (isDigit 10)) = 0 := by
      unfold clampLong at hzero
      split at hzero <;> omega
    have hsixteen : digitsValue 16 (t.takeWhile (isDigit 10)) = 0 :=
      (hvalue (by decide) _).mpr ((hvalue (by decide) _).mp hten0)
    have hnumber : (numberPrefix 16 t).takeWhile (isDigit 16) = t.takeWhile (isDigit 10) := by
      rw [← hsplit, numberPrefix_append_delimiter delimiter_dot, numberPrefix_digits (by decide) hhex,
        takeWhile_append_delimiter (by decide), List.takeWhile_eq_self_iff.mpr hhex, hsplit]
    simp only [strtol, ht, hnumber, if_neg hnone, hsixteen]
    split <;> decide

end Snert
