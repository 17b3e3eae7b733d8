/-
Module: Snert.Proofs.ReverseNames
Purpose: The names that `reverseIp` makes of IPv6 addresses. A text with a pair of colons is read
  and written anew, and gives the nibbles of the address unless `formatIP` puts its rest as a dotted
  quad. Of another text the numbers are taken as they stand: they are the words of the address where
  seven colons separate eight numbers, but not before a dotted quad, behind a colon in front, or
  behind an opening bracket.
Trusted boundary: none
Main exports: reverseIp_exact_iff
-/
import Snert.Proofs.ReverseNibbles
import Snert.Proofs.SegmentOrder

namespace Snert

open CModel CModel.Run Lists

/-! ### The numbers of an accepted text -/

theorem groupsOctets_inj {words words' : List Nat} (hlt : ∀ w ∈ words, w < 65536)
    (hlt' : ∀ w ∈ words', w < 65536)
    (h : AddressForm.groupsOctets words = AddressForm.groupsOctets words') : words = words' :=
  nibblesText_inj hlt hlt' (by rw [nibblesText_groupsOctets hlt, nibblesText_groupsOctets hlt', h])

theorem quad_first_zero {ip rest quad : List Octet} (h : dottedQuad ip = some (quad, rest))
    (hzero : quad.head? = some 0) : (strtol ip 16).1 = 0 := by
  obtain ⟨-, -, -, -, -, -, a, ip', hnumber, hdot, hhead⟩ := dottedQuad_consumed h
  obtain rfl : a = 0 := Option.some.inj (hhead.symm.trans hzero)
  rw [quadNumber] at hnumber
  dsimp only at hnumber
  by_cases hrange : (strtol ip 10).1 < 0 ∨ 255 < (strtol ip 10).1
  · rw [if_pos hrange] at hnumber
    cases hnumber
  · rw [if_neg hrange] at hnumber
    obtain ⟨hvalue, rfl⟩ := Prod.mk.inj (Option.some.inj hnumber)
    have hnat := congrArg UInt8.toNat hvalue
    rw [UInt8.toNat_ofNat', UInt8.toNat_zero] at hnat
    exact strtol_zero hdot (by omega)

theorem eq_of_shift {α : Type} {a b : α} {l : List α} (h : a :: l = l ++ [b]) :
    ∀ x ∈ l ++ [b], x = a := by
  induction l with
  | nil => simpa using h.symm
  | cons c l ih =>
      obtain ⟨rfl, hrest⟩ := List.cons.inj h
      exact List.forall_mem_cons.mpr ⟨rfl, ih hrest⟩

theorem netWords_quad {address : Ipv6} {words : List Nat} (hwords : ∀ w ∈ words, w < 65536)
    {a b c d : Octet} (h : address.octets = AddressForm.groupsOctets words ++ [a, b, c, d]) :
    netWords address.octets = words ++ [a.toNat * 256 + b.toNat, c.toNat * 256 + d.toNat] := by
  have ha := a.toNat_lt
  have hb := b.toNat_lt
  have hc := c.toNat_lt
  have hd := d.toNat_lt
  refine groupsOctets_inj (netWords_lt _) ?_ ?_
  · simp only [List.forall_mem_append, List.forall_mem_cons]
    exact ⟨hwords, by omega, by omega, nofun⟩
  · rw [groupsOctets_netWords, h, groupsOctets_append]
    congr 1
    have hpair (x y : Octet) : UInt8.ofNat ((x.toNat * 256 + y.toNat) / 256) = x ∧
        UInt8.ofNat ((x.toNat * 256 + y.toNat) % 256) = y := by
      have hx := x.toNat_lt
      have hy := y.toNat_lt
      rw [show (x.toNat * 256 + y.toNat) / 256 = x.toNat by omega,
        show (x.toNat * 256 + y.toNat) % 256 = y.toNat by omega]
      exact ⟨UInt8.ofNat_toNat, UInt8.ofNat_toNat⟩
    simp [AddressForm.groupsOctets, hpair]

theorem netWords_zeros : netWords (List.replicate 16 0) = List.replicate 8 0 := by
  decide

theorem shifted_groups {address : Ipv6} {words : List Nat} {ip rest quad : List Octet}
    (hlength : words.length = 6) (hlt : ∀ w ∈ words, w < 65536) (hquad : dottedQuad ip = some (quad, rest))
    (hvalue : address.octets = AddressForm.groupsOctets words ++ quad) :
    0 :: words ++ [groupValue ip] = netWords address.octets ↔ address.octets = List.replicate 16 0 := by
  have hfour := dottedQuad_length hquad
  match quad, hfour with
  | [a, b, c, d], _ =>
      have hwords := netWords_quad hlt hvalue
      constructor
      · intro heq
        rw [hwords, show words ++ [a.toNat * 256 + b.toNat, c.toNat * 256 + d.toNat] =
          (words ++ [a.toNat * 256 + b.toNat]) ++ [c.toNat * 256 + d.toNat] by simp] at heq
        obtain ⟨hshift, hlast⟩ := List.append_inj' heq rfl
        have hzero := eq_of_shift hshift
        have hfirst := hzero (a.toNat * 256 + b.toNat) (by simp)
        have ha : a = 0 := UInt8.toNat_inj.mp (by
          rw [UInt8.toNat_zero]
          omega)
        have hread := quad_first_zero hquad (by rw [ha]; rfl)
        have hgroup : groupValue ip = 0 := by rw [groupValue, hread]; rfl
        have hall : netWords address.octets = List.replicate 8 0 := by
          refine List.eq_replicate_iff.mpr ⟨length_netWords _, ?_⟩
          rw [hwords]
          have hlast : c.toNat * 256 + d.toNat = 0 := by
            rw [← hgroup]
            exact (List.cons.inj hlast).1.symm
          intro x hx
          simp only [List.mem_append, List.mem_cons, List.not_mem_nil, or_false] at hx hzero
          rcases hx with hx | hx | hx
          · exact hzero x (.inl hx)
          · exact hzero x (.inr hx)
          · rw [hx, hlast]
        rw [← groupsOctets_netWords, hall, groupsOctets_zeros]
      · intro hzeros
        rw [hzeros, netWords_zeros] at hwords
        have hmem : ∀ x ∈ words ++ [a.toNat * 256 + b.toNat, c.toNat * 256 + d.toNat], x = 0 := by
          rw [← hwords]
          exact fun x hx => List.eq_of_mem_replicate hx
        have hfirst := hmem (a.toNat * 256 + b.toNat) (by simp)
        have ha : a = 0 := UInt8.toNat_inj.mp (by
          rw [UInt8.toNat_zero]
          omega)
        have hread := quad_first_zero hquad (by rw [ha]; rfl)
        have hgroup : groupValue ip = 0 := by rw [groupValue, hread]; rfl
        have hsix : words = List.replicate 6 0 :=
          List.eq_replicate_iff.mpr ⟨hlength, fun x hx => hmem x (List.mem_append_left _ hx)⟩
        rw [hzeros, netWords_zeros, hgroup, hsix]
        rfl

theorem ScannedGroups.Accepts.stop_ne_colon {s : ScannedGroups} {quad : List Octet} (h : s.Accepts quad) :
    peek s.stop ≠ ch ':' := by
  rcases h with ⟨hdot, -⟩ | ⟨-, -, hends, -⟩
  · rw [hdot]
    decide
  · rcases hends with h | h <;> rw [h] <;> decide

theorem ScannedGroups.Accepts.no_colon {s : ScannedGroups} {quad : List Octet} (h : s.Accepts quad)
    (hstop : s.stop = (strtol s.ip 16).2) : ch ':' ∉ s.ip := by
  have hends {rest : List Octet} (h : EndsText rest) : ch ':' ∉ rest := by
    rcases h with rfl | rfl
    · exact List.not_mem_nil
    · decide
  rcases h with ⟨-, -, rest, hquad, hrest⟩ | ⟨-, -, hrest, -⟩
  · obtain ⟨f₁, f₂, f₃, f₄, hip, hdelims, -⟩ := dottedQuad_consumed hquad
    simp only [List.mem_append] at hdelims
    have hnot (hmem : ((ch ':' ∈ f₁ ∨ ch ':' ∈ f₂) ∨ ch ':' ∈ f₃) ∨ ch ':' ∈ f₄) : False :=
      hdelims _ hmem (by decide)
    have hdot : ch ':' ≠ ch '.' := by decide
    rw [hip]
    simp only [List.mem_append, List.mem_cons, hdot, false_or]
    rintro (h | h | h | h | h)
    · exact hnot (.inl (.inl (.inl h)))
    · exact hnot (.inl (.inl (.inr h)))
    · exact hnot (.inl (.inr h))
    · exact hnot (.inr h)
    · exact hends hrest h
  · obtain ⟨f, hip, hdelims⟩ := strtol_consumed s.ip 16
    rw [hip, ← hstop, List.mem_append]
    rintro (h | h)
    · exact hdelims _ h (by decide)
    · exact hends hrest h

/-- What a scan that marks no pair of colons has read: groups, the first of which may be empty, and
what stands behind them. -/
structure PlainScan (s : ScannedGroups) (first : List Octet) (fields : List (List Octet)) : Prop where
  mark : s.mark = none
  stop : s.stop = (strtol s.ip 16).2
  range : 0 ≤ (strtol s.ip 16).1 ∧ (strtol s.ip 16).1 ≤ 0xffff
  isFirst : first = [] ∨ IsGroup first
  areFields : ∀ f ∈ fields, IsGroup f
  words : s.words = ([first].filter (· ≠ [])).map groupValue ++ fields.map groupValue ++ lastGroup s.ip

namespace PlainScan

variable {s : ScannedGroups} {first quad : List Octet} {fields : List (List Octet)} {address : Ipv6}

theorem values (h : PlainScan s first fields) : ∀ w ∈ fields.map groupValue, w < 65536 := by
  intro w hw
  obtain ⟨g, hg, rfl⟩ := List.mem_map.mp hw
  have hgroup := (h.areFields g hg).2.2
  rw [groupValue]
  omega

theorem quad_words (h : PlainScan s first fields) (hdot : peek s.stop = ch '.') :
    s.words = ([first].filter (· ≠ [])).map groupValue ++ fields.map groupValue := by
  have hnone : lastGroup s.ip = [] := if_neg fun hcounts => hcounts.2 (h.stop ▸ hdot)
  rw [h.words, hnone, List.append_nil]

theorem empty_iff (h : PlainScan s [] fields) (hfew : fields.length < 8) (haccepts : s.Accepts quad)
    (hvalue : address.octets = s.value quad) :
    0 :: fields.map groupValue ++ [groupValue s.ip] = netWords address.octets ↔
      fields.length = 6 ∧ address.octets = List.replicate 16 0 := by
  have hnet := length_netWords address.octets
  have hlength (heq : 0 :: fields.map groupValue ++ [groupValue s.ip] = netWords address.octets) :
      fields.length = 6 := by
    rw [← heq] at hnet
    simpa using hnet
  rw [ScannedGroups.value, h.mark, Option.getD_none, List.take_zero, List.drop_zero] at hvalue
  rcases haccepts with ⟨hdot, -, rest, hquad, -⟩ | ⟨-, rfl, -, height⟩
  · by_cases hsix : fields.length = 6
    · have hwords : s.words = fields.map groupValue := h.quad_words hdot
      rw [dottedQuad_length hquad, hwords, List.length_map, hsix] at hvalue
      rw [shifted_groups (by rw [List.length_map, hsix]) h.values hquad hvalue]
      exact (and_iff_right hsix).symm
    · exact iff_of_false (fun heq => hsix (hlength heq)) fun hboth => hsix hboth.1
  · rw [h.mark, Option.isSome_none, if_neg Bool.false_ne_true] at height
    have hlen := congrArg List.length h.words
    have hone : (lastGroup s.ip).length ≤ 1 := by
      rw [lastGroup]
      split <;> simp
    have hnofirst : ([([] : List Octet)].filter (· ≠ [])).map groupValue = [] := rfl
    rw [hnofirst, List.nil_append, List.length_append, List.length_map] at hlen
    exact iff_of_false (fun heq => by have := hlength heq; omega) fun hboth => by omega

theorem full_iff (h : PlainScan s first fields) (hne : first ≠ []) (hfew : fields.length < 7)
    (haccepts : s.Accepts quad) (hvalue : address.octets = s.value quad) :
    groupValue first :: fields.map groupValue ++ [groupValue s.ip] = netWords address.octets ↔
      fields.length = 6 := by
  have hnet := length_netWords address.octets
  have hlength (heq : groupValue first :: fields.map groupValue ++ [groupValue s.ip] =
      netWords address.octets) : fields.length = 6 := by
    rw [← heq] at hnet
    simpa using hnet
  have hfirst : ([first].filter (· ≠ [])).map groupValue = [groupValue first] := by
    simp [hne]
  rw [ScannedGroups.value, h.mark, Option.getD_none, List.take_zero, List.drop_zero] at hvalue
  rcases haccepts with ⟨hdot, hsix, -⟩ | ⟨-, rfl, -, height⟩
  · rw [h.mark, Option.isSome_none, if_neg Bool.false_ne_true, h.quad_words hdot, hfirst] at hsix
    simp only [List.length_append, List.length_map, List.length_singleton] at hsix
    exact iff_of_false (fun heq => by have := hlength heq; omega) (by omega)
  · rw [h.mark, Option.isSome_none, if_neg Bool.false_ne_true] at height
    have hwords := h.words
    rw [hfirst] at hwords
    have hlen := congrArg List.length hwords
    simp only [List.length_append, List.length_map, List.length_singleton] at hlen
    have hlast : lastGroup s.ip = [groupValue s.ip] := by
      rw [lastGroup] at hlen ⊢
      split
      · rfl
      · next hnot =>
          rw [if_neg hnot, List.length_nil] at hlen
          omega
    rw [hlast, List.length_singleton] at hlen
    rw [hlast] at hwords
    refine iff_of_true ?_ (by omega)
    change [groupValue first] ++ fields.map groupValue ++ [groupValue s.ip] = _
    rw [← hwords]
    refine groupsOctets_inj ?_ (netWords_lt _) ?_
    · rw [hwords]
      simp only [List.forall_mem_append, List.forall_mem_singleton]
      have hgroup := (h.isFirst.resolve_left hne).2.2
      have hrange := h.range
      refine ⟨⟨?_, h.values⟩, ?_⟩
      · rw [groupValue]
        omega
      · rw [groupValue]
        omega
    · rw [groupsOctets_netWords, hvalue, height]
      simp [AddressForm.groupsOctets]

end PlainScan

theorem plain_groups {text quad : List Octet} {s : ScannedGroups} {address : Ipv6}
    (hscan : scanText text = some s) (haccepts : s.Accepts quad) (hvalue : address.octets = s.value quad)
    (hnone : ¬ [ch ':', ch ':'] <:+: text) (hcolon : ch ':' ∈ text) :
    hexGroups text ≠ [] ∧ (hexGroups text).length ≤ 9 ∧
      (hexGroups text = netWords address.octets ↔ text.count (ch ':') = 7 ∧
        (peek text = ch ':' → address.octets = List.replicate 16 0)) := by
  obtain ⟨fields, htext, hfields, hstop, hrange, hfew, hwords⟩ :=
    scan_fields _ hscan haccepts.stop_ne_colon (Nat.zero_lt_succ 7)
  dsimp only at htext hfew hwords
  have hgroups : hexGroups text = fields.map groupValue ++ [groupValue s.ip] := by
    rw [htext, hexGroups_fieldsText hfields,
      hexGroups_last (by rw [← hstop]; exact haccepts.stop_ne_colon) hrange]
  have hlast := haccepts.no_colon hstop
  have hcount : text.count (ch ':') = fields.length := by
    rw [htext, List.count_append, count_fieldsText hfields, List.count_eq_zero.mpr hlast, Nat.add_zero]
  rw [hcount, hgroups]
  cases fields with
  | nil =>
      rw [htext] at hcolon
      exact absurd hcolon hlast
  | cons first fields =>
      obtain ⟨hfirst, hrest⟩ := List.forall_mem_cons.mp hfields
      have hinner : ∀ f ∈ fields, f ≠ [] := fields_not_empty (htext ▸ hnone)
      have hall : fields.filter (· ≠ []) = fields :=
        List.filter_eq_self.mpr fun f hf => by simpa using hinner f hf
      have hkept : (first :: fields).filter (· ≠ []) = [first].filter (· ≠ []) ++ fields := by
        rw [← List.singleton_append, List.filter_append, hall]
      rw [hkept, List.length_append, List.length_nil] at hfew
      rw [hkept, List.map_append, List.nil_append] at hwords
      have hplain : PlainScan s first fields := ⟨scan_mark _ hscan hnone, hstop, hrange, hfirst,
        fun f hf => (hrest f hf).resolve_left (hinner f hf), hwords⟩
      have hpeek : peek text = ch ':' ↔ first = [] := by
        rw [htext]
        cases first with
        | nil => exact iff_of_true rfl rfl
        | cons c f =>
            refine iff_of_false (fun h => delimiter_colon_mem hfirst ?_) (List.cons_ne_nil c f)
            have hc : c = ch ':' := h
            exact hc ▸ List.mem_cons_self
      have hlength : (List.map groupValue (first :: fields) ++ [groupValue s.ip]).length =
          fields.length + 2 := by
        rw [List.length_append, List.length_map, List.length_cons, List.length_singleton]
      refine ⟨List.ne_nil_of_length_pos (by omega), by omega, ?_⟩
      rw [hpeek, List.length_cons, List.map_cons]
      by_cases hempty : first = []
      · subst hempty
        refine (hplain.empty_iff (by omega) haccepts hvalue).trans ?_
        exact ⟨fun h => ⟨by omega, fun _ => h.2⟩, fun h => ⟨by omega, h.2 rfl⟩⟩
      · have hone : ([first].filter (· ≠ [])).length = 1 := by simp [hempty]
        refine (hplain.full_iff hempty (by omega) haccepts hvalue).trans ?_
        exact ⟨fun h => ⟨by omega, fun h => absurd h hempty⟩, fun h => by omega⟩

/-! ### The name of an address -/

/-- The texts whose numbers are the words of the address. -/
def NibblesFit (source : List Octet) (address : Ipv6) : Prop :=
  if [ch ':', ch ':'] <:+: untagged source then ¬ HasQuad address
  else peek (untagged source) ≠ ch '[' ∧ (untagged source).count (ch ':') = 7 ∧
    (peek (untagged source) = ch ':' → address.octets = List.replicate 16 0)

theorem expandCompact_yields {source : List Octet} {s : ScannedGroups} {quad : List Octet}
    {address : Ipv6} (hscan : scanText (addressText source) = some s) (haccepts : s.Accepts quad)
    (hvalue : address.octets = s.value quad) (hpair : [ch ':', ch ':'] <:+: source) (ipv6 : Ipv6) :
    (expandCompact source ipv6).Yields (formatText 0 address) := by
  rw [expandCompact, if_pos hpair]
  refine ends_bind.mpr ((parseIPv6_accepted hscan haccepts ipv6).mono ?_)
  rintro ⟨length, parsed⟩ hparsed
  obtain rfl : parsed = address := Buffer.ext (hparsed.trans hvalue.symm)
  refine ends_bind.mpr ((formatIP_prints 0 parsed _ (formatText_groups parsed).1).mono ?_)
  rintro put ⟨-, rest, hput⟩
  exact ends_pure.mpr (Buffer.cstring_of_octets hput (zero_not_mem_text _))

theorem reverseSegmentOrder_dots (string : List Octet) (size : Nat) :
    ((reverseSegmentOrder string (ascii ".") size).1.filter (· ∈ ascii ".")).length ≤
      (string.filter (· ∈ ascii ".")).length := by
  by_cases hfit : string.length < size
  · rw [reverseSegmentOrder_eq hfit, (reverseEachSegment_segments _ _).2, List.filter_reverse,
      List.length_reverse, withoutTrailing]
    split
    · exact ((List.dropLast_sublist string).filter _).length_le
    · exact Nat.le_refl _
  · rw [reverseSegmentOrder, if_pos (by omega)]
    exact ((List.take_sublist _ string).filter _).length_le

theorem nibbleName_dots (address : Ipv6) :
    ((nibbleName address).filter (· ∈ ascii ".")).length = 31 := by
  have hword (w : Nat) : ((nibbleText w).filter (· ∈ ascii ".")).length = 4 := by
    have hpiece (k : Nat) : (hexWord false (k % 16) ++ [ch '.']).filter (· ∈ ascii ".") = [ch '.'] := by
      obtain ⟨c, hc, hdot⟩ := hexWord_nibble (Nat.mod_lt k (by decide : 16 > 0))
      rw [hc, List.singleton_append, List.filter_cons_of_neg, List.filter_cons_of_pos (by decide)]
      · rfl
      · simpa [ascii] using hdot
    simp only [nibbleText, List.flatMap_cons, List.flatMap_nil, List.filter_append, hpiece]
    rfl
  have hwords (words : List Nat) :
      ((nibblesText words).filter (· ∈ ascii ".")).length = 4 * words.length := by
    induction words with
    | nil => rfl
    | cons w words ih =>
        rw [nibblesText_cons, List.filter_append, List.length_append, ih, hword, List.length_cons]
        omega
  have hall := hwords (netWords address.octets)
  rw [← nibbleName_dot, length_netWords, List.filter_append, List.length_append] at hall
  have hone : ([ch '.'].filter (· ∈ ascii ".")).length = 1 := by decide
  omega

theorem quad_dots {text quad : List Octet} {s : ScannedGroups} (hscan : scanText text = some s)
    (haccepts : s.Accepts quad) (hcolon : ch ':' ∉ text) :
    (text.filter (· ∈ ascii ".")).length ≤ 3 := by
  obtain ⟨fields, htext, -, hstop, -, -, hwords⟩ :=
    scan_fields _ hscan haccepts.stop_ne_colon (Nat.zero_lt_succ 7)
  dsimp only at htext hwords
  cases fields with
  | cons f fields => exact absurd (htext ▸ by simp [fieldsText]) hcolon
  | nil =>
      change text = s.ip at htext
      rcases haccepts with ⟨-, -, rest, hquad, hrest⟩ | ⟨-, -, -, height⟩
      · obtain ⟨f₁, f₂, f₃, f₄, hip, hdelims, -⟩ := dottedQuad_consumed hquad
        simp only [List.mem_append] at hdelims
        have hnone {f : List Octet} (h : ∀ x ∈ f, ¬ Delimiter x) : f.filter (· ∈ ascii ".") = [] := by
          refine List.filter_eq_nil_iff.mpr fun x hx hdot => h x hx ?_
          obtain rfl : x = ch '.' := by simpa [ascii] using hdot
          exact delimiter_dot
        have h₁ := hnone fun x hx => hdelims x (.inl (.inl (.inl hx)))
        have h₂ := hnone fun x hx => hdelims x (.inl (.inl (.inr hx)))
        have h₃ := hnone fun x hx => hdelims x (.inl (.inr hx))
        have h₄ := hnone fun x hx => hdelims x (.inr hx)
        have hfive : rest.filter (· ∈ ascii ".") = [] := by
          rcases hrest with rfl | rfl <;> decide
        have hdot (l : List Octet) : (ch '.' :: l).filter (· ∈ ascii ".") =
            ch '.' :: l.filter (· ∈ ascii ".") := List.filter_cons_of_pos (by decide)
        rw [htext, hip]
        simp only [List.filter_append, hdot, h₁, h₂, h₃, h₄, hfive, List.nil_append]
        decide
      · have hmark : s.mark = none := scan_mark _ hscan fun hcolons =>
          hcolon (hcolons.subset List.mem_cons_self)
        have hone : (lastGroup s.ip).length ≤ 1 := by
          rw [lastGroup]
          split <;> simp
        rw [hmark, Option.isSome_none, if_neg Bool.false_ne_true, hwords] at height
        simp only [List.nil_append, List.filter_nil, List.map_nil] at height
        omega

theorem reverseIp_colon {source : List Octet} (h : ch ':' ∈ untagged source) (size : Nat)
    (scratch : Ipv6) : reverseIp source size scratch =
      expandCompact (untagged source) scratch >>= fun text =>
        pure (reverseByNibble text size).dropDot :=
  if_neg (not_not.mpr h)

theorem reverseIp_no_colon {source : List Octet} (h : ch ':' ∉ untagged source) (size : Nat)
    (scratch : Ipv6) : reverseIp source size scratch =
      pure (reverseSegmentOrder (untagged source) (ascii ".") size) :=
  if_pos h

/-- The name of an address is complete exactly if its text fits: the nibbles are taken from the
text, and `formatIP` writes no dotted quad into it. -/
theorem reverseIp_exact_iff (source : List Octet) (size : Nat) (scratch ipv6 address : Ipv6)
    (hcolon : ch ':' ∈ source)
    (haccepted : (parseIPv6 source ipv6).Yields (source.length, address)) (hsize : 80 ≤ size) :
    (reverseIp source size scratch).Yields (nibbleName address, (nibbleName address).length) ↔
      NibblesFit source address := by
  obtain ⟨s, quad, hscan, haccepts, hvalue⟩ :=
    accepted_value (List.ne_nil_of_mem hcolon) haccepted
  have htwice := addressText_untagged hscan haccepts
  have hpure {r r' : List Octet × Nat} : (pure r : Run _).Yields r' ↔ r = r' := ends_pure
  rw [NibblesFit]
  by_cases hpair : [ch ':', ch ':'] <:+: untagged source
  · -- The text is written anew.
    have hmem : ch ':' ∈ untagged source := hpair.subset List.mem_cons_self
    obtain ⟨-, hne, hlength, hwords⟩ := formatText_groups address
    rw [reverseIp_colon hmem, if_pos hpair, ← hwords,
      ← @reverseByNibble_name_iff _ size _ hne (by omega), ← hpure]
    exact Yields.bind_ends_iff (expandCompact_yields (htwice ▸ hscan) haccepts hvalue hpair scratch)
  · rw [if_neg hpair]
    by_cases hmem : ch ':' ∈ untagged source
    · have hsame : expandCompact (untagged source) scratch = pure (untagged source) := if_neg hpair
      rw [reverseIp_colon hmem, hsame, Run.pure_bind]
      by_cases hopen : peek (untagged source) = ch '['
      · -- The bracket ends the scan at once.
        have hcons := eq_cons_of_peek hopen (by decide)
        have hread := strtol_none (c := ch '[') (by decide) (untagged source).tail
        rw [← hcons] at hread
        have hgroups : hexGroups (untagged source) = [groupValue (untagged source)] := by
          refine hexGroups_last ?_ ?_
          · rw [hread, hopen]
            decide
          · rw [hread]
            exact ⟨Int.le_refl 0, by omega⟩
        refine iff_of_false (fun hname => ?_) fun hfit => hfit.1 hopen
        have heq := (reverseByNibble_name_iff (by rw [hgroups]; exact List.cons_ne_nil _ _) (by
          rw [hgroups, List.length_singleton]
          omega)).mp (hpure.mp hname)
        have hlength := congrArg List.length heq
        rw [hgroups, length_netWords, List.length_singleton] at hlength
        omega
      · rw [addressText_of_no_bracket fun hb => hopen (untagged_of_bracket hb ▸ hb)] at hscan
        obtain ⟨hne, hlength, hwords⟩ := plain_groups hscan haccepts hvalue hpair hmem
        rw [and_iff_right hopen, ← hwords,
          ← @reverseByNibble_name_iff _ size _ hne (by omega)]
        exact hpure
    · -- A dotted quad behind the tag is turned round as an IPv4 address.
      rw [reverseIp_no_colon hmem]
      rw [addressText_of_no_bracket fun hb => hmem ((untagged_of_bracket hb).symm ▸ hcolon)] at hscan
      have hdots := quad_dots hscan haccepts hmem
      refine iff_of_false (fun hname => ?_) fun hfit => ?_
      · have hkept := reverseSegmentOrder_dots (untagged source) size
        rw [congrArg Prod.fst (hpure.mp hname), nibbleName_dots] at hkept
        omega
      · rw [List.count_eq_zero.mpr hmem] at hfit
        exact absurd hfit.2.1 (by decide)

theorem reverseIp_exact_loopback : ch ':' ∈ ascii "::1" ∧
    (parseIPv6 (ascii "::1") (Buffer.replicate 16 0)).Yields
      ((ascii "::1").length, ⟨List.replicate 15 0 ++ [1], rfl⟩) ∧ 80 ≤ 80 ∧
    ((reverseIp (ascii "::1") 80 (Buffer.replicate 16 0)).Yields
        (nibbleName ⟨List.replicate 15 0 ++ [1], rfl⟩,
          (nibbleName ⟨List.replicate 15 0 ++ [1], rfl⟩).length) ↔
      NibblesFit (ascii "::1") ⟨List.replicate 15 0 ++ [1], rfl⟩) := by
  have hparsed : (parseIPv6 (ascii "::1") (Buffer.replicate 16 0)).Yields
      ((ascii "::1").length, ⟨List.replicate 15 0 ++ [1], rfl⟩) :=
    yields_of_result (by decide) (by decide)
  exact ⟨by decide, hparsed, Nat.le_refl 80,
    reverseIp_exact_iff _ 80 (Buffer.replicate 16 0) _ _ (by decide) hparsed (Nat.le_refl 80)⟩

/-- The name of an IPv4-mapped address lacks its last word, and has the first number of the dotted
quad in hexadecimal for the word before. -/
theorem reverseIp_inexact : ¬ ∀ (source : List Octet) (size : Nat) (scratch ipv6 address : Ipv6),
    ch ':' ∈ source → (parseIPv6 source ipv6).Yields (source.length, address) → 80 ≤ size →
    (reverseIp source size scratch).Yields (nibbleName address, (nibbleName address).length) := by
  intro hall
  have hname := hall (ascii "::ffff:1.2.3.4") 80 (Buffer.replicate 16 0) (Buffer.replicate 16 0)
    ⟨List.replicate 10 0 ++ [255, 255, 1, 2, 3, 4], rfl⟩ (by decide)
    (yields_of_result (by decide) (by decide)) (Nat.le_refl 80)
  have hexpand : (expandCompact (ascii "::ffff:1.2.3.4") (Buffer.replicate 16 0)).Yields
      (fieldsText (List.replicate 5 (ascii "0") ++ [ascii "ffff"]) ++ ascii "1.2.3.4") :=
    yields_of_result (by decide) (by decide)
  have hgroups : hexGroups (fieldsText (List.replicate 5 (ascii "0") ++ [ascii "ffff"]) ++
      ascii "1.2.3.4") = [0, 0, 0, 0, 0, 0xffff, 1] := by
    rw [hexGroups_fieldsText (by decide), hexGroups_last (by decide) (by decide)]
    decide
  have huntagged : untagged (ascii "::ffff:1.2.3.4") = ascii "::ffff:1.2.3.4" := by decide
  rw [reverseIp_colon (by decide), huntagged] at hname
  have hput := (Yields.bind_ends_iff hexpand).mp hname
  have hdropped := eq_of_yields_pure hput
  have hwords := (reverseByNibble_name_iff (by rw [hgroups]; exact List.cons_ne_nil _ _) (by
    rw [hgroups]
    decide)).mp hdropped
  have hlength := congrArg List.length hwords
  rw [hgroups, length_netWords] at hlength
  exact absurd hlength (by decide)

end Snert
