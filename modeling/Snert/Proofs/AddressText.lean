/-
Module: Snert.Proofs.AddressText
Purpose: The written forms of an IPv6 address, and `parseIPv6` on them. A form has groups, perhaps a
  pair of colons with more groups behind it, and perhaps a dotted quad in place of the last two
  groups. The parser reads any form that is not too long to its end, and stores the address it means.
Trusted boundary: none
Main exports: AddressForm.octets, AddressForm.WellFormed, AddressForm.parse
-/
import Snert.CModel.Numeral
import Snert.Net.FormatIP
import Snert.Proofs.ParseIPv6Bounds

namespace Snert

open CModel CModel.Run Lists

/-! ### Forms -/

/-- A written address. The digits of a group are hexadecimal, perhaps four of them in any case. -/
structure AddressForm where
  full : Bool
  front : List Nat
  back : Option (List Nat)
  quad : Option (Buffer 4)

namespace AddressForm

/-- The dotted quad at the end of a text. -/
def quadText (quad : Option (Buffer 4)) : List Octet :=
  quad.elim [] fun quad => dottedDecimal quad.octets

/-- Groups, each with a colon behind it but the last of a text without a dotted quad. -/
def groupsText (full : Bool) (quad : Option (Buffer 4)) : List Nat → List Octet
  | [] => quadText quad
  | w :: groups =>
      hexWord full w ++
        if groups = [] ∧ quad = none then [] else ch ':' :: groupsText full quad groups

/-- The text of a form. -/
def text (form : AddressForm) : List Octet :=
  match form.back with
  | none => groupsText form.full form.quad form.front
  | some back =>
      fieldsText (form.front.map (hexWord form.full)) ++
        (if form.front = [] then [ch ':', ch ':'] else [ch ':']) ++
          groupsText form.full form.quad back

/-- The octets of groups. -/
def groupsOctets (groups : List Nat) : List Octet :=
  groups.flatMap fun w => [UInt8.ofNat (w / 256), UInt8.ofNat (w % 256)]

/-- The octets that are left to a dotted quad. -/
def quadOctets (quad : Option (Buffer 4)) : List Octet :=
  quad.elim [] Buffer.octets

/-- How many octets the groups and the dotted quad of a form make. -/
def size (form : AddressForm) : Nat :=
  2 * form.front.length + 2 * (form.back.getD []).length + (quadOctets form.quad).length

/-- The address that a form means: a pair of colons stands for the zeros that lack. -/
def octets (form : AddressForm) : List Octet :=
  groupsOctets form.front ++ List.replicate (16 - form.size) 0 ++
    groupsOctets (form.back.getD []) ++ quadOctets form.quad

/-- The form makes an address. Before a dotted quad a pair of colons stands for two groups or more. -/
structure WellFormed (form : AddressForm) : Prop where
  front_lt : ∀ w ∈ form.front, w < 65536
  back_lt : ∀ w ∈ form.back.getD [], w < 65536
  size_eq : form.back = none → form.size = 16
  size_lt : form.back.isSome → form.size ≤ 14
  quad_lt : form.back.isSome → form.quad.isSome → form.size ≤ 12

end AddressForm

/-! ### Numbers -/

theorem IsDigits.of_hexWord (full : Bool) {w : Nat} :
    IsDigits 16 (hexWord full w) ∧ digitsValue 16 (hexWord full w) = w := by
  have hreads := numeral_reads 16 (by decide) (by decide) w
  unfold hexWord
  cases full with
  | false => exact hreads
  | true =>
      obtain ⟨hdigits, hvalue⟩ := zeros_read (by decide) hreads.1 (4 - (numeral 16 w).length)
      exact ⟨hdigits, hvalue.trans hreads.2⟩

theorem strtol_hexWord (full : Bool) {w : Nat} (h : w < 65536) :
    strtol (hexWord full w) 16 = ((w : Int), []) := by
  obtain ⟨hdigits, hvalue⟩ := IsDigits.of_hexWord full (w := w)
  rw [strtol_digits (by decide) hdigits, hvalue, clampLong_natCast (by omega)]

theorem isGroup_hexWord (full : Bool) {w : Nat} (h : w < 65536) : IsGroup (hexWord full w) := by
  have hne := (IsDigits.of_hexWord full (w := w)).1.1
  rw [IsGroup, strtol_hexWord full h]
  exact ⟨hne, rfl, by omega, by dsimp only; omega⟩

theorem quadNumber_decimal (c d : Octet) (hd : Delimiter d) (r : List Octet) :
    quadNumber (decimal c.toNat ++ d :: r) = some (c, d :: r) := by
  have hc := c.toNat_lt
  obtain ⟨hdigits, hvalue⟩ := numeral_reads 10 (by decide) (by decide) c.toNat
  have hread : strtol (decimal c.toNat ++ d :: r) 10 = ((c.toNat : Int), d :: r) := by
    refine (strtol_digits_delimiter (by decide) hdigits hd r).trans ?_
    rw [hvalue, clampLong_natCast (by omega)]
  rw [quadNumber, hread]
  dsimp only
  rw [if_neg (by omega), Int.toNat_natCast, UInt8.ofNat_toNat]

theorem quadNumber_decimal_nil (c : Octet) : quadNumber (decimal c.toNat) = some (c, []) := by
  have hc := c.toNat_lt
  obtain ⟨hdigits, hvalue⟩ := numeral_reads 10 (by decide) (by decide) c.toNat
  have hread : strtol (decimal c.toNat) 10 = ((c.toNat : Int), []) := by
    refine (strtol_digits (by decide) hdigits).trans ?_
    rw [hvalue, clampLong_natCast (by omega)]
  rw [quadNumber, hread]
  dsimp only
  rw [if_neg (by omega), Int.toNat_natCast, UInt8.ofNat_toNat]

theorem delimiter_dot : Delimiter (ch '.') := by
  decide

theorem dottedDecimal_eq (a b c d : Octet) : dottedDecimal [a, b, c, d] =
    decimal a.toNat ++ ch '.' :: (decimal b.toNat ++ ch '.' :: (decimal c.toNat ++
      ch '.' :: decimal d.toNat)) := by
  change decimal a.toNat ++ ch '.' :: decimal b.toNat ++ ch '.' :: decimal c.toNat ++
    ch '.' :: decimal d.toNat = _
  simp only [List.append_assoc, List.cons_append]

theorem dottedQuad_text (quad : Buffer 4) :
    dottedQuad (dottedDecimal quad.octets) = some (quad.octets, []) := by
  obtain ⟨octets, hlen⟩ := quad
  match octets, hlen with
  | [a, b, c, d], _ =>
      simp only [dottedDecimal_eq, dottedQuad, quadNext, quadNumber_decimal _ _ delimiter_dot,
        quadNumber_decimal_nil, Option.bind_eq_bind, Option.bind_some, peek_cons, List.tail_cons,
        ne_eq, not_true_eq_false, if_false]

theorem strtol_dottedDecimal (quad : Buffer 4) :
    ∃ (word : Nat) (r : List Octet), word ≤ 0xffff ∧
      strtol (dottedDecimal quad.octets) 16 = ((word : Int), ch '.' :: r) := by
  obtain ⟨octets, hlen⟩ := quad
  match octets, hlen with
  | [a, b, c, d], _ =>
      obtain ⟨⟨hne, hdigits⟩, -⟩ := numeral_reads 10 (by decide) (by decide) a.toNat
      have hhex : IsDigits 16 (decimal a.toNat) :=
        ⟨hne, fun x hx => isDigit_mono (by decide) (hdigits x hx)⟩
      have hword : digitsValue 16 (decimal a.toNat) ≤ 0xffff :=
        forall_octet (P := fun a => digitsValue 16 (decimal a.toNat) ≤ 0xffff) (by decide +kernel) a
      refine ⟨digitsValue 16 (decimal a.toNat), decimal b.toNat ++ ch '.' :: (decimal c.toNat ++
        ch '.' :: decimal d.toNat), hword, ?_⟩
      rw [← clampLong_natCast (n := digitsValue 16 (decimal a.toNat)) (by omega), dottedDecimal_eq]
      exact strtol_digits_delimiter (by decide) hhex delimiter_dot _

/-! ### Rounds of the loop -/

theorem length_groupsOctets (groups : List Nat) :
    (AddressForm.groupsOctets groups).length = 2 * groups.length := by
  induction groups with
  | nil => rfl
  | cons w groups ih =>
      have hcons : AddressForm.groupsOctets (w :: groups) =
          [UInt8.ofNat (w / 256), UInt8.ofNat (w % 256)] ++ AddressForm.groupsOctets groups := rfl
      rw [hcons, List.length_append, ih]
      simp only [List.length_cons, List.length_nil]
      omega

theorem groupsOctets_append (groups groups' : List Nat) :
    AddressForm.groupsOctets (groups ++ groups') =
      AddressForm.groupsOctets groups ++ AddressForm.groupsOctets groups' :=
  List.flatMap_append

/-- The loop has read groups, and a pair of colons behind the first `mark` of them. -/
structure GroupsRead (s : GroupScan) (groups : List Nat) (mark : Option Nat) : Prop where
  octets : ∃ rest, s.ipv6.octets = AddressForm.groupsOctets groups ++ rest
  offset : s.offset = 2 * groups.length
  groups : s.groups = groups.length
  compressed : s.compressed = mark.isSome
  mark : s.mark = 2 * mark.getD 0

theorem GroupsRead.store {s : GroupScan} {groups : List Nat} {mark : Option Nat}
    (h : GroupsRead s groups mark) (w : Nat) (hroom : groups.length < 8) :
    (s.store w).Ends fun t => GroupsRead t (groups ++ [w]) mark ∧ t.ip = s.ip := by
  obtain ⟨rest, hrest⟩ := h.octets
  have hlen := s.ipv6.length_octets
  have hofs := h.offset
  rw [hrest, List.length_append, length_groupsOctets] at hlen
  have hput : (s.ipv6.splice s.offset [UInt8.ofNat (w / 256), UInt8.ofNat (w % 256)]).octets =
      AddressForm.groupsOctets (groups ++ [w]) ++ rest.drop 2 := by
    rw [hofs, ← length_groupsOctets, Buffer.octets_splice_append hrest (by
      rw [List.length_cons, List.length_singleton]; omega), groupsOctets_append]
    rfl
  have hfirst := s.ipv6.yields_write [UInt8.ofNat (w / 256)] (i := s.offset)
    (by rw [List.length_singleton]; omega)
  have hsecond := (s.ipv6.splice s.offset [UInt8.ofNat (w / 256)]).yields_write
    [UInt8.ofNat (w % 256)] (i := s.offset + 1) (by rw [List.length_singleton]; omega)
  rw [GroupScan.store, Int.toNat_natCast, hfirst.bind_ends_iff]
  refine (Yields.bind_ends_iff hsecond).mpr (ends_pure.mpr ⟨?_, rfl⟩)
  have hboth := s.ipv6.splice_splice [UInt8.ofNat (w / 256)] [UInt8.ofNat (w % 256)]
    (i := s.offset) (by rw [List.length_singleton, List.length_singleton]; omega)
  exact {
    octets := ⟨rest.drop 2, (congrArg Buffer.octets hboth).trans hput⟩
    offset := by
      rw [List.length_append, List.length_singleton]
      exact congrArg (· + 2) hofs
    groups := by
      rw [List.length_append, List.length_singleton]
      exact congrArg (· + 1) h.groups
    compressed := h.compressed
    mark := h.mark }

/-- A round that comes to a colon goes on behind it. -/
def GoesOn (groups : List Nat) (mark : Option Nat) (u : List Octet)
    (r : GroupScan ⊕ Except Ipv6 GroupScan) : Prop :=
  ∃ t, r = .inl t ∧ t.ip = u ∧
    GroupsRead t groups (if peek u = ch ':' then some groups.length else mark)

theorem GroupsRead.next {s : GroupScan} {groups : List Nat} {mark : Option Nat}
    (h : GroupsRead s groups mark) {u : List Octet} (hpair : peek u = ch ':' → mark = none) :
    GoesOn groups mark u (s.next (ch ':' :: u)) := by
  unfold GroupScan.next
  rw [peek_cons, if_neg (not_not.mpr rfl), List.tail_cons]
  split
  · rename_i hcolon
    have hnone := hpair hcolon
    rw [if_neg (by rw [h.compressed, hnone]; exact Bool.false_ne_true)]
    refine ⟨_, rfl, rfl, ?_⟩
    rw [if_pos hcolon]
    exact ⟨h.octets, h.offset, h.groups, rfl, h.offset⟩
  · rename_i hcolon
    refine ⟨_, rfl, rfl, ?_⟩
    rw [if_neg hcolon]
    exact ⟨h.octets, h.offset, h.groups, h.compressed, h.mark⟩

theorem groupStep_group {s : GroupScan} {groups : List Nat} {mark : Option Nat}
    (h : GroupsRead s groups mark) (hroom : groups.length < 8) {full : Bool} {w : Nat} (hw : w < 65536)
    {u : List Octet} (hip : s.ip = hexWord full w ++ ch ':' :: u)
    (hpair : peek u = ch ':' → mark = none) :
    (groupStep s).Ends (GoesOn (groups ++ [w]) mark u) := by
  have hread : strtol s.ip 16 = ((w : Int), ch ':' :: u) := by
    rw [hip, strtol_append_delimiter delimiter_colon, strtol_hexWord full hw]
    rfl
  have hshort : (ch ':' :: u).length < s.ip.length := by
    have hne := List.length_pos_of_ne_nil (isGroup_hexWord full hw).1
    rw [hip, List.length_append]
    omega
  rw [groupStep, if_pos (by rw [h.groups]; exact hroom), hread]
  dsimp only
  rw [if_neg (by omega), GroupScan.storeGroup, if_pos ⟨hshort, by rw [peek_cons]; decide⟩, ends_bind]
  refine (h.store w hroom).mono fun t ht => ends_pure.mpr ?_
  exact ht.1.next hpair

theorem groupStep_colon {s : GroupScan} {groups : List Nat} {mark : Option Nat}
    (h : GroupsRead s groups mark) (hroom : groups.length < 8) {u : List Octet}
    (hip : s.ip = ch ':' :: u) (hpair : peek u = ch ':' → mark = none) :
    (groupStep s).Ends (GoesOn groups mark u) := by
  have hread : strtol s.ip 16 = (0, ch ':' :: u) := by
    rw [hip]
    exact strtol_append_delimiter delimiter_colon 16 [] u
  rw [groupStep, if_pos (by rw [h.groups]; exact hroom), hread]
  dsimp only
  rw [if_neg (by decide), GroupScan.storeGroup, if_neg (by rw [hip]; exact fun h => by omega),
    pure_bind, ends_pure]
  exact h.next hpair

/-- The loop ends, with the string read up to `stop`. -/
def Stops (groups : List Nat) (mark : Option Nat) (ip stop : List Octet)
    (r : GroupScan ⊕ Except Ipv6 GroupScan) : Prop :=
  ∃ t, r = .inr (.ok t) ∧ t.ip = ip ∧ t.stop = stop ∧ GroupsRead t groups mark

theorem groupStep_group_end {s : GroupScan} {groups : List Nat} {mark : Option Nat}
    (h : GroupsRead s groups mark) (hroom : groups.length < 8) {full : Bool} {w : Nat} (hw : w < 65536)
    (hip : s.ip = hexWord full w) :
    (groupStep s).Ends (Stops (groups ++ [w]) mark s.ip []) := by
  have hread : strtol s.ip 16 = ((w : Int), []) := by rw [hip, strtol_hexWord full hw]
  have hne : ([] : List Octet).length < s.ip.length := by
    rw [hip]
    exact List.length_pos_of_ne_nil (isGroup_hexWord full hw).1
  rw [groupStep, if_pos (by rw [h.groups]; exact hroom), hread]
  dsimp only
  rw [if_neg (by omega), GroupScan.storeGroup, if_pos ⟨hne, by decide⟩, ends_bind]
  refine (h.store w hroom).mono fun t ht => ends_pure.mpr ?_
  exact ⟨{ t with stop := [] }, rfl, ht.2, rfl, ht.1.octets, ht.1.offset, ht.1.groups,
    ht.1.compressed, ht.1.mark⟩

theorem groupStep_end {s : GroupScan} {groups : List Nat} {mark : Option Nat}
    (h : GroupsRead s groups mark) (hroom : groups.length < 8) (hip : s.ip = []) :
    (groupStep s).Ends (Stops groups mark [] []) := by
  have hread : strtol s.ip 16 = (0, []) := by rw [hip]; rfl
  rw [groupStep, if_pos (by rw [h.groups]; exact hroom), hread]
  dsimp only
  rw [if_neg (by decide), GroupScan.storeGroup, if_neg (by rw [hip]; exact fun h => by simp at h),
    pure_bind, ends_pure]
  exact ⟨{ s with stop := [] }, rfl, hip, rfl, h.octets, h.offset, h.groups, h.compressed, h.mark⟩

theorem groupStep_quad {s : GroupScan} {groups : List Nat} {mark : Option Nat}
    (h : GroupsRead s groups mark) (hroom : groups.length < 8) {quad : Buffer 4}
    (hip : s.ip = dottedDecimal quad.octets) :
    (groupStep s).Ends fun r => ∃ rest, Stops groups mark s.ip (ch '.' :: rest) r := by
  obtain ⟨word, rest, hword, hread⟩ := strtol_dottedDecimal quad
  rw [groupStep, if_pos (by rw [h.groups]; exact hroom), hip, hread]
  dsimp only
  rw [if_neg (by omega), GroupScan.storeGroup, if_neg (fun h => h.2 rfl), pure_bind, ends_pure]
  exact ⟨rest, { s with stop := ch '.' :: rest }, rfl, hip, rfl, h.octets, h.offset, h.groups,
    h.compressed, h.mark⟩

/-! ### Runs of the loop -/

/-- The loop has come to the end of a text with the groups and the dotted quad given. -/
def ReadTo (groups : List Nat) (mark : Option Nat) (quad : Option (Buffer 4))
    (r : Except Ipv6 GroupScan) : Prop :=
  ∃ t, r = .ok t ∧ GroupsRead t groups mark ∧
    match quad with
    | none => t.stop = []
    | some quad => t.ip = dottedDecimal quad.octets ∧ ∃ rest, t.stop = ch '.' :: rest

theorem loop_of_goesOn {s : GroupScan} {groups : List Nat} {mark : Option Nat} {u : List Octet}
    (h : (groupStep s).Ends (GoesOn groups mark u)) {rounds : Nat}
    {Q : Except Ipv6 GroupScan → Prop}
    (hrest : ∀ t, t.ip = u → GroupsRead t groups (if peek u = ch ':' then some groups.length else mark) →
      (loop groupStep rounds t).Ends Q) : (loop groupStep (rounds + 1) s).Ends Q := by
  rw [loop, ends_bind]
  refine h.mono ?_
  rintro r ⟨t, rfl, hip, hscanned⟩
  exact hrest t hip hscanned

theorem loop_of_stops {s : GroupScan} {groups : List Nat} {mark : Option Nat} {ip stop : List Octet}
    (h : (groupStep s).Ends (Stops groups mark ip stop)) {rounds : Nat} :
    (loop groupStep (rounds + 1) s).Ends fun r =>
      ∃ t, r = .ok t ∧ t.ip = ip ∧ t.stop = stop ∧ GroupsRead t groups mark := by
  rw [loop, ends_bind]
  refine h.mono ?_
  rintro r ⟨t, rfl, ht⟩
  exact ends_pure.mpr ⟨t, rfl, ht⟩

theorem peek_hexWord_append (full : Bool) (w : Nat) (u : List Octet) :
    isDigit 16 (peek (hexWord full w ++ u)) := by
  obtain ⟨hne, hdigits⟩ := (IsDigits.of_hexWord full (w := w)).1
  cases hword : hexWord full w with
  | nil => exact absurd hword hne
  | cons c digits =>
      rw [hword] at hdigits
      exact hdigits c List.mem_cons_self

theorem isDigit_colon : isDigit 16 (ch ':') = false := by
  decide

theorem peek_hexWord_ne_colon (full : Bool) (w : Nat) (u : List Octet) :
    peek (hexWord full w ++ u) ≠ ch ':' := by
  intro h
  have hdigit := peek_hexWord_append full w u
  rw [h, isDigit_colon] at hdigit
  cases hdigit

theorem peek_quad_ne_colon (quad : Buffer 4) : peek (dottedDecimal quad.octets) ≠ ch ':' := by
  obtain ⟨octets, hlen⟩ := quad
  match octets, hlen with
  | [a, b, c, d], _ =>
      obtain ⟨⟨hne, hdigits⟩, -⟩ := numeral_reads 10 (by decide) (by decide) a.toNat
      rw [dottedDecimal_eq]
      change peek (numeral 10 a.toNat ++ _) ≠ _
      cases hword : numeral 10 a.toNat with
      | nil => exact absurd hword hne
      | cons x digits =>
          rw [hword] at hdigits
          intro h
          obtain rfl : x = ch ':' := h
          exact absurd (hdigits _ List.mem_cons_self) (by decide)

theorem peek_groupsText (full : Bool) (quad : Option (Buffer 4)) (groups : List Nat) :
    peek (AddressForm.groupsText full quad groups) ≠ ch ':' := by
  cases groups with
  | nil =>
      cases quad with
      | none => exact (by decide : peek [] ≠ ch ':')
      | some quad => exact peek_quad_ne_colon quad
  | cons w groups => exact peek_hexWord_ne_colon full w _

theorem loop_groupsText (full : Bool) (quad : Option (Buffer 4)) (groups : List Nat) :
    ∀ {s : GroupScan} {before : List Nat} {mark : Option Nat} {rounds : Nat},
      GroupsRead s before mark → s.ip = AddressForm.groupsText full quad groups →
      (∀ w ∈ groups, w < 65536) →
      before.length + groups.length ≤ 8 →
      (quad.isSome ∨ groups = [] → before.length + groups.length ≤ 7) → groups.length < rounds →
      (loop groupStep rounds s).Ends (ReadTo (before ++ groups) mark quad) := by
  induction groups with
  | nil =>
      intro s before mark rounds hscanned hip hlt _ hroom hrounds
      obtain ⟨rounds, rfl⟩ : ∃ k, rounds = k + 1 := ⟨rounds - 1, by omega⟩
      have hroom := hroom (.inr rfl)
      rw [List.length_nil] at hroom
      rw [List.append_nil]
      cases quad with
      | none =>
          refine (loop_of_stops (groupStep_end hscanned (by omega) hip)).mono ?_
          rintro r ⟨t, rfl, -, hstop, ht⟩
          exact ⟨t, rfl, ht, hstop⟩
      | some quad =>
          rw [loop, ends_bind]
          refine (groupStep_quad hscanned (by omega) hip).mono ?_
          rintro r ⟨rest, t, rfl, htip, hstop, ht⟩
          exact ends_pure.mpr ⟨t, rfl, ht, htip.trans hip, rest, hstop⟩
  | cons w groups ih =>
      intro s before mark rounds hscanned hip hlt hroom hroom' hrounds
      obtain ⟨rounds, rfl⟩ : ∃ k, rounds = k + 1 := ⟨rounds - 1, by omega⟩
      rw [List.forall_mem_cons] at hlt
      rw [List.length_cons] at hroom hroom' hrounds
      have hsplit : before ++ w :: groups = before ++ [w] ++ groups := by simp
      rw [AddressForm.groupsText] at hip
      split at hip
      · -- The last group of the text.
        rename_i hlast
        obtain ⟨rfl, rfl⟩ := hlast
        rw [List.append_nil] at hip
        refine (loop_of_stops (groupStep_group_end hscanned (by omega) hlt.1 hip)).mono ?_
        rintro r ⟨t, rfl, -, hstop, ht⟩
        exact ⟨t, rfl, ht, hstop⟩
      · rename_i hmore
        have hpeek := peek_groupsText full quad groups
        refine loop_of_goesOn (groupStep_group hscanned (by omega) hlt.1 hip fun h => absurd h hpeek)
          fun t htip ht => ?_
        rw [if_neg hpeek] at ht
        rw [hsplit]
        have hlen : (before ++ [w]).length = before.length + 1 := by
          rw [List.length_append, List.length_singleton]
        refine ih ht htip hlt.2 (by omega) (fun hend => ?_) (by omega)
        have hquad : quad.isSome := by
          cases quad with
          | none => exact absurd ⟨hend.resolve_left Bool.false_ne_true, rfl⟩ hmore
          | some quad => rfl
        have := hroom' (.inl hquad)
        omega

theorem loop_front (full : Bool) (front : List Nat) {tail : List Octet} (htail : peek tail ≠ ch ':')
    {rounds : Nat} {Q : Except Ipv6 GroupScan → Prop} :
    ∀ {s : GroupScan} {before : List Nat}, GroupsRead s before none → front ≠ [] →
      s.ip = fieldsText (front.map (hexWord full)) ++ ch ':' :: tail →
      (∀ w ∈ front, w < 65536) → before.length + front.length < 8 →
      (∀ t, t.ip = tail → GroupsRead t (before ++ front) (some (before ++ front).length) →
        (loop groupStep rounds t).Ends Q) →
      (loop groupStep (rounds + 1 + front.length) s).Ends Q := by
  induction front with
  | nil => exact fun _ hne => absurd rfl hne
  | cons w front ih =>
      intro s before hscanned _ hip hlt hroom hrest
      rw [List.forall_mem_cons] at hlt
      rw [List.length_cons] at hroom ⊢
      have hsplit : before ++ w :: front = before ++ [w] ++ front := by simp
      have hip' : s.ip = hexWord full w ++
          ch ':' :: (fieldsText (front.map (hexWord full)) ++ ch ':' :: tail) := by
        rw [hip]
        simp [fieldsText]
      rw [hsplit] at hrest
      by_cases hfront : front = []
      · -- The pair of colons stands behind this group.
        subst hfront
        rw [List.append_nil] at hrest
        refine loop_of_goesOn (groupStep_group hscanned (by omega) hlt.1 hip' fun _ => rfl)
          fun t htip ht => ?_
        have hcolon : peek (fieldsText (([] : List Nat).map (hexWord full)) ++ ch ':' :: tail) = ch ':' :=
          rfl
        rw [if_pos hcolon] at ht
        refine loop_of_goesOn (groupStep_colon ht ?_ htip fun h => absurd h htail)
          fun t' htip' ht' => ?_
        · rw [List.length_append, List.length_singleton]
          omega
        · rw [if_neg htail] at ht'
          exact hrest t' htip' ht'
      · have hpeek : peek (fieldsText (front.map (hexWord full)) ++ ch ':' :: tail) ≠ ch ':' := by
          cases front with
          | nil => exact absurd rfl hfront
          | cons v front =>
              rw [List.map_cons, fieldsText, List.flatMap_cons, List.append_assoc, List.append_assoc]
              exact peek_hexWord_ne_colon full v _
        refine loop_of_goesOn (groupStep_group hscanned (by omega) hlt.1 hip' fun h => absurd h hpeek)
          fun t htip ht => ?_
        rw [if_neg hpeek] at ht
        exact ih ht hfront htip hlt.2 (by rw [List.length_append, List.length_singleton]; omega) hrest

theorem loop_colons {tail : List Octet} (htail : peek tail ≠ ch ':') {rounds : Nat}
    {Q : Except Ipv6 GroupScan → Prop} {s : GroupScan} (hscanned : GroupsRead s [] none)
    (hip : s.ip = ch ':' :: ch ':' :: tail)
    (hrest : ∀ t, t.ip = tail → GroupsRead t [] (some 0) → (loop groupStep rounds t).Ends Q) :
    (loop groupStep (rounds + 2) s).Ends Q := by
  refine loop_of_goesOn (groupStep_colon hscanned (by decide) hip fun _ => rfl) fun t htip ht => ?_
  rw [peek_cons, if_pos rfl] at ht
  refine loop_of_goesOn (groupStep_colon ht (by decide) htip fun h => absurd h htail)
    fun t' htip' ht' => ?_
  rw [if_neg htail] at ht'
  exact hrest t' htip' ht'

/-! ### Behind the loop -/

theorem shiftTail_ends {s : GroupScan} {front back rest : List Octet}
    (hoctets : s.ipv6.octets = front ++ back ++ rest) (hmark : s.mark = front.length)
    (hofs : s.offset = front.length + back.length) (quad : Nat) (hquad : s.quadSize = quad)
    (hfit : s.offset + quad ≤ 16) :
    (shiftTail s).Ends fun ipv6 => ipv6.octets.take (16 - quad) =
      front ++ List.replicate (16 - quad - s.offset) 0 ++ back := by
  have hlen := s.ipv6.length_octets
  rw [hoctets, List.length_append, List.length_append] at hlen
  have hzeros : ((IPV6_BYTE_SIZE : Nat) : Int) - s.quadSize - s.offset =
      ((16 - quad - s.offset : Nat) : Int) := by
    rw [hquad]
    change (16 : Int) - quad - s.offset = _
    omega
  have hcount : sizeT ((s.offset : Int) - s.mark) = back.length := by
    rw [sizeT_of_nonneg (by omega) (by omega)]
    omega
  have hback : (s.ipv6.octets.drop front.length).take back.length = back := by
    rw [hoctets, List.append_assoc, List.drop_left, List.take_left]
  generalize hz : 16 - quad - s.offset = zeros at hzeros
  have hmove := s.ipv6.yields_move (show s.mark + back.length ≤ 16 by omega)
    (show zeros + s.mark + back.length ≤ 16 by omega)
  rw [hmark, hback] at hmove
  -- What is moved leaves what stands before the mark, and as many octets as zeros are lacking.
  have hmoved : ∃ old new, old.length = zeros ∧
      (s.ipv6.splice (zeros + front.length) back).octets = front ++ (old ++ (back ++ new)) := by
    refine ⟨(back ++ rest).take zeros, s.ipv6.octets.drop (zeros + front.length + back.length), ?_, ?_⟩
    · rw [List.length_take, List.length_append]
      omega
    · rw [Buffer.octets_splice _ (by omega)]
      have htake : s.ipv6.octets.take (zeros + front.length) = front ++ (back ++ rest).take zeros := by
        rw [hoctets, List.append_assoc, Nat.add_comm, List.take_length_add_append]
      rw [htake, List.append_assoc, List.append_assoc]
  obtain ⟨old, new, hold, hmoved⟩ := hmoved
  have hfill := (s.ipv6.splice (zeros + front.length) back).yields_fill 0
    (show front.length + zeros ≤ 16 by omega)
  rw [shiftTail, hzeros, hcount, hmark]
  refine (Yields.bind_ends_iff hmove).mpr ?_
  rw [sizeT_of_nonneg (by omega) (by omega), Int.toNat_natCast]
  rw [hfill.ends_iff, Buffer.octets_splice_append hmoved (by simp; omega), List.length_replicate,
    ← hold, List.drop_left, ← List.append_assoc]
  refine List.take_left' ?_
  simp only [List.length_append, List.length_replicate]
  omega

theorem quadSize_of_stop_nil {s : GroupScan} (h : s.stop = []) : s.quadSize = 0 := by
  rw [GroupScan.quadSize, h]
  rfl

theorem quadSize_of_stop_dot {s : GroupScan} {rest : List Octet} (h : s.stop = ch '.' :: rest) :
    s.quadSize = 4 := by
  rw [GroupScan.quadSize, h]
  rfl

theorem parsedLength_nil (start : List Octet) : parsedLength start [] = start.length := by
  have hpeek : peek [] ≠ ch ']' := by decide
  rw [parsedLength, if_neg hpeek]
  rfl

namespace AddressForm

/-- The groups of a form. -/
def groups (form : AddressForm) : List Nat :=
  form.front ++ form.back.getD []

/-- How many groups stand before the pair of colons, if there is one. -/
def mark (form : AddressForm) : Option Nat :=
  form.back.map fun _ => form.front.length

theorem WellFormed.size_le {form : AddressForm} (h : form.WellFormed) : form.size ≤ 16 := by
  cases hback : form.back with
  | none => exact Nat.le_of_eq (h.size_eq hback)
  | some back => exact Nat.le_trans (h.size_lt (by rw [hback]; rfl)) (by decide)

theorem length_octets {form : AddressForm} (h : form.WellFormed) : form.octets.length = 16 := by
  have hle := h.size_le
  have hsize : form.size = 2 * form.front.length + 2 * (form.back.getD []).length +
    (quadOctets form.quad).length := rfl
  simp only [octets, List.length_append, List.length_replicate, length_groupsOctets]
  omega

theorem cut_at_mark {form : AddressForm} (h : form.WellFormed) {s : GroupScan}
    (hread : GroupsRead s form.groups form.mark) :
    ∃ front back rest, s.ipv6.octets = front ++ back ++ rest ∧ s.mark = front.length ∧
      front.length + back.length = s.offset ∧
      front ++ List.replicate (16 - form.size) 0 ++ back =
        groupsOctets form.front ++ List.replicate (16 - form.size) 0 ++
          groupsOctets (form.back.getD []) := by
  obtain ⟨rest, hrest⟩ := hread.octets
  have hofs := hread.offset
  have hmark := hread.mark
  rw [groups, groupsOctets_append] at hrest
  rw [groups, List.length_append] at hofs
  rw [mark] at hmark
  cases hback : form.back with
  | none =>
      rw [hback, Option.getD_none] at hrest hofs
      rw [hback] at hmark
      refine ⟨[], groupsOctets form.front, rest, by simpa [groupsOctets] using hrest, hmark, ?_, ?_⟩
      · rw [length_groupsOctets, List.length_nil]
        rw [List.length_nil] at hofs
        omega
      · rw [h.size_eq hback]
        simp [groupsOctets]
  | some back =>
      rw [hback, Option.getD_some] at hrest hofs
      rw [hback] at hmark
      refine ⟨groupsOctets form.front, groupsOctets back, rest, hrest, ?_, ?_, rfl⟩
      · rw [length_groupsOctets]
        exact hmark
      · rw [length_groupsOctets, length_groupsOctets, hofs]
        omega

/-- What follows the loop makes the address of the form. -/
theorem finish_ends {form : AddressForm} (h : form.WellFormed) (start : List Octet)
    {s : GroupScan} (hread : GroupsRead s form.groups form.mark)
    (hstop : match form.quad with
      | none => s.stop = []
      | some quad => s.ip = dottedDecimal quad.octets ∧ ∃ rest, s.stop = ch '.' :: rest) :
    (finishAddress start s).Ends fun r => r.1 = start.length ∧ r.2.octets = form.octets := by
  have hle := h.size_le
  have hsize : form.size = 2 * form.front.length + 2 * (form.back.getD []).length +
    (quadOctets form.quad).length := rfl
  have hgroups : form.groups.length = form.front.length + (form.back.getD []).length :=
    List.length_append
  have hcompressed : s.compressed = form.back.isSome := by
    rw [hread.compressed, mark, Option.isSome_map]
  have hsgroups := hread.groups
  have hofs := hread.offset
  obtain ⟨front, back, rest, hoctets, hmark, hcut, hform⟩ := cut_at_mark h hread
  rw [finishAddress, ends_bind]
  cases hquad : form.quad with
  | none =>
      rw [hquad] at hstop hsize
      change form.size = 2 * form.front.length + 2 * (form.back.getD []).length + 0 at hsize
      refine (shiftTail_ends hoctets hmark hcut.symm 0 (quadSize_of_stop_nil hstop)
        (by omega)).mono fun ipv6 hipv6 => ?_
      have hvalue : ipv6.octets = form.octets := by
        rw [List.take_of_length_le (by rw [ipv6.length_octets]),
          show 16 - 0 - s.offset = 16 - form.size by omega, hform] at hipv6
        rw [hipv6, octets, hquad, quadOctets, Option.elim_none, List.append_nil]
      have hpeek : peek s.stop ≠ ch '.' := by
        rw [hstop]
        decide
      rw [if_neg hpeek]
      cases hback : form.back with
      | none =>
          have hfull := h.size_eq hback
          rw [hback] at hcompressed
          rw [if_pos ⟨by rw [hcompressed]; exact Bool.false_ne_true, by omega⟩, hstop,
            parsedLength_nil, ends_pure]
          exact ⟨rfl, hvalue⟩
      | some tail =>
          have hfew := h.size_lt (by rw [hback]; rfl)
          rw [hback] at hcompressed
          rw [if_neg fun hnot => hnot.1 hcompressed, if_pos ⟨hcompressed, by omega⟩, hstop,
            parsedLength_nil, ends_pure]
          exact ⟨rfl, hvalue⟩
  | some quad =>
      rw [hquad] at hstop hsize
      obtain ⟨hip, after, hstop⟩ := hstop
      have hfour : quad.octets.length = 4 := quad.length_octets
      change form.size = 2 * form.front.length + 2 * (form.back.getD []).length +
        quad.octets.length at hsize
      refine (shiftTail_ends hoctets hmark hcut.symm 4 (quadSize_of_stop_dot hstop)
        (by omega)).mono fun ipv6 hipv6 => ?_
      have hvalue : (ipv6.splice IPV6_OFFSET_IPV4 quad.octets).octets = form.octets := by
        have hlen := ipv6.length_octets
        rw [show 16 - 4 - s.offset = 16 - form.size by omega, hform] at hipv6
        rw [Buffer.octets_splice _ (by rw [hfour]), List.drop_of_length_le (by rw [hlen, hfour]),
          List.append_nil]
        change ipv6.octets.take (16 - 4) ++ _ = _
        rw [hipv6, octets, hquad]
        rfl
      have hpeek : peek s.stop = ch '.' := by rw [hstop, peek_cons]
      have hfew : ¬ (s.compressed ∧ 4 < s.groups) ∧ ¬ (¬ s.compressed ∧ 6 < s.groups) := by
        cases hback : form.back with
        | none =>
            have hfull := h.size_eq hback
            rw [hback] at hcompressed
            exact ⟨fun hc => Bool.false_ne_true (hcompressed.symm.trans hc.1), fun hc => by omega⟩
        | some tail =>
            have hfew := h.quad_lt (by rw [hback]; rfl) (by rw [hquad]; rfl)
            rw [hback] at hcompressed
            exact ⟨fun hc => by omega, fun hc => hc.1 hcompressed⟩
      rw [if_pos hpeek, if_neg hfew.1, if_neg hfew.2, hip, dottedQuad_text]
      have hwrite := ipv6.yields_write quad.octets (i := IPV6_OFFSET_IPV4) (by rw [hfour])
      refine (Yields.bind_ends_iff hwrite).mpr (ends_pure.mpr ⟨parsedLength_nil start, hvalue⟩)

/-! ### The whole text -/

theorem addressText_of_peek {ip : List Octet} (h : isDigit 16 (peek ip) ∨ peek ip = ch ':') :
    addressText ip = ip := by
  have hpeek : peek ip ≠ ch '[' ∧ tolower (peek ip) ≠ ch 'i' := by
    rcases h with h | h
    · exact forall_octet (P := fun c => isDigit 16 c → c ≠ ch '[' ∧ tolower c ≠ ch 'i')
        (by decide +kernel) _ h
    · rw [h]
      decide
  have htag : ¬ strncasecmp ip IPV6_TAG 5 = 0 := by
    cases ip with
    | nil => decide
    | cons c ip =>
        have htagged : IPV6_TAG.take 5 = ch 'I' :: ascii "Pv6:" := by decide
        rw [strncasecmp, htagged, List.take_succ_cons, strcasecmp, if_neg (by exact hpeek.2)]
        intro hdiff
        apply hpeek.2
        have heq : (tolower c).toNat = (tolower (ch 'I')).toNat := by omega
        exact UInt8.toNat_inj.mp heq
  rw [addressText, if_neg hpeek.1]
  exact if_neg htag

theorem length_groupsText (full : Bool) (quad : Option (Buffer 4)) (groups : List Nat) :
    groups.length ≤ (groupsText full quad groups).length := by
  induction groups with
  | nil => exact Nat.zero_le _
  | cons w groups ih =>
      have hne := List.length_pos_of_ne_nil (IsDigits.of_hexWord full (w := w)).1.1
      rw [groupsText, List.length_append, List.length_cons]
      split
      · rename_i hlast
        rw [hlast.1, List.length_nil]
        omega
      · rw [List.length_cons]
        omega

theorem length_fieldsText (full : Bool) (groups : List Nat) :
    groups.length ≤ (fieldsText (groups.map (hexWord full))).length := by
  induction groups with
  | nil => exact Nat.zero_le _
  | cons w groups ih =>
      have hcons : fieldsText ((w :: groups).map (hexWord full)) =
          hexWord full w ++ [ch ':'] ++ fieldsText (groups.map (hexWord full)) := rfl
      rw [hcons]
      simp only [List.length_append, List.length_cons, List.length_nil]
      omega

theorem addressText_text {form : AddressForm} (h : form.WellFormed) :
    addressText form.text = form.text := by
  apply addressText_of_peek
  unfold text
  cases hback : form.back with
  | none =>
      have hfull := h.size_eq hback
      rw [size, hback, Option.getD_none, List.length_nil] at hfull
      cases hfront : form.front with
      | nil =>
          rw [hfront] at hfull
          cases hquad : form.quad with
          | none =>
              rw [hquad] at hfull
              cases hfull
          | some quad =>
              rw [hquad] at hfull
              change 2 * 0 + 2 * 0 + quad.octets.length = 16 at hfull
              rw [quad.length_octets] at hfull
              cases hfull
      | cons w front => exact .inl (peek_hexWord_append form.full w _)
  | some back =>
      cases hfront : form.front with
      | nil => exact .inr rfl
      | cons w front =>
          left
          have hcons : fieldsText ((w :: front).map (hexWord form.full)) =
              hexWord form.full w ++ (ch ':' :: fieldsText (front.map (hexWord form.full))) := by
            simp [fieldsText]
          dsimp only
          rw [hcons, List.append_assoc, List.append_assoc]
          exact peek_hexWord_append form.full w _

/-- A text that is not too long is read to its end, and means the address of its form. -/
theorem parse_ends {form : AddressForm} (h : form.WellFormed) (ipv6 : Ipv6) :
    (parseIPv6 form.text ipv6).Ends fun r =>
      r.1 = form.text.length ∧ r.2.octets = form.octets := by
  have hsize : form.size = 2 * form.front.length + 2 * (form.back.getD []).length +
    (quadOctets form.quad).length := rfl
  have hinitial : GroupsRead (GroupScan.initial form.text ipv6) [] none :=
    ⟨⟨ipv6.octets, rfl⟩, rfl, rfl, rfl, rfl⟩
  have hloop : (loop groupStep (form.text.length + 1) (GroupScan.initial form.text ipv6)).Ends
      (ReadTo form.groups form.mark form.quad) := by
    cases hback : form.back with
    | none =>
        have hfull := h.size_eq hback
        rw [hback, Option.getD_none, List.length_nil] at hsize
        have htext : form.text = groupsText form.full form.quad form.front := by
          unfold text
          rw [hback]
        have hlong := length_groupsText form.full form.quad form.front
        rw [← htext] at hlong
        have hgroups : form.groups = [] ++ form.front := by
          rw [groups, hback, Option.getD_none, List.append_nil, List.nil_append]
        rw [hgroups, mark, hback, Option.map_none]
        refine loop_groupsText form.full form.quad form.front hinitial htext h.front_lt ?_ ?_
          (by omega)
        · rw [List.length_nil]
          omega
        · rintro (hquad | hnone)
          · obtain ⟨quad, hquad⟩ := Option.isSome_iff_exists.mp hquad
            rw [hquad] at hsize
            change form.size = _ + quad.octets.length at hsize
            rw [quad.length_octets] at hsize
            rw [List.length_nil]
            omega
          · rw [hnone]
            decide
    | some back =>
        have hfew := h.size_lt (by rw [hback]; rfl)
        have hback_lt := h.back_lt
        rw [hback, Option.getD_some] at hsize hback_lt
        have hlong := length_groupsText form.full form.quad back
        have htail := peek_groupsText form.full form.quad back
        have hrest : ∀ {t : GroupScan} {rounds : Nat},
            t.ip = groupsText form.full form.quad back →
            GroupsRead t form.front (some form.front.length) → back.length < rounds →
            (loop groupStep rounds t).Ends (ReadTo form.groups (some form.front.length) form.quad) := by
          intro t rounds htip ht hrounds
          have hread := loop_groupsText form.full form.quad back ht htip hback_lt (by omega)
            (fun _ => by omega) hrounds
          rwa [groups, hback, Option.getD_some]
        rw [mark, hback, Option.map_some]
        by_cases hfront : form.front = []
        · have htext : form.text = ch ':' :: ch ':' :: groupsText form.full form.quad back := by
            unfold text
            rw [hback, hfront]
            rfl
          obtain ⟨rounds, hrounds⟩ : ∃ k, form.text.length + 1 = k + 2 :=
            ⟨form.text.length - 1, by rw [htext]; simp⟩
          rw [hrounds]
          refine loop_colons htail hinitial htext fun t htip ht => hrest htip ?_ ?_
          · rw [hfront]
            exact ht
          · rw [htext] at hrounds
            simp only [List.length_cons] at hrounds
            omega
        · have htext : form.text = fieldsText (form.front.map (hexWord form.full)) ++
              ch ':' :: groupsText form.full form.quad back := by
            unfold text
            rw [hback]
            dsimp only
            rw [if_neg hfront, List.append_assoc]
            rfl
          have hfields := length_fieldsText form.full form.front
          have hlength := congrArg List.length htext
          rw [List.length_append, List.length_cons] at hlength
          obtain ⟨rounds, hrounds⟩ : ∃ k, form.text.length + 1 = k + 1 + form.front.length :=
            ⟨form.text.length - form.front.length, by omega⟩
          rw [hrounds]
          refine loop_front form.full form.front htail hinitial hfront htext h.front_lt ?_
            fun t htip ht => hrest htip ht (by omega)
          rw [List.length_nil]
          omega
  rw [parseIPv6, addressText_text h, ends_bind]
  refine hloop.mono ?_
  rintro r ⟨t, rfl, hread, hstop⟩
  exact finish_ends h form.text hread hstop

end AddressForm

end Snert
