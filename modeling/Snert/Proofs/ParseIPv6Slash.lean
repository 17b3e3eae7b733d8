/-
Module: Snert.Proofs.ParseIPv6Slash
Purpose: How `parseIPv6` reads an address with something behind it. A slash is no part of a number, so
  the parser stops before the first one, and what follows has no part in the address; the parser never
  reads beyond the string; and an address without a colon is a dotted quad behind zeros. A prefix of a
  network is compared bit by bit, and its length is read as it is written in decimal digits.
Trusted boundary: none
Main exports: parseIPv6_takeWhile, slash_not_mem_of_accepted, parseIPv6_no_colon, IsDecimal
-/
import Snert.CModel.Numeral
import Snert.Lists.OctetBits
import Snert.Net.Network
import Snert.Proofs.AddressText
import Snert.Proofs.ParseIPv6Bounds

namespace Snert

open CModel CModel.Run Lists

/-! ### Prefixes -/

theorem networkContainsIPv6_iff (net ipv6 : Ipv6) (cidr : Nat) :
    networkContainsIPv6 net cidr ipv6 ↔
      cidr ≤ IPV6_BIT_LENGTH ∧ (bits ipv6.octets).take cidr = (bits net.octets).take cidr := by
  have hagree := prefixMask_agree_iff ipv6.octets net.octets cidr
    (ipv6.length_octets.trans net.length_octets.symm)
  rw [ipv6.length_octets] at hagree
  unfold networkContainsIPv6
  split
  · rename_i hlong
    exact iff_of_false Bool.false_ne_true fun h => absurd h.1 (Nat.not_le.mpr hlong)
  · rename_i hshort
    rw [← hagree, List.all_eq_true]
    simp only [List.mem_range, decide_eq_true_eq]
    exact (and_iff_right (Nat.le_of_not_lt hshort)).symm

/-! ### Lengths of prefixes -/

/-- The decimal digits of a number. -/
def IsDecimal (digits : List Octet) : Prop :=
  digits ≠ [] ∧ ∀ c ∈ digits, isDigit 10 c

instance (digits : List Octet) : Decidable (IsDecimal digits) := by
  unfold IsDecimal
  infer_instance

theorem strtol_decimal {digits : List Octet} (h : IsDecimal digits) :
    strtol digits 10 = (clampLong (digitsValue 10 digits), []) :=
  strtol_digits (by decide) h

theorem sizeT_clampLong (n : Nat) : sizeT (clampLong n) = min n (2 ^ 63 - 1) := by
  unfold clampLong
  rw [sizeT_of_nonneg (by omega) (by omega)]
  omega

theorem IsDecimal.not_mem {digits : List Octet} (h : IsDecimal digits) {c : Octet}
    (hc : Delimiter c) : c ∉ digits := by
  intro hmem
  have hdigit := h.2 c hmem
  rw [hc.isDigit_eq_false] at hdigit
  cases hdigit

theorem delimiter_slash : Delimiter (ch '/') := by decide

variable (r : List Octet)

/-! ### The pieces of the scan -/

theorem peek_slash {c : Octet} (hzero : c ≠ 0) (hslash : c ≠ ch '/') (p : List Octet) :
    peek (p ++ ch '/' :: r) = c ↔ peek p = c := by
  cases p with
  | nil => exact iff_of_false (fun h => hslash h.symm) fun h => hzero h.symm
  | cons d p => rfl

theorem strtol_slash (p : List Octet) (base : Nat) :
    strtol (p ++ ch '/' :: r) base = ((strtol p base).1, (strtol p base).2 ++ ch '/' :: r) :=
  strtol_append_delimiter delimiter_slash base p r

namespace GroupScan

/-- The same scan in a string that goes on behind a slash. -/
def goOn (s : GroupScan) : GroupScan :=
  { s with ip := s.ip ++ ch '/' :: r, stop := s.stop ++ ch '/' :: r }

theorem storeGroup_goOn (s : GroupScan) (word : Int) (stop : List Octet) :
    (s.goOn r).storeGroup word (stop ++ ch '/' :: r) =
      s.storeGroup word stop >>= fun s => pure (s.goOn r) := by
  have hcond : (stop ++ ch '/' :: r).length < (s.goOn r).ip.length ∧
      peek (stop ++ ch '/' :: r) ≠ ch '.' ↔ stop.length < s.ip.length ∧ peek stop ≠ ch '.' := by
    rw [goOn, List.length_append, List.length_append, Nat.add_lt_add_iff_right, ne_eq, ne_eq,
      peek_slash r (by decide) (by decide)]
  unfold storeGroup
  by_cases h : stop.length < s.ip.length ∧ peek stop ≠ ch '.'
  · rw [if_pos h, if_pos (hcond.mpr h)]
    unfold store
    simp only [Run.bind_assoc]
    rfl
  · rw [if_neg h, if_neg (fun hc => h (hcond.mp hc))]
    rfl

theorem next_goOn (s : GroupScan) (stop : List Octet) :
    (s.goOn r).next (stop ++ ch '/' :: r) =
      Sum.map (goOn r) (Except.map (goOn r)) (s.next stop) := by
  unfold next
  by_cases hcolon : peek stop = ch ':'
  · obtain ⟨u, rfl⟩ : ∃ u, stop = ch ':' :: u := by
      cases stop with
      | nil => exact absurd hcolon (by decide)
      | cons c u => exact ⟨u, by rw [← hcolon]; rfl⟩
    have hgoes (u : List Octet) : ¬ peek (ch ':' :: u) ≠ ch ':' := not_not.mpr rfl
    rw [List.cons_append, if_neg (hgoes _), if_neg (hgoes u), List.tail_cons, List.tail_cons]
    by_cases hpair : peek u = ch ':'
    · rw [if_pos ((peek_slash r (by decide) (by decide) u).mpr hpair), if_pos hpair]
      cases hc : s.compressed with
      | true =>
          rw [if_pos (show (s.goOn r).compressed = true from hc), if_pos rfl]
          rfl
      | false =>
          rw [if_neg (show ¬ (s.goOn r).compressed = true by rw [goOn, hc]; nofun), if_neg nofun]
          rfl
    · rw [if_neg fun h => hpair ((peek_slash r (by decide) (by decide) u).mp h), if_neg hpair]
      rfl
  · rw [if_pos (fun h => hcolon ((peek_slash r (by decide) (by decide) stop).mp h)), if_pos hcolon]
    rfl

end GroupScan

theorem groupStep_goOn (s : GroupScan) : groupStep (s.goOn r) =
    groupStep s >>= fun t => pure (Sum.map (GroupScan.goOn r) (Except.map (GroupScan.goOn r)) t) := by
  unfold groupStep
  by_cases hgroups : s.groups < 8
  · rw [if_pos hgroups, if_pos (show (s.goOn r).groups < 8 from hgroups)]
    have hread : strtol (s.goOn r).ip 16 = ((strtol s.ip 16).1, (strtol s.ip 16).2 ++ ch '/' :: r) :=
      strtol_slash r s.ip 16
    dsimp only
    rw [hread]
    by_cases hword : (strtol s.ip 16).1 < 0 ∨ 0xffff < (strtol s.ip 16).1
    · rw [if_pos hword, if_pos hword]
      rfl
    · rw [if_neg hword, if_neg hword, GroupScan.storeGroup_goOn, Run.bind_assoc, Run.bind_assoc]
      refine congrArg _ (funext fun s' => ?_)
      rw [Run.pure_bind, Run.pure_bind, GroupScan.next_goOn]
  · rw [if_neg hgroups, if_neg (show ¬ (s.goOn r).groups < 8 from hgroups)]
    rfl

/-! ### Behind the loop -/

theorem quadNumber_slash (p : List Octet) : quadNumber (p ++ ch '/' :: r) =
    (quadNumber p).map fun q => (q.1, q.2 ++ ch '/' :: r) := by
  unfold quadNumber
  rw [strtol_slash]
  dsimp only
  split <;> rfl

theorem quadNext_slash (p : List Octet) : quadNext (p ++ ch '/' :: r) =
    (quadNext p).map fun q => (q.1, q.2 ++ ch '/' :: r) := by
  unfold quadNext
  cases p with
  | nil => rfl
  | cons c p =>
      rw [List.cons_append, peek_cons, peek_cons, List.tail_cons, List.tail_cons, quadNumber_slash]
      split <;> rfl

theorem dottedQuad_slash (p : List Octet) : dottedQuad (p ++ ch '/' :: r) =
    (dottedQuad p).map fun q => (q.1, q.2 ++ ch '/' :: r) := by
  unfold dottedQuad
  rw [quadNumber_slash]
  cases quadNumber p with
  | none => rfl
  | some a =>
      simp only [Option.map_some, Option.bind_eq_bind, Option.bind_some, quadNext_slash]
      cases quadNext a.2 with
      | none => rfl
      | some b =>
          simp only [Option.map_some, Option.bind_some, quadNext_slash]
          cases quadNext b.2 with
          | none => rfl
          | some c =>
              simp only [Option.map_some, Option.bind_some, quadNext_slash]
              cases quadNext c.2 with
              | none => rfl
              | some d => rfl

theorem parsedLength_slash (start ip : List Octet) :
    parsedLength (start ++ ch '/' :: r) (ip ++ ch '/' :: r) = parsedLength start ip := by
  unfold parsedLength
  rw [List.length_append, List.length_append, Nat.add_sub_add_right]
  congr 1
  by_cases h : peek ip = ch ']'
  · rw [if_pos h, if_pos ((peek_slash r (by decide) (by decide) ip).mpr h)]
  · rw [if_neg h, if_neg fun hc => h ((peek_slash r (by decide) (by decide) ip).mp hc)]

theorem finishAddress_goOn (start : List Octet) (s : GroupScan) :
    finishAddress (start ++ ch '/' :: r) (s.goOn r) = finishAddress start s := by
  have hdot : peek (s.goOn r).stop = ch '.' ↔ peek s.stop = ch '.' :=
    peek_slash r (by decide) (by decide) s.stop
  have hsize : (s.goOn r).quadSize = s.quadSize := by
    unfold GroupScan.quadSize
    simp only [hdot]
  have hshift : shiftTail (s.goOn r) = shiftTail s := by
    unfold shiftTail
    rw [hsize]
    rfl
  have hquad : dottedQuad (s.goOn r).ip = (dottedQuad s.ip).map fun q => (q.1, q.2 ++ ch '/' :: r) :=
    dottedQuad_slash r s.ip
  have hstop : parsedLength (start ++ ch '/' :: r) (s.goOn r).stop = parsedLength start s.stop :=
    parsedLength_slash r start s.stop
  unfold finishAddress
  rw [hshift]
  refine congrArg _ (funext fun ipv6 => ?_)
  simp only [hdot, hquad, hstop]
  cases dottedQuad s.ip with
  | none => rfl
  | some quad =>
      simp only [Option.map_some, parsedLength_slash]
      rfl

theorem strncasecmp_tag (p : List Octet) : strncasecmp p IPV6_TAG 5 = 0 ↔
    (p.take 5).map tolower = IPV6_TAG.map tolower :=
  strcasecmp_eq_zero_iff (by decide) (.inr (List.length_take_le 5 p))

theorem length_of_tag {p : List Octet} (h : strncasecmp p IPV6_TAG 5 = 0) : 5 ≤ p.length := by
  have hlen := congrArg List.length ((strncasecmp_tag p).mp h)
  rw [List.length_map, List.length_take] at hlen
  have htag : (IPV6_TAG.map tolower).length = 5 := rfl
  omega

theorem not_tag_slash {p : List Octet} (h : p.length < 5) :
    ¬ strncasecmp (p ++ ch '/' :: r) IPV6_TAG 5 = 0 := by
  rw [strncasecmp_tag]
  intro htag
  have hmem : tolower (ch '/') ∈ ((p ++ ch '/' :: r).take 5).map tolower := by
    refine List.mem_map_of_mem (List.mem_iff_getElem.mpr ⟨p.length, ?_, ?_⟩)
    · rw [List.length_take, List.length_append, List.length_cons]
      omega
    · simp
  rw [htag] at hmem
  exact absurd hmem (by decide)

theorem addressText_slash (a : List Octet) :
    addressText (a ++ ch '/' :: r) = addressText a ++ ch '/' :: r := by
  have hrest (p : List Octet) : (if strncasecmp (p ++ ch '/' :: r) IPV6_TAG 5 = 0 then
      (p ++ ch '/' :: r).drop 5 else p ++ ch '/' :: r) =
        (if strncasecmp p IPV6_TAG 5 = 0 then p.drop 5 else p) ++ ch '/' :: r := by
    by_cases hlong : 5 ≤ p.length
    · rw [strncasecmp, List.take_append_of_le_length hlong, List.drop_append_of_le_length hlong,
        ← strncasecmp]
      split <;> rfl
    · rw [if_neg fun h => hlong (length_of_tag h), if_neg (not_tag_slash r (by omega))]
  unfold addressText
  cases a with
  | nil => exact hrest []
  | cons c a =>
      rw [List.cons_append, peek_cons, peek_cons, List.tail_cons, List.tail_cons]
      by_cases hc : c = ch '['
      · rw [if_pos hc, if_pos hc]
        exact hrest a
      · rw [if_neg hc, if_neg hc]
        exact hrest (c :: a)

theorem groupStep_not_diverge (s : GroupScan) : (groupStep s).outcome ≠ .diverge := by
  unfold groupStep
  split
  · dsimp only
    split
    · nofun
    · refine bind_not_diverge ?_ fun _ => nofun
      unfold GroupScan.storeGroup
      split
      · exact bind_not_diverge (store_not_diverge _ _) fun _ =>
          bind_not_diverge (store_not_diverge _ _) fun _ => nofun
      · nofun
  · nofun

theorem parseIPv6_slash (a : List Octet) (ipv6 : Ipv6) :
    parseIPv6 (a ++ ch '/' :: r) ipv6 = parseIPv6 a ipv6 := by
  unfold parseIPv6
  rw [addressText_slash]
  dsimp only
  have hinitial : GroupScan.initial (addressText a ++ ch '/' :: r) ipv6 =
      (GroupScan.initial (addressText a) ipv6).goOn r := rfl
  have hends : (loop groupStep ((addressText a).length + 1)
      (GroupScan.initial (addressText a) ipv6)).outcome ≠ .diverge :=
    loop_ends_of_measure groupStep_not_diverge (fun s => s.ip.length) groupStep_next_shorter
      (Nat.lt_succ_self _)
  rw [hinitial, loop_map (GroupScan.goOn r) (Except.map (GroupScan.goOn r)) (groupStep_goOn r),
    loop_of_le hends (by simp), Run.bind_assoc]
  refine congrArg _ (funext fun t => ?_)
  rw [Run.pure_bind]
  cases t with
  | error ipv6 => rfl
  | ok s => exact finishAddress_goOn r a s

theorem parseIPv6_takeWhile (text : List Octet) (ipv6 : Ipv6) :
    parseIPv6 text ipv6 = parseIPv6 (text.takeWhile (· ≠ ch '/')) ipv6 := by
  have hsplit := List.takeWhile_append_dropWhile (p := fun c => decide (c ≠ ch '/')) (l := text)
  cases hdrop : text.dropWhile (fun c => decide (c ≠ ch '/')) with
  | nil => rw [hdrop, List.append_nil] at hsplit; rw [hsplit]
  | cons c r =>
      have hc : c = ch '/' := by
        have := List.head?_dropWhile_not (fun c => decide (c ≠ ch '/')) text
        rw [hdrop] at this
        simpa using this
      rw [hdrop, hc] at hsplit
      conv_lhs => rw [← hsplit]
      exact parseIPv6_slash r _ ipv6

/-! ### How much is read -/

variable {r}

theorem parseIPv6_nil {ipv6 : Ipv6} {parsed : Nat × Ipv6}
    (h : (parseIPv6 [] ipv6).outcome = .done parsed) : parsed.1 = 0 := by
  have hnil : parseIPv6 [] ipv6 =
      shiftTail (GroupScan.initial [] ipv6) >>= fun ipv6 => pure (0, ipv6) := rfl
  rw [hnil] at h
  obtain ⟨b, -, hb⟩ := outcome_bind_eq_done.mp h
  cases hb
  rfl

theorem parsedLength_le {start : List Octet} (h : start ≠ []) (ip : List Octet) :
    parsedLength start ip ≤ start.length := by
  have hpos := List.length_pos_of_ne_nil h
  unfold parsedLength
  cases ip with
  | nil => rw [if_neg (by decide)]; exact Nat.sub_le _ _
  | cons c ip =>
      rw [List.length_cons]
      split <;> omega

theorem finishAddress_length_le {start : List Octet} (h : start ≠ []) {s : GroupScan}
    {parsed : Nat × Ipv6} (hdone : (finishAddress start s).outcome = .done parsed) :
    parsed.1 ≤ start.length := by
  obtain ⟨b, -, hb⟩ := outcome_bind_eq_done.mp hdone
  have hzero : (Outcome.done (0, b)) = .done parsed → parsed.1 ≤ start.length := by
    intro heq
    cases heq
    exact Nat.zero_le _
  split at hb
  · split at hb
    · exact hzero hb
    · split at hb
      · exact hzero hb
      · split at hb
        · exact hzero hb
        · obtain ⟨b', -, hb'⟩ := outcome_bind_eq_done.mp hb
          cases hb'
          exact parsedLength_le h _
  · split at hb
    · cases hb
      exact parsedLength_le h _
    · split at hb
      · cases hb
        exact parsedLength_le h _
      · exact hzero hb

theorem parseIPv6_length_le {ip : List Octet} {ipv6 : Ipv6} {parsed : Nat × Ipv6}
    (h : (parseIPv6 ip ipv6).outcome = .done parsed) : parsed.1 ≤ ip.length := by
  by_cases hne : ip = []
  · subst hne
    rw [parseIPv6_nil h]
    exact Nat.zero_le _
  · obtain ⟨t, -, ht⟩ := outcome_bind_eq_done.mp h
    cases t with
    | error b =>
        cases ht
        exact Nat.zero_le _
    | ok s => exact finishAddress_length_le hne ht

/-- No slash is in an address that is accepted in full. -/
theorem slash_not_mem_of_accepted {a : List Octet} {ipv6 value : Ipv6}
    (h : (parseIPv6 a ipv6).outcome = .done (a.length, value)) : ch '/' ∉ a := by
  rw [parseIPv6_takeWhile] at h
  have hall := (List.takeWhile_prefix _).eq_of_length_le (parseIPv6_length_le h)
  intro hmem
  rw [← hall] at hmem
  simpa using List.mem_takeWhile_imp hmem

/-! ### An address without a colon -/

theorem addressText_suffix (ip : List Octet) : addressText ip <:+ ip := by
  have htag (p : List Octet) :
      (if strncasecmp p IPV6_TAG 5 = 0 then p.drop 5 else p) <:+ p := by
    split
    · exact List.drop_suffix 5 p
    · exact List.suffix_refl p
  unfold addressText
  dsimp only
  split
  · exact (htag ip.tail).trans (List.tail_suffix ip)
  · exact htag ip

theorem loop_no_colon {text : List Octet} (h : ch ':' ∉ text) (ipv6 : Ipv6) (rounds : Nat)
    {s : GroupScan} (hdone : (loop groupStep (rounds + 1) (GroupScan.initial text ipv6)).outcome =
      .done (.ok s)) :
    s.compressed = false ∧ s.groups ≤ 1 ∧ s.mark = 0 ∧
      (peek s.stop = ch '.' → s.groups = 0 ∧ s.offset = 0) := by
  have hcolon : peek (strtol text 16).2 ≠ ch ':' := by
    intro hpeek
    refine h ((strtol_suffix text 16).subset ?_)
    cases hstop : (strtol text 16).2 with
    | nil =>
        rw [hstop] at hpeek
        exact absurd hpeek (by decide)
    | cons c u =>
        rw [hstop] at hpeek
        exact hpeek ▸ List.mem_cons_self
  obtain ⟨t, ht, hrest⟩ := outcome_bind_eq_done.mp hdone
  rcases groupStep_outcome (s := GroupScan.initial text ipv6) (Nat.zero_lt_succ 7) rfl with
    ⟨-, herror⟩ | ⟨-, b, hstep⟩
  · rw [herror] at ht
    cases ht
    cases hrest
  · rw [hstep] at ht
    have hnext : t = .inr (.ok { (GroupScan.initial text ipv6).counted b
        (fieldCount text (strtol text 16).2) with stop := (strtol text 16).2 }) :=
      (Outcome.done.inj ht).symm.trans (if_pos hcolon)
    subst hnext
    cases hrest
    refine ⟨rfl, ?_, rfl, fun hdot => ?_⟩
    · change 0 + fieldCount text (strtol text 16).2 ≤ 1
      unfold fieldCount
      split <;> decide
    · have hcount : fieldCount text (strtol text 16).2 = 0 := if_neg fun hc => hc.2 hdot
      simp only [GroupScan.counted, hcount]
      exact ⟨rfl, rfl⟩

/-- An address without a colon is a dotted quad behind twelve zeros. -/
theorem parseIPv6_no_colon {a : List Octet} (h : ch ':' ∉ a) {ipv6 : Ipv6} {parsed : Nat × Ipv6}
    (hdone : (parseIPv6 a ipv6).outcome = .done parsed) (hne : parsed.1 ≠ 0) :
    parsed.2.octets.take 12 = List.replicate 12 0 := by
  have hcolon : ch ':' ∉ addressText a := fun hmem => h ((addressText_suffix a).subset hmem)
  obtain ⟨t, ht, hrest⟩ := outcome_bind_eq_done.mp hdone
  cases t with
  | error b =>
      cases hrest
      exact absurd rfl hne
  | ok s =>
      obtain ⟨hcompressed, hgroups, hmark, hdot⟩ := loop_no_colon hcolon ipv6 _ ht
      obtain ⟨b, hb, hrest⟩ := outcome_bind_eq_done.mp hrest
      have hzero : Outcome.done (0, b) ≠ Outcome.done parsed := by
        rintro heq
        cases heq
        exact hne rfl
      by_cases hstop : peek s.stop = ch '.'
      · obtain ⟨hgroups, hofs⟩ := hdot hstop
        have hquad : s.quadSize = (4 : Nat) := if_pos hstop
        have hoctets : s.ipv6.octets = [] ++ [] ++ s.ipv6.octets := rfl
        obtain ⟨-, b', hb', hzeros⟩ := shiftTail_ends hoctets hmark hofs 4 hquad (by omega)
        rw [hb] at hb'
        obtain rfl := Outcome.done.inj hb'
        rw [if_pos hstop, if_neg (fun hc => by rw [hcompressed] at hc; cases hc.1),
          if_neg (by omega)] at hrest
        cases hread : dottedQuad s.ip with
        | none =>
            rw [hread] at hrest
            exact absurd hrest hzero
        | some q =>
            obtain ⟨quad, p⟩ := q
            rw [hread] at hrest
            obtain ⟨b', hb', hrest⟩ := outcome_bind_eq_done.mp hrest
            cases hrest
            have hlength := dottedQuad_length hread
            rw [Buffer.outcome_write _ (by decide) (by rw [hlength]; decide)] at hb'
            obtain rfl := Outcome.done.inj hb'
            have hlen := b.length_octets
            change (b.splice 12 quad).octets.take 12 = _
            rw [Buffer.octets_splice _ (by omega), List.append_assoc,
              List.take_left' (by rw [List.length_take]; omega)]
            rw [hofs, List.nil_append, List.append_nil] at hzeros
            exact hzeros
      · rw [if_neg hstop, if_neg (by omega), if_neg (fun hc => by rw [hcompressed] at hc; cases hc.1)]
          at hrest
        exact absurd hrest hzero

end Snert
