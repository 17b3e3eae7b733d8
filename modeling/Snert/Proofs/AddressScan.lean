/-
Module: Snert.Proofs.AddressScan
Purpose: What `parseIPv6` makes of a text that it accepts to its end. Without the stores the group
  loop is a scan of the text alone, so the address does not depend on what the buffer held before:
  it is the groups, cut at the pair of colons, with zeros between them, and the dotted quad behind
  them.
Trusted boundary: none
Main exports: accepted_value, parseIPv6_accepted, strtol_consumed
-/
import Snert.Proofs.AddressText
import Snert.Proofs.ParseIPv6Slash

namespace Snert

open CModel CModel.Run

/-! ### The scan -/

/-- The group loop without its buffer: the groups read, how many of them stand before the pair of
colons, and where the loop is. -/
structure ScannedGroups where
  words : List Nat
  mark : Option Nat
  ip : List Octet
  stop : List Octet
deriving DecidableEq, Repr

namespace ScannedGroups

/-- A group is read where the number does not stop on a dot. -/
def counts (ip : List Octet) : Prop :=
  (strtol ip 16).2.length < ip.length ∧ peek (strtol ip 16).2 ≠ ch '.'

instance (ip : List Octet) : Decidable (counts ip) :=
  inferInstanceAs (Decidable (_ ∧ _))

/-- The scan behind a number: it goes on behind a colon, or ends. -/
def next (s : ScannedGroups) : ScannedGroups ⊕ Option ScannedGroups :=
  if peek s.stop ≠ ch ':' then .inr (some s)
  else if peek s.stop.tail = ch ':' then
    if s.mark.isSome then .inr none
    else .inl { s with mark := some s.words.length, ip := s.stop.tail }
  else .inl { s with ip := s.stop.tail }

/-- The scan with the next number read. -/
def read (s : ScannedGroups) : ScannedGroups :=
  { s with
    words := if counts s.ip then s.words ++ [(strtol s.ip 16).1.toNat] else s.words
    stop := (strtol s.ip 16).2 }

/-- One round of the scan. -/
def step (s : ScannedGroups) : ScannedGroups ⊕ Option ScannedGroups :=
  if s.words.length < 8 then
    if (strtol s.ip 16).1 < 0 ∨ 0xffff < (strtol s.ip 16).1 then .inr none
    else s.read.next
  else .inr (some s)

end ScannedGroups

/-- The scan of a text, in at most the given number of rounds. -/
def scanGroups : Nat → ScannedGroups → Option ScannedGroups
  | 0, _ => none
  | rounds + 1, s =>
      match s.step with
      | .inl s => scanGroups rounds s
      | .inr r => r

/-- The state of the group loop that a scan stands for. -/
structure ScannedGroups.Describes (s : ScannedGroups) (t : GroupScan) : Prop where
  read : GroupsRead t s.words s.mark
  ip : t.ip = s.ip
  stop : t.stop = s.stop

/-- How the group loop ends where the scan ends: at an error, or as it says. -/
def ScannedGroups.Describes' : Option ScannedGroups → Except Ipv6 GroupScan → Prop
  | none, r => ∃ ipv6, r = .error ipv6
  | some s, r => ∃ t, r = .ok t ∧ s.Describes t

/-- What a round of the group loop comes to. -/
def ScannedGroups.DescribesRound : ScannedGroups ⊕ Option ScannedGroups →
    GroupScan ⊕ Except Ipv6 GroupScan → Prop
  | .inl s, r => ∃ t, r = .inl t ∧ s.Describes t
  | .inr end?, r => ∃ e, r = .inr e ∧ ScannedGroups.Describes' end? e

theorem ScannedGroups.Describes.next {s : ScannedGroups} {t : GroupScan} {stop : List Octet}
    (h : GroupsRead t s.words s.mark) (hip : t.ip = s.ip) (hstop : stop = s.stop) :
    ScannedGroups.DescribesRound s.next (t.next stop) := by
  subst hstop
  rw [ScannedGroups.next, GroupScan.next]
  by_cases hcolon : peek s.stop = ch ':'
  · rw [if_neg (not_not.mpr hcolon), if_neg (not_not.mpr hcolon)]
    by_cases hpair : peek s.stop.tail = ch ':'
    · rw [if_pos hpair, if_pos hpair, h.compressed]
      by_cases hmark : s.mark.isSome = true
      · rw [if_pos hmark, if_pos hmark]
        exact ⟨_, rfl, _, rfl⟩
      · rw [if_neg hmark, if_neg hmark]
        exact ⟨_, rfl, ⟨h.octets, h.offset, h.groups, rfl, h.offset⟩, rfl, rfl⟩
    · rw [if_neg hpair, if_neg hpair]
      exact ⟨_, rfl, ⟨h.octets, h.offset, h.groups, h.compressed, h.mark⟩, rfl, rfl⟩
  · rw [if_pos hcolon, if_pos hcolon]
    exact ⟨_, rfl, _, rfl, ⟨h.octets, h.offset, h.groups, h.compressed, h.mark⟩, hip, rfl⟩

theorem groupStep_scanned {s : ScannedGroups} {t : GroupScan} (h : s.Describes t) :
    (groupStep t).Ends (ScannedGroups.DescribesRound s.step) := by
  rw [groupStep, ScannedGroups.step, h.read.groups]
  by_cases hroom : s.words.length < 8
  · rw [if_pos hroom, if_pos hroom, h.ip]
    dsimp only
    by_cases hrange : (strtol s.ip 16).1 < 0 ∨ 0xffff < (strtol s.ip 16).1
    · rw [if_pos hrange, if_pos hrange, ends_pure]
      exact ⟨_, rfl, _, rfl⟩
    · rw [if_neg hrange, if_neg hrange, GroupScan.storeGroup, ends_bind]
      have hword : (((strtol s.ip 16).1.toNat : Nat) : Int) = (strtol s.ip 16).1 :=
        Int.toNat_of_nonneg (by omega)
      by_cases hcounts : ScannedGroups.counts s.ip
      · rw [if_pos (by rw [h.ip]; exact hcounts), ← hword]
        refine (h.read.store _ hroom).mono ?_
        rintro t' ⟨ht', hip⟩
        refine ends_pure.mpr (ScannedGroups.Describes.next ?_ (hip.trans h.ip) rfl)
        rw [ScannedGroups.read, if_pos hcounts]
        exact ht'
      · rw [if_neg (by rw [h.ip]; exact hcounts), ends_pure, ends_pure]
        refine ScannedGroups.Describes.next ?_ h.ip rfl
        rw [ScannedGroups.read, if_neg hcounts]
        exact h.read
  · rw [if_neg hroom, if_neg hroom, ends_pure]
    exact ⟨_, rfl, _, rfl, h⟩

theorem ScannedGroups.step_shorter {s s' : ScannedGroups} (h : s.step = .inl s') :
    s'.ip.length < s.ip.length := by
  have hlen := (strtol_suffix s.ip 16).length_le
  rw [step] at h
  split at h
  · split at h
    · cases h
    · rw [next] at h
      have hread : s.read.stop = (strtol s.ip 16).2 := rfl
      rw [hread] at h
      split at h
      · cases h
      · next hcolon =>
          have hpos : (strtol s.ip 16).2 ≠ [] := by
            intro hnil
            rw [hnil] at hcolon
            exact hcolon (by decide)
          have hpos := List.length_pos_of_ne_nil hpos
          have htail : (strtol s.ip 16).2.tail.length < s.ip.length := by
            rw [List.length_tail]
            omega
          split at h
          · split at h
            · cases h
            · cases h
              exact htail
          · cases h
            exact htail
  · cases h

theorem groupLoop_scanned (rounds : Nat) : ∀ {s : ScannedGroups} {t : GroupScan},
    s.ip.length < rounds → s.Describes t →
    (loop groupStep rounds t).Ends (ScannedGroups.Describes' (scanGroups rounds s)) := by
  induction rounds with
  | zero => exact fun h => absurd h (Nat.not_lt_zero _)
  | succ rounds ih =>
      intro s t hrounds h
      rw [loop, ends_bind, scanGroups]
      refine (groupStep_scanned h).mono fun r hr => ?_
      cases hstep : s.step with
      | inl s' =>
          rw [hstep] at hr
          obtain ⟨t', rfl, ht'⟩ := hr
          have hshorter := ScannedGroups.step_shorter hstep
          exact ih (by omega) ht'
      | inr e =>
          rw [hstep] at hr
          obtain ⟨e', rfl, he'⟩ := hr
          exact ends_pure.mpr he'

/-- The scan of a whole text. -/
def scanText (text : List Octet) : Option ScannedGroups :=
  scanGroups (text.length + 1) ⟨[], none, text, text⟩

theorem groupLoop_scanText (text : List Octet) (ipv6 : Ipv6) :
    (loop groupStep (text.length + 1) (GroupScan.initial text ipv6)).Ends
      (ScannedGroups.Describes' (scanText text)) :=
  groupLoop_scanned _ (Nat.lt_succ_self _) ⟨⟨⟨ipv6.octets, rfl⟩, rfl, rfl, rfl, rfl⟩, rfl, rfl⟩

/-! ### What follows the scan -/

/-- Nothing is left of a text, or a closing bracket. -/
def EndsText (rest : List Octet) : Prop :=
  rest = [] ∨ rest = [ch ']']

/-- The scan is accepted with a dotted quad, or with none. -/
def ScannedGroups.Accepts (s : ScannedGroups) (quad : List Octet) : Prop :=
  (peek s.stop = ch '.' ∧ s.words.length ≤ (if s.mark.isSome then 4 else 6) ∧
      ∃ rest, dottedQuad s.ip = some (quad, rest) ∧ EndsText rest) ∨
    (peek s.stop ≠ ch '.' ∧ quad = [] ∧ EndsText s.stop ∧
      if s.mark.isSome then s.words.length ≤ 7 else s.words.length = 8)

/-- The octets of an accepted address. -/
def ScannedGroups.value (s : ScannedGroups) (quad : List Octet) : List Octet :=
  AddressForm.groupsOctets (s.words.take (s.mark.getD 0)) ++
    List.replicate (16 - quad.length - 2 * s.words.length) 0 ++
    AddressForm.groupsOctets (s.words.drop (s.mark.getD 0)) ++ quad

/-! ### Where numbers stop -/

/-- What `strtol` takes off the front of a string contains no delimiter. -/
theorem strtol_consumed (s : List Octet) (base : Nat) :
    ∃ f, s = f ++ (strtol s base).2 ∧ ∀ c ∈ f, ¬ Delimiter c := by
  obtain ⟨f, hf⟩ := strtol_suffix s base
  refine ⟨f, hf.symm, fun c hc hdelim => ?_⟩
  obtain ⟨p, q, rfl⟩ := List.append_of_mem hc
  have hread := strtol_append_delimiter hdelim base p (q ++ (strtol s base).2)
  have hsplit : p ++ c :: (q ++ (strtol s base).2) = s := by
    conv_rhs => rw [← hf]
    simp
  rw [hsplit] at hread
  have hlength := congrArg (fun r => List.length r.2) hread
  dsimp only at hlength
  rw [List.length_append, List.length_cons, List.length_append] at hlength
  omega

theorem quadNumber_consumed {ip rest : List Octet} {c : Octet} (h : quadNumber ip = some (c, rest)) :
    ∃ f, ip = f ++ rest ∧ ∀ x ∈ f, ¬ Delimiter x := by
  obtain ⟨f, hf, hnone⟩ := strtol_consumed ip 10
  rw [quadNumber] at h
  dsimp only at h
  split at h
  · cases h
  · cases h
    exact ⟨f, hf, hnone⟩

theorem quadNext_consumed {ip rest : List Octet} {c : Octet} (h : quadNext ip = some (c, rest)) :
    ∃ f, ip = ch '.' :: (f ++ rest) ∧ ∀ x ∈ f, ¬ Delimiter x := by
  rw [quadNext] at h
  split at h
  · cases h
  · next hdot =>
      obtain ⟨f, hf, hnone⟩ := quadNumber_consumed h
      refine ⟨f, ?_, hnone⟩
      cases ip with
      | nil => exact absurd (not_not.mp hdot) (by decide)
      | cons d ip =>
          rw [← hf, ← not_not.mp hdot]
          rfl

theorem dottedQuad_consumed {ip rest quad : List Octet} (h : dottedQuad ip = some (quad, rest)) :
    ∃ f₁ f₂ f₃ f₄, ip = f₁ ++ ch '.' :: (f₂ ++ ch '.' :: (f₃ ++ ch '.' :: (f₄ ++ rest))) ∧
      (∀ x ∈ f₁ ++ f₂ ++ f₃ ++ f₄, ¬ Delimiter x) ∧
      ∃ a ip', quadNumber ip = some (a, ip') ∧ peek ip' = ch '.' ∧ quad.head? = some a := by
  unfold dottedQuad at h
  simp only [Option.bind_eq_bind, Option.bind_eq_some_iff, Option.some.injEq, Prod.mk.injEq] at h
  obtain ⟨⟨a, ip₁⟩, ha, ⟨b, ip₂⟩, hb, ⟨c, ip₃⟩, hc, ⟨d, ip₄⟩, hd, rfl, rfl⟩ := h
  obtain ⟨f₁, hf₁, hn₁⟩ := quadNumber_consumed ha
  obtain ⟨f₂, hf₂, hn₂⟩ := quadNext_consumed hb
  obtain ⟨f₃, hf₃, hn₃⟩ := quadNext_consumed hc
  obtain ⟨f₄, hf₄, hn₄⟩ := quadNext_consumed hd
  dsimp only at hf₁ hf₂ hf₃ hf₄
  refine ⟨f₁, f₂, f₃, f₄, ?_, ?_, a, ip₁, ha, by rw [hf₂, peek_cons], rfl⟩
  · rw [hf₁, hf₂, hf₃, hf₄]
  · intro x hx
    simp only [List.mem_append] at hx
    rcases hx with ((hx | hx) | hx) | hx
    · exact hn₁ x hx
    · exact hn₂ x hx
    · exact hn₃ x hx
    · exact hn₄ x hx

/-! ### What is kept by the scan -/

/-- The scan stands in its text, with the mark among the groups. -/
structure ScannedGroups.Within (text : List Octet) (s : ScannedGroups) : Prop where
  ip : s.ip <:+ text
  stop : s.stop <:+ text
  mark : s.mark.getD 0 ≤ s.words.length

theorem ScannedGroups.Within.read {text : List Octet} {s : ScannedGroups} (h : s.Within text) :
    s.read.Within text := by
  refine ⟨h.ip, (strtol_suffix s.ip 16).trans h.ip, ?_⟩
  have hmark := h.mark
  rw [ScannedGroups.read]
  dsimp only
  split
  · rw [List.length_append]
    omega
  · exact hmark

theorem ScannedGroups.Within.step {text : List Octet} {s : ScannedGroups} (h : s.Within text) :
    (∀ s', s.step = .inl s' → s'.Within text) ∧ ∀ s', s.step = .inr (some s') → s'.Within text := by
  have hread := h.read
  have htail : s.read.stop.tail <:+ text := (List.tail_suffix _).trans hread.stop
  rw [ScannedGroups.step]
  split
  · split
    · exact ⟨nofun, nofun⟩
    · rw [ScannedGroups.next]
      split
      · refine ⟨nofun, fun s' h' => ?_⟩
        cases h'
        exact hread
      · split
        · split
          · exact ⟨nofun, nofun⟩
          · refine ⟨fun s' h' => ?_, nofun⟩
            cases h'
            exact ⟨htail, hread.stop, Nat.le_refl _⟩
        · refine ⟨fun s' h' => ?_, nofun⟩
          cases h'
          exact ⟨htail, hread.stop, hread.mark⟩
  · refine ⟨nofun, fun s' h' => ?_⟩
    cases h'
    exact h

theorem scanGroups_within {text : List Octet} (rounds : Nat) : ∀ {s s' : ScannedGroups},
    s.Within text → scanGroups rounds s = some s' → s'.Within text := by
  induction rounds with
  | zero => exact fun _ h => nomatch h
  | succ rounds ih =>
      intro s s' h hscan
      rw [scanGroups] at hscan
      cases hstep : s.step with
      | inl t =>
          rw [hstep] at hscan
          exact ih (h.step.1 t hstep) hscan
      | inr e =>
          rw [hstep] at hscan
          exact h.step.2 s' (hstep.trans (congrArg Sum.inr hscan))

theorem scanText_within {text : List Octet} {s : ScannedGroups} (h : scanText text = some s) :
    s.Within text :=
  scanGroups_within _ ⟨List.suffix_refl _, List.suffix_refl _, Nat.le_refl _⟩ h

/-! ### The address -/

theorem parsedLength_eq_iff {start rest : List Octet} (hne : start ≠ [])
    (hle : rest.length ≤ start.length) : parsedLength start rest = start.length ↔ EndsText rest := by
  have hpos := List.length_pos_of_ne_nil hne
  rw [parsedLength, EndsText]
  rcases rest with _ | ⟨c, _ | ⟨d, rest⟩⟩
  · have hpeek : peek [] ≠ ch ']' := by decide
    rw [if_neg hpeek]
    exact iff_of_true rfl (.inl rfl)
  · rw [peek_cons, List.length_singleton]
    simp only [List.cons_ne_nil, false_or, List.cons.injEq, and_true]
    split
    · next h => exact iff_of_true (by omega) h
    · next h => exact iff_of_false (by omega) h
  · rw [List.length_cons, List.length_cons] at hle ⊢
    refine iff_of_false ?_ (by simp)
    split <;> omega

theorem finishAddress_value {s : ScannedGroups} {t : GroupScan} (h : s.Describes t)
    (hmark : s.mark.getD 0 ≤ s.words.length) {quad : List Octet} (haccepts : s.Accepts quad)
    (start : List Octet) :
    (finishAddress start t).Ends fun r => r.2.octets = s.value quad := by
  obtain ⟨rest, hrest⟩ := h.read.octets
  have hcut : t.ipv6.octets = AddressForm.groupsOctets (s.words.take (s.mark.getD 0)) ++
      AddressForm.groupsOctets (s.words.drop (s.mark.getD 0)) ++ rest := by
    rw [hrest, ← groupsOctets_append, List.take_append_drop]
  have hfront : t.mark = (AddressForm.groupsOctets (s.words.take (s.mark.getD 0))).length := by
    rw [length_groupsOctets, List.length_take, h.read.mark, Nat.min_eq_left hmark]
  have hoffset : t.offset = (AddressForm.groupsOctets (s.words.take (s.mark.getD 0))).length +
      (AddressForm.groupsOctets (s.words.drop (s.mark.getD 0))).length := by
    rw [length_groupsOctets, length_groupsOctets, h.read.offset, List.length_take, List.length_drop]
    omega
  have hofs := h.read.offset
  have hgroups := h.read.groups
  have hcompressed := h.read.compressed
  rw [finishAddress, ends_bind]
  rcases haccepts with ⟨hdot, hfew, after, hquad, -⟩ | ⟨hdot, rfl, -, hcount⟩
  · have hfour := dottedQuad_length hquad
    have hle : s.words.length ≤ 6 := by split at hfew <;> omega
    have hsize : t.quadSize = 4 := by rw [GroupScan.quadSize, h.stop, if_pos hdot]
    refine (shiftTail_ends hcut hfront hoffset 4 hsize (by omega)).mono fun ipv6 hipv6 => ?_
    rw [h.stop, if_pos hdot, h.ip, hquad]
    have hgo : ¬ (t.compressed = true ∧ 4 < t.groups) ∧ ¬ (¬ t.compressed = true ∧ 6 < t.groups) := by
      rw [hcompressed]
      split at hfew
      · next hc => exact ⟨fun hboth => by omega, fun hboth => hboth.1 hc⟩
      · next hc => exact ⟨fun hboth => hc hboth.1, fun hboth => by omega⟩
    rw [if_neg hgo.1, if_neg hgo.2]
    have hwrite := ipv6.yields_write quad (i := IPV6_OFFSET_IPV4) (by rw [hfour])
    refine (Yields.bind_ends_iff hwrite).mpr (ends_pure.mpr ?_)
    have hlen := ipv6.length_octets
    rw [Buffer.octets_splice _ (by rw [hfour]), List.drop_of_length_le (by rw [hlen, hfour]),
      List.append_nil]
    change ipv6.octets.take (16 - 4) ++ _ = _
    rw [hipv6, ScannedGroups.value, hfour, hofs]
  · have hsize : t.quadSize = 0 := by rw [GroupScan.quadSize, h.stop, if_neg hdot]
    have hle : s.words.length ≤ 8 := by split at hcount <;> omega
    refine (shiftTail_ends hcut hfront hoffset 0 hsize (by omega)).mono fun ipv6 hipv6 => ?_
    rw [h.stop, if_neg hdot]
    have hvalue : ipv6.octets = s.value [] := by
      rw [List.take_of_length_le (by rw [ipv6.length_octets]), hofs] at hipv6
      rw [hipv6, ScannedGroups.value, List.append_nil, List.length_nil]
    by_cases hc : s.mark.isSome = true
    · rw [if_pos hc] at hcount
      rw [if_neg (fun hnot => hnot.1 (hcompressed.trans hc)),
        if_pos ⟨hcompressed.trans hc, by omega⟩, ends_pure]
      exact hvalue
    · rw [if_neg hc] at hcount
      rw [if_pos ⟨by rw [hcompressed]; exact hc, by omega⟩, ends_pure]
      exact hvalue

theorem eq_of_yields_pure {α : Type} {a b : α} (h : (pure a : Run α).Yields b) : a = b :=
  (ends_pure (Q := (· = b))).mp h

theorem accepts_of_finish {s : ScannedGroups} {t : GroupScan} (h : s.Describes t)
    {start : List Octet} (hne : start ≠ []) (hstop : s.stop <:+ start) (hip : s.ip <:+ start)
    {address : Ipv6} (hyields : (finishAddress start t).Yields (start.length, address)) :
    ∃ quad, s.Accepts quad := by
  have hpos := List.length_pos_of_ne_nil hne
  have hgroups := h.read.groups
  have hcompressed := h.read.compressed
  have hrefused {ipv6 : Ipv6} : ¬ (pure (0, ipv6) : Run (Nat × Ipv6)).Yields (start.length, address) :=
    fun hy => by
      have := congrArg Prod.fst (eq_of_yields_pure hy)
      dsimp only at this
      omega
  rw [finishAddress] at hyields
  obtain ⟨-, ipv6, -, hend⟩ := ends_bind.mp hyields
  rw [h.stop] at hend
  by_cases hdot : peek s.stop = ch '.'
  · rw [if_pos hdot, hcompressed, hgroups] at hend
    split at hend
    · exact absurd hend hrefused
    · next hfour =>
        split at hend
        · exact absurd hend hrefused
        · next hsix =>
            rw [h.ip] at hend
            cases hquad : dottedQuad s.ip with
            | none =>
                rw [hquad] at hend
                exact absurd hend hrefused
            | some read =>
                obtain ⟨quad, rest⟩ := read
                rw [hquad] at hend
                obtain ⟨-, ipv6', -, hlast⟩ := ends_bind.mp hend
                have hlength := congrArg Prod.fst (eq_of_yields_pure hlast)
                obtain ⟨f₁, f₂, f₃, f₄, hsplit, -⟩ := dottedQuad_consumed hquad
                have hrest : rest.length ≤ start.length := by
                  have hle := hip.length_le
                  rw [hsplit] at hle
                  simp only [List.length_append, List.length_cons] at hle
                  omega
                refine ⟨quad, .inl ⟨hdot, ?_, rest, hquad, (parsedLength_eq_iff hne hrest).mp hlength⟩⟩
                split
                · next hc => exact Nat.not_lt.mp fun hlt => hfour ⟨hc, hlt⟩
                · next hc => exact Nat.not_lt.mp fun hlt => hsix ⟨hc, hlt⟩
  · rw [if_neg hdot, hcompressed, hgroups] at hend
    split at hend
    · next hfull =>
        have hlength := congrArg Prod.fst (eq_of_yields_pure hend)
        refine ⟨[], .inr ⟨hdot, rfl, (parsedLength_eq_iff hne hstop.length_le).mp hlength, ?_⟩⟩
        rw [if_neg hfull.1]
        exact hfull.2
    · split at hend
      · next hfew =>
          have hlength := congrArg Prod.fst (eq_of_yields_pure hend)
          refine ⟨[], .inr ⟨hdot, rfl, (parsedLength_eq_iff hne hstop.length_le).mp hlength, ?_⟩⟩
          rw [if_pos hfew.1]
          exact hfew.2
      · exact absurd hend hrefused

/-- An address that is accepted to its end is the value of its scan. -/
theorem accepted_value {source : List Octet} {ipv6 address : Ipv6} (hne : source ≠ [])
    (h : (parseIPv6 source ipv6).Yields (source.length, address)) :
    ∃ s quad, scanText (addressText source) = some s ∧ s.Accepts quad ∧
      address.octets = s.value quad := by
  have hpos := List.length_pos_of_ne_nil hne
  rw [parseIPv6] at h
  obtain ⟨r, hfinish, hdescribes⟩ :=
    (ends_bind.mp h).both (groupLoop_scanText (addressText source) ipv6)
  cases hscan : scanText (addressText source) with
  | none =>
      rw [hscan] at hdescribes
      obtain ⟨b, rfl⟩ := hdescribes
      have hzero := congrArg Prod.fst (eq_of_yields_pure hfinish)
      dsimp only at hzero
      omega
  | some s =>
      rw [hscan] at hdescribes
      obtain ⟨t, rfl, ht⟩ := hdescribes
      have hwithin := scanText_within hscan
      have hsuffix := addressText_suffix source
      obtain ⟨quad, haccepts⟩ := accepts_of_finish ht hne (hwithin.stop.trans hsuffix)
        (hwithin.ip.trans hsuffix) hfinish
      obtain ⟨r, hvalue, rfl⟩ := (finishAddress_value ht hwithin.mark haccepts source).both hfinish
      exact ⟨s, quad, rfl, haccepts, hvalue⟩

/-- A text with an accepted scan means the value of the scan, whatever the buffer held. -/
theorem parseIPv6_accepted {source : List Octet} {s : ScannedGroups} {quad : List Octet}
    (hscan : scanText (addressText source) = some s) (haccepts : s.Accepts quad) (ipv6 : Ipv6) :
    (parseIPv6 source ipv6).Ends fun r => r.2.octets = s.value quad := by
  rw [parseIPv6, ends_bind]
  refine (groupLoop_scanText (addressText source) ipv6).mono fun r hr => ?_
  rw [hscan] at hr
  obtain ⟨t, rfl, ht⟩ := hr
  exact finishAddress_value ht (scanText_within hscan).mark haccepts source

end Snert
