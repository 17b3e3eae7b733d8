/-
Module: Snert.Proofs.HostSpans
Purpose: What `spanHost` measures at the start of a longer text. A host or a user information
  without a colon ends at the separator behind it, so that an address in front of the separator has
  the span that it has alone, and no span goes beyond the separator.
Trusted boundary: none
Main exports: spanHost_append, spanHost_append_le, at_notMem_host
-/
import Snert.Lists.OctetBits
import Snert.Net.SpanHost
import Snert.Proofs.SpanIPv6

namespace Snert

open CModel Lists

/-! ### Separators -/

/-- The separators that end a user information, a host or a port. -/
def authorityStops : List Octet :=
  ascii "@:/"

/-- A separator, and what is behind it. No number behind a colon is followed by a colon or a dot. -/
def StopAt (c : Octet) (r : List Octet) : Prop :=
  c ∈ authorityStops ∧
    (c = ch ':' → peek (strtol r 16).2 ≠ ch ':' ∧ peek (strtol r 16).2 ≠ ch '.')

theorem StopAt.delimiter {c : Octet} {r : List Octet} (h : StopAt c r) : Delimiter c := by
  have hall : ∀ c ∈ authorityStops, Delimiter c := by decide
  exact hall c h.1

theorem StopAt.ne {c d : Octet} {r : List Octet} (h : StopAt c r) (hd : d ∉ authorityStops) :
    c ≠ d :=
  fun heq => hd (heq ▸ h.1)

theorem StopAt.peek_append_iff {c d : Octet} {r : List Octet} (h : StopAt c r)
    (hd : d ∉ 0 :: authorityStops) (f : List Octet) : peek (f ++ c :: r) = d ↔ peek f = d := by
  rw [List.mem_cons, not_or] at hd
  cases f with
  | nil => exact iff_of_false (h.ne hd.2) (Ne.symm hd.1)
  | cons x f => rfl

/-! ### Addresses -/

theorem spanNumbers_append {c : Octet} {r : List Octet} (h : StopAt c r) (rounds : Nat) :
    ∀ (rounds' : Nat) (f : List Octet) (dots : Nat), f.length < rounds → f.length < rounds' →
      spanNumbers rounds (f ++ c :: r) dots =
        (spanNumbers rounds' f dots).map fun s => (s.1, s.2 ++ c :: r) := by
  induction rounds with
  | zero => exact fun _ _ _ hlt => absurd hlt (Nat.not_lt_zero _)
  | succ rounds ih =>
      intro rounds' f dots hlt hlt'
      obtain ⟨rounds', rfl⟩ : ∃ k, rounds' = k + 1 := ⟨rounds' - 1, by omega⟩
      have hread := strtol_append_delimiter h.delimiter 10 f r
      have hc : c ≠ 0 := h.ne (by decide)
      rw [spanNumbers, spanNumbers, hread]
      dsimp only
      by_cases hnul : peek f = 0
      · have hstop := strtol_of_peek_zero hnul 10
        rw [if_pos hnul, hstop, if_pos (Nat.lt_irrefl _)]
        exact ite_self _
      · have hnul' : peek (f ++ c :: r) ≠ 0 := by
          cases f with
          | nil => exact hc
          | cons x f => exact hnul
        rw [if_neg hnul, if_neg hnul']
        by_cases hmoved : (strtol f 10).2.length < f.length
        · have hmoved' : ((strtol f 10).2 ++ c :: r).length < (f ++ c :: r).length := by
            rw [List.length_append, List.length_append]
            omega
          rw [if_neg (not_not.mpr hmoved), if_neg (not_not.mpr hmoved')]
          split
          · rfl
          · by_cases hdot : peek (strtol f 10).2 = ch '.'
            · rw [if_pos hdot, if_pos ((h.peek_append_iff (by decide) _).mpr hdot)]
              cases hstop : (strtol f 10).2 with
              | nil =>
                  rw [hstop] at hdot
                  exact absurd hdot (by decide)
              | cons x stop =>
                  rw [hstop, List.length_cons] at hmoved
                  exact ih rounds' stop (dots + 1) (by omega) (by omega)
            · rw [if_neg hdot, if_neg (mt (h.peek_append_iff (by decide) _).mp hdot)]
              exact ih rounds' _ dots (by omega) (by omega)
        · have hmoved' : ¬ ((strtol f 10).2 ++ c :: r).length < (f ++ c :: r).length := by
            rw [List.length_append, List.length_append]
            omega
          rw [if_pos hmoved, if_pos hmoved']
          rfl

theorem spanIPv4_append {c : Octet} {r : List Octet} (h : StopAt c r) (f : List Octet) :
    spanIPv4 (f ++ c :: r) = spanIPv4 f := by
  rw [spanIPv4, spanIPv4, spanNumbers_append h _ (f.length + 1) f 0
    (by rw [List.length_append]; omega) (Nat.lt_succ_self _)]
  cases spanNumbers (f.length + 1) f 0 with
  | none => rfl
  | some s =>
      rw [Option.map_some]
      dsimp only
      rw [List.length_append, List.length_append, Nat.add_sub_add_right]

/-- A number that a dot follows. -/
def QuadStart (s : List Octet) : Prop :=
  ¬ ((strtol s 16).1 < 0 ∨ 0xffff < (strtol s 16).1) ∧ peek (strtol s 16).2 = ch '.'

instance (s : List Octet) : Decidable (QuadStart s) :=
  inferInstanceAs (Decidable (_ ∧ _))

theorem spanEnd_of_few {start : List Octet} {s : SpanGroups} (hcompressed : s.compressed = false)
    (hgroups : s.groups ≤ 2) : spanEnd start s =
      if peek s.stop = ch '.' ∧ 0 < spanIPv4 s.ip then start.length - s.ip.length + spanIPv4 s.ip
      else 0 := by
  rw [spanEnd, hcompressed]
  by_cases hdot : peek s.stop = ch '.'
  · rw [if_pos hdot, if_neg (fun h => Bool.false_ne_true h.1),
      if_neg (show ¬ (¬ false = true ∧ 6 < s.groups) by omega)]
    by_cases hpos : 0 < spanIPv4 s.ip
    · rw [if_neg (by omega), if_pos ⟨hdot, hpos⟩]
    · rw [if_pos (by omega), if_neg (fun h => hpos h.2)]
  · rw [if_neg hdot, if_neg (show ¬ (¬ false = true ∧ s.groups = 8) by omega),
      if_neg (fun h => Bool.false_ne_true h.1), if_neg (fun h => hdot h.1)]

theorem spanIPv6_of_stop {s : List Octet} (h : peek (strtol s 16).2 ≠ ch ':') :
    spanIPv6 s = if QuadStart s then spanIPv4 s else 0 := by
  rw [spanIPv6, spanGroups]
  dsimp only
  by_cases hrange : (strtol s 16).1 < 0 ∨ 0xffff < (strtol s 16).1
  · rw [if_pos hrange, if_neg (fun hquad => hquad.1 hrange)]
  · rw [if_neg hrange, if_pos h]
    dsimp only
    rw [spanEnd_of_few rfl (by dsimp only; split <;> omega)]
    dsimp only
    rw [Nat.sub_self]
    by_cases hdot : peek (strtol s 16).2 = ch '.'
    · rw [if_pos (show QuadStart s from ⟨hrange, hdot⟩)]
      by_cases hpos : 0 < spanIPv4 s
      · rw [if_pos ⟨hdot, hpos⟩, Nat.zero_add]
      · rw [if_neg (fun h => hpos h.2), Nat.eq_zero_of_not_pos hpos]
    · rw [if_neg (fun h => hdot h.1), if_neg (fun hquad => hdot hquad.2)]

theorem peek_mem {c : Octet} {s : List Octet} (h : peek s = c) (hc : c ≠ 0) : c ∈ s := by
  cases s with
  | nil => exact absurd h.symm hc
  | cons x s =>
      rw [peek_cons] at h
      exact h ▸ List.mem_cons_self

theorem peek_strtol_ne_colon {f : List Octet} (hf : ch ':' ∉ f) : peek (strtol f 16).2 ≠ ch ':' :=
  fun h => hf ((strtol_suffix f 16).subset (peek_mem h (by decide)))

theorem spanIPv6_of_port {f r : List Octet} (hf : (strtol f 16).2 = [])
    (hcolon : peek (strtol r 16).2 ≠ ch ':') (hdot : peek (strtol r 16).2 ≠ ch '.') :
    spanIPv6 (f ++ ch ':' :: r) = 0 := by
  have hread := strtol_append_delimiter (c := ch ':') (by decide) 16 f r
  have hfirst : peek r ≠ ch ':' := by
    intro h
    cases r with
    | nil => exact absurd h (by decide)
    | cons c r =>
        rw [peek_cons] at h
        rw [h, strtol_colon] at hcolon
        exact hcolon rfl
  rw [spanIPv6, spanGroups, hread, hf, List.nil_append]
  dsimp only
  by_cases hrange : (strtol f 16).1 < 0 ∨ 0xffff < (strtol f 16).1
  · rw [if_pos hrange]
  · rw [if_neg hrange, if_neg (not_not.mpr (peek_cons _ _)), List.tail_cons, if_neg hfirst]
    cases hlength : (f ++ ch ':' :: r).length with
    | zero =>
        rw [List.length_append, List.length_cons] at hlength
        omega
    | succ rounds =>
        rw [spanGroups]
        dsimp only
        by_cases hrange' : (strtol r 16).1 < 0 ∨ 0xffff < (strtol r 16).1
        · rw [if_pos hrange']
        · rw [if_neg hrange', if_pos hcolon]
          dsimp only
          rw [spanEnd_of_few rfl (by dsimp only; split <;> split <;> omega),
            if_neg (fun h => hdot h.1)]

theorem spanIPv6_append {c : Octet} {f r : List Octet} (h : StopAt c r) (hf : ch ':' ∉ f) :
    spanIPv6 (f ++ c :: r) = spanIPv6 f := by
  have hread := strtol_append_delimiter h.delimiter 16 f r
  have hquad : QuadStart (f ++ c :: r) ↔ QuadStart f := by
    rw [QuadStart, QuadStart, hread]
    exact and_congr_right fun _ => h.peek_append_iff (by decide) _
  have hplain : peek (strtol (f ++ c :: r) 16).2 ≠ ch ':' →
      spanIPv6 (f ++ c :: r) = spanIPv6 f := by
    intro hne
    rw [spanIPv6_of_stop hne, spanIPv6_of_stop (peek_strtol_ne_colon hf), spanIPv4_append h]
    by_cases hstart : QuadStart f
    · rw [if_pos hstart, if_pos (hquad.mpr hstart)]
    · rw [if_neg hstart, if_neg (mt hquad.mp hstart)]
  rw [hread] at hplain
  cases hstop : (strtol f 16).2 with
  | cons x stop =>
      have hne := peek_strtol_ne_colon hf
      rw [hstop] at hne hplain
      exact hplain hne
  | nil =>
      by_cases hc : c = ch ':'
      · have hnone : ¬ QuadStart f := fun hquad => by
          rw [QuadStart, hstop] at hquad
          exact absurd hquad.2 (by decide)
        obtain ⟨hcolon, hdot⟩ := h.2 hc
        rw [hc, spanIPv6_of_port hstop hcolon hdot, spanIPv6_of_stop (peek_strtol_ne_colon hf),
          if_neg hnone]
      · rw [hstop] at hplain
        exact hplain hc

/-! ### The tag of an address -/

theorem map_tolower_of_startsWith (t : List Octet) : ∀ s : List Octet,
    0 ≤ textInsensitiveStartsWith s t → (s.take t.length).map tolower = t.map tolower := by
  induction t with
  | nil => exact fun _ _ => rfl
  | cons d t ih =>
      intro s h
      cases s with
      | nil => exact absurd h (show ¬ (0 : Int) ≤ -1 by decide)
      | cons c s =>
          rw [textInsensitiveStartsWith] at h
          split at h
          · exact absurd h (by decide)
          · rename_i heq
            dsimp only at h
            split at h
            · exact absurd h (by decide)
            · rename_i hrest
              rw [List.length_cons, List.take_succ_cons, List.map_cons, List.map_cons,
                not_not.mp heq, ih s (Int.not_lt.mp hrest)]

theorem mem_colon_of_tolower {s : List Octet} (h : ch ':' ∈ s.map tolower) : ch ':' ∈ s := by
  have hcolon : ∀ c : Octet, tolower c = ch ':' → c = ch ':' := forall_octet (by decide +kernel)
  obtain ⟨c, hc, heq⟩ := List.mem_map.mp h
  exact hcolon c heq ▸ hc

theorem not_tagged {f : List Octet} (hf : ch ':' ∉ f) :
    ¬ 0 < textInsensitiveStartsWith f (ascii "IPv6:") := by
  intro h
  have hmap := map_tolower_of_startsWith (ascii "IPv6:") f h.le
  have hcolon : ch ':' ∈ (f.take (ascii "IPv6:").length).map tolower := by
    rw [hmap]
    decide
  exact hf (List.take_subset _ _ (mem_colon_of_tolower hcolon))

theorem tagged_append {c : Octet} {f r : List Octet} (h : StopAt c r) (hf : ch ':' ∉ f)
    (htag : 0 < textInsensitiveStartsWith (f ++ c :: r) (ascii "IPv6:")) :
    c = ch ':' ∧ f.map tolower = ascii "ipv6" := by
  have hmap := map_tolower_of_startsWith (ascii "IPv6:") (f ++ c :: r) htag.le
  rw [show (ascii "IPv6:").map tolower = ascii "ipv6" ++ [ch ':'] by decide,
    show (ascii "IPv6:").length = 5 from rfl] at hmap
  have hletters : ∀ c ∈ authorityStops, tolower c ∉ ascii "ipv6" := by decide
  have hlower : ∀ c ∈ authorityStops, tolower c = c := by decide
  rcases lt_trichotomy f.length 4 with hlt | hfour | hgt
  · have hat : (((f ++ c :: r).take 5).map tolower)[f.length]? =
        (ascii "ipv6" ++ [ch ':'])[f.length]? := by rw [hmap]
    rw [List.getElem?_map, List.getElem?_take_of_lt (by omega),
      List.getElem?_append_right (le_refl _),
      Nat.sub_self, List.getElem?_cons_zero, List.getElem?_append_left hlt] at hat
    exact absurd (List.mem_of_getElem? hat.symm) (hletters c h.1)
  · have htake : (f ++ c :: r).take 5 = f ++ [c] := by
      rw [show 5 = f.length + 1 by omega, List.take_length_add_append]
      rfl
    rw [htake, List.map_append, List.map_singleton, hlower c h.1] at hmap
    obtain ⟨hipv6, hcolon⟩ := List.append_inj hmap (by rw [List.length_map, hfour]; rfl)
    exact ⟨List.singleton_inj.mp hcolon, hipv6⟩
  · have hcolon : ch ':' ∈ (f.take 5).map tolower := by
      rw [List.take_append_of_le_length (by omega)] at hmap
      rw [hmap]
      decide
    exact absurd (List.take_subset _ _ (mem_colon_of_tolower hcolon)) hf

theorem spanIP_tag {f : List Octet} (h : f.map tolower = ascii "ipv6") : spanIP f = 0 := by
  have hi : ∀ c : Octet, tolower c = ch 'i' → c ∈ ascii "iI" := forall_octet (by decide +kernel)
  have hp : ∀ c : Octet, tolower c = ch 'p' → c ∈ ascii "pP" := forall_octet (by decide +kernel)
  have hv : ∀ c : Octet, tolower c = ch 'v' → c ∈ ascii "vV" := forall_octet (by decide +kernel)
  have hsix : ∀ c : Octet, tolower c = ch '6' → c ∈ ascii "6" := forall_octet (by decide +kernel)
  have hall : ∀ a ∈ ascii "iI", ∀ b ∈ ascii "pP", ∀ d ∈ ascii "vV", ∀ e ∈ ascii "6",
      spanIP [a, b, d, e] = 0 := by decide
  obtain ⟨a, f, rfl, ha, h⟩ := List.map_eq_cons_iff.mp h
  obtain ⟨b, f, rfl, hb, h⟩ := List.map_eq_cons_iff.mp h
  obtain ⟨d, f, rfl, hd, h⟩ := List.map_eq_cons_iff.mp h
  obtain ⟨e, f, rfl, he, h⟩ := List.map_eq_cons_iff.mp h
  obtain rfl := List.map_eq_nil_iff.mp h
  exact hall a (hi a ha) b (hp b hb) d (hv d hd) e (hsix e he)

theorem spanIP_of_not_tagged {s : List Octet}
    (h : ¬ 0 < textInsensitiveStartsWith s (ascii "IPv6:")) :
    spanIP s =
      if peek s = ch '[' ∧ spanIPv6 s.tail ≠ 0 ∧ peek (s.tail.drop (spanIPv6 s.tail)) = ch ']' then
        spanIPv6 s.tail + 2
      else if 0 < spanIPv6 s then spanIPv6 s
      else spanIPv4 s := by
  rw [spanIP, if_neg h]

theorem spanIPv4_le (s : List Octet) : spanIPv4 s ≤ s.length := by
  rw [spanIPv4]
  split
  · exact Nat.zero_le _
  · split
    · exact Nat.zero_le _
    · exact Nat.sub_le _ _

theorem spanIPv6_le {f : List Octet} (hf : ch ':' ∉ f) : spanIPv6 f ≤ f.length := by
  rw [spanIPv6_of_stop (peek_strtol_ne_colon hf)]
  split
  · exact spanIPv4_le f
  · exact Nat.zero_le _

theorem spanIP_append {c : Octet} {f r : List Octet} (h : StopAt c r) (hf : ch ':' ∉ f) :
    spanIP (f ++ c :: r) = spanIP f := by
  by_cases htag : 0 < textInsensitiveStartsWith (f ++ c :: r) (ascii "IPv6:")
  · obtain ⟨rfl, hipv6⟩ := tagged_append h hf htag
    obtain ⟨hcolon, hdot⟩ := h.2 rfl
    have hlength : f.length = 4 := by
      rw [← List.length_map (f := tolower), hipv6]
      rfl
    have hdrop : (f ++ ch ':' :: r).drop 5 = r := by
      rw [show 5 = f.length + 1 by omega, List.drop_length_add_append]
      rfl
    rw [spanIP_tag hipv6, spanIP, if_pos htag, hdrop, spanIPv6_of_stop hcolon,
      if_neg (fun hquad => hdot hquad.2)]
  · rw [spanIP_of_not_tagged htag, spanIP_of_not_tagged (not_tagged hf), spanIPv6_append h hf,
      spanIPv4_append h]
    cases f with
    | nil =>
        have hc : c ≠ ch '[' := h.ne (by decide)
        rw [List.nil_append, peek_cons, if_neg (fun h => hc h.1)]
        rfl
    | cons x f =>
        have hf' : ch ':' ∉ f := fun hmem => hf (List.mem_cons_of_mem _ hmem)
        have hbracket : peek ((f ++ c :: r).drop (spanIPv6 f)) = ch ']' ↔
            peek (f.drop (spanIPv6 f)) = ch ']' := by
          rw [List.drop_append_of_le_length (spanIPv6_le hf')]
          exact h.peek_append_iff (by decide) _
        rw [List.cons_append, List.tail_cons, List.tail_cons, peek_cons, peek_cons,
          spanIPv6_append h hf']
        exact if_congr (and_congr_right fun _ => and_congr_right fun _ => hbracket) rfl rfl

theorem spanIP_le {f : List Octet} (hf : ch ':' ∉ f) : spanIP f ≤ f.length := by
  rw [spanIP_of_not_tagged (not_tagged hf)]
  split
  · rename_i hbracket
    obtain ⟨hopen, -, hclose⟩ := hbracket
    cases f with
    | nil => exact absurd hopen (by decide)
    | cons x f =>
        rw [List.tail_cons] at hclose ⊢
        have hlt : spanIPv6 f < f.length := by
          by_contra hge
          rw [List.drop_eq_nil_of_le (Nat.not_lt.mp hge)] at hclose
          exact absurd hclose (by decide)
        rw [List.length_cons]
        omega
  · split
    · exact spanIPv6_le hf
    · exact spanIPv4_le f

/-! ### Domains -/

theorem spanLabels_append {c : Octet} {r : List Octet} (h : StopAt c r) (f : List Octet) :
    ∀ (dots dots' : Nat) (alpha alpha' : Bool),
      match spanLabels (f ++ c :: r) dots alpha with
      | none => ∀ s, spanLabels f dots' alpha' = some s → s.1 ≠ []
      | some (stop, _) => ∃ rest, stop = rest ++ c :: r ∧
          ∀ s, spanLabels f dots' alpha' = some s → s.1 = rest := by
  have hdot : c ≠ ch '.' := h.ne (by decide)
  have hhyphen : c ≠ ch '-' := h.ne (by decide)
  have hstops : ∀ c ∈ authorityStops, c ≠ ch '_' ∧ ¬ isalnum c = true ∧ c < 128 := by decide
  induction f with
  | nil =>
      intro dots dots' alpha alpha'
      have hlabels : spanLabels (c :: r) dots alpha = some (c :: r, dots) := by
        rw [spanLabels, if_neg hdot, if_neg hhyphen, if_pos (hstops c h.1)]
      rw [List.nil_append, hlabels]
      refine ⟨[], rfl, fun s hs => ?_⟩
      rw [spanLabels] at hs
      split at hs
      · cases hs
      · cases hs
        rfl
  | cons x f ih =>
      intro dots dots' alpha alpha'
      rw [List.cons_append, spanLabels, spanLabels]
      by_cases hx : x = ch '.'
      · rw [if_pos hx, if_pos hx]
        by_cases hdouble : peek f = ch '.'
        · rw [if_pos hdouble, if_pos ((h.peek_append_iff (by decide) f).mpr hdouble)]
          exact fun s hs => nomatch hs
        · rw [if_neg hdouble, if_neg (mt (h.peek_append_iff (by decide) f).mp hdouble),
            if_pos (List.append_ne_nil_of_right_ne_nil f (List.cons_ne_nil c r))]
          by_cases hnil : f ≠ []
          · rw [if_pos hnil]
            exact ih _ _ _ _
          · rw [if_neg hnil]
            exact ih _ _ _ _
      · rw [if_neg hx, if_neg hx]
        by_cases hx' : x = ch '-'
        · rw [if_pos hx', if_pos hx']
          exact ih _ _ _ _
        · rw [if_neg hx', if_neg hx']
          by_cases hstop : x ≠ ch '_' ∧ ¬ isalnum x = true ∧ x < 128
          · rw [if_pos hstop, if_pos hstop]
            refine ⟨x :: f, rfl, fun s hs => ?_⟩
            cases hs
            rfl
          · rw [if_neg hstop, if_neg hstop]
            exact ih _ _ _ _

theorem spanDomain_append_le {c : Octet} {r : List Octet} (h : StopAt c r) (f : List Octet) :
    spanDomain (f ++ c :: r) 0 ≤ f.length := by
  have hlabels := spanLabels_append h f 0 0 true true
  rw [spanDomain]
  cases hspan : spanLabels (f ++ c :: r) 0 true with
  | none => exact Nat.zero_le _
  | some found =>
      rw [hspan] at hlabels
      obtain ⟨rest, hrest, -⟩ := hlabels
      dsimp only
      split
      · exact Nat.zero_le _
      · rw [hrest, List.length_append, List.length_append]
        omega

theorem spanDomain_append {c : Octet} {f r : List Octet} (h : StopAt c r) (hne : f ≠ [])
    (hfull : spanDomain f 0 = f.length) : spanDomain (f ++ c :: r) 0 = f.length := by
  have hpos := List.length_pos_of_ne_nil hne
  have hlabels := spanLabels_append h f 0 0 true true
  rw [spanDomain] at hfull
  split at hfull
  · omega
  · rename_i stop dots hsome
    rw [if_neg (by omega)] at hfull
    have hstop : stop = [] := List.eq_nil_of_length_eq_zero (by omega)
    rw [spanDomain]
    cases hspan : spanLabels (f ++ c :: r) 0 true with
    | none =>
        rw [hspan] at hlabels
        exact absurd hstop (hlabels _ hsome)
    | some found =>
        rw [hspan] at hlabels
        obtain ⟨rest, hsplit, hrest⟩ := hlabels
        have hnil : rest = [] := (hrest _ hsome).symm.trans hstop
        dsimp only
        rw [if_neg (by omega), hsplit, hnil, List.length_append, List.nil_append,
          Nat.add_sub_cancel]

/-! ### Hosts -/

/-- A host that is accepted in full is accepted in front of a separator. -/
theorem spanHost_append {c : Octet} {f r : List Octet} (h : StopAt c r) (hf : ch ':' ∉ f)
    (hne : f ≠ []) (hfull : spanHost f 0 = f.length) : spanHost (f ++ c :: r) 0 = f.length := by
  rw [spanHost] at hfull
  rw [spanHost, spanIP_append h hf]
  by_cases hpos : 0 < spanIP f
  · rw [if_pos hpos] at hfull ⊢
    exact hfull
  · rw [if_neg hpos] at hfull ⊢
    exact spanDomain_append h hne hfull

/-- No span of a host goes beyond the first separator. -/
theorem spanHost_append_le {c : Octet} {f r : List Octet} (h : StopAt c r) (hf : ch ':' ∉ f) :
    spanHost (f ++ c :: r) 0 ≤ f.length := by
  rw [spanHost, spanIP_append h hf]
  split
  · exact spanIP_le hf
  · exact spanDomain_append_le h f

theorem stopAt_at (r : List Octet) : StopAt (ch '@') r :=
  ⟨by decide, fun h => absurd h (by decide)⟩

/-- There is no `@` in a host that is accepted in full. -/
theorem at_notMem_host {host : List Octet} (hcolon : ch ':' ∉ host)
    (hfull : spanHost host 0 = host.length) : ch '@' ∉ host := by
  intro hmem
  obtain ⟨a, b, rfl⟩ := List.append_of_mem hmem
  have hle := spanHost_append_le (stopAt_at b) (fun h => hcolon (List.mem_append_left _ h))
  rw [hfull, List.length_append, List.length_cons] at hle
  omega

end Snert
