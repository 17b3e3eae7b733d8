/-
Module: Snert.Proofs.HtmlEntityDecode
Purpose: `htmlEntityDecode` in place. A semicolon ends every entity, so that nothing behind the last
  semicolon of the source is looked at; and what is written never overtakes what is read.
Trusted boundary: none
Main exports: entityOctet, decodeOctet_ends, htmlEntityDecode_ends
-/
import Snert.Util.HtmlEntity

namespace Snert

open CModel CModel.Run

/-- What the octets of a text that begins with an ampersand are decoded to first. -/
def entityOctet (text : List Octet) : Octet :=
  if text.getD 1 0 = ch '#' then
    let (code, rest) :=
      if text.getD 2 0 = ch 'x' then strtol (text.drop 3) 16 else strtol (text.drop 2) 10
    if 0 ≤ code ∧ code < 256 ∧ peek rest = ch ';' then code.toNat.toUInt8 else ch '&'
  else
    match entities.find? fun entity => ascii entity.1 <+: text with
    | some entity => entity.2
    | none => ch '&'

theorem entities_end : ∀ entity ∈ entities,
    ch ';' ∉ (ascii entity.1).dropLast ∧ 0 < (ascii entity.1).length := by
  decide +kernel

section Object

variable {n : Nat} {object : Buffer n} {s last : Nat}

theorem getD_drop_octets (object : Buffer n) (s i : Nat) :
    (object.octets.drop s).getD i 0 = object.get (s + i) := by
  rw [Buffer.get, List.getD_eq_getElem?_getD, List.getD_eq_getElem?_getD, List.getElem?_drop]

theorem peek_drop_octets (object : Buffer n) (s : Nat) :
    peek (object.octets.drop s) = object.get s := by
  rw [← Nat.add_zero s, ← getD_drop_octets, Nat.add_zero]
  cases object.octets.drop s <;> rfl

theorem drop_octets_eq_cons (object : Buffer n) (h : s < n) :
    object.octets.drop s = object.get s :: object.octets.drop (s + 1) := by
  rw [← object.length_octets] at h
  rw [List.drop_eq_getElem_cons h, Buffer.get, List.getD_eq_getElem?_getD,
    List.getElem?_eq_getElem h]
  rfl

theorem drop_octets_eq (hlast : object.get last = ch ';') (hlt : last < n) (hs : s ≤ last) :
    ∃ front rest, object.octets.drop s = front ++ ch ';' :: rest ∧ front.length = last - s := by
  refine ⟨(object.octets.drop s).take (last - s), object.octets.drop (last + 1), ?_, ?_⟩
  · have hsplit := (List.take_append_drop (last - s) (object.octets.drop s)).symm
    rw [List.drop_drop, Nat.add_sub_cancel' hs, drop_octets_eq_cons object hlt, hlast] at hsplit
    exact hsplit
  · rw [List.length_take, List.length_drop, object.length_octets]
    omega

variable (hlast : object.get last = ch ';') (hlt : last < n)
include hlast hlt

theorem strncmpAt_ends {entity : List Octet} (hentity : ch ';' ∉ entity.dropLast) {i : Nat}
    (hi : i ≤ last) : (strncmpAt object i entity).Ends fun equal =>
      equal = decide (entity <+: object.octets.drop i) ∧
        (equal = true → i + entity.length ≤ last + 1) := by
  induction entity generalizing i with
  | nil => exact ends_pure.mpr ⟨by simp, fun _ => Nat.le_succ_of_le hi⟩
  | cons e entity ih =>
      have hdrop := drop_octets_eq_cons object (Nat.lt_of_le_of_lt hi hlt)
      rw [strncmpAt, (object.yields_read (Nat.lt_of_le_of_lt hi hlt)).bind_ends_iff, hdrop]
      by_cases hc : object.get i = e
      · rw [if_pos hc]
        have hiff : decide (e :: entity <+: object.get i :: object.octets.drop (i + 1)) =
            decide (entity <+: object.octets.drop (i + 1)) := by
          simp [List.cons_prefix_cons, hc]
        rw [hiff]
        cases entity with
        | nil => exact ends_pure.mpr ⟨by simp, fun _ => Nat.succ_le_succ hi⟩
        | cons e' entity =>
            rw [List.dropLast_cons_cons, List.mem_cons, not_or] at hentity
            have hne : i ≠ last := by
              rintro rfl
              exact hentity.1 (hlast.symm.trans hc)
            refine (ih hentity.2 (i := i + 1) (by omega)).mono ?_
            rintro equal ⟨heq, hle⟩
            refine ⟨heq, fun h => ?_⟩
            have := hle h
            rw [List.length_cons]
            omega
      · rw [if_neg hc]
        refine ends_pure.mpr ⟨?_, nofun⟩
        simp [List.cons_prefix_cons, Ne.symm hc]

theorem findEntity_ends {table : List (String × Octet)}
    (htable : ∀ entity ∈ table, ch ';' ∉ (ascii entity.1).dropLast ∧ 0 < (ascii entity.1).length)
    (hs : s ≤ last) : (findEntity object s table).Ends fun found =>
      found = (table.find? fun entity => ascii entity.1 <+: object.octets.drop s).map
        (fun entity => ((ascii entity.1).length, entity.2)) ∧
      ∀ r, found = some r → 0 < r.1 ∧ s + r.1 ≤ last + 1 := by
  induction table with
  | nil => exact ends_pure.mpr ⟨rfl, nofun⟩
  | cons entity table ih =>
      obtain ⟨name, c⟩ := entity
      obtain ⟨⟨hname, hpos⟩, htable⟩ := List.forall_mem_cons.mp htable
      rw [findEntity, ends_bind]
      refine (strncmpAt_ends hlast hlt hname hs).mono ?_
      rintro equal ⟨rfl, hle⟩
      rw [List.find?_cons]
      by_cases hequal : ascii name <+: object.octets.drop s
      · rw [decide_eq_true hequal] at hle ⊢
        refine ends_pure.mpr ⟨rfl, ?_⟩
        rintro r ⟨⟩
        exact ⟨hpos, hle rfl⟩
      · rw [decide_eq_false hequal]
        exact ih htable

theorem strtolAt_ends (base : Nat) (hs : s ≤ last) :
    (strtolAt object s base).Ends fun r =>
      r.1 = (strtol (object.octets.drop s) base).1 ∧ s ≤ r.2 ∧ r.2 ≤ last ∧
        object.get r.2 = peek (strtol (object.octets.drop s) base).2 := by
  obtain ⟨front, rest, hdrop, hfront⟩ := drop_octets_eq hlast hlt hs
  have hdelimiter : Delimiter (ch ';') := by decide
  have hreach : ((object.octets.drop s).takeWhile fun c => ¬ Delimiter c).length ≤ last - s := by
    rw [hdrop, takeWhile_append_delimiter (by simp [hdelimiter]), ← hfront]
    exact (List.takeWhile_sublist _).length_le
  obtain ⟨number, hnumber⟩ := strtol_suffix (object.octets.drop s) base
  have hstop : (object.octets.drop s).length - (strtol (object.octets.drop s) base).2.length =
      number.length := by
    have hlength := congrArg List.length hnumber
    rw [List.length_append] at hlength
    omega
  have hbefore : number.length ≤ last - s := by
    have hrest := congrArg Prod.snd (strtol_append_delimiter hdelimiter base front rest)
    rw [← hdrop] at hrest
    have hlength := congrArg List.length (hnumber.trans hdrop)
    rw [hrest, List.length_append, List.length_append, List.length_append] at hlength
    omega
  refine ⟨(inBounds_load _ _).mpr (Access.inBounds_iff_le.mpr (by omega)),
    ((strtol (object.octets.drop s) base).1, s + ((object.octets.drop s).length -
      (strtol (object.octets.drop s) base).2.length)), rfl, rfl, ?_⟩
  dsimp only
  rw [hstop]
  refine ⟨Nat.le_add_right _ _, by omega, ?_⟩
  rw [← peek_drop_octets, ← List.drop_drop,
    (congrArg (List.drop number.length) hnumber).symm.trans List.drop_left]

theorem entityNumber_ends {i : Nat} (base : Nat) (hsi : s ≤ i) (hi : i ≤ last) :
    (strtolAt object i base >>= fun (code, stop) =>
      if ¬ (0 ≤ code ∧ code < 256) then pure none
      else object.read stop >>= fun c =>
        pure (if c = ch ';' then some (code.toNat.toUInt8, stop + 1) else none)).Ends fun found =>
      (match found with
        | some decoded => decoded.1
        | none => ch '&') =
        (let (code, rest) := strtol (object.octets.drop i) base
        if 0 ≤ code ∧ code < 256 ∧ peek rest = ch ';' then code.toNat.toUInt8 else ch '&') ∧
      ∀ decoded, found = some decoded → s < decoded.2 ∧ decoded.2 ≤ last + 1 := by
  refine ends_bind.mpr ((strtolAt_ends hlast hlt base hi).mono ?_)
  rintro ⟨code, stop⟩ ⟨rfl, hstart, hstop, hget⟩
  dsimp only at hstart hstop hget ⊢
  by_cases hcode : 0 ≤ (strtol (object.octets.drop i) base).1 ∧
      (strtol (object.octets.drop i) base).1 < 256
  · rw [if_neg (not_not.mpr hcode),
      (object.yields_read (Nat.lt_of_le_of_lt hstop hlt)).bind_ends_iff, hget]
    by_cases hsemicolon : peek (strtol (object.octets.drop i) base).2 = ch ';'
    · rw [if_pos hsemicolon, if_pos ⟨hcode.1, hcode.2, hsemicolon⟩]
      refine ends_pure.mpr ⟨rfl, ?_⟩
      rintro decoded ⟨⟩
      dsimp only
      omega
    · rw [if_neg hsemicolon, if_neg fun h => hsemicolon h.2.2]
      exact ends_pure.mpr ⟨rfl, by simp⟩
  · rw [if_pos hcode, if_neg fun h => hcode ⟨h.1, h.2.1⟩]
    exact ends_pure.mpr ⟨rfl, by simp⟩

theorem numericEntity_ends (hs : s + 2 ≤ last) :
    (numericEntity object s).Ends fun found =>
      (match found with
        | some decoded => decoded.1
        | none => ch '&') =
        (let (code, rest) :=
          if (object.octets.drop s).getD 2 0 = ch 'x' then
            strtol ((object.octets.drop s).drop 3) 16
          else strtol ((object.octets.drop s).drop 2) 10
        if 0 ≤ code ∧ code < 256 ∧ peek rest = ch ';' then code.toNat.toUInt8 else ch '&') ∧
      ∀ decoded, found = some decoded → s < decoded.2 ∧ decoded.2 ≤ last + 1 := by
  rw [numericEntity, (object.yields_read (Nat.lt_of_le_of_lt hs hlt)).bind_ends_iff,
    getD_drop_octets, List.drop_drop, List.drop_drop]
  by_cases hx : object.get (s + 2) = ch 'x'
  · have hne : s + 2 ≠ last := by
      rintro rfl
      rw [hlast] at hx
      exact absurd hx (by decide)
    rw [if_pos hx, if_pos hx]
    exact entityNumber_ends hlast hlt 16 (by omega) (by omega)
  · rw [if_neg hx, if_neg hx]
    exact entityNumber_ends hlast hlt 10 (by omega) hs

/-- A round reads up to the last semicolon at most, and goes on behind what it has read. -/
theorem decodeOctet_ends (hs : s ≤ last) : (decodeOctet object s (object.get s)).Ends fun r =>
    s < r.2 ∧ r.2 ≤ last + 1 ∧
      (object.get s = ch '&' → r.1 = entityOctet (object.octets.drop s)) := by
  rw [decodeOctet]
  by_cases hc : object.get s = ch '&'
  · have hne : s ≠ last := by
      rintro rfl
      rw [hlast] at hc
      exact absurd hc (by decide)
    have hone : object.get (s + 1) = (object.octets.drop s).getD 1 0 :=
      (getD_drop_octets object s 1).symm
    rw [if_neg (not_not.mpr hc),
      (object.yields_read (Nat.lt_of_le_of_lt (by omega) hlt)).bind_ends_iff]
    dsimp only
    by_cases hnumeric : object.get (s + 1) = ch '#'
    · have hne' : s + 1 ≠ last := by
        intro h
        rw [h, hlast] at hnumeric
        exact absurd hnumeric (by decide)
      rw [if_pos hnumeric, ends_bind]
      refine (numericEntity_ends hlast hlt (s := s) (by omega)).mono ?_
      rintro found ⟨hoctet, hbehind⟩
      rw [hone] at hnumeric
      rw [entityOctet, if_pos hnumeric, ← hoctet, hc]
      cases found with
      | none => exact ends_pure.mpr ⟨Nat.lt_succ_self s, by omega, fun _ => rfl⟩
      | some decoded =>
          obtain ⟨hlow, hhigh⟩ := hbehind decoded rfl
          exact ends_pure.mpr ⟨hlow, hhigh, fun _ => rfl⟩
    · rw [if_neg hnumeric, ends_bind]
      refine (findEntity_ends hlast hlt entities_end hs).mono ?_
      rintro found ⟨rfl, hbehind⟩
      rw [hone] at hnumeric
      rw [entityOctet, if_neg hnumeric, hc]
      cases hfind : entities.find? fun entity => ascii entity.1 <+: object.octets.drop s with
      | none =>
          rw [hfind] at hbehind
          exact ends_pure.mpr ⟨Nat.lt_succ_self s, by omega, fun _ => rfl⟩
      | some entity =>
          rw [hfind] at hbehind
          obtain ⟨hlow, hhigh⟩ := hbehind _ rfl
          exact ends_pure.mpr ⟨Nat.lt_add_of_pos_right hlow, hhigh, fun _ => rfl⟩
  · rw [if_pos hc]
    exact ends_pure.mpr ⟨Nat.lt_succ_self s, Nat.succ_le_succ hs, fun h => absurd h hc⟩

end Object

section InPlace

variable {n : Nat} {object : Buffer n} {source last : Nat}

/-- Where the loop is when it decodes in place: what is written has not caught up with what is
read, and the first octet written is what the entity stands for. -/
structure InPlace (object : Buffer n) (source last : Nat) (s : Buffer n × Nat × Nat) : Prop where
  start : source ≤ s.2.2
  written : s.2.2 ≤ s.2.1
  behind : s.2.1 ≤ last + 1
  unread : s.1.octets.drop s.2.1 = object.octets.drop s.2.1
  front : s.1.octets.take source = object.octets.take source
  first : source < s.2.2 → s.1.get source = entityOctet (object.octets.drop source)
  begins : s.2.2 = source → s.2.1 = source

/-- What `htmlEntityDecode` leaves. -/
def Decoded (object : Buffer n) (source last : Nat) (r : Buffer n × Nat) : Prop :=
  0 < r.2 ∧ source + r.2 ≤ last + 1 ∧
    r.1.octets.take source = object.octets.take source ∧
    r.1.get source = entityOctet (object.octets.drop source)

theorem InPlace.decoded {s : Buffer n × Nat × Nat} (h : InPlace object source last s)
    (hstop : source < s.2.2) : Decoded object source last (s.1, s.2.2 - source) := by
  have hstart := h.start
  have hwritten := h.written
  have hbehind := h.behind
  exact ⟨Nat.sub_pos_of_lt hstop, by omega, h.front, h.first hstop⟩

theorem InPlace.next (hlt : last < n) (hamp : object.get source = ch '&') {o : Buffer n}
    {s w s' : Nat} {code : Octet} (h : InPlace object source last (o, s, w)) (hs : s ≤ last)
    (hlow : s < s') (hhigh : s' ≤ last + 1)
    (hcode : o.get s = ch '&' → code = entityOctet (o.octets.drop s)) :
    InPlace object source last (o.splice w [code], s', w + 1) := by
  have hstart : source ≤ w := h.start
  have hwritten : w ≤ s := h.written
  have hunread : o.octets.drop s = object.octets.drop s := h.unread
  have hroom : w + [code].length ≤ n := by
    rw [List.length_singleton]
    omega
  refine ⟨Nat.le_succ_of_le hstart, Nat.lt_of_le_of_lt hwritten hlow, hhigh, ?_, ?_, ?_, ?_⟩
  · have hskip : o.octets.drop s' = object.octets.drop s' := by
      rw [← Nat.add_sub_cancel' (Nat.le_of_lt hlow), ← List.drop_drop, hunread, List.drop_drop]
    rw [Buffer.drop_splice o (Nat.lt_of_le_of_lt hwritten hlow) hroom]
    exact hskip
  · rw [Buffer.take_splice o hstart hroom]
    exact h.front
  · intro _
    rcases Nat.eq_or_lt_of_le hstart with heq | hlt'
    · -- The first octet.
      obtain rfl : s = source := h.begins heq.symm
      dsimp only
      rw [← heq, Buffer.get_splice_self o (by omega), ← hunread]
      exact hcode ((Buffer.get_eq_of_drop_eq hunread (Nat.le_refl _)).trans hamp)
    · have htake := Buffer.take_splice o (Nat.succ_le_of_lt hlt') hroom
      exact (Buffer.get_eq_of_take_eq htake (Nat.lt_succ_self _)).trans (h.first hlt')
  · intro hw
    dsimp only at hw
    omega

variable (hlast : object.get last = ch ';') (hlt : last < n) (hamp : object.get source = ch '&')
include hlast hlt hamp

theorem decodeRound_ends {s : Buffer n × Nat × Nat} (hsource : source ≤ last)
    (h : InPlace object source last s) :
    (decodeRound source (last + 1 - source) source (last + 1 - source) s).Ends
      (Round (InPlace object source last) (fun s => last + 1 - s.2.1)
        (fun r => source < r.2 ∧ Decoded object source last (r.1, r.2 - source)) s) := by
  obtain ⟨o, s, w⟩ := s
  have hstart : source ≤ w := h.start
  have hwritten : w ≤ s := h.written
  have hbegins : w = source → s = source := h.begins
  have hdone : source < w →
      source < w ∧ Decoded object source last (o, w - source) := fun hstop =>
    ⟨hstop, h.decoded hstop⟩
  rw [decodeRound]
  by_cases hend : last + 1 - source ≤ s - source
  · rw [if_pos hend]
    refine ends_pure.mpr (hdone ?_)
    have hbehind : s ≤ last + 1 := h.behind
    by_contra hstop
    have hs := hbegins (by omega)
    omega
  · have hs : s ≤ last := by omega
    have hunread : o.octets.drop s = object.octets.drop s := h.unread
    rw [if_neg hend, (o.yields_read (Nat.lt_of_le_of_lt hs hlt)).bind_ends_iff]
    by_cases hstop : o.get s = 0 ∨ last + 1 - source ≤ w - source
    · rw [if_pos hstop]
      refine ends_pure.mpr (hdone ?_)
      by_contra hw
      have hbegin := hbegins (by omega)
      rcases hstop with hnul | hfull
      · rw [Buffer.get_eq_of_drop_eq hunread (Nat.le_refl _), hbegin, hamp] at hnul
        exact absurd hnul (by decide)
      · omega
    · rw [if_neg hstop, ends_bind]
      have hlast' : o.get last = ch ';' := (Buffer.get_eq_of_drop_eq hunread hs).trans hlast
      refine (decodeOctet_ends hlast' hlt hs).mono ?_
      rintro ⟨code, s'⟩ ⟨hlow, hhigh, hcode⟩
      dsimp only at hlow hhigh hcode ⊢
      have hroom : w + [code].length ≤ n := by
        rw [List.length_singleton]
        omega
      rw [(o.yields_write [code] hroom).bind_ends_iff]
      refine ends_pure.mpr ⟨h.next hlt hamp hs hlow hhigh hcode, ?_⟩
      dsimp only
      omega

/-- Decoding what lies between an ampersand and a semicolon stays there, and begins with the octet
that the entity stands for. -/
theorem htmlEntityDecode_ends (hsource : source ≤ last) :
    (htmlEntityDecode object source (last + 1 - source) source (last + 1 - source)).Ends
      (Decoded object source last) := by
  have hbegin : InPlace object source last (object, source, source) :=
    ⟨Nat.le_refl _, Nat.le_refl _, Nat.le_succ_of_le hsource, rfl, rfl,
      fun h => absurd h (Nat.lt_irrefl _), fun _ => rfl⟩
  have hloop := loop_ends (fun s : Buffer n × Nat × Nat => last + 1 - s.2.1)
    (fun s hs => decodeRound_ends hlast hlt hamp hsource hs)
    hbegin (Nat.lt_succ_self (last + 1 - source))
  rw [htmlEntityDecode, if_neg (by omega), ends_bind]
  refine hloop.mono ?_
  rintro ⟨o, w⟩ ⟨hstop, hpos, hbehind, hfront, hfirst⟩
  dsimp only at hstop hpos hbehind hfront hfirst ⊢
  split
  next hroom =>
    have hw : w + [(0 : Octet)].length ≤ n := by
      rw [List.length_singleton]
      omega
    rw [(o.yields_write [0] hw).bind_ends_iff]
    refine ends_pure.mpr ⟨hpos, hbehind, ?_, ?_⟩
    · rw [Buffer.take_splice o (Nat.le_of_lt hstop) hw]
      exact hfront
    · have htake := Buffer.take_splice o (Nat.succ_le_of_lt hstop) hw
      exact (Buffer.get_eq_of_take_eq htake (Nat.lt_succ_self _)).trans hfirst
  next => exact ends_pure.mpr ⟨hpos, hbehind, hfront, hfirst⟩

end InPlace

end Snert
