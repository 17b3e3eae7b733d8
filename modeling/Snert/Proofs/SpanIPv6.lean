/-
Module: Snert.Proofs.SpanIPv6
Purpose: What `spanIPv6` accepts. It reads fields with `strtol` up to where no colon follows, and counts
  those that are not empty. The grammar asks for plain hexadecimal groups, and for a colon at either
  end only as part of a pair.
Trusted boundary: none
Main exports: spanIP_accepts_iff
-/
import Snert.Proofs.ParseIPv6Bounds
import Snert.Proofs.SpanIPv4

namespace Snert

open CModel

/-! ### The fields that are read -/

/-- The fields of a text that a colon follows, and what is left behind them. -/
structure FieldScan where
  fields : List (List Octet)
  ip : List Octet
deriving DecidableEq, Repr

/-- Read fields one after another, up to one that no colon follows. -/
def readFields : Nat → List Octet → FieldScan
  | 0, s => ⟨[], s⟩
  | rounds + 1, s =>
      let stop := (strtol s 16).2
      if peek stop = ch ':' then
        let scan := readFields rounds stop.tail
        ⟨s.take (s.length - stop.length) :: scan.fields, scan.ip⟩
      else ⟨[], s⟩

/-- The fields of a whole string. -/
def fieldsIn (s : List Octet) : FieldScan :=
  readFields (s.length + 1) s

namespace FieldScan

/-- Where the last number that is read stops. -/
def stop (scan : FieldScan) : List Octet :=
  (strtol scan.ip 16).2

/-- The text of the last number. -/
def last (scan : FieldScan) : List Octet :=
  scan.ip.take (scan.ip.length - scan.stop.length)

/-- The last number stops on a dot. -/
def Quad (scan : FieldScan) : Prop :=
  peek scan.stop = ch '.'

instance (scan : FieldScan) : Decidable scan.Quad :=
  inferInstanceAs (Decidable (_ = _))

/-- How many pairs of colons there are. -/
def pairs (scan : FieldScan) : Nat :=
  scan.fields.tail.count []

/-- The fields that the scanner accepts. -/
structure Accepted (scan : FieldScan) : Prop where
  fields_ok : ∀ f ∈ scan.fields, f = [] ∨ IsGroup f
  last_ok : 0 ≤ (strtol scan.ip 16).1 ∧ (strtol scan.ip 16).1 ≤ 0xffff
  pairs_le : scan.pairs ≤ 1
  quad : scan.Quad →
    groupCount scan.fields ≤ (if scan.pairs = 1 then 4 else 6) ∧ Dotted (numbersIn scan.ip)
  groups : ¬ scan.Quad →
    if scan.pairs = 1 then groupCount (scan.fields ++ [scan.last]) ≤ 6
    else groupCount (scan.fields ++ [scan.last]) = 8

/-- What is read of the text behind the fields. -/
def size (scan : FieldScan) : Nat :=
  if scan.Quad then spanIPv4 scan.ip else scan.last.length

end FieldScan

theorem readFields_stop {s : List Octet} (h : peek (strtol s 16).2 ≠ ch ':') (rounds : Nat) :
    readFields rounds s = ⟨[], s⟩ := by
  cases rounds with
  | zero => rfl
  | succ rounds => rw [readFields, if_neg h]

theorem readFields_field {s : List Octet} (h : peek (strtol s 16).2 = ch ':') : ∃ f u,
    s = f ++ ch ':' :: u ∧ (strtol s 16).2 = ch ':' :: u ∧
      (0 ≤ (strtol s 16).1 ∧ (strtol s 16).1 ≤ 0xffff ↔ f = [] ∨ IsGroup f) ∧
      ∀ rounds, readFields (rounds + 1) s =
        ⟨f :: (readFields rounds u).fields, (readFields rounds u).ip⟩ := by
  have hsplit := take_append_strtol s 16
  have hfields : ∀ rounds, readFields (rounds + 1) s =
      ⟨s.take (s.length - (strtol s 16).2.length) :: (readFields rounds (strtol s 16).2.tail).fields,
        (readFields rounds (strtol s 16).2.tail).ip⟩ := fun rounds => by
    rw [readFields, if_pos h]
  generalize s.take (s.length - (strtol s 16).2.length) = f at hsplit hfields
  cases hstop : (strtol s 16).2 with
  | nil =>
      rw [hstop] at h
      exact absurd h (by decide)
  | cons c u =>
      rw [hstop, peek_cons] at h
      subst h
      rw [hstop] at hsplit hfields
      refine ⟨f, u, hsplit.symm, rfl, ⟨fun hrange => ?_, fun hok => ?_⟩, hfields⟩
      · obtain ⟨g, hg, hok, -⟩ := field_of_stop (by rw [hstop]; rfl) hrange
        rw [hstop, List.tail_cons] at hg
        have hfg : f = g := List.append_cancel_right (hsplit.trans hg)
        rw [hfg]
        exact hok
      · obtain ⟨hread, hlow, hhigh⟩ := strtol_field hok u
        rw [← hsplit, hread]
        exact ⟨hlow, hhigh⟩

theorem strtol_colon (r : List Octet) : (strtol (ch ':' :: r) 16).2 = ch ':' :: r :=
  congrArg Prod.snd (strtol_append_delimiter delimiter_colon 16 [] r)

theorem head_readFields {u : List Octet} {rounds : Nat} (h : u.length < rounds) :
    peek u = ch ':' ↔ (readFields rounds u).fields.head? = some [] := by
  obtain ⟨rounds, rfl⟩ : ∃ k, rounds = k + 1 := ⟨rounds - 1, by omega⟩
  by_cases hcolon : peek (strtol u 16).2 = ch ':'
  · obtain ⟨f, v, hu, hstop, -, hfields⟩ := readFields_field hcolon
    rw [hfields, List.head?_cons, Option.some.injEq]
    constructor
    · intro hpeek
      cases f with
      | nil => rfl
      | cons c f =>
          rw [List.cons_append] at hu
          rw [hu, peek_cons] at hpeek
          rw [hu, hpeek, strtol_colon, List.cons.injEq] at hstop
          have hlength := congrArg List.length hstop.2
          rw [List.length_append, List.length_cons] at hlength
          omega
    · rintro rfl
      rw [hu]
      rfl
  · rw [readFields_stop hcolon]
    refine iff_of_false (fun hpeek => hcolon ?_) nofun
    cases u with
    | nil => exact absurd hpeek (by decide)
    | cons c u =>
        rw [peek_cons] at hpeek
        rw [hpeek, strtol_colon]
        rfl

theorem count_nil_eq (fields : List (List Octet)) : fields.count [] =
    (if fields.head? = some [] then 1 else 0) + fields.tail.count [] := by
  cases fields with
  | nil => rfl
  | cons f fields =>
      rw [List.count_cons, List.head?_cons, List.tail_cons, Nat.add_comm]
      simp

/-- The loop reads the fields: it ends at the last number, unless a field is out of range or there is a
second pair of colons. -/
theorem spanGroups_eq (rounds : Nat) : ∀ (s : List Octet) (groups : Nat) (compressed : Bool),
    s.length < rounds → spanGroups rounds s groups compressed =
      if (∀ f ∈ (readFields rounds s).fields, f = [] ∨ IsGroup f) ∧
          (0 ≤ (strtol (readFields rounds s).ip 16).1 ∧
            (strtol (readFields rounds s).ip 16).1 ≤ 0xffff) ∧
          (readFields rounds s).pairs + (if compressed then 1 else 0) ≤ 1 then
        some ⟨groups + groupCount (readFields rounds s).fields +
            fieldCount (readFields rounds s).ip (readFields rounds s).stop,
          compressed || (readFields rounds s).pairs = 1, (readFields rounds s).ip,
          (readFields rounds s).stop⟩
      else none := by
  induction rounds with
  | zero => exact fun s _ _ h => absurd h (Nat.not_lt_zero _)
  | succ rounds ih =>
      intro s groups compressed hlen
      have hcounted : (if (strtol s 16).2.length < s.length ∧ peek (strtol s 16).2 ≠ ch '.' then
          groups + 1 else groups) = groups + fieldCount s (strtol s 16).2 := by
        rw [fieldCount]
        split <;> rfl
      by_cases hcolon : peek (strtol s 16).2 = ch ':'
      · obtain ⟨f, u, hs, hstop, hrange, hfields⟩ := readFields_field hcolon
        have hulen : u.length < rounds := by
          rw [hs, List.length_append, List.length_cons] at hlen
          omega
        have hcount : fieldCount s (strtol s 16).2 = if f = [] then 0 else 1 := by
          rw [fieldCount, hstop, peek_cons, hs, List.length_append]
          by_cases hf : f = []
          · simp [hf]
          · have hpos := List.length_pos_of_ne_nil hf
            rw [if_pos ⟨by omega, by decide⟩, if_neg hf]
        have hpairs : (readFields (rounds + 1) s).pairs =
            (if peek u = ch ':' then 1 else 0) + (readFields rounds u).pairs := by
          rw [FieldScan.pairs, hfields, List.tail_cons, count_nil_eq, FieldScan.pairs]
          simp only [head_readFields hulen]
        have hgroups : groupCount (f :: (readFields rounds u).fields) =
            (if f = [] then 0 else 1) + groupCount (readFields rounds u).fields := by
          rw [groupCount, List.countP_cons, Nat.add_comm]
          by_cases hf : f = [] <;> simp [hf, groupCount]
        rw [spanGroups, hpairs]
        dsimp only
        rw [hcounted, hcount]
        by_cases hok : f = [] ∨ IsGroup f
        · have hword := hrange.mpr hok
          rw [if_neg (by omega), hstop, peek_cons, List.tail_cons, if_neg (not_not.mpr rfl)]
          simp only [hfields, FieldScan.stop, List.forall_mem_cons, hok, true_and, hgroups,
            ← Nat.add_assoc]
          by_cases hpair : peek u = ch ':'
          · rw [if_pos hpair, if_pos hpair]
            cases compressed with
            | true =>
                rw [if_pos rfl, if_pos rfl, if_neg fun h => by omega]
            | false =>
                rw [if_neg Bool.false_ne_true, ih u _ true hulen]
                by_cases hnone : (readFields rounds u).pairs = 0
                · simp [hnone, FieldScan.stop]
                · rw [if_neg fun h => hnone (Nat.le_zero.mp (Nat.le_of_succ_le_succ h.2.2)),
                    if_neg fun h => hnone (by
                      have hle : 1 + (readFields rounds u).pairs + 0 ≤ 1 := h.2.2
                      omega)]
          · rw [if_neg hpair, if_neg hpair, ih u _ compressed hulen]
            simp only [Nat.zero_add]
            rfl
        · have hword := mt hrange.mp hok
          rw [if_pos (by omega), if_neg]
          rintro ⟨hfs, -⟩
          rw [hfields] at hfs
          exact hok (hfs f List.mem_cons_self)
      · rw [spanGroups, readFields_stop hcolon]
        dsimp only
        rw [hcounted]
        have hnone : (FieldScan.mk [] s).pairs = 0 := rfl
        by_cases hword : 0 ≤ (strtol s 16).1 ∧ (strtol s 16).1 ≤ 0xffff
        · have hle : (FieldScan.mk [] s).pairs + (if compressed = true then 1 else 0) ≤ 1 := by
            rw [hnone]
            split <;> omega
          rw [if_neg (by omega), if_pos hcolon, if_pos ⟨fun _ hf => absurd hf List.not_mem_nil, hword, hle⟩]
          simp [hnone, FieldScan.stop, groupCount]
        · rw [if_pos (by omega), if_neg fun h => hword h.2.1]

theorem readFields_append (rounds : Nat) : ∀ s : List Octet,
    s = fieldsText (readFields rounds s).fields ++ (readFields rounds s).ip := by
  induction rounds with
  | zero => exact fun s => rfl
  | succ rounds ih =>
      intro s
      by_cases hcolon : peek (strtol s 16).2 = ch ':'
      · obtain ⟨f, u, hs, -, -, hfields⟩ := readFields_field hcolon
        have hcons : fieldsText (f :: (readFields rounds u).fields) =
            f ++ [ch ':'] ++ fieldsText (readFields rounds u).fields := rfl
        rw [hfields, hcons, List.append_assoc, ← ih u, List.append_assoc]
        exact hs
      · rw [readFields_stop hcolon]
        rfl

theorem FieldScan.last_append (scan : FieldScan) : scan.last ++ scan.stop = scan.ip :=
  take_append_strtol scan.ip 16

/-- The length of what is read. -/
def FieldScan.length (scan : FieldScan) : Nat :=
  (fieldsText scan.fields).length + scan.size

theorem FieldScan.groups_eq {scan : FieldScan} (h : ¬ scan.Quad) :
    groupCount scan.fields + fieldCount scan.ip scan.stop =
      groupCount (scan.fields ++ [scan.last]) := by
  have hlen := congrArg List.length scan.last_append
  rw [List.length_append] at hlen
  rw [groupCount_concat, fieldCount]
  by_cases hlast : scan.last = []
  · rw [hlast, List.length_nil] at hlen
    rw [if_neg fun hc => by omega, if_pos hlast]
  · have hpos := List.length_pos_of_ne_nil hlast
    rw [if_pos ⟨by omega, h⟩, if_neg hlast]

/-- The counts are within the limits. -/
def FieldScan.Counted (scan : FieldScan) : Prop :=
  if scan.Quad then
    groupCount scan.fields ≤ (if scan.pairs = 1 then 4 else 6) ∧ Dotted (numbersIn scan.ip)
  else if scan.pairs = 1 then groupCount (scan.fields ++ [scan.last]) ≤ 6
  else groupCount (scan.fields ++ [scan.last]) = 8

theorem spanIPv6_loop {s : List Octet} (hfields : ∀ f ∈ (fieldsIn s).fields, f = [] ∨ IsGroup f)
    (hlast : 0 ≤ (strtol (fieldsIn s).ip 16).1 ∧ (strtol (fieldsIn s).ip 16).1 ≤ 0xffff)
    (hpairs : (fieldsIn s).pairs ≤ 1) :
    ((fieldsIn s).Counted → spanIPv6 s = (fieldsIn s).length) ∧
      (¬ (fieldsIn s).Counted → spanIPv6 s = 0) := by
  have hlen : s.length = (fieldsText (fieldsIn s).fields).length + (fieldsIn s).ip.length := by
    rw [← List.length_append]
    exact congrArg List.length (readFields_append (s.length + 1) s)
  have hstop : (fieldsIn s).last.length + (fieldsIn s).stop.length = (fieldsIn s).ip.length := by
    rw [← List.length_append, (fieldsIn s).last_append]
  have hspan : spanIPv6 s = spanEnd s ⟨0 + groupCount (fieldsIn s).fields +
      fieldCount (fieldsIn s).ip (fieldsIn s).stop, decide ((fieldsIn s).pairs = 1), (fieldsIn s).ip,
        (fieldsIn s).stop⟩ := by
    rw [spanIPv6, spanGroups_eq _ s 0 false (Nat.lt_succ_self _), if_pos ⟨hfields, hlast, hpairs⟩]
    rfl
  rw [hspan, spanEnd, FieldScan.Counted, FieldScan.length, FieldScan.size]
  dsimp only
  generalize hscan : fieldsIn s = scan at *
  by_cases hquad : scan.Quad
  · have hdot : peek scan.stop = ch '.' := hquad
    have hnone : fieldCount scan.ip scan.stop = 0 := if_neg fun h => h.2 hdot
    have hpos := spanIPv4_pos_iff scan.ip
    rw [if_pos hdot, if_pos hquad, if_pos hquad, hnone, ← hpos]
    by_cases hone : scan.pairs = 1
    · simp only [hone, decide_true, if_true, true_and, not_true_eq_false, false_and, if_false]
      split
      · omega
      · split
        · omega
        · omega
    · simp only [hone, decide_false, if_false, Bool.false_eq_true, not_false_eq_true, false_and, true_and]
      split
      · omega
      · split
        · omega
        · omega
  · have hdot : ¬ peek scan.stop = ch '.' := hquad
    have hgroups := scan.groups_eq hquad
    rw [if_neg hdot, if_neg hquad, if_neg hquad, Nat.zero_add, hgroups]
    by_cases hone : scan.pairs = 1
    · simp only [hone, decide_true, if_true, true_and, not_true_eq_false, false_and, if_false]
      split
      · omega
      · omega
    · simp only [hone, decide_false, if_false, Bool.false_eq_true, not_false_eq_true, false_and, true_and]
      split
      · omega
      · omega

theorem spanIPv6_accepted {s : List Octet} (h : (fieldsIn s).Accepted) :
    spanIPv6 s = (fieldsIn s).length := by
  refine (spanIPv6_loop h.fields_ok h.last_ok h.pairs_le).1 ?_
  rw [FieldScan.Counted]
  split
  · exact h.quad ‹_›
  · exact h.groups ‹_›

theorem spanIPv6_not_accepted {s : List Octet} (h : ¬ (fieldsIn s).Accepted) : spanIPv6 s = 0 := by
  by_cases hloop : (∀ f ∈ (fieldsIn s).fields, f = [] ∨ IsGroup f) ∧
      (0 ≤ (strtol (fieldsIn s).ip 16).1 ∧ (strtol (fieldsIn s).ip 16).1 ≤ 0xffff) ∧
      (fieldsIn s).pairs ≤ 1
  · refine (spanIPv6_loop hloop.1 hloop.2.1 hloop.2.2).2 fun hcounted => h ?_
    rw [FieldScan.Counted] at hcounted
    refine ⟨hloop.1, hloop.2.1, hloop.2.2, fun hquad => ?_, fun hquad => ?_⟩
    · rwa [if_pos hquad] at hcounted
    · rwa [if_neg hquad] at hcounted
  · rw [spanIPv6, spanGroups_eq _ s 0 false (Nat.lt_succ_self _), if_neg]
    exact hloop

/-! ### Texts with colons between them -/

theorem colonText_cons (f : List Octet) {parts : List (List Octet)} (h : parts ≠ []) :
    colonText (f :: parts) = f ++ ch ':' :: colonText parts := by
  cases parts with
  | nil => exact absurd rfl h
  | cons g parts => simp [colonText, List.intercalate]

theorem colonText_singleton (f : List Octet) : colonText [f] = f := by
  simp [colonText, List.intercalate]

theorem colonText_concat (fields : List (List Octet)) (last : List Octet) :
    colonText (fields ++ [last]) = fieldsText fields ++ last := by
  induction fields with
  | nil => exact colonText_singleton last
  | cons f fields ih =>
      rw [List.cons_append, colonText_cons f (by simp), ih]
      simp [fieldsText]

theorem colonText_append {front back : List (List Octet)} (hf : front ≠ []) (hb : back ≠ []) :
    colonText (front ++ back) = colonText front ++ ch ':' :: colonText back := by
  induction front with
  | nil => exact absurd rfl hf
  | cons f front ih =>
      by_cases hnil : front = []
      · rw [hnil, List.singleton_append, colonText_cons f hb, colonText_singleton]
      · rw [List.cons_append, colonText_cons f (by simp [hnil]), ih hnil, colonText_cons f hnil,
          List.append_assoc, List.cons_append]

theorem colonText_inj {parts parts' : List (List Octet)} (h : ∀ f ∈ parts, ch ':' ∉ f)
    (h' : ∀ f ∈ parts', ch ':' ∉ f) (hne : parts ≠ []) (hne' : parts' ≠ [])
    (heq : colonText parts = colonText parts') : parts = parts' := by
  rw [← List.splitOn_intercalate (ch ':') h hne, ← List.splitOn_intercalate (ch ':') h' hne']
  exact congrArg _ heq

/-- The groups before or behind a pair of colons, an empty one in the place of none. -/
def groupsOrNone (groups : List (List Octet)) : List (List Octet) :=
  if groups = [] then [[]] else groups

theorem groupsOrNone_ne_nil (groups : List (List Octet)) : groupsOrNone groups ≠ [] := by
  rw [groupsOrNone]
  split
  · exact List.cons_ne_nil _ _
  · assumption

theorem colonText_groupsOrNone (groups : List (List Octet)) :
    colonText (groupsOrNone groups) = colonText groups := by
  rw [groupsOrNone]
  split
  · rename_i hnil
    rw [hnil]
    rfl
  · rfl

theorem colonText_pair (front : List (List Octet)) {back : List (List Octet)} (hb : back ≠ []) :
    colonText (groupsOrNone front ++ [] :: back) =
      colonText front ++ [ch ':', ch ':'] ++ colonText back := by
  rw [colonText_append (groupsOrNone_ne_nil front) (List.cons_ne_nil _ _), colonText_cons [] hb,
    colonText_groupsOrNone]
  simp

/-! ### Plain fields -/

namespace FieldScan

/-- The text of the last part: a dotted quad, or the last group. -/
def lastPart (scan : FieldScan) : List Octet :=
  if scan.Quad then scan.ip.take (spanIPv4 scan.ip) else scan.last

/-- The groups are written in one to four hexadecimal digits, a colon at either end is one of a pair,
and a dotted quad has four plain numbers, with six groups before it when there is no pair of colons. -/
structure Plain (scan : FieldScan) : Prop where
  fields_plain : ∀ f ∈ scan.fields, f = [] ∨ IPv6Hex f
  first_colon : scan.fields.head? = some [] → scan.fields[1]? = some []
  quad_plain : scan.Quad →
    (numbersIn scan.ip).length = 4 ∧ ∀ n ∈ numbersIn scan.ip, Snum n.text
  quad_full : scan.Quad → scan.pairs = 0 → groupCount scan.fields = 6
  last_plain : ¬ scan.Quad → scan.last = [] ∨ IPv6Hex scan.last
  last_colon : ¬ scan.Quad → scan.last = [] → scan.fields.getLast? = some []

end FieldScan

theorem groupCount_of_nonempty {groups : List (List Octet)} (h : [] ∉ groups) :
    groupCount groups = groups.length := by
  rw [groupCount, List.countP_eq_length]
  intro f hf
  have hne : f ≠ [] := fun hnil => h (hnil ▸ hf)
  simpa using hne

theorem groupCount_append (groups groups' : List (List Octet)) :
    groupCount (groups ++ groups') = groupCount groups + groupCount groups' :=
  List.countP_append

theorem groupCount_groupsOrNone {groups : List (List Octet)} (h : [] ∉ groups) :
    groupCount (groupsOrNone groups) = groups.length := by
  rw [groupsOrNone]
  split
  · rename_i hnil
    rw [hnil]
    rfl
  · exact groupCount_of_nonempty h

theorem fields_of_pair {fields : List (List Octet)} (hpair : fields.tail.count [] = 1)
    (hfirst : fields.head? = some [] → fields[1]? = some []) : ∃ front back,
      fields = groupsOrNone front ++ [] :: back ∧ [] ∉ front ∧ [] ∉ back := by
  cases fields with
  | nil => cases hpair
  | cons f fields =>
      rw [List.tail_cons] at hpair
      have hmem : [] ∈ fields := List.count_pos_iff.mp (by omega)
      obtain ⟨front, back, rfl⟩ := List.append_of_mem hmem
      rw [List.count_append, List.count_cons_self] at hpair
      have hfront : [] ∉ front := List.count_eq_zero.mp (by omega)
      have hback : [] ∉ back := List.count_eq_zero.mp (by omega)
      by_cases hf : f = []
      · subst hf
        have hsecond := hfirst rfl
        cases front with
        | nil => exact ⟨[], back, rfl, List.not_mem_nil, hback⟩
        | cons g front =>
            have hg : g = [] := by simpa using hsecond
            exact absurd (hg ▸ List.mem_cons_self) hfront
      · refine ⟨f :: front, back, rfl, ?_, hback⟩
        rw [List.mem_cons, not_or]
        exact ⟨Ne.symm hf, hfront⟩

theorem fields_of_no_pair {fields : List (List Octet)} (hpair : fields.tail.count [] = 0)
    (hfirst : fields.head? = some [] → fields[1]? = some []) : [] ∉ fields := by
  cases fields with
  | nil => exact List.not_mem_nil
  | cons f fields =>
      have htail : [] ∉ fields := List.count_eq_zero.mp hpair
      rw [List.mem_cons, not_or]
      refine ⟨fun hf => ?_, htail⟩
      have hsecond := hfirst (by rw [← hf]; rfl)
      rw [List.getElem?_cons_succ] at hsecond
      exact htail (List.mem_of_getElem? hsecond)

theorem groupCount_pair {front back : List (List Octet)} (hfront : [] ∉ front) (hback : [] ∉ back) :
    groupCount (groupsOrNone front ++ [] :: back) = front.length + back.length := by
  have hcons : groupCount ([] :: back) = groupCount back := by simp [groupCount]
  rw [groupCount_append, groupCount_groupsOrNone hfront, hcons, groupCount_of_nonempty hback]

theorem mem_of_pair {fields front back : List (List Octet)}
    (h : fields = groupsOrNone front ++ [] :: back) : ∀ g ∈ front ++ back, g ∈ fields := by
  intro g hg
  rw [h, List.mem_append, List.mem_cons]
  rcases List.mem_append.mp hg with hg | hg
  · refine .inl ?_
    rw [groupsOrNone, if_neg (List.ne_nil_of_mem hg)]
    exact hg
  · exact .inr (.inr hg)

/-- Plain fields with the counts within the limits are an address. -/
theorem address_of_plain {scan : FieldScan} (h : scan.Accepted) (hplain : scan.Plain) :
    IPv6Addr (colonText (scan.fields ++ [scan.lastPart])) := by
  have hhex : ∀ groups : List (List Octet), [] ∉ groups → (∀ g ∈ groups, g ∈ scan.fields) →
      ∀ g ∈ groups, IPv6Hex g := fun groups hne hsub g hg =>
    (hplain.fields_plain g (hsub g hg)).resolve_left fun hnil => hne (hnil ▸ hg)
  have hpairs := h.pairs_le
  by_cases hquad : scan.Quad
  · obtain ⟨hcount, hdotted⟩ := h.quad hquad
    have hlast : scan.lastPart = scan.ip.take (spanIPv4 scan.ip) := if_pos hquad
    have hliteral : IPv4Literal scan.lastPart := by
      obtain ⟨text, rest, hip, hlen, hliteral, -⟩ :=
        quadAt_of_plain ⟨(hplain.quad_plain hquad).1, hdotted.2⟩ (hplain.quad_plain hquad).2
      rw [hlast, spanIPv4_eq, if_pos hdotted, ← hlen, hip, List.take_left]
      exact hliteral
    by_cases hone : scan.pairs = 1
    · obtain ⟨front, back, hfields, hfront, hback⟩ := fields_of_pair hone hplain.first_colon
      rw [if_pos hone, hfields, groupCount_pair hfront hback] at hcount
      refine .inr (.inr (.inr ⟨front, back, scan.lastPart, hcount, ?_, hliteral, ?_⟩))
      · exact hhex _ (by simp [hfront, hback]) (mem_of_pair hfields)
      · rw [hfields, List.append_assoc, List.cons_append, colonText_pair front (by simp)]
    · have hnone := fields_of_no_pair (by rw [← FieldScan.pairs]; omega) hplain.first_colon
      refine .inr (.inr (.inl ⟨scan.fields, scan.lastPart, ?_, ?_, hliteral, rfl⟩))
      · rw [← groupCount_of_nonempty hnone]
        exact hplain.quad_full hquad (by omega)
      · exact hhex _ hnone fun _ hg => hg
  · have hcount := h.groups hquad
    have hlast : scan.lastPart = scan.last := if_neg hquad
    rw [hlast]
    by_cases hone : scan.pairs = 1
    · obtain ⟨front, back, hfields, hfront, hback⟩ := fields_of_pair hone hplain.first_colon
      rw [if_pos hone, hfields, groupCount_append, groupCount_pair hfront hback] at hcount
      rw [hfields, List.append_assoc, List.cons_append, colonText_pair front (by simp)]
      rcases hplain.last_plain hquad with hnil | hhexlast
      · -- Nothing stands behind the colons.
        have hbacknil : back = [] := by
          cases back with
          | nil => rfl
          | cons g back =>
              have hend := hplain.last_colon hquad hnil
              rw [hfields, List.getLast?_append_cons, List.getLast?_cons_cons] at hend
              exact absurd (List.mem_of_getLast? hend) hback
        rw [hbacknil, List.length_nil] at hcount
        refine .inr (.inl ⟨front, [], ?_, ?_, ?_⟩)
        · rw [List.length_nil]
          omega
        · rw [List.append_nil]
          exact hhex front hfront fun g hg => mem_of_pair hfields g (List.mem_append_left _ hg)
        · rw [hnil, hbacknil]
          rfl
      · have hne : scan.last ≠ [] := fun hnil => by
          rw [hnil] at hhexlast
          exact absurd hhexlast.1 (by decide)
        have hlastone : groupCount [scan.last] = 1 := by simp [groupCount, hne]
        rw [hlastone] at hcount
        refine .inr (.inl ⟨front, back ++ [scan.last], ?_, ?_, rfl⟩)
        · rw [List.length_append, List.length_singleton]
          omega
        · intro g hg
          rw [← List.append_assoc] at hg
          rcases List.mem_append.mp hg with hg | hg
          · exact hhex _ (by simp [hfront, hback]) (mem_of_pair hfields) g hg
          · rw [List.mem_singleton.mp hg]
            exact hhexlast
    · have hnone := fields_of_no_pair (by rw [← FieldScan.pairs]; omega) hplain.first_colon
      rw [if_neg hone] at hcount
      have hne : scan.last ≠ [] := fun hnil =>
        hnone (List.mem_of_getLast? (hplain.last_colon hquad hnil))
      refine .inl ⟨scan.fields ++ [scan.last], ?_, ?_, rfl⟩
      · rw [← groupCount_of_nonempty (by simp [hnone, Ne.symm hne])]
        exact hcount
      · intro g hg
        rcases List.mem_append.mp hg with hg | hg
        · exact hhex _ hnone (fun _ hg => hg) g hg
        · rw [List.mem_singleton.mp hg]
          exact (hplain.last_plain hquad).resolve_left hne

/-! ### The parts of an address -/

/-- What the parts of an address are before the last one. -/
structure PlainFront (front : List (List Octet)) : Prop where
  plain : ∀ f ∈ front, f = [] ∨ IPv6Hex f
  first_colon : front.head? = some [] → front[1]? = some []

/-- What the last part of an address is: a dotted quad, or a group, or empty behind a pair of colons. -/
def PlainLast (front : List (List Octet)) (last : List Octet) : Prop :=
  (IPv4Literal last ∧ (front.tail.count [] = 0 → groupCount front = 6)) ∨
    ((last = [] ∨ IPv6Hex last) ∧ (last = [] → front.getLast? = some []))

theorem IPv6Hex.ne_nil {f : List Octet} (h : IPv6Hex f) : f ≠ [] :=
  List.ne_nil_of_length_pos h.1

theorem plainFront_of_hex {front : List (List Octet)} (h : ∀ f ∈ front, IPv6Hex f) :
    PlainFront front :=
  ⟨fun f hf => .inr (h f hf), fun hhead =>
    absurd rfl (h [] (List.mem_of_head? hhead)).ne_nil⟩

theorem plainFront_of_pair {front back : List (List Octet)} (h : ∀ f ∈ front ++ back, IPv6Hex f) :
    PlainFront (groupsOrNone front ++ [] :: back) := by
  refine ⟨fun f hf => ?_, fun hhead => ?_⟩
  · rw [groupsOrNone] at hf
    rcases List.mem_append.mp hf with hf | hf
    · split at hf
      · exact .inl (List.mem_singleton.mp hf)
      · exact .inr (h f (List.mem_append_left _ hf))
    · rcases List.mem_cons.mp hf with hf | hf
      · exact .inl hf
      · exact .inr (h f (List.mem_append_right _ hf))
  · cases front with
    | nil => rfl
    | cons g front =>
        have hg : g = [] := by simpa [groupsOrNone] using hhead
        exact absurd hg (h g (by simp)).ne_nil

theorem parts_of_address {text : List Octet} (h : IPv6Addr text) : ∃ front last,
    text = colonText (front ++ [last]) ∧ PlainFront front ∧ PlainLast front last := by
  rcases h with ⟨groups, hlen, hhex, rfl⟩ | ⟨front, back, -, hhex, rfl⟩ |
    ⟨groups, quad, hlen, hhex, hquad, rfl⟩ | ⟨front, back, quad, -, hhex, hquad, rfl⟩
  · obtain ⟨front, last, rfl⟩ := (List.eq_nil_or_concat groups).resolve_left fun hnil => by
      rw [hnil] at hlen
      cases hlen
    have hlast := hhex last (by simp)
    exact ⟨front, last, by simp, plainFront_of_hex fun f hf => hhex f (by simp [hf]),
      .inr ⟨.inr hlast, fun hnil => absurd hnil hlast.ne_nil⟩⟩
  · rw [← colonText_groupsOrNone back, ← colonText_pair front (groupsOrNone_ne_nil back)]
    by_cases hnil : back = []
    · subst hnil
      exact ⟨groupsOrNone front ++ [[]], [], by simp [groupsOrNone], plainFront_of_pair hhex,
        .inr ⟨.inl rfl, fun _ => by simp⟩⟩
    · obtain ⟨back, last, rfl⟩ := (List.eq_nil_or_concat back).resolve_left hnil
      rw [List.concat_eq_append] at hhex ⊢
      have hlast := hhex last (by simp)
      refine ⟨groupsOrNone front ++ [] :: back, last, ?_, plainFront_of_pair fun f hf => hhex f ?_,
        .inr ⟨.inr hlast, fun hnil => absurd hnil hlast.ne_nil⟩⟩
      · have hback : groupsOrNone (back ++ [last]) = back ++ [last] := if_neg (by simp)
        rw [hback, List.append_assoc, List.cons_append]
      · rw [← List.append_assoc]
        exact List.mem_append_left _ hf
  · refine ⟨groups, quad, rfl, plainFront_of_hex hhex, .inl ⟨hquad, fun _ => ?_⟩⟩
    rw [groupCount_of_nonempty fun hmem => (hhex [] hmem).ne_nil rfl, hlen]
  · refine ⟨groupsOrNone front ++ [] :: back, quad, ?_, plainFront_of_pair hhex,
      .inl ⟨hquad, fun hnone => ?_⟩⟩
    · rw [← colonText_pair front (by simp), List.append_assoc, List.cons_append]
    · have hmem : [] ∈ (groupsOrNone front ++ [] :: back).tail := by
        rw [List.tail_append_of_ne_nil (groupsOrNone_ne_nil front)]
        simp
      exact absurd hmem (List.count_eq_zero.mp hnone)

/-! ### No separator in a part -/

theorem not_mem_of_hex {f : List Octet} (h : IPv6Hex f) {c : Octet} (hc : Delimiter c) : c ∉ f := by
  intro hmem
  have hdigit := h.2.2 c hmem
  rw [isxdigit, hc.isDigit_eq_false] at hdigit
  cases hdigit

theorem not_mem_of_field {f : List Octet} (h : f = [] ∨ IsGroup f) {c : Octet} (hc : Delimiter c) :
    c ∉ f := by
  rcases h with rfl | h
  · exact List.not_mem_nil
  · have hread : f ++ (strtol f 16).2 = f := by rw [h.2.1, List.append_nil]
    exact delimiter_not_mem hread hc

theorem not_mem_of_snum {f : List Octet} (h : Snum f) {c : Octet} (hc : Delimiter c) : c ∉ f := by
  intro hmem
  have hdigit := h.2.2.1 c hmem
  rw [hc.isDigit_eq_false] at hdigit
  cases hdigit

theorem mem_literal {text : List Octet} (h : IPv4Literal text) :
    ch '.' ∈ text ∧ ch ':' ∉ text := by
  obtain ⟨a, b, c, d, ha, hb, hc, hd, rfl⟩ := h
  refine ⟨by simp, ?_⟩
  have hne : ch ':' ≠ ch '.' := by decide
  simp [not_mem_of_snum ha delimiter_colon, not_mem_of_snum hb delimiter_colon,
    not_mem_of_snum hc delimiter_colon, not_mem_of_snum hd delimiter_colon, hne]

theorem colon_not_mem_plainLast {front : List (List Octet)} {last : List Octet}
    (h : PlainLast front last) : ch ':' ∉ last := by
  rcases h with ⟨hquad, -⟩ | ⟨rfl | hhex, -⟩
  · exact (mem_literal hquad).2
  · exact List.not_mem_nil
  · exact not_mem_of_hex hhex delimiter_colon

theorem FieldScan.lastPart_mem {scan : FieldScan} (h : scan.Accepted) :
    (ch '.' ∈ scan.lastPart ↔ scan.Quad) ∧ ch ':' ∉ scan.lastPart := by
  rw [lastPart]
  by_cases hquad : scan.Quad
  · obtain ⟨hdot, hcolon⟩ := mem_take_spanIPv4 (h.quad hquad).2
    rw [if_pos hquad]
    exact ⟨iff_of_true hdot hquad, hcolon⟩
  · rw [if_neg hquad]
    exact ⟨iff_of_false (delimiter_not_mem scan.last_append (by decide)) hquad,
      delimiter_not_mem scan.last_append delimiter_colon⟩

theorem plain_of_address {scan : FieldScan} (h : scan.Accepted)
    (haddress : IPv6Addr (colonText (scan.fields ++ [scan.lastPart]))) : scan.Plain := by
  obtain ⟨front, last, htext, hfront, hlast⟩ := parts_of_address haddress
  obtain ⟨hdot, hcolon⟩ := scan.lastPart_mem h
  have hparts : scan.fields ++ [scan.lastPart] = front ++ [last] := by
    refine colonText_inj (fun f hf => ?_) (fun f hf => ?_) (by simp) (by simp) htext
    · rcases List.mem_append.mp hf with hf | hf
      · exact not_mem_of_field (h.fields_ok f hf) delimiter_colon
      · rw [List.mem_singleton.mp hf]
        exact hcolon
    · rcases List.mem_append.mp hf with hf | hf
      · rcases hfront.plain f hf with rfl | hhex
        · exact List.not_mem_nil
        · exact not_mem_of_hex hhex delimiter_colon
      · rw [List.mem_singleton.mp hf]
        exact colon_not_mem_plainLast hlast
  obtain ⟨rfl, hsame⟩ := List.append_inj' hparts rfl
  obtain rfl : scan.lastPart = last := by simpa using hsame
  -- The last part is a dotted quad in both readings, or in neither.
  have hquad : scan.Quad → IPv4Literal scan.lastPart ∧
      (scan.fields.tail.count [] = 0 → groupCount scan.fields = 6) := fun hquad => by
    rcases hlast with hlast | ⟨hnil | hhex, -⟩
    · exact hlast
    · rw [← hdot, hnil] at hquad
      cases hquad
    · exact absurd (hdot.mpr hquad) (not_mem_of_hex hhex (by decide))
  have hgroup : ¬ scan.Quad → (scan.last = [] ∨ IPv6Hex scan.last) ∧
      (scan.last = [] → scan.fields.getLast? = some []) := fun hnot => by
    have hpart : scan.lastPart = scan.last := if_neg hnot
    rcases hlast with ⟨hliteral, -⟩ | hlast
    · exact absurd (hdot.mp (mem_literal hliteral).1) hnot
    · rwa [hpart] at hlast
  exact {
    fields_plain := hfront.plain
    first_colon := hfront.first_colon
    quad_plain := fun hq => plain_of_literal (h.quad hq).2 (by
      have hpart : scan.lastPart = scan.ip.take (spanIPv4 scan.ip) := if_pos hq
      rw [← hpart]
      exact (hquad hq).1)
    quad_full := fun hq => (hquad hq).2
    last_plain := fun hq => (hgroup hq).1
    last_colon := fun hq => (hgroup hq).2 }

/-! ### The longest address -/

theorem isDigits_of_hex {f : List Octet} (h : IPv6Hex f) : IsDigits 16 f :=
  ⟨h.ne_nil, h.2.2⟩

theorem isGroup_of_hex {f : List Octet} (h : IPv6Hex f) : IsGroup f := by
  have hlt := digitsValue_lt (isDigits_of_hex h).2
  have hpow : 16 ^ f.length ≤ 16 ^ 4 := Nat.pow_le_pow_right (by decide) h.2.1
  rw [IsGroup, strtol_digits (by decide) (isDigits_of_hex h), clampLong_natCast (by omega)]
  exact ⟨h.ne_nil, rfl, by dsimp only; omega, by dsimp only; omega⟩

theorem length_strtol_le {h : List Octet} (r : List Octet) (hdigits : IsDigits 16 h) :
    (strtol (h ++ r) 16).2.length ≤ r.length := by
  have hsign := numberSign_digits (Nat.le_refl 16) hdigits r
  obtain ⟨hne, hdigits⟩ := hdigits
  have hnumber : (numberPrefix 16 (h ++ r)).takeWhile (isDigit 16) ≠ [] ∧
      ((numberPrefix 16 (h ++ r)).dropWhile (isDigit 16)).length ≤ r.length := by
    rcases numberPrefix_cases (h ++ r) with hbefore | ⟨z, x, d, s, hs, hx, hd, hbefore⟩
    · rw [hbefore, List.takeWhile_append_of_pos hdigits, List.dropWhile_append_of_pos hdigits]
      exact ⟨List.append_ne_nil_of_left_ne_nil hne _, (List.dropWhile_suffix _).length_le⟩
    · -- Before the prefix's letter there is only its zero.
      rw [hbefore, List.takeWhile_cons_of_pos hd, List.dropWhile_cons_of_pos hd]
      have hle := (List.dropWhile_suffix (isDigit 16) (l := s)).length_le
      refine ⟨List.cons_ne_nil _ _, ?_⟩
      match h, hne with
      | [c], _ =>
          have hlen := congrArg List.length hs
          simp only [List.singleton_append, List.length_cons] at hlen
          omega
      | c :: c' :: h, _ =>
          rw [List.cons_append, List.cons_append, List.cons.injEq, List.cons.injEq] at hs
          exact absurd (hs.2.1 ▸ hx) (not_of_isDigit16 (hdigits c' (by simp))).2.2.2
  unfold strtol
  dsimp only
  rw [hsign]
  dsimp only
  rw [if_neg hnumber.1]
  exact hnumber.2

theorem length_fieldsText_cons (f : List Octet) (fields : List (List Octet)) :
    (fieldsText (f :: fields)).length = f.length + 1 + (fieldsText fields).length := by
  simp [fieldsText]
  omega

theorem last_le_readFields {last : List Octet} (r : List Octet)
    (h : IPv4Literal last ∨ last = [] ∨ IPv6Hex last) {rounds : Nat}
    (hrounds : (last ++ r).length < rounds)
    (hquad : (readFields rounds (last ++ r)).Quad →
      Dotted (numbersIn (readFields rounds (last ++ r)).ip)) :
    last.length ≤ (readFields rounds (last ++ r)).length := by
  rcases h with hliteral | rfl | hhex
  · have hdot : peek (strtol (last ++ r) 16).2 = ch '.' := by
      obtain ⟨a, b, c, d, ha, -, -, -, rfl⟩ := hliteral
      have hdigits : IsDigits 16 a :=
        ⟨ha.isDigits.1, fun x hx => isDigit_mono (by decide) (ha.isDigits.2 x hx)⟩
      rw [List.append_assoc, List.cons_append,
        strtol_digits_delimiter (by decide) hdigits (by decide)]
      rfl
    have hstop : readFields rounds (last ++ r) = ⟨[], last ++ r⟩ :=
      readFields_stop (by rw [hdot]; decide) rounds
    rw [hstop] at hquad ⊢
    have hq : (FieldScan.mk [] (last ++ r)).Quad := hdot
    have hsize : (FieldScan.mk [] (last ++ r)).length = spanIPv4 (last ++ r) := by
      rw [FieldScan.length, FieldScan.size, if_pos hq]
      exact Nat.zero_add _
    rw [hsize]
    exact length_literal_le hliteral (hquad hdot)
  · exact Nat.zero_le _
  · have hread := length_strtol_le r (isDigits_of_hex hhex)
    by_cases hcolon : peek (strtol (last ++ r) 16).2 = ch ':'
    · obtain ⟨f, u, hs, hstop, -, hfields⟩ := readFields_field hcolon
      obtain ⟨rounds, rfl⟩ : ∃ k, rounds = k + 1 := ⟨rounds - 1, by omega⟩
      have hlen := congrArg List.length hs
      rw [List.length_append, List.length_append, List.length_cons] at hlen
      rw [hstop, List.length_cons] at hread
      rw [FieldScan.length, hfields, length_fieldsText_cons]
      omega
    · have hstop : readFields rounds (last ++ r) = ⟨[], last ++ r⟩ := readFields_stop hcolon rounds
      rw [hstop] at hquad ⊢
      have hsize : (FieldScan.mk [] (last ++ r)).length = (FieldScan.mk [] (last ++ r)).size :=
        Nat.zero_add _
      rw [hsize, FieldScan.size]
      split
      · rename_i hq
        have hdot := (mem_take_spanIPv4 (hquad hq)).1
        by_contra hshort
        dsimp only at hdot hshort
        rw [List.take_append_of_le_length (by omega)] at hdot
        exact not_mem_of_hex hhex (by decide) (List.mem_of_mem_take hdot)
      · have hlast := congrArg List.length (FieldScan.mk [] (last ++ r)).last_append
        have hstopped : (FieldScan.mk [] (last ++ r)).stop.length ≤ r.length := hread
        rw [List.length_append] at hlast
        dsimp only at hlast
        rw [List.length_append] at hlast
        omega

theorem address_le_readFields (front : List (List Octet)) {last r : List Octet}
    (hlast : IPv4Literal last ∨ last = [] ∨ IPv6Hex last) :
    ∀ {rounds : Nat}, (∀ f ∈ front, f = [] ∨ IPv6Hex f) →
      (fieldsText front ++ last ++ r).length < rounds →
      ((readFields rounds (fieldsText front ++ last ++ r)).Quad →
        Dotted (numbersIn (readFields rounds (fieldsText front ++ last ++ r)).ip)) →
      (fieldsText front ++ last).length ≤
        (readFields rounds (fieldsText front ++ last ++ r)).length := by
  induction front with
  | nil =>
      intro rounds _ hrounds hquad
      exact last_le_readFields r hlast hrounds hquad
  | cons f front ih =>
      intro rounds hfront hrounds hquad
      rw [List.forall_mem_cons] at hfront
      have hcons : fieldsText (f :: front) ++ last ++ r =
          f ++ ch ':' :: (fieldsText front ++ last ++ r) := by
        simp [fieldsText]
      have hlen : (fieldsText (f :: front) ++ last).length =
          f.length + 1 + (fieldsText front ++ last).length := by
        simp [fieldsText]
        omega
      rw [hcons] at hrounds hquad ⊢
      obtain ⟨rounds, rfl⟩ : ∃ k, rounds = k + 1 := ⟨rounds - 1, by omega⟩
      have hread := (strtol_field (hfront.1.imp id isGroup_of_hex)
        (fieldsText front ++ last ++ r)).1
      obtain ⟨g, u, hs, hstop, -, hfields⟩ :=
        readFields_field (s := f ++ ch ':' :: (fieldsText front ++ last ++ r)) (by rw [hread]; rfl)
      rw [hread, List.cons.injEq] at hstop
      obtain rfl := hstop.2
      obtain rfl : f = g := List.append_cancel_right hs
      rw [hfields] at hquad ⊢
      rw [List.length_append, List.length_cons] at hrounds
      have hrest := ih hfront.2 (by omega) hquad
      rw [hlen, FieldScan.length, length_fieldsText_cons]
      rw [FieldScan.length] at hrest
      change _ ≤ _ + (readFields rounds (fieldsText front ++ last ++ r)).size
      omega

/-! ### The grammar and the scan -/

/-- The first `n` octets are the longest address at the start of the string. -/
def AddressAt (s : List Octet) (n : Nat) : Prop :=
  ∃ text rest, s = text ++ rest ∧ text.length = n ∧ IPv6Addr text ∧
    ∀ text' rest', s = text' ++ rest' → IPv6Addr text' → text'.length ≤ n

/-- `spanIPv6` accepts what the grammar does. -/
def SpansIPv6 (s : List Octet) : Prop :=
  ∀ n, 0 < n → (spanIPv6 s = n ↔ AddressAt s n)

/-- Fields that the scanner accepts are plain; and in a string that begins with an address, the fields
that it reads have their counts within the limits. -/
def PlainIPv6 (s : List Octet) : Prop :=
  ((fieldsIn s).Accepted → (fieldsIn s).Plain) ∧
    ((∃ text rest, s = text ++ rest ∧ IPv6Addr text) → (fieldsIn s).Accepted)

theorem FieldScan.text_append {s : List Octet} (h : (fieldsIn s).Accepted) :
    ∃ rest, s = colonText ((fieldsIn s).fields ++ [(fieldsIn s).lastPart]) ++ rest ∧
      (colonText ((fieldsIn s).fields ++ [(fieldsIn s).lastPart])).length = (fieldsIn s).length := by
  have happend : s = fieldsText (fieldsIn s).fields ++ (fieldsIn s).ip :=
    readFields_append (s.length + 1) s
  rw [colonText_concat, List.length_append, FieldScan.length, FieldScan.size, FieldScan.lastPart]
  by_cases hquad : (fieldsIn s).Quad
  · rw [if_pos hquad, if_pos hquad]
    obtain ⟨hcount, hdotted⟩ := h.quad hquad
    have hle : spanIPv4 (fieldsIn s).ip ≤ (fieldsIn s).ip.length := by
      obtain ⟨rest, hrest⟩ := numbersIn_append (fieldsIn s).ip
      have hlen := congrArg List.length hrest
      rw [List.length_append] at hlen
      rw [spanIPv4_eq, if_pos hdotted]
      omega
    refine ⟨(fieldsIn s).ip.drop (spanIPv4 (fieldsIn s).ip), ?_, ?_⟩
    · rw [List.append_assoc, List.take_append_drop]
      exact happend
    · rw [List.length_take, Nat.min_eq_left hle]
  · rw [if_neg hquad, if_neg hquad]
    refine ⟨(fieldsIn s).stop, ?_, rfl⟩
    rw [List.append_assoc, FieldScan.last_append]
    exact happend

theorem address_le_length {s text rest : List Octet} (h : (fieldsIn s).Accepted)
    (hs : s = text ++ rest) (haddress : IPv6Addr text) : text.length ≤ (fieldsIn s).length := by
  obtain ⟨front, last, htext, hfront, hlast⟩ := parts_of_address haddress
  rw [colonText_concat] at htext
  subst htext hs
  exact address_le_readFields front (hlast.imp And.left And.left) hfront.plain (Nat.lt_succ_self _)
    fun hquad => (h.quad hquad).2

theorem IPv6Addr.pos {text : List Octet} (h : IPv6Addr text) : 0 < text.length := by
  obtain ⟨front, last, rfl, hfront, hlast⟩ := parts_of_address h
  rw [colonText_concat, List.length_append]
  cases front with
  | nil =>
      rcases hlast with ⟨hquad, -⟩ | ⟨hplain, hend⟩
      · have hpos := List.length_pos_of_mem (mem_literal hquad).1
        omega
      · rcases hplain with rfl | hhex
        · cases hend rfl
        · have hpos := hhex.1
          omega
  | cons f front =>
      rw [length_fieldsText_cons]
      omega

theorem addressAt_iff {s : List Octet} (h : (fieldsIn s).Accepted) :
    AddressAt s (fieldsIn s).length ↔ (fieldsIn s).Plain := by
  obtain ⟨rest, hs, hlen⟩ := FieldScan.text_append h
  constructor
  · rintro ⟨text, rest', hs', hlen', haddress, -⟩
    have htext := List.append_inj_left (hs'.symm.trans hs) (hlen'.trans hlen.symm)
    rw [htext] at haddress
    exact plain_of_address h haddress
  · intro hplain
    exact ⟨_, rest, hs, hlen, address_of_plain h hplain, fun text' rest' hs' haddress =>
      address_le_length h hs' haddress⟩

theorem exists_addressAt {s text rest : List Octet} (hs : s = text ++ rest) (h : IPv6Addr text) :
    ∃ n, 0 < n ∧ AddressAt s n := by
  induction hk : s.length - text.length using Nat.strong_induction_on generalizing text rest with
  | _ k ih =>
      by_cases hlongest : ∀ text' rest', s = text' ++ rest' → IPv6Addr text' →
          text'.length ≤ text.length
      · exact ⟨text.length, h.pos, text, rest, hs, rfl, h, hlongest⟩
      · push Not at hlongest
        obtain ⟨text', rest', hs', h', hlonger⟩ := hlongest
        have hle := congrArg List.length hs'
        rw [List.length_append] at hle
        exact ih _ (by omega) hs' h' rfl

theorem FieldScan.Accepted.length_pos {scan : FieldScan} (h : scan.Accepted) : 0 < scan.length := by
  rw [FieldScan.length]
  cases hfields : scan.fields with
  | cons f fields =>
      rw [length_fieldsText_cons]
      omega
  | nil =>
      rw [FieldScan.size]
      split
      · rename_i hquad
        have hpos := (spanIPv4_pos_iff scan.ip).mpr (h.quad hquad).2
        omega
      · rename_i hquad
        have hcount := h.groups hquad
        have hnone : scan.pairs = 0 := by rw [FieldScan.pairs, hfields]; rfl
        have hone : groupCount [scan.last] ≤ 1 := List.countP_le_length
        rw [hnone, if_neg (by decide), hfields, List.nil_append] at hcount
        omega

theorem spansIPv6_iff (s : List Octet) : SpansIPv6 s ↔ PlainIPv6 s := by
  constructor
  · intro h
    have hfollow : (∃ text rest, s = text ++ rest ∧ IPv6Addr text) → (fieldsIn s).Accepted := by
      rintro ⟨text, rest, hs, haddress⟩
      obtain ⟨n, hpos, hat⟩ := exists_addressAt hs haddress
      by_contra hnot
      have hspan := (h n hpos).mpr hat
      rw [spanIPv6_not_accepted hnot] at hspan
      omega
    refine ⟨fun haccepted => (addressAt_iff haccepted).mp ?_, hfollow⟩
    exact (h _ haccepted.length_pos).mp (spanIPv6_accepted haccepted)
  · rintro ⟨hplain, hfollow⟩ n hpos
    constructor
    · intro hspan
      by_cases haccepted : (fieldsIn s).Accepted
      · rw [spanIPv6_accepted haccepted] at hspan
        exact hspan ▸ (addressAt_iff haccepted).mpr (hplain haccepted)
      · rw [spanIPv6_not_accepted haccepted] at hspan
        omega
    · rintro ⟨text, rest, hs, hlen, haddress, hlongest⟩
      have haccepted := hfollow ⟨text, rest, hs, haddress⟩
      rw [spanIPv6_accepted haccepted]
      obtain ⟨text', rest', hs', hlen', haddress', hlongest'⟩ :=
        (addressAt_iff haccepted).mpr (hplain haccepted)
      have hle := hlongest text' rest' hs' haddress'
      have hge := hlongest' text rest hs haddress
      omega

/-- The two scanners accept what the grammar does exactly at the plain strings. -/
theorem spanIP_accepts_iff (s : List Octet) :
    (SpansIPv4 s ↔ PlainIPv4 s) ∧ (SpansIPv6 s ↔ PlainIPv6 s) :=
  ⟨spansIPv4_iff s, spansIPv6_iff s⟩

/-- White space before the first number is accepted. -/
theorem spanIP_accepts_space : ¬ ∀ s, SpansIPv4 s ∧ SpansIPv6 s := by
  intro h
  obtain ⟨text, rest, hs, hlen, ⟨a, b, c, d, ha, -, -, -, rfl⟩, -⟩ :=
    ((h (ascii " 1.2.3.4")).1 8 (by decide)).mp (by decide)
  cases a with
  | nil => exact absurd ha.1 (by decide)
  | cons x a =>
      have hx : ch ' ' = x := by simpa [ascii] using congrArg peek hs
      have hdigit := ha.2.2.1 x List.mem_cons_self
      rw [← hx] at hdigit
      exact absurd hdigit (by decide)

end Snert
