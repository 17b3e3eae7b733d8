/-
Module: Snert.Proofs.MilterReplies
Purpose: What the functions of mail/mfReply.c pass on of a text. Without a reply code, one line loses
  its text, for `reply` is left at the end of the buffer. With several lines a code that is taken from
  the first is measured with the length that `TextCopy` returns, which is that of the whole line.
Trusted boundary: the definitions of what has to be passed on
Main exports: milterReplies_iff
-/
import Snert.Mail.MfReply

namespace Snert

open CModel CModel.Run

/-! ### One line -/

/-- What follows a code that has been taken from a text. -/
def behindCode (source : CodeSource) (code s : List Octet) : List Octet :=
  if source = .text then s.drop (code.length + 1) else s

/-- A reply passes on a text, with spaces for white space, less the codes that it took from it. -/
structure CarriesText (text : List Octet) (r : MilterReply) : Prop where
  rcode_leads : r.rcodeFrom = .text → r.rcode <+: spaced text
  xcode_leads : r.xcodeFrom = .text → r.xcode <+: behindCode r.rcodeFrom r.rcode (spaced text)
  reply_eq : r.reply =
    behindCode r.xcodeFrom r.xcode (behindCode r.rcodeFrom r.rcode (spaced text))

/-- A text begins with a reply code of its own. -/
def RcodeLeads (s : List Octet) : Prop :=
  strspn s rcodeOctets = 3 ∧ codeEnds s 3

theorem strspn_le (s set : List Octet) : strspn s set ≤ s.length :=
  (List.takeWhile_prefix _).length_le

theorem peek_drop_eq_zero_iff {s : List Octet} (hs : 0 ∉ s) (span : Nat) :
    peek (s.drop span) = 0 ↔ s.length ≤ span := by
  rw [← List.drop_eq_nil_iff]
  cases h : s.drop span with
  | nil => exact ⟨fun _ => rfl, fun _ => rfl⟩
  | cons c rest =>
      have hc : c ∈ s := List.mem_of_mem_drop (h ▸ List.mem_cons_self)
      exact ⟨fun (hzero : c = 0) => absurd (hzero ▸ hc) hs, nofun⟩

theorem pastCode_eq {s : List Octet} (hs : 0 ∉ s) (span : Nat) :
    pastCode s span = s.drop (span + 1) := by
  rw [pastCode]
  by_cases h : peek (s.drop span) = 0
  · have hle := (peek_drop_eq_zero_iff hs span).mp h
    rw [if_neg (not_not.mpr h), Nat.add_zero, List.drop_of_length_le hle,
      List.drop_of_length_le (Nat.le_succ_of_le hle)]
  · rw [if_pos h]

theorem noNul_spaced {s : List Octet} (hs : 0 ∉ s) : 0 ∉ spaced s := by
  rw [spaced, List.mem_map]
  rintro ⟨c, hc, hzero⟩
  by_cases hspace : isspace c = true
  · rw [if_pos hspace] at hzero
    exact absurd hzero (by decide)
  · rw [if_neg hspace] at hzero
    exact hs (hzero ▸ hc)

theorem replyXcode_carries {reply : List Octet} (hreply : 0 ∉ reply) (rcode : List Octet)
    (xcode : Option (List Octet)) :
    ((replyXcode rcode xcode reply).2.1 = .text → (replyXcode rcode xcode reply).1 <+: reply) ∧
      (replyXcode rcode xcode reply).2.2 =
        behindCode (replyXcode rcode xcode reply).2.1 (replyXcode rcode xcode reply).1 reply := by
  cases xcode with
  | some xcode => exact ⟨nofun, rfl⟩
  | none =>
      rw [replyXcode]
      by_cases h : 5 ≤ strspn reply xcodeOctets ∧ codeEnds reply (strspn reply xcodeOctets)
      · rw [if_pos h, behindCode, if_pos rfl, List.length_take,
          min_eq_left (strspn_le reply xcodeOctets)]
        exact ⟨fun _ => List.take_prefix _ _, pastCode_eq hreply _⟩
      · rw [if_neg h]
        exact ⟨nofun, rfl⟩

theorem mfReplyV_carries_iff (rcode xcode : Option (List Octet)) (text : CString)
    (hshort : text.octets.length < SMTP_REPLY_LINE_LENGTH) :
    CarriesText text.octets (mfReplyV rcode xcode text.octets) ↔
      rcode ≠ none ∨ RcodeLeads (spaced text.octets) ∨ text.octets = [] := by
  have hnul := noNul_spaced text.noNul
  have hwhole : text.octets.take (SMTP_REPLY_LINE_LENGTH - 1) = text.octets :=
    List.take_of_length_le (Nat.le_sub_one_of_lt hshort)
  -- What the codes leave of the text is carried, if the reply code leaves what is behind it.
  have hcarries : (replyRcode rcode (spaced text.octets)).2.2 =
        behindCode (replyRcode rcode (spaced text.octets)).2.1
          (replyRcode rcode (spaced text.octets)).1 (spaced text.octets) →
      ((replyRcode rcode (spaced text.octets)).2.1 = .text →
        (replyRcode rcode (spaced text.octets)).1 <+: spaced text.octets) →
      CarriesText text.octets (mfReplyV rcode xcode text.octets) := by
    intro hbehind hleads
    have hnul' : 0 ∉ (replyRcode rcode (spaced text.octets)).2.2 := by
      rw [hbehind, behindCode]
      split
      · exact fun hmem => hnul (List.mem_of_mem_drop hmem)
      · exact hnul
    obtain ⟨hxleads, hreply⟩ := replyXcode_carries hnul'
      (replyRcode rcode (spaced text.octets)).1 xcode
    rw [hbehind] at hxleads hreply
    refine ⟨?_, ?_, ?_⟩ <;> simp only [mfReplyV, hwhole]
    · exact hleads
    · rw [hbehind]
      exact hxleads
    · rw [hbehind]
      exact hreply
  cases rcode with
  | some rcode => exact iff_of_true (hcarries rfl nofun) (.inl nofun)
  | none =>
      rw [or_iff_right (not_not.mpr rfl)]
      by_cases hlead : RcodeLeads (spaced text.octets)
      · have hif : strspn (spaced text.octets) rcodeOctets = 3 ∧
            codeEnds (spaced text.octets) (strspn (spaced text.octets) rcodeOctets) := by
          rw [hlead.1]
          exact ⟨rfl, hlead.2⟩
        have hlength := strspn_le (spaced text.octets) rcodeOctets
        refine iff_of_true (hcarries ?_ ?_) (.inl hlead) <;> rw [replyRcode, if_pos hif]
        · dsimp only
          rw [behindCode, if_pos rfl, List.length_take, min_eq_left hlength, pastCode_eq hnul]
        · exact fun _ => List.take_prefix _ _
      · have hif : ¬ (strspn (spaced text.octets) rcodeOctets = 3 ∧
            codeEnds (spaced text.octets) (strspn (spaced text.octets) rcodeOctets)) := by
          rintro ⟨hspan, hends⟩
          exact hlead ⟨hspan, hspan ▸ hends⟩
        have hreply : (mfReplyV none xcode text.octets).rcodeFrom = .assumed ∧
            (mfReplyV none xcode text.octets).xcodeFrom ≠ .text ∧
              (mfReplyV none xcode text.octets).reply = [] := by
          rw [mfReplyV, hwhole, replyRcode, if_neg hif]
          cases xcode <;> exact ⟨rfl, nofun, rfl⟩
        rw [or_iff_right hlead]
        obtain ⟨hrcode, hxcode, hempty⟩ := hreply
        constructor
        · intro h
          have heq := h.reply_eq
          rw [hempty, behindCode, if_neg hxcode, behindCode, hrcode, if_neg nofun, spaced] at heq
          exact List.map_eq_nil_iff.mp heq.symm
        · intro htext
          refine ⟨by rw [hrcode]; nofun, fun h => absurd h hxcode, ?_⟩
          rw [hempty, behindCode, if_neg hxcode, behindCode, hrcode, if_neg nofun, htext]
          rfl

/-! ### Several lines -/

/-- The first of several lines begins with a reply code of its own. -/
def RcodeBegins (s : List Octet) : Prop :=
  strspn s rcodeOctets = 3 ∧ (codeEnds s 3 ∨ peek (s.drop 3) = ch '-')

/-- A text begins with an extended code of its own. -/
def XcodeBegins (s : List Octet) : Prop :=
  5 ≤ strspn s xcodeOctets ∧ codeEnds s (strspn s xcodeOctets)

instance (s : List Octet) : Decidable (RcodeBegins s) :=
  inferInstanceAs (Decidable (_ ∧ _))

instance (s : List Octet) : Decidable (XcodeBegins s) :=
  inferInstanceAs (Decidable (_ ∧ _))

/-- The length of a code at the start of a text, with the octet that separates it from what
follows. -/
def codeLength (s : List Octet) (span : Nat) : Nat :=
  min (span + 1) s.length

/-- The length of the reply code that has to be taken from the first line. -/
def rcodeLength (rcode : Option (List Octet)) (line0 : List Octet) : Nat :=
  if rcode = none ∧ RcodeBegins line0 then codeLength line0 3 else 0

/-- The length of the extended code that has to be taken from a text. -/
def xcodeLength (xcode : Option (List Octet)) (s : List Octet) : Nat :=
  if xcode = none ∧ XcodeBegins s then codeLength s (strspn s xcodeOctets) else 0

/-- The length of the codes that have to be taken from the first line. -/
def codesLength (rcode xcode : Option (List Octet)) (line0 : List Octet) : Nat :=
  rcodeLength rcode line0 + xcodeLength xcode (line0.drop (rcodeLength rcode line0))

/-- A code that is taken from the first line is all of this line. -/
def CodesAreLine (rcode xcode : Option (List Octet)) (line0 : List Octet) : Prop :=
  if rcode = none ∧ RcodeBegins line0 then line0.length = 3
  else xcode = none → XcodeBegins line0 → line0.length = strspn line0 xcodeOctets

/-- For the first 32 lines what is behind the codes is passed on, and no octet outside of a line is
read or pointed to. -/
def LinesPassed (rcode xcode : Option (List Octet)) (line0 : CString) (lines : List CString) :
    Prop :=
  (mfMultiLineReplyA rcode xcode line0.octets (lines.map CString.octets)).Ends fun r =>
    r.lines = (((line0 :: lines).take 32).map fun line =>
      line.octets.drop (codesLength rcode xcode line0.octets))

theorem lineAt_ends {line : List Octet} {offset : Nat} {Q : List Octet → Prop} :
    (lineAt line offset).Ends Q ↔ offset ≤ line.length ∧ Q (line.drop offset) := by
  have hbounds : Access.InBounds ⟨offset, 1, line.length + 1⟩ ↔ offset ≤ line.length := by
    simp only [Access.InBounds]
    omega
  rw [lineAt, ends_load, hbounds]

theorem linesAt_ends {offset : Nat} {lines : List (List Octet)} {Q : List (List Octet) → Prop} :
    (linesAt offset lines).Ends Q ↔
      (∀ line ∈ lines, offset ≤ line.length) ∧ Q (lines.map (·.drop offset)) := by
  induction lines generalizing Q with
  | nil => simp [linesAt]
  | cons line lines ih =>
      rw [linesAt, ends_bind, lineAt_ends, ends_bind, ih, List.forall_mem_cons, List.map_cons,
        and_assoc, ends_pure]

theorem textCopy_code {n : Nat} (hn : 0 < n) (s : List Octet) :
    ∃ code : Buffer n, (textCopy (Buffer.replicate n 0) 0 n s).Yields (code, s.length) :=
  ⟨_, textCopy_yields (t := 0) _ s hn (Nat.zero_add n).le⟩

/-- The length that is reckoned for a code: all of the line, and an octet behind it. -/
def reckonedLength (s : List Octet) (span : Nat) : Nat :=
  s.length + if span < s.length then 1 else 0

theorem reckonedLength_eq {s : List Octet} (hs : 0 ∉ s) (span : Nat) :
    (s.length + if peek (s.drop span) ≠ 0 then 1 else 0) = reckonedLength s span := by
  simp only [reckonedLength, ne_eq, peek_drop_eq_zero_iff hs, Nat.not_le]

/-- The offset behind the reply code. -/
def rcodeOffset (rcode : Option (List Octet)) (line0 : List Octet) : Nat :=
  if rcode = none ∧ RcodeBegins line0 then reckonedLength line0 3 else 0

/-- The offset behind the extended code. -/
def xcodeOffset (xcode : Option (List Octet)) (line0 : List Octet) (offset : Nat) : Nat :=
  if xcode = none ∧ XcodeBegins (line0.drop offset) then
    offset + reckonedLength (line0.drop offset) (strspn (line0.drop offset) xcodeOctets)
  else offset

theorem multiLineRcode_yields (rcode : Option (List Octet)) {line0 : List Octet}
    (hline0 : 0 ∉ line0) :
    ∃ code, (multiLineRcode rcode line0).Yields (code, rcodeOffset rcode line0) := by
  cases rcode with
  | some rcode =>
      rw [rcodeOffset, if_neg (fun h => nomatch h.1)]
      exact ⟨rcode, yields_pure _⟩
  | none =>
      have hiff : RcodeBegins line0 ↔ strspn line0 rcodeOctets = 3 ∧
          (codeEnds line0 (strspn line0 rcodeOctets) ∨
            peek (line0.drop (strspn line0 rcodeOctets)) = ch '-') := by
        refine and_congr_right fun hspan => ?_
        rw [hspan]
      rw [multiLineRcode, rcodeOffset]
      by_cases hbegins : RcodeBegins line0
      · obtain ⟨code, hcode⟩ := textCopy_code (n := 4) (by decide) line0
        rw [if_pos (hiff.mp hbegins), if_pos (show none = none ∧ _ from ⟨rfl, hbegins⟩),
          ← reckonedLength_eq hline0, hbegins.1]
        exact ⟨_, hcode.bind (yields_pure _)⟩
      · rw [if_neg (mt hiff.mpr hbegins), if_neg (fun h => hbegins h.2)]
        exact ⟨_, yields_pure _⟩

theorem multiLineXcode_ends (rcode : List Octet) (xcode : Option (List Octet)) {line0 : List Octet}
    (hline0 : 0 ∉ line0) (offset : Nat) {Q : Nat → Prop} :
    ((multiLineXcode rcode xcode line0 offset).Ends fun r => Q r.2) ↔
      (xcode = none → offset ≤ line0.length) ∧ Q (xcodeOffset xcode line0 offset) := by
  cases xcode with
  | some xcode =>
      rw [multiLineXcode, ends_pure, xcodeOffset, if_neg (fun h => nomatch h.1)]
      exact ⟨fun h => ⟨nofun, h⟩, And.right⟩
  | none =>
      have hnul : 0 ∉ line0.drop offset := fun hmem => hline0 (List.mem_of_mem_drop hmem)
      rw [multiLineXcode, ends_bind, lineAt_ends]
      refine and_congr (by simp) ?_
      have hiff : XcodeBegins (line0.drop offset) ↔ 5 ≤ strspn (line0.drop offset) xcodeOctets ∧
          codeEnds (line0.drop offset) (strspn (line0.drop offset) xcodeOctets) := Iff.rfl
      rw [xcodeOffset]
      by_cases hbegins : XcodeBegins (line0.drop offset)
      · obtain ⟨code, hcode⟩ := textCopy_code (n := 10) (by decide) (line0.drop offset)
        dsimp only
        rw [if_pos (hiff.mp hbegins), if_pos (show none = none ∧ _ from ⟨rfl, hbegins⟩),
          hcode.bind_ends_iff, ends_pure, ← reckonedLength_eq hnul, Nat.add_assoc]
      · dsimp only
        rw [if_neg (mt hiff.mpr hbegins), if_neg (fun h => hbegins h.2), ends_pure]

theorem linesPassed_iff (rcode xcode : Option (List Octet)) (line0 : CString)
    (lines : List CString) : LinesPassed rcode xcode line0 lines ↔
      (xcode = none → rcodeOffset rcode line0.octets ≤ line0.octets.length) ∧
        (∀ line ∈ (line0 :: lines).take 32,
          xcodeOffset xcode line0.octets (rcodeOffset rcode line0.octets) ≤ line.octets.length) ∧
        ((line0 :: lines).take 32).map (fun line => line.octets.drop
            (xcodeOffset xcode line0.octets (rcodeOffset rcode line0.octets))) =
          ((line0 :: lines).take 32).map fun line =>
            line.octets.drop (codesLength rcode xcode line0.octets) := by
  obtain ⟨code, hcode⟩ := multiLineRcode_yields rcode line0.noNul
  have hoctets : (line0.octets :: lines.map CString.octets).take 32 =
      ((line0 :: lines).take 32).map CString.octets := by
    rw [← List.map_cons, List.map_take]
  rw [LinesPassed, mfMultiLineReplyA, hcode.bind_ends_iff]
  simp only [ends_bind, hoctets, linesAt_ends, ends_pure, List.forall_mem_map, List.map_map]
  exact multiLineXcode_ends code xcode line0.noNul _ (Q := fun offset =>
    (∀ line ∈ (line0 :: lines).take 32, offset ≤ line.octets.length) ∧
      ((line0 :: lines).take 32).map (fun line => line.octets.drop offset) =
        ((line0 :: lines).take 32).map fun line =>
          line.octets.drop (codesLength rcode xcode line0.octets))

theorem codesLength_le (rcode xcode : Option (List Octet)) (line0 : List Octet) :
    codesLength rcode xcode line0 ≤ line0.length := by
  have hr : rcodeLength rcode line0 ≤ line0.length := by
    rw [rcodeLength, codeLength]
    split <;> omega
  have hx : xcodeLength xcode (line0.drop (rcodeLength rcode line0)) ≤
      (line0.drop (rcodeLength rcode line0)).length := by
    rw [xcodeLength, codeLength]
    split <;> omega
  rw [List.length_drop] at hx
  rw [codesLength]
  omega

theorem not_xcodeBegins_nil : ¬ XcodeBegins [] := by
  decide

theorem xcodeOffset_of_length_le (xcode : Option (List Octet)) {line0 : List Octet} {offset : Nat}
    (h : line0.length ≤ offset) : xcodeOffset xcode line0 offset = offset := by
  rw [xcodeOffset, List.drop_of_length_le h, if_neg (fun h => not_xcodeBegins_nil h.2)]

theorem xcodeOffset_spec (rcode xcode : Option (List Octet)) (line0 : List Octet) :
    (CodesAreLine rcode xcode line0 → rcodeOffset rcode line0 ≤ line0.length ∧
      xcodeOffset xcode line0 (rcodeOffset rcode line0) = codesLength rcode xcode line0) ∧
      (¬ CodesAreLine rcode xcode line0 →
        line0.length < xcodeOffset xcode line0 (rcodeOffset rcode line0)) := by
  rw [CodesAreLine, codesLength, rcodeLength, rcodeOffset]
  by_cases hrcode : rcode = none ∧ RcodeBegins line0
  · have hlong : 3 ≤ line0.length := hrcode.2.1 ▸ strspn_le line0 rcodeOctets
    rw [if_pos hrcode, if_pos hrcode, if_pos hrcode, reckonedLength,
      xcodeOffset_of_length_le xcode (Nat.le_add_right _ _)]
    constructor
    · intro hwhole
      have hcode : codeLength line0 3 = line0.length := by
        rw [codeLength]
        omega
      have hxcode : xcodeLength xcode [] = 0 := by
        rw [xcodeLength, if_neg (fun h => not_xcodeBegins_nil h.2)]
      rw [hcode, List.drop_length, hxcode, if_neg (by omega)]
      exact ⟨Nat.le_refl _, rfl⟩
    · intro hmore
      rw [if_pos (by omega)]
      omega
  · rw [if_neg hrcode, if_neg hrcode, if_neg hrcode, List.drop_zero, Nat.zero_add, xcodeLength,
      xcodeOffset, List.drop_zero]
    by_cases hxcode : xcode = none ∧ XcodeBegins line0
    · have hspan := strspn_le line0 xcodeOctets
      rw [if_pos hxcode, if_pos hxcode, reckonedLength, codeLength]
      constructor
      · intro h
        have hwhole := h hxcode.1 hxcode.2
        rw [if_neg (by omega)]
        omega
      · intro h
        have hmore : line0.length ≠ strspn line0 xcodeOctets := fun heq => h fun _ _ => heq
        rw [if_pos (by omega)]
        omega
    · rw [if_neg hxcode, if_neg hxcode]
      exact ⟨fun _ => ⟨Nat.zero_le _, rfl⟩, fun h => absurd (fun h1 h2 => absurd ⟨h1, h2⟩ hxcode) h⟩

theorem mfMultiLineReplyA_lines_iff (rcode xcode : Option (List Octet)) (line0 : CString)
    (lines : List CString) (hsame : ∀ line ∈ lines,
      line0.octets.take (codesLength rcode xcode line0.octets) <+: line.octets) :
    LinesPassed rcode xcode line0 lines ↔ CodesAreLine rcode xcode line0.octets := by
  obtain ⟨hright, hwrong⟩ := xcodeOffset_spec rcode xcode line0.octets
  rw [linesPassed_iff]
  constructor
  · rintro ⟨-, hinside, -⟩
    by_contra hcodes
    exact absurd (hinside line0 List.mem_cons_self) (Nat.not_le.mpr (hwrong hcodes))
  · intro hcodes
    obtain ⟨hoffset, heq⟩ := hright hcodes
    rw [heq]
    refine ⟨fun _ => hoffset, fun line hline => ?_, rfl⟩
    have hle := codesLength_le rcode xcode line0.octets
    rcases List.mem_cons.mp (List.mem_of_mem_take hline) with rfl | hline
    · exact hle
    · have hsame := (hsame line hline).length_le
      rwa [List.length_take, min_eq_left hle] at hsame

/-! ### Both -/

/-- One line is carried if and only if its reply code is given or taken from it, or it is empty.
Several lines are passed on if and only if a code that is taken from the first is all of it. -/
theorem milterReplies_iff (rcode xcode : Option (List Octet)) (line0 : CString) :
    (line0.octets.length < SMTP_REPLY_LINE_LENGTH →
        (CarriesText line0.octets (mfReplyV rcode xcode line0.octets) ↔
          rcode ≠ none ∨ RcodeLeads (spaced line0.octets) ∨ line0.octets = [])) ∧
      ∀ lines : List CString, (∀ line ∈ lines,
          line0.octets.take (codesLength rcode xcode line0.octets) <+: line.octets) →
        (LinesPassed rcode xcode line0 lines ↔ CodesAreLine rcode xcode line0.octets) :=
  ⟨mfReplyV_carries_iff rcode xcode line0, mfMultiLineReplyA_lines_iff rcode xcode line0⟩

/-- A text without a reply code is lost. -/
theorem mfReplyV_lost : ¬ ∀ (rcode xcode : Option (List Octet)) (text : CString),
    text.octets.length < SMTP_REPLY_LINE_LENGTH →
      CarriesText text.octets (mfReplyV rcode xcode text.octets) := by
  intro h
  have hreply := (h none none ⟨ascii "try later", by decide⟩ (by decide)).reply_eq
  exact absurd hreply (by decide)

end Snert
