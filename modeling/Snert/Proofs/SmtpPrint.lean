/-
Module: Snert.Proofs.SmtpPrint
Purpose: What one call of `smtp2Print` or `smtp2Printf` writes to a server that accepts DATA: the
  line with its dot doubled, behind the headers that are added at the end of the headers.
Trusted boundary: none
Main exports: addHeaders_ends, stuffed, print_caller_ends
-/
import Snert.Mail.Smtp2

namespace Snert

open CModel CModel.Run

/-! ### Headers of a message -/

namespace MailHeader

/-- The name of a header with its colon. -/
def name : MailHeader → List Octet
  | date => ascii "Date:"
  | sender => ascii "From:"
  | subject => ascii "Subject:"
  | msgid => ascii "Message-ID:"

/-- The line is such a header, when case is ignored. -/
def Is (header : MailHeader) (line : List Octet) : Prop :=
  header.name.map tolower <+: line.map tolower

instance (header : MailHeader) (line : List Octet) : Decidable (header.Is line) :=
  inferInstanceAs (Decidable (_ <+: _))

end MailHeader

theorem textFindLoop_star (name hay : List Octet) (hstar : ch '*' ∉ name) :
    textFindLoop (name ++ [ch '*']) hay = true ↔ name.map tolower <+: hay.map tolower := by
  induction name generalizing hay with
  | nil => simp [textFindLoop]
  | cons p name ih =>
      rw [List.mem_cons, not_or] at hstar
      cases hay with
      | nil => simp [textFindLoop, Ne.symm hstar.1]
      | cons h hay =>
          simp only [List.cons_append, textFindLoop, if_neg (Ne.symm hstar.1), Bool.and_eq_true,
            decide_eq_true_eq, ih hay hstar.2, List.map_cons, List.cons_prefix_cons]
          exact and_congr_left fun _ => eq_comm

theorem textFind_header (header : MailHeader) (line : List Octet) :
    textFind line (header.name ++ [ch '*']) = true ↔ header.Is line := by
  have hstar : ch '*' ∉ header.name := by cases header <;> decide
  have hnul : 0 ∉ header.name.map tolower := by cases header <;> decide
  rw [textFind, textFindLoop_star _ _ hstar, MailHeader.Is]
  generalize header.name.map tolower = name at hnul
  induction line generalizing name with
  | nil => rfl
  | cons c line ih =>
      cases name with
      | nil => simp
      | cons p name =>
          rw [List.mem_cons, not_or] at hnul
          by_cases hc : c = 0
          · subst hc
            have hne : ¬ p = tolower 0 := Ne.symm hnul.1
            simp [List.cons_prefix_cons, hne]
          · rw [List.takeWhile_cons_of_pos (by simpa using hc), List.map_cons, List.map_cons,
              List.cons_prefix_cons, List.cons_prefix_cons]
            exact and_congr_right fun _ => ih name hnul.2

theorem header_unique {header header' : MailHeader} {line : List Octet} (h : header.Is line)
    (h' : header'.Is line) : header = header' := by
  have hcons : ∀ {header : MailHeader}, header.Is line →
      (line.map tolower).head? = (header.name.map tolower).head? := by
    rintro header ⟨rest, hrest⟩
    rw [← hrest]
    cases header <;> rfl
  have heq := (hcons h).symm.trans (hcons h')
  cases header <;> cases header' <;> first | rfl | exact absurd heq (by decide)

theorem noteHeader_flag (flags : SmtpFlags) (line : List Octet) (header : MailHeader) :
    header.flag (noteHeader flags line) = true ↔ header.flag flags = true ∨ header.Is line := by
  have hfind : ∀ header : MailHeader,
      textFind line (header.name ++ [ch '*']) = decide (header.Is line) := fun header => by
    rw [Bool.eq_iff_iff, textFind_header, decide_eq_true_eq]
  have hsubject : textFind line (ascii "Subject:*") = _ := hfind .subject
  have hsender : textFind line (ascii "From:*") = _ := hfind .sender
  have hdate : textFind line (ascii "Date:*") = _ := hfind .date
  have hmsgid : textFind line (ascii "Message-ID:*") = _ := hfind .msgid
  unfold noteHeader
  rw [hsubject, hsender, hdate, hmsgid]
  by_cases hany : ∃ found : MailHeader, found.Is line
  · obtain ⟨found, hfound⟩ := hany
    have hiff : ∀ other : MailHeader, other.Is line ↔ other = found :=
      fun other => ⟨fun h => header_unique h hfound, fun h => h ▸ hfound⟩
    simp only [hiff]
    cases flags with
    | mk subject sender date msgid eoh data error =>
        cases found <;> cases header <;> cases subject <;> cases sender <;> cases date <;>
          cases msgid <;> simp [MailHeader.flag]
  · have hnone : ∀ other : MailHeader, ¬ other.Is line := not_exists.mp hany
    simp [hnone]

theorem noteHeader_rest (flags : SmtpFlags) (line : List Octet) :
    (noteHeader flags line).eoh = flags.eoh ∧ (noteHeader flags line).data = flags.data ∧
      (noteHeader flags line).error = flags.error := by
  unfold noteHeader
  repeat' split
  all_goals exact ⟨rfl, rfl, rfl⟩

/-! ### Printing -/

section Print

variable {server : List Octet → Nat} {system : SmtpSystem} {smtp : Smtp2}

/-- The session once DATA has been accepted. -/
def Smtp2.begun (smtp : Smtp2) : Smtp2 :=
  if smtp.flags.data then smtp
  else
    { smtp with
      flags := { smtp.flags with data := true }
      code := SMTP_WAITING
      sent := smtp.sent ++ [.command (ascii "DATA\r\n")] }

theorem smtp2Data_eq (hserver : server (ascii "DATA\r\n") = SMTP_WAITING)
    (herror : smtp.flags.error = false) :
    smtp2Data server smtp = (SMTP_WAITING, smtp.begun) := by
  unfold smtp2Data Smtp2.begun
  split
  · rfl
  · have hok : smtpIsError SMTP_OK = false := rfl
    have hwaiting : smtpIsError SMTP_WAITING = false := rfl
    simp only [mxCommand, mxPrint, herror, hserver, hok, hwaiting, Bool.false_eq_true, if_false,
      if_true]

theorem begun_data (smtp : Smtp2) : smtp.begun.flags.data = true := by
  unfold Smtp2.begun
  split
  next h => exact h
  next => rfl

theorem begun_eq (h : smtp.flags.data = true) : smtp.begun = smtp :=
  if_pos h

theorem snprintfText_yields (smtp : Smtp2) {size : Nat} (hsize : 0 < size)
    (hle : size ≤ SMTP_TEXT_SIZE) (string : List Octet) : (snprintfText smtp size string).Yields
      { smtp with text := smtp.text.splice 0 (string.take (size - 1) ++ [0]) } := by
  have hroom : 0 + (string.take (size - 1) ++ [0]).length ≤ SMTP_TEXT_SIZE := by
    rw [List.length_append, List.length_take, List.length_singleton]
    omega
  exact (Buffer.yields_write smtp.text _ hroom).bind (yields_pure _)

theorem octets_snprintf (text : Buffer SMTP_TEXT_SIZE) (string : List Octet) :
    ∃ rest, (text.splice 0 (string.take (SMTP_TEXT_SIZE - 3 - 1) ++ [0])).octets =
      string.take (SMTP_TEXT_SIZE - 3 - 1) ++ 0 :: rest := by
  refine ⟨text.octets.drop (string.take (SMTP_TEXT_SIZE - 3 - 1) ++ [0]).length, ?_⟩
  have hsize : SMTP_TEXT_SIZE = 1001 := rfl
  rw [Buffer.octets_splice _ (by
    rw [List.length_append, List.length_take, List.length_singleton]
    omega), Nat.zero_add]
  simp

theorem stuffDot_plain {line : SmtpLine} (h : line.getOctet smtp 0 ≠ ch '.') :
    stuffDot smtp line = pure (smtp, line) := by
  rw [stuffDot]
  exact if_pos fun hdot => h hdot.2

/-- `smtp2Printf` as it is called for the headers that are added. -/
def headerPrintf (server : List Octet → Nat) (system : SmtpSystem) (depth : Nat) (smtp : Smtp2)
    (string : List Octet) : Run (Nat × Smtp2) :=
  snprintfText smtp (SMTP_TEXT_SIZE - 3) string >>= fun smtp =>
    smtp2PrintDepth server system depth smtp (.text string.length)

theorem print_plain (smtp : Smtp2) (hserver : server (ascii "DATA\r\n") = SMTP_WAITING)
    (herror : smtp.flags.error = false) {line : SmtpLine} (h : line.getOctet smtp 0 ≠ ch '.')
    (depth : Nat) : smtp2PrintDepth server system (depth + 1) smtp line =
      checkHeaders system (headerPrintf server system depth) smtp.begun line >>=
        fun smtp => mxPrintLine smtp line := by
  rw [smtp2PrintDepth, stuffDot_plain h, Run.pure_bind]
  dsimp only
  rw [smtp2Data_eq hserver herror]
  rfl

theorem mxPrintLine_text (smtp : Smtp2) (herror : smtp.flags.error = false) {n : Nat}
    (hn : n ≤ SMTP_TEXT_SIZE) : (mxPrintLine smtp (.text n)).Yields
      (SMTP_OK, { smtp with sent := smtp.sent ++ [.data (smtp.text.octets.take n)] }) := by
  have hload : (load ⟨0, n, SMTP_TEXT_SIZE⟩ (smtp.text.octets.take n)).Yields _ :=
    ⟨(inBounds_load _ _).mpr ⟨Int.le_refl 0, by dsimp only; omega⟩, _, rfl, rfl⟩
  refine hload.bind ?_
  rw [mxPrint, herror]
  exact yields_pure _

theorem mxPrintLine_caller (smtp : Smtp2) (herror : smtp.flags.error = false)
    (line : List Octet) : mxPrintLine smtp (.caller line) =
      pure (SMTP_OK, { smtp with sent := smtp.sent ++ [.data line] }) := by
  rw [mxPrintLine, mxPrint, herror]
  rfl

/-- What is read of a line that was cut in the working buffer. -/
def Cut (string piece : List Octet) : Prop :=
  piece.length = string.length ∧ (piece = string ↔ string.length < SMTP_TEXT_SIZE - 3)

theorem cut_of_octets {text : Buffer SMTP_TEXT_SIZE} {string rest : List Octet}
    (hnul : SMTP_TEXT_SIZE - 3 ≤ string.length → 0 ∉ string)
    (hlength : string.length ≤ SMTP_TEXT_SIZE)
    (h : text.octets = string.take (SMTP_TEXT_SIZE - 3 - 1) ++ 0 :: rest) :
    Cut string (text.octets.take string.length) := by
  have hn := text.length_octets
  have hsize : SMTP_TEXT_SIZE = 1001 := rfl
  refine ⟨by rw [List.length_take]; omega, fun heq => ?_, fun hlt => ?_⟩
  · by_contra hlong
    have hmem : (0 : Octet) ∈ text.octets.take string.length := by
      have hfront : (string.take (SMTP_TEXT_SIZE - 3 - 1)).length = SMTP_TEXT_SIZE - 3 - 1 :=
        List.length_take_of_le (by omega)
      rw [h, List.take_append, hfront]
      obtain ⟨k, hk⟩ : ∃ k, string.length - (SMTP_TEXT_SIZE - 3 - 1) = k + 1 :=
        ⟨string.length - (SMTP_TEXT_SIZE - 3), by omega⟩
      rw [hk, List.take_succ_cons]
      exact List.mem_append_right _ List.mem_cons_self
    rw [heq] at hmem
    exact hnul (Nat.not_lt.mp hlong) hmem
  · rw [h, List.take_of_length_le (by omega : string.length ≤ SMTP_TEXT_SIZE - 3 - 1),
      List.take_left]

theorem printf_reads (system : SmtpSystem)
    (hserver : server (ascii "DATA\r\n") = SMTP_WAITING)
    (herror : smtp.flags.error = false) (heoh : smtp.flags.eoh = true)
    (hdata : smtp.flags.data = true) {string : List Octet} {c : Octet}
    (hfirst : string.head? = some c) (hdot : c ≠ ch '.') (depth : Nat) :
    ∃ text : Buffer SMTP_TEXT_SIZE, text.get 0 = c ∧
      (∃ rest, text.octets = string.take (SMTP_TEXT_SIZE - 3 - 1) ++ 0 :: rest) ∧
      ∀ Q, (headerPrintf server system (depth + 1) smtp string).Ends Q ↔
        (mxPrintLine { smtp with text := text } (.text string.length)).Ends Q := by
  obtain ⟨rest, hrest⟩ := octets_snprintf smtp.text string
  refine ⟨_, ?_, ⟨rest, hrest⟩, fun Q => ?_⟩
  · obtain ⟨string, rfl⟩ := List.head?_eq_some_iff.mp hfirst
    rw [Buffer.get, hrest]
    rfl
  · rw [headerPrintf, (snprintfText_yields smtp (by decide) (by decide) string).bind_ends_iff]
    generalize smtp.text.splice 0 (string.take (SMTP_TEXT_SIZE - 3 - 1) ++ [0]) = text at hrest ⊢
    have hplain : (SmtpLine.text string.length).getOctet { smtp with text := text } 0 ≠ ch '.' := by
      obtain ⟨string, rfl⟩ := List.head?_eq_some_iff.mp hfirst
      rw [SmtpLine.getOctet, Buffer.get, hrest]
      exact hdot
    have hbegun : ({ smtp with text := text } : Smtp2).begun = { smtp with text := text } :=
      begun_eq hdata
    rw [print_plain { smtp with text := text } hserver herror hplain, hbegun, checkHeaders,
      if_pos heoh, Run.pure_bind]

theorem printf_ends (hserver : server (ascii "DATA\r\n") = SMTP_WAITING)
    (herror : smtp.flags.error = false) (heoh : smtp.flags.eoh = true)
    (hdata : smtp.flags.data = true) {string : List Octet}
    (hnul : SMTP_TEXT_SIZE - 3 ≤ string.length → 0 ∉ string)
    (hlength : string.length ≤ SMTP_TEXT_SIZE) {c : Octet} (hfirst : string.head? = some c)
    (hdot : c ≠ ch '.') (depth : Nat) :
    (headerPrintf server system (depth + 1) smtp string).Ends fun r =>
      ∃ text : Buffer SMTP_TEXT_SIZE, ∃ piece, text.get 0 = c ∧ Cut string piece ∧
        r.2 = { smtp with text := text, sent := smtp.sent ++ [.data piece] } := by
  obtain ⟨text, hget, ⟨rest, hrest⟩, hends⟩ :=
    printf_reads system hserver herror heoh hdata hfirst hdot depth
  have hwritten := mxPrintLine_text { smtp with text := text } herror hlength
  rw [hends]
  exact hwritten.ends_iff.mpr ⟨text, _, hget, cut_of_octets hnul hlength hrest, rfl⟩

theorem not_printf_ends (hserver : server (ascii "DATA\r\n") = SMTP_WAITING)
    (herror : smtp.flags.error = false) (heoh : smtp.flags.eoh = true)
    (hdata : smtp.flags.data = true) {string : List Octet}
    (hlength : SMTP_TEXT_SIZE < string.length) {c : Octet} (hfirst : string.head? = some c)
    (hdot : c ≠ ch '.') (depth : Nat) (Q : Nat × Smtp2 → Prop) :
    ¬ (headerPrintf server system (depth + 1) smtp string).Ends Q := by
  obtain ⟨text, -, -, hends⟩ :=
    printf_reads system hserver herror heoh hdata hfirst hdot depth
  rw [hends, mxPrintLine]
  intro h
  have hle := ((inBounds_load _ _).mp (inBounds_bind.mp h.1).1).2
  dsimp only at hle
  omega

/-! ### Headers that are added -/

theorem MailHeader.text_head (system : SmtpSystem) (smtp : Smtp2) (header : MailHeader) :
    ∃ c, (header.text system smtp).head? = some c ∧ c ≠ ch '.' ∧ c ≠ ch '\r' := by
  cases header with
  | date => exact ⟨ch 'D', rfl, by decide, by decide⟩
  | sender => exact ⟨ch 'F', rfl, by decide, by decide⟩
  | subject => exact ⟨ch 'S', rfl, by decide, by decide⟩
  | msgid => exact ⟨ch 'M', rfl, by decide, by decide⟩

theorem length_led {front value : List Octet} {n : Nat} (hfront : front.length = n) :
    (front ++ value).length = value.length + n := by
  rw [List.length_append, hfront, Nat.add_comm]

theorem length_framed {front value back : List Octet} {n m : Nat} (hfront : front.length = n)
    (hback : back.length = m) : (front ++ value ++ back).length = value.length + (n + m) := by
  rw [List.length_append, List.length_append, hfront, hback]
  omega

theorem MailHeader.text_sender_length (system : SmtpSystem) (smtp : Smtp2) :
    (MailHeader.sender.text system smtp).length = (smtp.sender.getD []).length + 10 :=
  length_framed (n := 7) (m := 3) rfl rfl

theorem MailHeader.text_length (system : SmtpSystem) (smtp : Smtp2) {header : MailHeader}
    (h : header ≠ .sender) : (header.text system smtp).length < SMTP_TEXT_SIZE - 3 := by
  have hsize : SMTP_TEXT_SIZE - 3 = 998 := rfl
  cases header with
  | date =>
      have hlength : (MailHeader.date.text system smtp).length = _ :=
        length_framed (n := 6) (m := 2) rfl rfl
      have hstamp : (system.timeStamp smtp.start).octets.length < 32 :=
        system.timeStamp_length smtp.start
      omega
  | sender => exact absurd rfl h
  | subject => exact (by decide : (ascii "Subject: \r\n").length < SMTP_TEXT_SIZE - 3)
  | msgid =>
      have hfront : (ascii "Message-ID: <" ++ smtp.idString.1 ++ ascii "@").length = _ :=
        length_framed (n := 13) (m := 1) rfl rfl
      have hlength : (MailHeader.msgid.text system smtp).length = _ :=
        length_framed (m := 3) hfront rfl
      have hid := smtp.idString.2
      have hhelo : smtp.heloHost.1.octets.length < 256 := smtp.heloHost.2
      omega

/-- The sender can be read of the working buffer with `From: <` and `>` around it. -/
def Smtp2.SenderReads (smtp : Smtp2) : Prop :=
  0 ∉ smtp.sender.getD [] ∧ (smtp.sender.getD []).length + 10 ≤ SMTP_TEXT_SIZE

theorem MailHeader.text_sender_noNul (system : SmtpSystem) (h : 0 ∉ smtp.sender.getD []) :
    0 ∉ MailHeader.sender.text system smtp := by
  have hfront : 0 ∉ ascii "From: <" := by decide
  have hback : 0 ∉ ascii ">\r\n" := by decide
  exact List.not_mem_append (List.not_mem_append hfront h) hback

/-- The working buffer is as it was, if nothing is printed by way of it, and begins with no CR
otherwise. -/
def TextAfter (untouched : Prop) (smtp : Smtp2) (text : Buffer SMTP_TEXT_SIZE) : Prop :=
  (untouched → text = smtp.text) ∧ (¬ untouched → text.get 0 ≠ ch '\r')

theorem addHeader_ends (system : SmtpSystem)
    (hserver : server (ascii "DATA\r\n") = SMTP_WAITING)
    (herror : smtp.flags.error = false) (heoh : smtp.flags.eoh = true)
    (hdata : smtp.flags.data = true) (header : MailHeader)
    (hsender : header = .sender → smtp.flags.sender = false → smtp.SenderReads) (depth : Nat) :
    (addHeader system (headerPrintf server system (depth + 1)) smtp header).Ends fun smtp' =>
      ∃ text pieces, smtp' = { smtp with
          text := text, sent := smtp.sent ++ pieces.map SmtpSent.data } ∧
        List.Forall₂ Cut (if header.flag smtp.flags then [] else [header.text system smtp])
          pieces ∧
        TextAfter (header.flag smtp.flags ∨ header = .subject) smtp text := by
  unfold addHeader
  by_cases hflag : header.flag smtp.flags = true
  · simp only [if_pos hflag]
    refine ends_pure.mpr ⟨smtp.text, [], ?_, .nil, fun _ => rfl, fun h => absurd (.inl hflag) h⟩
    rw [List.map_nil, List.append_nil]
  simp only [if_neg hflag]
  by_cases hsubject : header = .subject
  · rw [if_pos hsubject, Run.pure_bind]
    have hprint : mxPrint smtp (.data (header.text system smtp)) =
        (SMTP_OK, { smtp with sent := smtp.sent ++ [.data (header.text system smtp)] }) := by
      rw [mxPrint, herror]
      rfl
    rw [hprint]
    refine ends_pure.mpr ⟨smtp.text, [header.text system smtp], rfl, .cons ⟨rfl, ?_⟩ .nil,
      fun _ => rfl, fun h => absurd (.inr hsubject) h⟩
    refine ⟨fun _ => MailHeader.text_length system smtp ?_, fun _ => rfl⟩
    rw [hsubject]
    decide
  · rw [if_neg hsubject]
    obtain ⟨c, hc, hdot, hcr⟩ := MailHeader.text_head system smtp header
    have hreads : (SMTP_TEXT_SIZE - 3 ≤ (header.text system smtp).length →
        0 ∉ header.text system smtp) ∧ (header.text system smtp).length ≤ SMTP_TEXT_SIZE := by
      by_cases hfrom : header = .sender
      · subst hfrom
        obtain ⟨hnul, hlength⟩ := hsender rfl (Bool.eq_false_iff.mpr hflag)
        refine ⟨fun _ => MailHeader.text_sender_noNul system hnul, ?_⟩
        rw [MailHeader.text_sender_length]
        exact hlength
      · have hlt := MailHeader.text_length system smtp hfrom
        have hsize : SMTP_TEXT_SIZE = 1001 := rfl
        exact ⟨fun h => absurd hlt (Nat.not_lt.mpr h), by omega⟩
    rw [ends_bind]
    refine (printf_ends hserver herror heoh hdata hreads.1 hreads.2 hc hdot depth).mono ?_
    rintro ⟨rc, smtp'⟩ ⟨text, piece, hget, hcut, rfl⟩
    refine ends_pure.mpr ⟨text, [piece], rfl, .cons hcut .nil,
      fun h => absurd h (not_or.mpr ⟨hflag, hsubject⟩), fun _ => ?_⟩
    rw [hget]
    exact hcr

/-- The headers that the message does not have are added. -/
theorem addHeaders_ends (system : SmtpSystem)
    (hserver : server (ascii "DATA\r\n") = SMTP_WAITING)
    (herror : smtp.flags.error = false) (heoh : smtp.flags.eoh = true)
    (hdata : smtp.flags.data = true) (headers : List MailHeader)
    (hsender : smtp.flags.sender = false → smtp.SenderReads) (depth : Nat) :
    (addHeaders system (headerPrintf server system (depth + 1)) smtp headers).Ends fun smtp' =>
      ∃ text pieces, smtp' = { smtp with
          text := text, sent := smtp.sent ++ pieces.map SmtpSent.data } ∧
        List.Forall₂ Cut ((headers.filter fun header => !header.flag smtp.flags).map
          (MailHeader.text system smtp)) pieces ∧
        TextAfter (∀ header ∈ headers, header.flag smtp.flags ∨ header = .subject) smtp
          text := by
  induction headers generalizing smtp with
  | nil =>
      refine ends_pure.mpr ⟨smtp.text, [], ?_, .nil, fun _ => rfl, fun h => absurd nofun h⟩
      rw [List.map_nil, List.append_nil]
  | cons header headers ih =>
      rw [addHeaders, ends_bind]
      have hheader := addHeader_ends system hserver herror heoh hdata header (fun _ => hsender)
        depth
      refine hheader.mono ?_
      rintro smtp' ⟨text, pieces, rfl, hcut, htext⟩
      have hrest := @ih { smtp with text := text, sent := smtp.sent ++ pieces.map SmtpSent.data }
        herror heoh hdata hsender
      refine hrest.mono ?_
      rintro smtp' ⟨text', pieces', rfl, hcut', htext'⟩
      have hsame : MailHeader.text system { smtp with
          text := text, sent := smtp.sent ++ pieces.map SmtpSent.data } =
          MailHeader.text system smtp := by
        funext other
        cases other <;> rfl
      rw [hsame] at hcut'
      refine ⟨text', pieces ++ pieces', ?_, ?_, ?_⟩
      · rw [List.map_append, List.append_assoc]
      · rw [List.filter_cons]
        split at hcut
        next hflag =>
          cases hcut
          simpa [hflag] using hcut'
        next hflag =>
          simpa [hflag] using List.rel_append hcut hcut'
      · rw [List.forall_mem_cons]
        refine ⟨fun h => (htext'.1 h.2).trans (htext.1 h.1), fun h => ?_⟩
        by_cases hall : ∀ header ∈ headers, header.flag smtp.flags ∨ header = .subject
        · rw [htext'.1 hall]
          exact htext.2 fun hfirst => h ⟨hfirst, hall⟩
        · exact htext'.2 hall

theorem not_addHeaders_ends (hserver : server (ascii "DATA\r\n") = SMTP_WAITING)
    (herror : smtp.flags.error = false) (heoh : smtp.flags.eoh = true)
    (hdata : smtp.flags.data = true) {headers : List MailHeader} (hmem : .sender ∈ headers)
    (hsender : smtp.flags.sender = false)
    (hlength : SMTP_TEXT_SIZE < (smtp.sender.getD []).length + 10) (depth : Nat)
    (Q : Smtp2 → Prop) :
    ¬ (addHeaders system (headerPrintf server system (depth + 1)) smtp headers).Ends Q := by
  induction headers generalizing smtp with
  | nil => exact absurd hmem List.not_mem_nil
  | cons header headers ih =>
      rw [addHeaders, ends_bind]
      intro h
      by_cases hfrom : header = .sender
      · subst hfrom
        obtain ⟨c, hc, hdot, -⟩ := MailHeader.text_head system smtp .sender
        have hflag : ¬ MailHeader.sender.flag smtp.flags = true := Bool.eq_false_iff.mp hsender
        rw [addHeader, if_neg hflag] at h
        dsimp only at h
        rw [if_neg (by decide), ends_bind] at h
        refine not_printf_ends hserver herror heoh hdata ?_ hc hdot depth _ h
        rw [MailHeader.text_sender_length]
        exact hlength
      · have hstep := addHeader_ends system hserver herror heoh hdata header
          (fun h => absurd h hfrom) depth
        obtain ⟨-, smtp', hdone, text, pieces, rfl, -⟩ := hstep
        obtain ⟨-, smtp', hdone', hends⟩ := h
        rw [hdone] at hdone'
        cases hdone'
        have hrest := @ih { smtp with text := text, sent := smtp.sent ++ pieces.map SmtpSent.data }
        exact hrest herror heoh hdata ((List.mem_cons.mp hmem).resolve_left (Ne.symm hfrom)) hsender
          hlength hends

/-! ### Lines of a message -/

/-- A line that ends the headers. -/
def EndsHeaders (line : List Octet) : Prop :=
  ascii "\r\n" <+: line

instance (line : List Octet) : Decidable (EndsHeaders line) :=
  inferInstanceAs (Decidable (_ <+: _))

theorem endsHeaders_iff (line : List Octet) :
    line.getD 0 0 = ch '\r' ∧ line.getD 1 0 = ch '\n' ↔ EndsHeaders line := by
  have hcr : (0 : Octet) ≠ ch '\r' := by decide
  have hlf : (0 : Octet) ≠ ch '\n' := by decide
  have hfront : EndsHeaders line ↔ [ch '\r', ch '\n'] <+: line := Iff.rfl
  rw [hfront]
  match line with
  | [] => simp [hcr]
  | [c] => simp [hlf]
  | c :: d :: line => simp [List.cons_prefix_cons, eq_comm]

/-- The flags behind a line. -/
def notedBy (flags : SmtpFlags) (line : List Octet) : SmtpFlags :=
  if flags.eoh then flags
  else if EndsHeaders line then { flags with eoh := true }
  else noteHeader flags line

/-- The headers that are added in front of a line. -/
def addedBy (flags : SmtpFlags) (line : List Octet) : List MailHeader :=
  if flags.eoh = false ∧ EndsHeaders line then
    MailHeader.all.filter fun header => !header.flag flags
  else []

theorem notedBy_rest (flags : SmtpFlags) (line : List Octet) :
    (notedBy flags line).data = flags.data ∧ (notedBy flags line).error = flags.error := by
  unfold notedBy
  split
  · exact ⟨rfl, rfl⟩
  · split
    · exact ⟨rfl, rfl⟩
    · exact (noteHeader_rest flags line).2

theorem checkHeaders_ends (system : SmtpSystem)
    (hserver : server (ascii "DATA\r\n") = SMTP_WAITING) (herror : smtp.flags.error = false)
    (hdata : smtp.flags.data = true) (line : SmtpLine) {octets : List Octet}
    (hfirst : ∀ i < 2, line.getOctet smtp i = octets.getD i 0) (hoctets : line.octets smtp = octets)
    (hsender : .sender ∈ addedBy smtp.flags octets → smtp.SenderReads) (depth : Nat) :
    (checkHeaders system (headerPrintf server system (depth + 1)) smtp line).Ends fun smtp' =>
      ∃ text pieces, smtp' = { smtp with
          flags := notedBy smtp.flags octets
          text := text
          sent := smtp.sent ++ pieces.map SmtpSent.data } ∧
        List.Forall₂ Cut ((addedBy smtp.flags octets).map (MailHeader.text system smtp)) pieces ∧
        TextAfter (∀ header ∈ addedBy smtp.flags octets, header = .subject) smtp text := by
  rw [checkHeaders, hfirst 0 (by decide), hfirst 1 (by decide), hoctets, notedBy, addedBy]
  simp only [endsHeaders_iff]
  by_cases heoh : smtp.flags.eoh = true
  · rw [if_pos heoh, if_pos heoh, if_neg (by rw [heoh]; exact nofun)]
    refine ends_pure.mpr ⟨smtp.text, [], ?_, .nil, fun _ => rfl, fun h => absurd nofun h⟩
    rw [List.map_nil, List.append_nil]
  rw [if_neg heoh, if_neg heoh]
  by_cases hends : EndsHeaders octets
  · have hboth : smtp.flags.eoh = false ∧ EndsHeaders octets := ⟨Bool.eq_false_iff.mpr heoh, hends⟩
    rw [addedBy, if_pos hboth] at hsender
    rw [if_pos hends, if_pos hends, if_pos hboth]
    have hadd := @addHeaders_ends _ { smtp with flags := { smtp.flags with eoh := true } } system
      hserver herror rfl hdata MailHeader.all
      (fun h => hsender (List.mem_filter.mpr ⟨by decide, congrArg Bool.not h⟩)) depth
    have hflag : ∀ header : MailHeader,
        header.flag { smtp.flags with eoh := true } = header.flag smtp.flags := by
      intro header
      cases header <;> rfl
    have htexts : MailHeader.text system { smtp with flags := { smtp.flags with eoh := true } } =
        MailHeader.text system smtp := by
      funext header
      cases header <;> rfl
    simp only [hflag, htexts] at hadd
    refine hadd.mono ?_
    rintro smtp' ⟨text, pieces, rfl, hcut, htext⟩
    refine ⟨text, pieces, rfl, hcut, fun h => htext.1 fun header hheader => ?_,
      fun h => htext.2 fun hall => h fun header hheader => ?_⟩
    · by_cases hset : header.flag smtp.flags = true
      · exact .inl hset
      · exact .inr (h header (List.mem_filter.mpr ⟨hheader, by simpa using hset⟩))
    · obtain ⟨hmem, hset⟩ := List.mem_filter.mp hheader
      exact (hall header hmem).resolve_left (by simpa using hset)
  · rw [if_neg hends, if_neg hends, if_neg fun h => hends h.2]
    refine ends_pure.mpr ⟨smtp.text, [], ?_, .nil, fun _ => rfl, fun h => absurd nofun h⟩
    rw [List.map_nil, List.append_nil]

theorem not_checkHeaders_ends (hserver : server (ascii "DATA\r\n") = SMTP_WAITING)
    (herror : smtp.flags.error = false) (hdata : smtp.flags.data = true) {line : SmtpLine}
    {octets : List Octet} (hfirst : ∀ i < 2, line.getOctet smtp i = octets.getD i 0)
    (hadded : .sender ∈ addedBy smtp.flags octets)
    (hlength : SMTP_TEXT_SIZE < (smtp.sender.getD []).length + 10) (depth : Nat)
    (Q : Smtp2 → Prop) :
    ¬ (checkHeaders system (headerPrintf server system (depth + 1)) smtp line).Ends Q := by
  unfold addedBy at hadded
  split at hadded
  next h =>
    have hends := (endsHeaders_iff octets).mpr h.2
    rw [← hfirst 0 (by decide), ← hfirst 1 (by decide)] at hends
    have hflag : smtp.flags.sender = false := by
      simpa [MailHeader.flag] using (List.mem_filter.mp hadded).2
    rw [checkHeaders, if_neg (by rw [h.1]; exact nofun), if_pos hends]
    exact @not_addHeaders_ends server system { smtp with flags := { smtp.flags with eoh := true } }
      hserver herror rfl hdata MailHeader.all (by decide) hflag hlength depth Q
  next => exact absurd hadded List.not_mem_nil

theorem flags_of_dot {line : List Octet} (h : peek line = ch '.') (flags : SmtpFlags) :
    notedBy flags line = flags ∧ addedBy flags line = [] := by
  obtain ⟨line, rfl⟩ : ∃ rest, line = ch '.' :: rest := by
    cases line with
    | nil => exact absurd h (by decide)
    | cons c line => exact ⟨line, congrArg (· :: line) h⟩
  have hends : ¬ EndsHeaders (ch '.' :: line) := by
    rw [← endsHeaders_iff]
    exact fun h => absurd h.1 (show ¬ ch '.' = ch '\r' by decide)
  have hfind : ∀ header : MailHeader,
      textFind (ch '.' :: line) (header.name ++ [ch '*']) = false := by
    intro header
    rw [Bool.eq_false_iff, ne_eq, textFind_header, MailHeader.Is, List.map_cons]
    cases header <;> exact fun h => absurd (List.cons_prefix_cons.mp h).1 (by decide)
  have hsubject : textFind (ch '.' :: line) (ascii "Subject:*") = false := hfind .subject
  have hsender : textFind (ch '.' :: line) (ascii "From:*") = false := hfind .sender
  have hdate : textFind (ch '.' :: line) (ascii "Date:*") = false := hfind .date
  have hmsgid : textFind (ch '.' :: line) (ascii "Message-ID:*") = false := hfind .msgid
  refine ⟨?_, if_neg fun h => hends h.2⟩
  rw [notedBy, if_neg hends, noteHeader, hsubject, hsender, hdate, hmsgid]
  simp

/-- A line as `smtp2Print` writes it: a dot in front is doubled, in the working buffer. -/
def printed (line : List Octet) : List Octet :=
  if peek line = ch '.' then ch '.' :: line.take (SMTP_TEXT_SIZE - 2) else line

theorem stuffDot_caller {line : List Octet} (h : peek line = ch '.') :
    (stuffDot smtp (.caller line)).Yields
      ({ smtp with
          text := smtp.text.splice 0 (ch '.' :: (line.take (SMTP_TEXT_SIZE - 2) ++ [0])) },
        .text (1 + (line.take (SMTP_TEXT_SIZE - 2)).length)) := by
  have hsize : SMTP_TEXT_SIZE = 1001 := rfl
  have hne : 0 < line.length := by
    cases line with
    | nil => exact absurd h (by decide)
    | cons c line => exact Nat.succ_pos _
  have hdot : 0 < (SmtpLine.caller line).length ∧
      (SmtpLine.caller line).getOctet smtp 0 = ch '.' := by
    refine ⟨hne, ?_⟩
    rw [← h]
    cases line <;> rfl
  have htake : line.take (min (SmtpLine.caller line).length (SMTP_TEXT_SIZE - 2)) =
      line.take (SMTP_TEXT_SIZE - 2) := by
    rw [List.take_eq_take_iff, SmtpLine.length]
    omega
  have hlength : min (SmtpLine.caller line).length (SMTP_TEXT_SIZE - 2) =
      (line.take (SMTP_TEXT_SIZE - 2)).length := by
    rw [List.length_take, SmtpLine.length, Nat.min_comm]
  have hle : (line.take (SMTP_TEXT_SIZE - 2)).length ≤ SMTP_TEXT_SIZE - 2 := List.length_take_le _ _
  rw [stuffDot, if_neg (not_not.mpr hdot)]
  dsimp only
  rw [htake, hlength]
  generalize line.take (SMTP_TEXT_SIZE - 2) = os at hle ⊢
  have hone : (1 : Nat) + os.length ≤ SMTP_TEXT_SIZE := by omega
  have hend : os.length + 1 + [(0 : Octet)].length ≤ SMTP_TEXT_SIZE := by
    rw [List.length_singleton]
    omega
  refine (Buffer.yields_write smtp.text os hone).bind ?_
  refine (Buffer.yields_write _ [0] hend).bind ?_
  refine (Buffer.yields_write _ [ch '.'] (i := 0) (by decide)).bind ?_
  rw [Nat.add_comm os.length 1, Buffer.splice_splice _ _ _ (by omega)]
  rw [Buffer.splice_splice_front _ _ (by
    rw [List.length_append, List.length_singleton]
    omega)]
  exact yields_pure _

theorem begun_text (smtp : Smtp2) (text : Buffer SMTP_TEXT_SIZE) :
    ({ smtp with text := text } : Smtp2).begun = { smtp.begun with text := text } := by
  unfold Smtp2.begun
  split <;> rfl

theorem begun_error (smtp : Smtp2) : smtp.begun.flags.error = smtp.flags.error := by
  unfold Smtp2.begun
  split <;> rfl

theorem print_stuffed {smtp' : Smtp2} {line line' : SmtpLine}
    (hstuff : (stuffDot smtp line).Yields (smtp', line'))
    (hserver : server (ascii "DATA\r\n") = SMTP_WAITING) (herror : smtp'.flags.error = false)
    (depth : Nat) (Q : Nat × Smtp2 → Prop) :
    (smtp2PrintDepth server system (depth + 1) smtp line).Ends Q ↔
      (checkHeaders system (headerPrintf server system depth) smtp'.begun line' >>=
        fun smtp => mxPrintLine smtp line').Ends Q := by
  rw [smtp2PrintDepth, hstuff.bind_ends_iff]
  dsimp only
  rw [smtp2Data_eq hserver herror]
  rfl

/-- What printing a line of the caller leaves: the flags of the headers, and behind what was written
the headers that are added and the line. -/
def PrintsLine (system : SmtpSystem) (begun : Smtp2) (line : List Octet) (smtp : Smtp2) : Prop :=
  ∃ text pieces, smtp = { begun with
      flags := notedBy begun.flags line
      text := text
      sent := begun.sent ++ (pieces ++ [printed line]).map SmtpSent.data } ∧
    List.Forall₂ Cut ((addedBy begun.flags line).map (MailHeader.text system begun)) pieces

theorem getOctet_text {text : Buffer SMTP_TEXT_SIZE} {octets rest : List Octet}
    (h : text.octets = octets ++ 0 :: rest) (hne : octets ≠ []) :
    ∀ i < 2, text.get i = octets.getD i 0 := by
  intro i hi
  rw [Buffer.get, h]
  obtain ⟨c, octets, rfl⟩ := List.exists_cons_of_ne_nil hne
  rcases i with _ | _ | i
  · rfl
  · cases octets <;> rfl
  · omega

theorem print_dot_ends (system : SmtpSystem)
    (hserver : server (ascii "DATA\r\n") = SMTP_WAITING) (herror : smtp.flags.error = false)
    {line : List Octet} (hdot : peek line = ch '.') :
    (smtp2Print server system smtp (.caller line)).Ends fun r =>
      PrintsLine system smtp.begun line r.2 := by
  have hdata := begun_data smtp
  have herror' : smtp.begun.flags.error = false := (begun_error smtp).trans herror
  obtain ⟨hflags, hadded⟩ := flags_of_dot hdot smtp.begun.flags
  rw [smtp2Print, print_stuffed (stuffDot_caller hdot) hserver herror, begun_text]
  unfold PrintsLine
  rw [hflags, hadded, printed, if_pos hdot]
  have hle : (line.take (SMTP_TEXT_SIZE - 2)).length ≤ SMTP_TEXT_SIZE - 2 := List.length_take_le _ _
  generalize line.take (SMTP_TEXT_SIZE - 2) = os at hle ⊢
  generalize smtp.begun = begun at hdata herror' ⊢
  have hsize : SMTP_TEXT_SIZE = 1001 := rfl
  have hoctets : (smtp.text.splice 0 (ch '.' :: (os ++ [0]))).octets =
      (ch '.' :: os) ++ 0 :: smtp.text.octets.drop (os.length + 2) := by
    rw [Buffer.octets_splice _ (by
      rw [List.length_cons, List.length_append, List.length_singleton]
      omega)]
    simp
  generalize smtp.text.splice 0 (ch '.' :: (os ++ [0])) = text at hoctets ⊢
  have hline : text.octets.take (1 + os.length) = ch '.' :: os := by
    rw [hoctets, Nat.add_comm, ← List.length_cons (a := ch '.'), List.take_left]
  -- The line that lies in the working buffer is no header.
  have hnoted := flags_of_dot (show peek (ch '.' :: os) = ch '.' from rfl) begun.flags
  have hcheck := @checkHeaders_ends server { begun with text := text } system hserver herror' hdata
    (.text (1 + os.length)) (ch '.' :: os) (getOctet_text hoctets (List.cons_ne_nil _ _)) hline
    (fun h => absurd (hnoted.2 ▸ h) List.not_mem_nil) 0
  dsimp only at hcheck
  rw [hnoted.1, hnoted.2] at hcheck
  rw [ends_bind]
  refine hcheck.mono ?_
  rintro smtp' ⟨text', pieces, rfl, hcut, htext⟩
  obtain rfl : text' = text := htext.1 nofun
  cases hcut
  have hwritten := mxPrintLine_text { begun with text := text' } herror' (n := 1 + os.length)
    (by omega)
  dsimp only at hwritten
  rw [hline] at hwritten
  rw [List.map_nil, List.append_nil]
  exact hwritten.ends_iff.mpr ⟨text', [], rfl, .nil⟩

/-- What `smtp2Print` does with a line of the caller. -/
theorem print_caller_ends (system : SmtpSystem)
    (hserver : server (ascii "DATA\r\n") = SMTP_WAITING) (herror : smtp.flags.error = false)
    (line : List Octet)
    (hsender : .sender ∈ addedBy smtp.begun.flags line → smtp.begun.SenderReads) :
    (smtp2Print server system smtp (.caller line)).Ends fun r =>
      PrintsLine system smtp.begun line r.2 := by
  by_cases hdot : peek line = ch '.'
  · exact print_dot_ends system hserver herror hdot
  have hdata := begun_data smtp
  have herror' : smtp.begun.flags.error = false := (begun_error smtp).trans herror
  have hplain : (SmtpLine.caller line).getOctet smtp 0 ≠ ch '.' := by
    cases line <;> exact hdot
  have hcheck := checkHeaders_ends system hserver herror' hdata (.caller line)
    (fun i _ => rfl) rfl hsender 0
  rw [smtp2Print, print_plain smtp hserver herror hplain, ends_bind]
  refine hcheck.mono ?_
  rintro smtp' ⟨text, pieces, rfl, hcut, -⟩
  rw [mxPrintLine_caller _ ((notedBy_rest smtp.begun.flags line).2.trans herror')]
  refine ends_pure.mpr ⟨text, pieces, ?_, hcut⟩
  rw [printed, if_neg hdot, List.map_append, ← List.append_assoc]
  rfl

theorem not_print_caller_ends (hserver : server (ascii "DATA\r\n") = SMTP_WAITING)
    (herror : smtp.flags.error = false) {line : List Octet}
    (hadded : .sender ∈ addedBy smtp.begun.flags line)
    (hlength : SMTP_TEXT_SIZE < (smtp.begun.sender.getD []).length + 10)
    (Q : Nat × Smtp2 → Prop) : ¬ (smtp2Print server system smtp (.caller line)).Ends Q := by
  have hdot : peek line ≠ ch '.' := by
    intro hdot
    rw [(flags_of_dot hdot _).2] at hadded
    exact absurd hadded List.not_mem_nil
  have hplain : (SmtpLine.caller line).getOctet smtp 0 ≠ ch '.' := by
    cases line <;> exact hdot
  rw [smtp2Print, print_plain smtp hserver herror hplain, ends_bind]
  exact not_checkHeaders_ends hserver ((begun_error smtp).trans herror) (begun_data smtp)
    (fun i _ => rfl) hadded hlength 0 _

end Print

end Snert
