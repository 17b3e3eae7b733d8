/-
Module: Snert.Proofs.SmtpTransactions
Purpose: Transactions on one session, with a server that accepts every command: exactly when each of
  them names its own sender and is given just the headers that its own message lacks.
Trusted boundary: none
Main exports: transactions_apart_iff
-/
import Snert.CModel.Events
import Snert.Proofs.SmtpPrint

namespace Snert

open CModel CModel.Run

/-! ### Commands -/

/-- The server accepts every command. -/
structure AcceptsCommands (server : List Octet → Nat) : Prop where
  data : server (ascii "DATA\r\n") = SMTP_WAITING
  others : ∀ command, command ≠ ascii "DATA\r\n" → 200 ≤ server command ∧ server command < 300

theorem AcceptsCommands.not_isError {server : List Octet → Nat} (h : AcceptsCommands server)
    (command : List Octet) : smtpIsError (server command) = false := by
  by_cases hdata : command = ascii "DATA\r\n"
  · rw [hdata, h.data]
    rfl
  · have hpositive := (h.others command hdata).1
    simp only [smtpIsError, Bool.and_eq_false_imp, decide_eq_true_eq, decide_eq_false_iff_not]
    omega

/-- The sender that a transaction is to name. -/
def senderOf (heloHost : CString) : Option CString → List Octet
  | some sender => sender.octets
  | none => ascii "postmaster@" ++ heloHost.octets

theorem senderOf_none_length (heloHost : CString) :
    (senderOf heloHost none).length = heloHost.octets.length + 11 :=
  length_led (n := 11) rfl

theorem senderOf_noNul (heloHost : CString) (sender : Option CString) :
    0 ∉ senderOf heloHost sender := by
  cases sender with
  | none => exact List.not_mem_append (by decide) heloHost.noNul
  | some sender => exact sender.noNul

/-- The command that names a sender. -/
def mailFrom (sender : List Octet) : List Octet :=
  ascii "MAIL FROM:<" ++ sender ++ ascii ">\r\n"

theorem mailFrom_length (sender : List Octet) : (mailFrom sender).length = sender.length + 14 :=
  length_framed (n := 11) (m := 3) rfl rfl

theorem mailFrom_inj {sender sender' : List Octet} (h : mailFrom sender = mailFrom sender') :
    sender = sender' :=
  List.append_cancel_left (List.append_cancel_right h)

section Commands

variable {server : List Octet → Nat} {smtp : Smtp2}

theorem mxCommand_accepted (haccepts : AcceptsCommands server) (herror : smtp.flags.error = false)
    (line : List Octet) : mxCommand server smtp line =
      (server line, { smtp with
        code := server line
        sent := smtp.sent ++ [.command line] }) := by
  have hok : smtpIsError SMTP_OK = false := rfl
  rw [mxCommand, mxPrint, herror]
  simp only [hok, haccepts.not_isError, Bool.false_eq_true, if_false]

theorem snprintfText_cstring (smtp : Smtp2) {string : List Octet} (hnul : 0 ∉ string) :
    (smtp.text.splice 0 (string.take (SMTP_TEXT_SIZE - 1) ++ [0])).cstring =
      string.take (SMTP_TEXT_SIZE - 1) := by
  refine Buffer.cstring_splice_zero _ ?_ fun h => hnul (List.mem_of_mem_take h)
  have hle : (string.take (SMTP_TEXT_SIZE - 1)).length ≤ SMTP_TEXT_SIZE - 1 :=
    List.length_take_le _ _
  have hsize : SMTP_TEXT_SIZE = 1001 := rfl
  omega

theorem mailFrom_ends (smtp : Smtp2) (haccepts : AcceptsCommands server)
    (herror : smtp.flags.error = false) {saved : List Octet} (hnul : 0 ∉ saved) :
    (do
      let smtp ← snprintfText { smtp with sender := some saved } SMTP_TEXT_SIZE (mailFrom saved)
      return mxCommand server smtp smtp.text.cstring : Run (Nat × Smtp2)).Ends fun r =>
        ∃ text code, r.2 = { smtp with
          sender := some saved
          text := text
          code := code
          sent := smtp.sent ++ [.command ((mailFrom saved).take (SMTP_TEXT_SIZE - 1))] } := by
  have hline : 0 ∉ mailFrom saved :=
    List.not_mem_append (List.not_mem_append (by decide) hnul) (by decide)
  rw [(snprintfText_yields _ (by decide) (Nat.le_refl _) (mailFrom saved)).bind_ends_iff]
  dsimp only
  rw [snprintfText_cstring _ hline]
  rw [mxCommand_accepted haccepts]
  · exact ends_pure.mpr ⟨_, _, rfl⟩
  · exact herror

theorem mail_ends (system : SmtpSystem) (haccepts : AcceptsCommands server)
    (herror : smtp.flags.error = false) (sender : Option CString)
    (hnul : 0 ∉ smtp.sender.getD (senderOf smtp.heloHost.1 sender)) :
    (smtp2Mail server system smtp sender).Ends fun r => ∃ text code,
      r.2 = { nextMsgId system smtp with
        sender := some (smtp.sender.getD (senderOf smtp.heloHost.1 sender))
        text := text
        code := code
        sent := smtp.sent ++ [.command
          ((mailFrom (smtp.sender.getD (senderOf smtp.heloHost.1 sender))).take
            (SMTP_TEXT_SIZE - 1))] } := by
  obtain ⟨hflags, hsaved, hsent, hhelo⟩ : (nextMsgId system smtp).flags = smtp.flags ∧
      (nextMsgId system smtp).sender = smtp.sender ∧ (nextMsgId system smtp).sent = smtp.sent ∧
      (nextMsgId system smtp).heloHost = smtp.heloHost := ⟨rfl, rfl, rfl, rfl⟩
  rw [← hflags] at herror
  rw [← hsaved, ← hhelo] at hnul
  rw [← hsaved, ← hsent, ← hhelo, smtp2Mail.eq_def]
  generalize nextMsgId system smtp = next at herror hnul ⊢
  dsimp only
  cases sender with
  | some sender =>
      dsimp only
      rw [Run.pure_bind]
      exact mailFrom_ends next haccepts herror hnul
  | none =>
      have hpost : 0 ∉ senderOf next.heloHost.1 none := senderOf_noNul _ none
      have hshort : (senderOf next.heloHost.1 none).length ≤ SMTP_TEXT_SIZE - 1 := by
        have hlength := senderOf_none_length next.heloHost.1
        have hlt : next.heloHost.1.octets.length < 256 := next.heloHost.2
        have hsize : SMTP_TEXT_SIZE - 1 = 1000 := rfl
        omega
      have htext := snprintfText_cstring next hpost
      rw [List.take_of_length_le hshort] at htext
      have hyields := snprintfText_yields next (by decide) (Nat.le_refl SMTP_TEXT_SIZE)
        (senderOf next.heloHost.1 none)
      dsimp only
      rw [show ascii "postmaster@" ++ next.heloHost.1.octets = senderOf next.heloHost.1 none
        from rfl, hyields.bind_ends_iff, Run.pure_bind]
      dsimp only
      rw [List.take_of_length_le hshort, htext]
      generalize next.text.splice 0 (senderOf next.heloHost.1 none ++ [0]) = text
      exact mailFrom_ends { next with text := text } haccepts herror hnul

theorem rcpt_ends (haccepts : AcceptsCommands server) (herror : smtp.flags.error = false)
    (recipient : CString) : (smtp2Rcpt server smtp recipient).Ends fun r => ∃ text code line,
      r.2 = { smtp with text := text, code := code, sent := smtp.sent ++ [.command line] } := by
  rw [smtp2Rcpt, (snprintfText_yields _ (by decide) (Nat.le_refl _) _).bind_ends_iff,
    mxCommand_accepted haccepts]
  · exact ends_pure.mpr ⟨_, _, _, rfl⟩
  · exact herror

/-- `smtp2Rcpt` for each recipient. -/
def rcptAll (server : List Octet → Nat) : Smtp2 → List CString → Run Smtp2 :=
  deliver fun smtp recipient => do return (← smtp2Rcpt server smtp recipient).2

theorem rcptAll_ends (haccepts : AcceptsCommands server) (herror : smtp.flags.error = false)
    (recipients : List CString) : (rcptAll server smtp recipients).Ends fun smtp' =>
      ∃ text code, ∃ lines : List (List Octet), smtp' = { smtp with
        text := text, code := code, sent := smtp.sent ++ lines.map SmtpSent.command } := by
  induction recipients generalizing smtp with
  | nil =>
      refine ends_pure.mpr ⟨smtp.text, smtp.code, [], ?_⟩
      rw [List.map_nil, List.append_nil]
  | cons recipient recipients ih =>
      rw [rcptAll, deliver, ends_bind, ends_bind]
      refine (rcpt_ends haccepts herror recipient).mono ?_
      rintro r ⟨text, code, line, hr⟩
      refine ends_pure.mpr ?_
      rw [hr]
      refine (@ih { smtp with
        text := text, code := code, sent := smtp.sent ++ [.command line] } herror).mono ?_
      rintro smtp' ⟨text', code', lines, rfl⟩
      refine ⟨text', code', line :: lines, ?_⟩
      rw [List.map_cons, ← List.append_cons]

/-! ### Lines of one message -/

/-- `smtp2Print` for each line. -/
def printAll (server : List Octet → Nat) (system : SmtpSystem) :
    Smtp2 → List (List Octet) → Run Smtp2 :=
  deliver fun smtp line => do return (← smtp2Print server system smtp (.caller line)).2

/-- What is written for lines, given the headers as they are added and the flags in front of the
lines. -/
def written (text : MailHeader → List Octet) : SmtpFlags → List (List Octet) → List (List Octet)
  | _, [] => []
  | flags, line :: lines =>
      (addedBy flags line).map text ++ printed line :: written text (notedBy flags line) lines

theorem eq_of_cut {strings pieces : List (List Octet)} (h : List.Forall₂ Cut strings pieces)
    (hshort : ∀ string ∈ strings, string.length < SMTP_TEXT_SIZE - 3) : pieces = strings := by
  induction h with
  | nil => rfl
  | cons hcut _ ih =>
      rw [List.forall_mem_cons] at hshort
      rw [hcut.2.mpr hshort.1, ih hshort.2]

theorem begun_sender (smtp : Smtp2) : smtp.begun.sender = smtp.sender := by
  unfold Smtp2.begun
  split <;> rfl

/-- The session behind a line that is printed, if the headers that are added fit. -/
def Smtp2.behind (system : SmtpSystem) (begun : Smtp2) (line : List Octet)
    (text : Buffer SMTP_TEXT_SIZE) : Smtp2 :=
  { begun with
    flags := notedBy begun.flags line
    text := text
    sent := begun.sent ++ ((addedBy begun.flags line).map (MailHeader.text system begun) ++
      [printed line]).map SmtpSent.data }

theorem printAll_cons (system : SmtpSystem) (haccepts : AcceptsCommands server)
    (herror : smtp.flags.error = false) (hnul : 0 ∉ smtp.sender.getD [])
    (hfits : (smtp.sender.getD []).length + 13 < SMTP_TEXT_SIZE) {line : List Octet}
    {lines : List (List Octet)} {Q : Smtp2 → Prop}
    (h : ∀ text, (printAll server system (smtp.begun.behind system line text) lines).Ends Q) :
    (printAll server system smtp (line :: lines)).Ends Q := by
  have hsize : SMTP_TEXT_SIZE = 1001 := rfl
  rw [← begun_sender] at hnul hfits
  have hprint := print_caller_ends system haccepts.data herror line fun _ => ⟨hnul, by omega⟩
  rw [printAll, deliver, ends_bind, ends_bind]
  refine hprint.mono ?_
  rintro r ⟨text, pieces, hr, hcut⟩
  have hpieces := eq_of_cut hcut fun string hstring => by
    obtain ⟨header, -, rfl⟩ := List.mem_map.mp hstring
    by_cases hfrom : header = .sender
    · rw [hfrom, MailHeader.text_sender_length]
      omega
    · exact MailHeader.text_length system smtp.begun hfrom
  rw [hpieces] at hr
  refine ends_pure.mpr ?_
  rw [hr]
  exact h text

theorem foldl_notedBy_error (flags : SmtpFlags) (lines : List (List Octet)) :
    (lines.foldl notedBy flags).error = flags.error := by
  induction lines generalizing flags with
  | nil => rfl
  | cons line lines ih => rw [List.foldl_cons, ih, (notedBy_rest flags line).2]

theorem printAll_ends (system : SmtpSystem) (haccepts : AcceptsCommands server)
    (herror : smtp.flags.error = false) (hdata : smtp.flags.data = true)
    (hnul : 0 ∉ smtp.sender.getD []) (hfits : (smtp.sender.getD []).length + 13 < SMTP_TEXT_SIZE)
    (lines : List (List Octet)) : (printAll server system smtp lines).Ends fun smtp' =>
      ∃ text, smtp' = { smtp with
        flags := lines.foldl notedBy smtp.flags
        text := text
        sent := smtp.sent ++
          (written (MailHeader.text system smtp) smtp.flags lines).map SmtpSent.data } := by
  induction lines generalizing smtp with
  | nil =>
      refine ends_pure.mpr ⟨smtp.text, ?_⟩
      rw [written, List.map_nil, List.append_nil, List.foldl_nil]
  | cons line lines ih =>
      refine printAll_cons system haccepts herror hnul hfits fun text => ?_
      have hnoted := notedBy_rest smtp.flags line
      rw [begun_eq hdata]
      refine (@ih (smtp.behind system line text) (hnoted.2.trans herror) (hnoted.1.trans hdata) hnul
        hfits).mono ?_
      rintro smtp' ⟨text', rfl⟩
      have htexts : MailHeader.text system (smtp.behind system line text) =
          MailHeader.text system smtp := by
        funext header
        cases header <;> rfl
      refine ⟨text', ?_⟩
      rw [htexts, written, List.foldl_cons]
      simp [Smtp2.behind]

theorem printAll_message (system : SmtpSystem) (haccepts : AcceptsCommands server)
    (herror : smtp.flags.error = false) (hdata : smtp.flags.data = false)
    (hnul : 0 ∉ smtp.sender.getD []) (hfits : (smtp.sender.getD []).length + 13 < SMTP_TEXT_SIZE)
    (lines : List (List Octet)) : (printAll server system smtp lines).Ends fun smtp' =>
      smtp'.flags.error = false ∧ smtp'.heloHost = smtp.heloHost ∧ smtp'.sender = smtp.sender ∧
      ∃ commands : List (List Octet), smtp'.sent = smtp.sent ++ commands.map SmtpSent.command ++
        (written (MailHeader.text system smtp) { smtp.flags with data := true } lines).map
          SmtpSent.data := by
  cases lines with
  | nil =>
      refine ends_pure.mpr ⟨herror, rfl, rfl, [], ?_⟩
      rw [written, List.map_nil, List.map_nil, List.append_nil, List.append_nil]
  | cons line lines =>
      have hbegun : smtp.begun = { smtp with
          flags := { smtp.flags with data := true }
          code := SMTP_WAITING
          sent := smtp.sent ++ [.command (ascii "DATA\r\n")] } :=
        if_neg (Bool.eq_false_iff.mp hdata)
      have htexts : MailHeader.text system smtp.begun = MailHeader.text system smtp := by
        rw [hbegun]
        funext header
        cases header <;> rfl
      have hflags : smtp.begun.flags = { smtp.flags with data := true } :=
        congrArg Smtp2.flags hbegun
      have hsent : smtp.begun.sent = smtp.sent ++ [.command (ascii "DATA\r\n")] :=
        congrArg Smtp2.sent hbegun
      have hhelo : smtp.begun.heloHost = smtp.heloHost := by rw [hbegun]
      have hsender := begun_sender smtp
      refine printAll_cons system haccepts herror hnul hfits fun text => ?_
      rw [← hsender] at hnul hfits
      rw [← hsender, ← hhelo, ← htexts, ← hflags]
      have herror' : smtp.begun.flags.error = false := (begun_error smtp).trans herror
      have hdata' := begun_data smtp
      generalize smtp.begun = begun at *
      have hnoted := notedBy_rest begun.flags line
      have hrest := @printAll_ends _ (begun.behind system line text) system haccepts
        (hnoted.2.trans herror') (hnoted.1.trans hdata') hnul hfits lines
      refine hrest.mono ?_
      rintro smtp' ⟨text', rfl⟩
      have htexts' : MailHeader.text system (begun.behind system line text) =
          MailHeader.text system begun := by
        funext header
        cases header <;> rfl
      refine ⟨?_, rfl, rfl, [ascii "DATA\r\n"], ?_⟩
      · exact (foldl_notedBy_error _ lines).trans (hnoted.2.trans herror')
      · rw [written, htexts']
        simp [Smtp2.behind, hsent]

theorem printAll_grows {system : SmtpSystem} (haccepts : AcceptsCommands server)
    (herror : smtp.flags.error = false) (hnul : 0 ∉ smtp.sender.getD [])
    {lines : List (List Octet)} {Q : Smtp2 → Prop}
    (h : (printAll server system smtp lines).Ends Q) :
    ∃ smtp', Q smtp' ∧ smtp'.flags.error = false ∧ smtp.sent <+: smtp'.sent := by
  induction lines generalizing smtp with
  | nil => exact ⟨smtp, ends_pure.mp h, herror, List.prefix_rfl⟩
  | cons line lines ih =>
      have hsender := begun_sender smtp
      have herror' : smtp.begun.flags.error = false := (begun_error smtp).trans herror
      have hbegun : smtp.sent <+: smtp.begun.sent := by
        unfold Smtp2.begun
        split
        · exact List.prefix_rfl
        · exact List.prefix_append _ _
      rw [printAll, deliver, ends_bind, ends_bind] at h
      have hreads : .sender ∈ addedBy smtp.begun.flags line → smtp.begun.SenderReads := by
        intro hadded
        refine ⟨by rw [hsender]; exact hnul, ?_⟩
        by_contra hlong
        exact not_print_caller_ends haccepts.data herror hadded (Nat.not_le.mp hlong) _ h
      obtain ⟨-, r, hr, text, pieces, hprints, -⟩ :=
        print_caller_ends system haccepts.data herror line hreads
      obtain ⟨-, r', hr', hrest⟩ := h
      obtain rfl : r = r' := by
        rw [hr] at hr'
        exact Outcome.done.inj hr'
      rw [ends_pure, hprints] at hrest
      obtain ⟨smtp', hQ, herror'', hprefix⟩ := @ih { smtp.begun with
        flags := notedBy smtp.begun.flags line
        text := text
        sent := smtp.begun.sent ++ (pieces ++ [printed line]).map SmtpSent.data }
        ((notedBy_rest smtp.begun.flags line).2.trans herror') (hsender.symm ▸ hnul) hrest
      exact ⟨smtp', hQ, herror'', hbegun.trans ((List.prefix_append _ _).trans hprefix)⟩

end Commands

/-! ### The headers of a message -/

/-- The lines in front of the first that ends the headers. -/
def headerLines (lines : List (List Octet)) : List (List Octet) :=
  lines.takeWhile fun line => !decide (EndsHeaders line)

/-- The first line that ends the headers, and the lines behind it. -/
def bodyLines (lines : List (List Octet)) : List (List Octet) :=
  lines.dropWhile fun line => !decide (EndsHeaders line)

/-- The headers that a message lacks. -/
def lacking (lines : List (List Octet)) : List MailHeader :=
  MailHeader.all.filter fun header => decide (∀ line ∈ headerLines lines, ¬ header.Is line)

/-- The headers that are added to a message, with the flags in front of it. -/
def addedTo (flags : SmtpFlags) (lines : List (List Octet)) : List MailHeader :=
  if bodyLines lines = [] ∨ flags.eoh = true then []
  else (lacking lines).filter fun header => !header.flag flags

theorem written_of_eoh (text : MailHeader → List Octet) {flags : SmtpFlags}
    (heoh : flags.eoh = true) (lines : List (List Octet)) :
    written text flags lines = lines.map printed := by
  induction lines with
  | nil => rfl
  | cons line lines ih =>
      have hadded : addedBy flags line = [] := if_neg fun h => Bool.eq_false_iff.mp h.1 heoh
      have hnoted : notedBy flags line = flags := if_pos heoh
      rw [written, hadded, hnoted, ih]
      rfl

theorem headers_of_ends {line : List Octet} (hends : EndsHeaders line) (lines : List (List Octet)) :
    headerLines (line :: lines) = [] ∧ bodyLines (line :: lines) = line :: lines := by
  simp [headerLines, bodyLines, hends]

theorem headers_of_not_ends {line : List Octet} (hends : ¬ EndsHeaders line)
    (lines : List (List Octet)) : headerLines (line :: lines) = line :: headerLines lines ∧
      bodyLines (line :: lines) = bodyLines lines := by
  simp [headerLines, bodyLines, hends]

theorem addedTo_of_ends {flags : SmtpFlags} (heoh : ¬ flags.eoh = true) {line : List Octet}
    (hends : EndsHeaders line) (lines : List (List Octet)) :
    addedTo flags (line :: lines) = addedBy flags line := by
  obtain ⟨hheaders, hbody⟩ := headers_of_ends hends lines
  rw [addedTo, if_neg (by simp [hbody, heoh]), addedBy, if_pos ⟨Bool.eq_false_iff.mpr heoh, hends⟩,
    lacking, hheaders]
  simp

theorem addedTo_of_not_ends (flags : SmtpFlags) {line : List Octet} (hends : ¬ EndsHeaders line)
    (lines : List (List Octet)) :
    addedTo flags (line :: lines) = addedTo (noteHeader flags line) lines := by
  obtain ⟨hheaders, hbody⟩ := headers_of_not_ends hends lines
  rw [addedTo, addedTo, hbody, lacking, lacking, hheaders, List.filter_filter, List.filter_filter,
    (noteHeader_rest flags line).1]
  refine if_congr Iff.rfl rfl (List.filter_congr fun header _ => ?_)
  have hflag := noteHeader_flag flags line header
  rw [Bool.eq_iff_iff]
  simp only [Bool.and_eq_true, Bool.not_eq_true', Bool.eq_false_iff, ne_eq, hflag,
    decide_eq_true_eq, List.forall_mem_cons]
  tauto

theorem written_eq (text : MailHeader → List Octet) (flags : SmtpFlags)
    (lines : List (List Octet)) : written text flags lines =
      (headerLines lines).map printed ++ (addedTo flags lines).map text ++
        (bodyLines lines).map printed := by
  by_cases heoh : flags.eoh = true
  · rw [written_of_eoh text heoh, addedTo, if_pos (.inr heoh), List.map_nil, List.append_nil,
      ← List.map_append, headerLines, bodyLines, List.takeWhile_append_dropWhile]
  induction lines generalizing flags with
  | nil => rfl
  | cons line lines ih =>
      by_cases hends : EndsHeaders line
      · obtain ⟨hheaders, hbody⟩ := headers_of_ends hends lines
        have hnoted : notedBy flags line = { flags with eoh := true } := by
          rw [notedBy, if_neg heoh, if_pos hends]
        rw [written, hheaders, hbody, addedTo_of_ends heoh hends, hnoted, written_of_eoh text rfl]
        rfl
      · obtain ⟨hheaders, hbody⟩ := headers_of_not_ends hends lines
        have hnone : addedBy flags line = [] := if_neg fun h => hends h.2
        have hnoted : notedBy flags line = noteHeader flags line := by
          rw [notedBy, if_neg heoh, if_neg hends]
        have heoh' : ¬ (noteHeader flags line).eoh = true := by
          rw [(noteHeader_rest flags line).1]
          exact heoh
        rw [written, hnone, hnoted, ih _ heoh', hheaders, hbody, addedTo_of_not_ends flags hends]
        rfl

/-! ### Transactions -/

/-- A transaction: with or without a reset behind it. -/
structure Transaction where
  sender : Option CString
  recipients : List CString
  lines : List (List Octet)
  rset : Bool

/-- The end of a transaction. -/
def Smtp2.finish (server : List Octet → Nat) (smtp : Smtp2) (rset : Bool) : Smtp2 :=
  if rset then (smtp2Rset server (smtp2Dot server smtp).2).2 else (smtp2Dot server smtp).2

/-- A transaction on a session. -/
def Smtp2.transact (server : List Octet → Nat) (system : SmtpSystem) (smtp : Smtp2)
    (t : Transaction) : Run Smtp2 := do
  let (_, smtp) ← smtp2Mail server system smtp t.sender
  let smtp ← rcptAll server smtp t.recipients
  let smtp ← printAll server system smtp t.lines
  return smtp.finish server t.rset

/-- A transaction on a session, noted with what is written to the server in it. -/
def transactNoted (server : List Octet → Nat) (system : SmtpSystem)
    (state : Smtp2 × List (Transaction × List SmtpSent)) (t : Transaction) :
    Run (Smtp2 × List (Transaction × List SmtpSent)) := do
  let smtp ← { state.1 with sent := [] }.transact server system t
  return (smtp, state.2 ++ [(t, smtp.sent)])

/-- The line of a message that is written. -/
def SmtpSent.line? : SmtpSent → Option (List Octet)
  | command _ => none
  | data line => some line

/-- The line is such a header; From is one with the sender. -/
def IsAdded (sender : List Octet) (header : MailHeader) (line : List Octet) : Prop :=
  header.Is line ∧ (header = .sender → line = ascii "From: <" ++ sender ++ ascii ">\r\n")

/-- What is to be written in a transaction: the command with its sender, and its lines with just the
headers that they lack where the headers end. -/
structure Transaction.Apart (heloHost : CString) (t : Transaction) (sent : List SmtpSent) :
    Prop where
  mail : sent.head? = some (.command (mailFrom (senderOf heloHost t.sender)))
  headers : ∃ added,
    List.Forall₂ (IsAdded (senderOf heloHost t.sender))
      (if bodyLines t.lines = [] then [] else lacking t.lines) added ∧
    sent.filterMap SmtpSent.line? =
      (headerLines t.lines).map printed ++ added ++ (bodyLines t.lines).map printed

/-- The session has nothing left of another transaction that this one would show, and its sender
fits into the command. -/
structure KeepsApart (heloHost : CString) (smtp : Smtp2) (t : Transaction) : Prop where
  sender : ∀ saved, smtp.sender = some saved → saved = senderOf heloHost t.sender
  fits : (senderOf heloHost t.sender).length + 14 < SMTP_TEXT_SIZE
  headers : bodyLines t.lines ≠ [] → ∀ header ∈ lacking t.lines,
    smtp.flags.eoh = false ∧ header.flag smtp.flags = false

/-- Between transactions: no message is being written, no command has failed, and a sender that is
saved fits into the command. -/
structure Smtp2.Between (heloHost : CString) (smtp : Smtp2) : Prop where
  data : smtp.flags.data = false
  error : smtp.flags.error = false
  helo : smtp.heloHost.1 = heloHost
  saved : ∀ saved, smtp.sender = some saved → 0 ∉ saved ∧ saved.length + 14 < SMTP_TEXT_SIZE

section Transactions

variable {server : List Octet → Nat} {smtp : Smtp2}

theorem finish_eq (haccepts : AcceptsCommands server) (herror : smtp.flags.error = false)
    (rset : Bool) :
    (smtp.finish server rset).flags.data = false ∧ (smtp.finish server rset).flags.error = false ∧
      (smtp.finish server rset).heloHost = smtp.heloHost ∧
      (∀ saved, (smtp.finish server rset).sender = some saved → smtp.sender = some saved) ∧
      ∃ lines : List (List Octet),
        (smtp.finish server rset).sent = smtp.sent ++ lines.map SmtpSent.command := by
  have hrset : ∀ smtp : Smtp2, smtp2Rset server smtp = (server (ascii "RSET\r\n"),
      { resetMsgId smtp with
        sender := none
        flags := .none
        code := server (ascii "RSET\r\n")
        sent := smtp.sent ++ [.command (ascii "RSET\r\n")] }) :=
    fun smtp => mxCommand_accepted haccepts rfl _
  have hdot : (smtp2Dot server smtp).2.flags.data = false ∧
      (smtp2Dot server smtp).2.flags.error = false ∧
      (smtp2Dot server smtp).2.heloHost = smtp.heloHost ∧
      (∀ saved, (smtp2Dot server smtp).2.sender = some saved → smtp.sender = some saved) ∧
      ∃ line, (smtp2Dot server smtp).2.sent = smtp.sent ++ [.command line] := by
    unfold smtp2Dot
    split
    · rw [mxCommand_accepted haccepts]
      · exact ⟨rfl, herror, rfl, fun _ h => h, _, rfl⟩
      · exact herror
    · rw [hrset]
      exact ⟨rfl, rfl, rfl, nofun, _, rfl⟩
  obtain ⟨hdata, herror', hhelo, hsaved, line, hline⟩ := hdot
  unfold Smtp2.finish
  split
  · rw [hrset]
    refine ⟨rfl, rfl, hhelo, nofun, [line, ascii "RSET\r\n"], ?_⟩
    simp [hline]
  · exact ⟨hdata, herror', hhelo, hsaved, [line], hline⟩

theorem is_framed {header : MailHeader} {front : List Octet} (hname : header.name <+: front)
    (value back : List Octet) : header.Is (front ++ value ++ back) :=
  (hname.trans ((List.prefix_append _ _).trans (List.prefix_append _ _))).map tolower

theorem isAdded_text (system : SmtpSystem) {saved : List Octet} (h : smtp.sender = some saved)
    (header : MailHeader) : IsAdded saved header (header.text system smtp) := by
  have hsender : smtp.sender.getD [] = saved := by
    rw [h]
    rfl
  have htext : MailHeader.sender.text system smtp = ascii "From: <" ++ saved ++ ascii ">\r\n" :=
    congrArg (fun saved => ascii "From: <" ++ saved ++ ascii ">\r\n") hsender
  have hdate : MailHeader.date.name <+: ascii "Date: " := by decide
  have hfrom : MailHeader.sender.name <+: ascii "From: <" := by decide
  have hsubject : MailHeader.subject.name <+: ascii "Subject: \r\n" := by decide
  have hmsgid : MailHeader.msgid.name <+: ascii "Message-ID: <" := by decide
  cases header with
  | date => exact ⟨is_framed hdate _ _, nofun⟩
  | sender => exact ⟨htext ▸ is_framed hfrom _ _, fun _ => htext⟩
  | subject => exact ⟨hsubject.map tolower, nofun⟩
  | msgid =>
      have hfront := hmsgid.trans ((List.prefix_append _ smtp.idString.1).trans
        ((List.prefix_append _ (ascii "@")).trans (List.prefix_append _ smtp.heloHost.1.octets)))
      exact ⟨(hfront.trans (List.prefix_append _ _)).map tolower, nofun⟩

theorem transact_ends (system : SmtpSystem) (haccepts : AcceptsCommands server) {heloHost : CString}
    (hbetween : smtp.Between heloHost) (t : Transaction) {saved : List Octet}
    (hsaved : smtp.sender.getD (senderOf heloHost t.sender) = saved)
    (hfits : saved.length + 14 < SMTP_TEXT_SIZE) : (smtp.transact server system t).Ends fun smtp' =>
      smtp'.Between heloHost ∧ ∃ text : MailHeader → List Octet,
        (∀ header, IsAdded saved header (text header)) ∧
        ∃ front back : List (List Octet), smtp'.sent =
          smtp.sent ++ .command (mailFrom saved) :: front.map SmtpSent.command ++
            ((headerLines t.lines).map printed ++ (addedTo smtp.flags t.lines).map text ++
              (bodyLines t.lines).map printed).map SmtpSent.data ++
            back.map SmtpSent.command := by
  have hnul : 0 ∉ saved := by
    rw [← hsaved]
    cases hsender : smtp.sender with
    | none => exact senderOf_noNul heloHost t.sender
    | some saved => exact (hbetween.saved saved hsender).1
  have htake : (mailFrom saved).take (SMTP_TEXT_SIZE - 1) = mailFrom saved := by
    have hlength := mailFrom_length saved
    exact List.take_of_length_le (by omega)
  have hmail := mail_ends system haccepts hbetween.error t.sender (by
    rw [hbetween.helo, hsaved]
    exact hnul)
  rw [hbetween.helo, hsaved, htake] at hmail
  rw [Smtp2.transact, ends_bind]
  refine hmail.mono ?_
  rintro ⟨rc, smtp₁⟩ ⟨text₁, code₁, hsmtp₁⟩
  dsimp only at hsmtp₁ ⊢
  have herror₁ : smtp₁.flags.error = false := by
    rw [hsmtp₁]
    exact hbetween.error
  rw [ends_bind]
  refine (rcptAll_ends haccepts herror₁ t.recipients).mono ?_
  rintro smtp₂ ⟨text₂, code₂, front, hsmtp₂⟩
  have hflags₂ : smtp₂.flags = smtp.flags := by
    rw [hsmtp₂, hsmtp₁]
    rfl
  have hsender₂ : smtp₂.sender = some saved := by rw [hsmtp₂, hsmtp₁]
  have hhelo₂ : smtp₂.heloHost = smtp.heloHost := by
    rw [hsmtp₂, hsmtp₁]
    rfl
  have hsent₂ : smtp₂.sent = smtp.sent ++ [.command (mailFrom saved)] ++
      front.map SmtpSent.command := by
    rw [hsmtp₂, hsmtp₁]
  clear hsmtp₂ hsmtp₁
  have hget : smtp₂.sender.getD [] = saved := by
    rw [hsender₂]
    rfl
  have hprint := printAll_message system haccepts (by rw [hflags₂]; exact hbetween.error)
    (by rw [hflags₂]; exact hbetween.data) (hget ▸ hnul) (by rw [hget]; omega) t.lines
  rw [ends_bind]
  refine hprint.mono ?_
  rintro smtp₃ ⟨herror₃, hhelo₃, hsender₃, commands, hsent₃⟩
  obtain ⟨hdata, herror, hhelo, hkept, back, hback⟩ := finish_eq haccepts herror₃ t.rset
  refine ends_pure.mpr ⟨⟨hdata, herror, ?_, ?_⟩, MailHeader.text system smtp₂,
    isAdded_text system hsender₂, front ++ commands, back, ?_⟩
  · rw [hhelo, hhelo₃, hhelo₂, hbetween.helo]
  · intro saved' hsaved'
    have hsome := hkept saved' hsaved'
    rw [hsender₃, hsender₂] at hsome
    cases hsome
    exact ⟨hnul, hfits⟩
  · have hadded : addedTo { smtp.flags with data := true } t.lines =
        addedTo smtp.flags t.lines := by
      unfold addedTo
      congr 2
    rw [hback, hsent₃, hsent₂, hflags₂, written_eq, hadded]
    simp

theorem transact_first {system : SmtpSystem} (haccepts : AcceptsCommands server)
    {heloHost : CString} (hbetween : smtp.Between heloHost) {t : Transaction} {Q : Smtp2 → Prop}
    (h : (smtp.transact server system t).Ends Q) : ∃ smtp', Q smtp' ∧
      smtp.sent ++ [.command ((mailFrom (smtp.sender.getD (senderOf heloHost t.sender))).take
        (SMTP_TEXT_SIZE - 1))] <+: smtp'.sent := by
  have hnul : 0 ∉ smtp.sender.getD (senderOf heloHost t.sender) := by
    cases hsender : smtp.sender with
    | none => exact senderOf_noNul heloHost t.sender
    | some saved => exact (hbetween.saved saved hsender).1
  have hmail := mail_ends system haccepts hbetween.error t.sender (by
    rw [hbetween.helo]
    exact hnul)
  rw [hbetween.helo] at hmail
  generalize smtp.sender.getD (senderOf heloHost t.sender) = saved at hmail hnul ⊢
  rw [Smtp2.transact, ends_bind] at h
  obtain ⟨⟨rc, smtp₁⟩, ⟨text₁, code₁, hsmtp₁⟩, h⟩ := hmail.both h
  dsimp only at hsmtp₁ h
  have herror₁ : smtp₁.flags.error = false := by
    rw [hsmtp₁]
    exact hbetween.error
  rw [ends_bind] at h
  obtain ⟨smtp₂, ⟨text₂, code₂, front, hsmtp₂⟩, h⟩ :=
    (rcptAll_ends haccepts herror₁ t.recipients).both h
  have herror₂ : smtp₂.flags.error = false := by
    rw [hsmtp₂]
    exact herror₁
  have hget : smtp₂.sender.getD [] = saved := by
    rw [hsmtp₂, hsmtp₁]
    rfl
  rw [ends_bind] at h
  obtain ⟨smtp₃, h, herror₃, hgrows⟩ := printAll_grows haccepts herror₂ (hget ▸ hnul) h
  obtain ⟨-, -, -, -, back, hback⟩ := finish_eq haccepts herror₃ t.rset
  refine ⟨_, ends_pure.mp h, ?_⟩
  rw [hback]
  refine List.IsPrefix.trans ?_ (hgrows.trans (List.prefix_append _ _))
  rw [hsmtp₂, hsmtp₁]
  exact List.prefix_append _ _

theorem filterMap_line (front lines back : List (List Octet)) :
    (front.map SmtpSent.command ++ lines.map SmtpSent.data ++
      back.map SmtpSent.command).filterMap SmtpSent.line? = lines := by
  have hcommands : ∀ commands : List (List Octet),
      (commands.map SmtpSent.command).filterMap SmtpSent.line? = [] := by
    intro commands
    rw [List.filterMap_map, List.filterMap_eq_nil_iff]
    exact fun _ _ => rfl
  have hlines : (lines.map SmtpSent.data).filterMap SmtpSent.line? = lines := by
    rw [List.filterMap_map]
    exact List.filterMap_some
  rw [List.filterMap_append, List.filterMap_append, hcommands, hcommands, hlines, List.nil_append,
    List.append_nil]

theorem addedTo_sublist (flags : SmtpFlags) (lines : List (List Octet)) :
    (addedTo flags lines).Sublist (if bodyLines lines = [] then [] else lacking lines) := by
  unfold addedTo
  by_cases hbody : bodyLines lines = []
  · rw [if_pos hbody, if_pos (.inl hbody)]
  · rw [if_neg hbody]
    split
    · exact List.nil_sublist _
    · exact List.filter_sublist

theorem addedTo_length_iff (flags : SmtpFlags) (lines : List (List Octet)) :
    (addedTo flags lines).length = (if bodyLines lines = [] then [] else lacking lines).length ↔
      (bodyLines lines ≠ [] → ∀ header ∈ lacking lines,
        flags.eoh = false ∧ header.flag flags = false) := by
  unfold addedTo
  by_cases hbody : bodyLines lines = []
  · simp [hbody]
  · rw [if_neg hbody]
    by_cases heoh : flags.eoh = true
    · rw [if_pos (.inr heoh), List.length_nil, eq_comm, List.length_eq_zero_iff]
      simp [hbody, heoh, List.eq_nil_iff_forall_not_mem]
    · rw [if_neg (not_or.mpr ⟨hbody, heoh⟩), List.length_filter_eq_length_iff]
      simp [hbody, heoh]

theorem transact_apart (system : SmtpSystem) (haccepts : AcceptsCommands server)
    {heloHost : CString} (hbetween : smtp.Between heloHost) (hsent : smtp.sent = [])
    {t : Transaction} (hkeeps : KeepsApart heloHost smtp t) :
    (smtp.transact server system t).Ends fun smtp' =>
      smtp'.Between heloHost ∧ t.Apart heloHost smtp'.sent := by
  have hsaved : smtp.sender.getD (senderOf heloHost t.sender) = senderOf heloHost t.sender := by
    cases hsender : smtp.sender with
    | none => rfl
    | some saved => exact hkeeps.sender saved hsender
  refine (transact_ends system haccepts hbetween t hsaved hkeeps.fits).mono ?_
  rintro smtp' ⟨hbetween', text, htext, front, back, hsent'⟩
  rw [hsent, List.nil_append] at hsent'
  refine ⟨hbetween', ⟨?_, (addedTo smtp.flags t.lines).map text, ?_, ?_⟩⟩
  · rw [hsent']
    rfl
  · have hadded : addedTo smtp.flags t.lines =
        if bodyLines t.lines = [] then [] else lacking t.lines := by
      refine List.Sublist.eq_of_length ?_ ((addedTo_length_iff _ _).mpr hkeeps.headers)
      exact addedTo_sublist smtp.flags t.lines
    rw [← hadded, List.forall₂_map_right_iff]
    exact List.forall₂_same.mpr fun header _ => htext header
  · rw [hsent', ← List.map_cons, filterMap_line]

theorem keepsApart_of_apart {system : SmtpSystem} (haccepts : AcceptsCommands server)
    {heloHost : CString} (hbetween : smtp.Between heloHost) (hsent : smtp.sent = [])
    {t : Transaction} (h : (smtp.transact server system t).Ends fun smtp' =>
      t.Apart heloHost smtp'.sent) : KeepsApart heloHost smtp t := by
  obtain ⟨smtp', hapart, hfirst⟩ := transact_first haccepts hbetween h
  rw [hsent, List.nil_append] at hfirst
  have hcommand : (mailFrom (smtp.sender.getD (senderOf heloHost t.sender))).take
      (SMTP_TEXT_SIZE - 1) = mailFrom (senderOf heloHost t.sender) := by
    obtain ⟨rest, hrest⟩ := hfirst
    have hmail := hapart.mail
    rw [← hrest] at hmail
    exact SmtpSent.command.inj (Option.some.inj hmail)
  have hfits : (senderOf heloHost t.sender).length + 14 < SMTP_TEXT_SIZE := by
    have hlength := mailFrom_length (senderOf heloHost t.sender)
    rw [← hcommand, List.length_take] at hlength
    have hsize : SMTP_TEXT_SIZE = 1001 := rfl
    omega
  have hsaved : smtp.sender.getD (senderOf heloHost t.sender) = senderOf heloHost t.sender := by
    refine mailFrom_inj (Eq.trans ?_ hcommand)
    refine (List.take_of_length_le ?_).symm
    rw [mailFrom_length]
    cases hsender : smtp.sender with
    | none => exact Nat.le_sub_one_of_lt hfits
    | some saved => exact Nat.le_sub_one_of_lt (hbetween.saved saved hsender).2
  refine ⟨fun saved hsender => ?_, hfits, ?_⟩
  · rw [hsender] at hsaved
    exact hsaved
  · obtain ⟨smtp', hapart, -, text, -, front, back, hsent'⟩ :=
      h.both (transact_ends system haccepts hbetween t hsaved hfits)
    obtain ⟨added, hadded, hlines⟩ := hapart.headers
    rw [hsent', hsent, List.nil_append, ← List.map_cons, filterMap_line] at hlines
    have heq := List.append_cancel_left (List.append_cancel_right hlines)
    rw [← addedTo_length_iff, hadded.length_eq, ← heq, List.length_map]

/-- Transactions on one session, with a server that accepts every command, name their own senders
and are given just the headers that they lack if and only if each of them is begun on a session that
is clean for it. -/
theorem transactions_apart_iff (server : List Octet → Nat) (haccepts : AcceptsCommands server)
    (system : SmtpSystem) (start id : Nat)
    (heloHost : {s : CString // s.octets.length < DOMAIN_SIZE}) (ts : List Transaction) :
    (deliver (transactNoted server system) (smtp2Opened system start id heloHost, []) ts).Ends
        (fun state => ∀ entry ∈ state.2, entry.1.Apart heloHost.1 entry.2) ↔
      ∀ before t after, ts = before ++ t :: after → ∀ state,
        (deliver (transactNoted server system) (smtp2Opened system start id heloHost, [])
          before).outcome = .done state → KeepsApart heloHost.1 state.1 t := by
  refine deliver_ends_iff
    (J := fun state : Smtp2 × List (Transaction × List SmtpSent) => state.1.Between heloHost.1)
    (G := fun state => ∀ entry ∈ state.2, entry.1.Apart heloHost.1 entry.2)
    (C := fun state t => KeepsApart heloHost.1 state.1 t) ?_ ?_ ?_ ?_ ?_
  · rintro ⟨smtp, noted⟩ t hbetween hgood hkeeps
    have hclean : Smtp2.Between heloHost.1 { smtp with sent := [] } :=
      ⟨hbetween.data, hbetween.error, hbetween.helo, hbetween.saved⟩
    rw [transactNoted, ends_bind]
    refine (transact_apart system haccepts hclean rfl
      ⟨hkeeps.sender, hkeeps.fits, hkeeps.headers⟩).mono ?_
    rintro smtp' ⟨hbetween', hapart⟩
    refine ends_pure.mpr ⟨hbetween', fun entry hentry => ?_⟩
    rcases List.mem_append.mp hentry with hentry | hentry
    · exact hgood entry hentry
    · rw [List.mem_singleton.mp hentry]
      exact hapart
  · rintro ⟨smtp, noted⟩ t hbetween hgood hkeeps h
    have hclean : Smtp2.Between heloHost.1 { smtp with sent := [] } :=
      ⟨hbetween.data, hbetween.error, hbetween.helo, hbetween.saved⟩
    rw [transactNoted, ends_bind] at h
    have hkept := keepsApart_of_apart haccepts hclean rfl (t := t) (h.mono fun smtp' hsmtp' =>
      ends_pure.mp hsmtp' (t, smtp'.sent) (List.mem_append_right _ (List.mem_singleton_self _)))
    exact hkeeps ⟨hkept.sender, hkept.fits, hkept.headers⟩
  · rintro ⟨smtp, noted⟩ t state hbad h hgood
    rw [transactNoted] at h
    obtain ⟨smtp', -, hstate⟩ := outcome_bind_eq_done.mp h
    cases hstate
    exact hbad fun entry hentry => hgood entry (List.mem_append_left _ hentry)
  · exact ⟨rfl, rfl, rfl, nofun⟩
  · exact nofun

end Transactions

/-- A server that accepts every command. -/
def acceptAll (command : List Octet) : Nat :=
  if command = ascii "DATA\r\n" then SMTP_WAITING else SMTP_OK

theorem acceptAll_accepts : AcceptsCommands acceptAll where
  data := if_pos rfl
  others := fun command h => by
    rw [acceptAll, if_neg h]
    exact ⟨by decide, by decide⟩

/-- A system on which the time stands still. -/
def stillSystem : SmtpSystem where
  pid := 1
  time := fun _ => 0
  timeEncode := fun _ => ⟨ascii "o00000", by decide⟩
  timeEncode_length := fun _ => rfl
  timeStamp := fun _ => ⟨ascii "Thu, 01 Jan 1970 00:00:00 +0000", by decide⟩
  timeStamp_length := fun _ => by decide

def localHost : {s : CString // s.octets.length < DOMAIN_SIZE} :=
  ⟨⟨ascii "mx", by decide⟩, by decide⟩

/-- A transaction with a message that is an empty line. -/
def emptyMail (sender : CString) : Transaction :=
  ⟨some sender, [⟨ascii "b@c", by decide⟩], [ascii "\r\n"], false⟩

def annSender : CString :=
  ⟨ascii "ann@a", by decide⟩

def bobSender : CString :=
  ⟨ascii "bob@a", by decide⟩

/-- The first transaction of a session is kept apart. -/
theorem firstTransaction_apart :
    (deliver (transactNoted acceptAll stillSystem) (smtp2Opened stillSystem 0 1 localHost, [])
      [emptyMail annSender]).Ends fun state =>
        ∀ entry ∈ state.2, entry.1.Apart localHost.1 entry.2 := by
  refine (transactions_apart_iff acceptAll acceptAll_accepts stillSystem 0 1 localHost
    [emptyMail annSender]).mpr ?_
  rintro (_ | ⟨t', before⟩) t after hsplit state hstate
  · cases hsplit
    cases hstate
    exact ⟨nofun, by decide, fun _ header _ => ⟨rfl, by cases header <;> rfl⟩⟩
  · cases before <;> cases hsplit

/-- Of two transactions without a reset between them, the second names the sender of the first. -/
theorem transactions_leak :
    ¬ (deliver (transactNoted acceptAll stillSystem) (smtp2Opened stillSystem 0 1 localHost, [])
      [emptyMail annSender, emptyMail bobSender]).Ends fun state =>
        ∀ entry ∈ state.2, entry.1.Apart localHost.1 entry.2 := by
  have hfirst : (deliver (transactNoted acceptAll stillSystem)
      (smtp2Opened stillSystem 0 1 localHost, [])
      [emptyMail annSender, emptyMail bobSender]).result.map (fun state =>
        state.2.map fun entry => (entry.1.sender, entry.2.head?)) =
      some [(some annSender, some (.command (mailFrom (ascii "ann@a")))),
        (some bobSender, some (.command (mailFrom (ascii "ann@a"))))] := by
    decide
  rintro ⟨-, state, hdone, hapart⟩
  rw [result_eq_some.mpr hdone, Option.map_some, Option.some.injEq] at hfirst
  obtain ⟨entry, hentry, heq⟩ : ∃ entry ∈ state.2, (entry.1.sender, entry.2.head?) =
      (some bobSender, some (.command (mailFrom (ascii "ann@a")))) := by
    rw [← List.mem_map, hfirst]
    exact .tail _ (.head _)
  obtain ⟨hsender, hhead⟩ := Prod.mk.inj heq
  have hmail := (hapart entry hentry).mail
  rw [hsender, hhead] at hmail
  have hsame := mailFrom_inj (SmtpSent.command.inj (Option.some.inj hmail))
  exact absurd hsame (by decide)

end Snert
