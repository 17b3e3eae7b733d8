/-
Module: Snert.Mail.Smtp2
Purpose: A session of mail/smtp2.c from `smtp2Mail` to `smtp2Dot` and `smtp2Rset`. The working
  buffer `text` is an object, and a line that is printed is the caller's or lies in that buffer.
  Everything that is written to the server is noted; the server is a function from commands to reply
  codes. Writing to the socket never fails; the log is left out.
Trusted boundary: human-reviewed spec
Main exports: SMTP_TEXT_SIZE, SmtpSystem, SmtpFlags, Smtp2
-/
import Snert.CModel.Buffer
import Snert.CModel.Numeral
import Snert.Pdq.Name
import Snert.Util.TextClass

namespace Snert

open CModel

abbrev SMTP_TEXT_LINE_LENGTH : Nat := 1000
abbrev TIME_STAMP_MIN_SIZE : Nat := 32

/-- The size of `text`. -/
abbrev SMTP_TEXT_SIZE : Nat := SMTP_TEXT_LINE_LENGTH + 1

abbrev SMTP_OK : Nat := 250
abbrev SMTP_WAITING : Nat := 354
abbrev SMTP_ERROR_IO : Nat := 140

/-- `SMTP_IS_ERROR`. -/
def smtpIsError (rc : Nat) : Bool :=
  100 ≤ rc && rc < 200

/-! ### Sessions -/

/-- What a session asks of the system: the process, the time when its message ids are used up for
    the next time, and how times are written. -/
structure SmtpSystem where
  pid : Nat
  time : Nat → Nat
  /-- `time_encode`. -/
  timeEncode : Nat → CString
  timeEncode_length : ∀ time, (timeEncode time).octets.length = 6
  /-- `TimeStamp`, a string of the size it is given. -/
  timeStamp : Nat → CString
  timeStamp_length : ∀ time, (timeStamp time).octets.length < TIME_STAMP_MIN_SIZE

/-- The internal flags, but for that of EHLO: `sender` is `SMTP_FLAG_FROM`. -/
structure SmtpFlags where
  subject : Bool
  sender : Bool
  date : Bool
  msgid : Bool
  eoh : Bool
  data : Bool
  error : Bool
deriving DecidableEq, Repr

/-- No internal flag is set. -/
def SmtpFlags.none : SmtpFlags :=
  ⟨false, false, false, false, false, false, false⟩

/-- What is written to the server. -/
inductive SmtpSent where
  | command (line : List Octet)
  | data (line : List Octet)
deriving DecidableEq, Repr

/-- `SMTP2`, with what has been written to the server. -/
structure Smtp2 where
  idString : {s : List Octet // s.length < 20}
  id : Nat
  count : Nat
  start : Nat
  flags : SmtpFlags
  code : Nat
  sender : Option (List Octet)
  heloHost : {s : CString // s.octets.length < DOMAIN_SIZE}
  text : Buffer SMTP_TEXT_SIZE
  sent : List SmtpSent

/-! ### Message ids -/

def base62 : List Octet :=
  ascii "0123456789ABCDEFGHIJKLMNOPQRSYUVWXYZabcdefghijklmnopqrsyuvwxyz"

/-- `%05u`. -/
def fiveDigits (n : Nat) : List Octet :=
  List.replicate (5 - (numeral 10 n).length) (ch '0') ++ numeral 10 n

/-- The first sixteen octets of a message id. -/
def idFront (system : SmtpSystem) (start id : Nat) : List Octet :=
  (system.timeEncode start).octets ++ (fiveDigits system.pid ++ fiveDigits id).take 10

/-- `next_msg_id (smtp, smtp->id_string)`. -/
def nextMsgId (system : SmtpSystem) (smtp : Smtp2) : Smtp2 :=
  let (start, count) :=
    if 62 * 62 ≤ smtp.count + 1 then (system.time smtp.start, 1) else (smtp.start, smtp.count + 1)
  let idString := idFront system start smtp.id ++
    [base62.getD (count / 62) 0, base62.getD (count % 62) 0]
  { smtp with
    start := start
    count := count
    idString := ⟨idString, by
      simp only [idString, idFront, List.length_append, system.timeEncode_length, List.length_take,
        List.length_cons, List.length_nil]
      omega⟩ }

/-- `reset_msg_id`. -/
def resetMsgId (smtp : Smtp2) : Smtp2 :=
  { smtp with
    idString := ⟨smtp.idString.1.take 16 ++ ascii "00", by
      have hfront : (smtp.idString.1.take 16).length ≤ 16 :=
        Nat.le_trans (Nat.le_of_eq List.length_take) (Nat.min_le_left _ _)
      have hzeros : (ascii "00").length = 2 := rfl
      rw [List.length_append, hzeros]
      omega⟩ }

/-- A session that `smtp2Open` has brought to where mail can be sent. -/
def smtp2Opened (system : SmtpSystem) (start id : Nat)
    (heloHost : {s : CString // s.octets.length < DOMAIN_SIZE}) : Smtp2 where
  idString := ⟨(system.timeEncode start).octets ++
    (fiveDigits system.pid ++ fiveDigits id ++ ascii "00").take 13, by
      rw [List.length_append, system.timeEncode_length, List.length_take]
      omega⟩
  id := id
  count := 0
  start := start
  flags := .none
  code := SMTP_OK
  sender := none
  heloHost := heloHost
  text := Buffer.replicate SMTP_TEXT_SIZE 0
  sent := []

/-! ### Commands -/

section Session

variable (server : List Octet → Nat)

/-- `mxPrint (smtp, line, length)`. -/
def mxPrint (smtp : Smtp2) (sent : SmtpSent) : Nat × Smtp2 :=
  -- Have we already had an IO error?
  if smtp.flags.error then ( SMTP_ERROR_IO, smtp)
  else (SMTP_OK, { smtp with sent := smtp.sent ++ [sent] })

/-- `mxCommand (smtp, line)`, with `mxResponse` for the reply of the server. -/
def mxCommand (smtp : Smtp2) (line : List Octet) : Nat × Smtp2 :=
  let (rc, smtp) := mxPrint smtp (.command line)
  if smtpIsError rc then (rc, { smtp with code := rc })
  else
    let rc := server line
    let smtp :=
      if smtpIsError rc then { smtp with flags := { smtp.flags with error := true } } else smtp
    (rc, { smtp with code := rc })

/-- `snprintf (smtp->text, size, ..)` for the string that the format makes. -/
def snprintfText (smtp : Smtp2) (size : Nat) (string : List Octet) : Run Smtp2 := do
  return { smtp with text := ← smtp.text.write 0 (string.take (size - 1) ++ [0]) }

/-- `smtp2Mail (smtp, sender)`. -/
def smtp2Mail (system : SmtpSystem) (smtp : Smtp2) (sender : Option CString) :
    Run (Nat × Smtp2) := do
  let smtp := nextMsgId system smtp
  let (smtp, sender) ← match sender with
    | some sender => pure (smtp, sender.octets)
    | none => do
        let smtp ← snprintfText smtp SMTP_TEXT_SIZE (ascii "postmaster@" ++ smtp.heloHost.1.octets)
        pure (smtp, smtp.text.cstring)
  -- Save the sender for when we need to add a From: header if required.
  let sender := smtp.sender.getD sender
  let smtp ← snprintfText { smtp with sender := some sender } SMTP_TEXT_SIZE
    (ascii "MAIL FROM:<" ++ sender ++ ascii ">\r\n")
  return mxCommand server smtp smtp.text.cstring

/-- `smtp2Rcpt (smtp, recipient)`. -/
def smtp2Rcpt (smtp : Smtp2) (recipient : CString) : Run (Nat × Smtp2) := do
  let smtp ← snprintfText smtp SMTP_TEXT_SIZE
    (ascii "RCPT TO:<" ++ recipient.octets ++ ascii ">\r\n")
  return mxCommand server smtp smtp.text.cstring

/-- `smtp2Data (smtp)`. -/
def smtp2Data (smtp : Smtp2) : Nat × Smtp2 :=
  if smtp.flags.data then (SMTP_WAITING, smtp)
  else
    let (rc, smtp) := mxCommand server smtp (ascii "DATA\r\n")
    if rc = SMTP_WAITING then (rc, { smtp with flags := { smtp.flags with data := true } })
    else (rc, smtp)

/-- `smtp2Rset (smtp)`. -/
def smtp2Rset (smtp : Smtp2) : Nat × Smtp2 :=
  mxCommand server { resetMsgId smtp with sender := none, flags := .none } (ascii "RSET\r\n")

/-- `smtp2Dot (smtp)`. -/
def smtp2Dot (smtp : Smtp2) : Nat × Smtp2 :=
  if smtp.flags.data then
    let (rc, smtp) := mxCommand server { smtp with flags := { smtp.flags with data := false } }
      (ascii ".\r\n")
    (rc, resetMsgId smtp)
  else smtp2Rset server smtp

/-! ### Lines -/

/-- A line that is printed: octets of the caller, followed by a NUL, or the first octets of
    `text`. -/
inductive SmtpLine where
  | caller (octets : List Octet)
  | text (length : Nat)
deriving DecidableEq, Repr

namespace SmtpLine

/-- The octet at an index that is zero or one. -/
def getOctet (smtp : Smtp2) : SmtpLine → Nat → Octet
  | caller octets, i => octets.getD i 0
  | text _, i => smtp.text.get i

/-- The length that is given with the line. -/
def length : SmtpLine → Nat
  | caller octets => octets.length
  | text length => length

/-- The octets of the line. -/
def octets (smtp : Smtp2) : SmtpLine → List Octet
  | caller octets => octets
  | text length => smtp.text.octets.take length

end SmtpLine

/-- Handle SMTP dot transparency by copying to the working buffer. -/
def stuffDot (smtp : Smtp2) (line : SmtpLine) : Run (Smtp2 × SmtpLine) := do
  if ¬ (0 < line.length ∧ line.getOctet smtp 0 = ch '.') then return (smtp, line)
  let length := min line.length (SMTP_TEXT_SIZE - 2)
  let text ← match line with
    | .caller octets => smtp.text.write 1 (octets.take length)
    -- `memcpy` promises nothing for objects that overlap.
    | .text _ => ⟨[], .crash⟩
  let text ← text.write (length + 1 : Nat) [0]
  let text ← text.write 0 [ch '.']
  return ({ smtp with text := text }, .text (length + 1))

/-- `mxPrint (smtp, line, length)` for a line of the message. -/
def mxPrintLine (smtp : Smtp2) (line : SmtpLine) : Run (Nat × Smtp2) :=
  match line with
  | .caller octets => pure (mxPrint smtp (.data octets))
  | .text length => do
      let octets ← Run.load ⟨0, length, SMTP_TEXT_SIZE⟩ (smtp.text.octets.take length)
      return mxPrint smtp (.data octets)

/-- Is the line one of the headers that are required? -/
def noteHeader (flags : SmtpFlags) (octets : List Octet) : SmtpFlags :=
  if !flags.subject && textFind octets (ascii "Subject:*") then { flags with subject := true }
  else if !flags.sender && textFind octets (ascii "From:*") then { flags with sender := true }
  else if !flags.date && textFind octets (ascii "Date:*") then { flags with date := true }
  else if !flags.msgid && textFind octets (ascii "Message-ID:*") then { flags with msgid := true }
  else flags

/-- The headers that are added where they are missing: their text, and is it printed with
    `smtp2Printf`? The sender is there once `smtp2Mail` has been called. -/
inductive MailHeader where
  | date | sender | subject | msgid
deriving DecidableEq, Repr

namespace MailHeader

/-- The headers in the order in which they are added. -/
def all : List MailHeader :=
  [date, sender, subject, msgid]

/-- The flag that says that the message has the header. -/
def flag (flags : SmtpFlags) : MailHeader → Bool
  | date => flags.date
  | sender => flags.sender
  | subject => flags.subject
  | msgid => flags.msgid

/-- The header that is added. -/
def text (system : SmtpSystem) (smtp : Smtp2) : MailHeader → List Octet
  | date => ascii "Date: " ++ (system.timeStamp smtp.start).octets ++ ascii "\r\n"
  | sender => ascii "From: <" ++ smtp.sender.getD [] ++ ascii ">\r\n"
  | subject => ascii "Subject: \r\n"
  | msgid =>
      ascii "Message-ID: <" ++ smtp.idString.1 ++ ascii "@" ++ smtp.heloHost.1.octets ++
        ascii ">\r\n"

end MailHeader

/-- Add a required header, unless the message has it. -/
def addHeader (system : SmtpSystem) (printf : Smtp2 → List Octet → Run (Nat × Smtp2)) (smtp : Smtp2)
    (header : MailHeader) : Run Smtp2 := do
  if header.flag smtp.flags then return smtp
  let text := header.text system smtp
  let (_, smtp) ← if header = .subject then pure (mxPrint smtp (.data text)) else printf smtp text
  return smtp

/-- Add any missing required headers. -/
def addHeaders (system : SmtpSystem) (printf : Smtp2 → List Octet → Run (Nat × Smtp2)) :
    Smtp2 → List MailHeader → Run Smtp2
  | smtp, [] => pure smtp
  | smtp, header :: headers => do
      addHeaders system printf (← addHeader system printf smtp header) headers

/-- Check for required headers. -/
def checkHeaders (system : SmtpSystem) (printf : Smtp2 → List Octet → Run (Nat × Smtp2))
    (smtp : Smtp2) (line : SmtpLine) : Run Smtp2 :=
  if smtp.flags.eoh then pure smtp
  else if line.getOctet smtp 0 = ch '\r' ∧ line.getOctet smtp 1 = ch '\n' then
    addHeaders system printf { smtp with flags := { smtp.flags with eoh := true } } MailHeader.all
  else pure { smtp with flags := noteHeader smtp.flags (line.octets smtp) }

/-- `smtp2Print (smtp, line, length)`, with a bound on how deep it calls itself by way of
    `smtp2Printf`. -/
def smtp2PrintDepth (system : SmtpSystem) : Nat → Smtp2 → SmtpLine → Run (Nat × Smtp2)
  | 0, _, _ => ⟨[], .diverge⟩
  | depth + 1, smtp, line => do
      let (smtp, line) ← stuffDot smtp line
      let (rc, smtp) := smtp2Data server smtp
      if rc ≠ SMTP_WAITING then return (rc, smtp)
      let printf := fun smtp (string : List Octet) => do
        let smtp ← snprintfText smtp (SMTP_TEXT_SIZE - 3) string
        smtp2PrintDepth system depth smtp (.text string.length)
      let smtp ← checkHeaders system printf smtp line
      mxPrintLine smtp line

/-- `smtp2Print (smtp, line, length)`. It calls itself once at most: no header is added behind the
    end of the headers. -/
def smtp2Print (system : SmtpSystem) (smtp : Smtp2) (line : SmtpLine) : Run (Nat × Smtp2) :=
  smtp2PrintDepth server system 2 smtp line

/-- `smtp2Printf (smtp, ..)` for the string that the format makes. -/
def smtp2Printf (system : SmtpSystem) (smtp : Smtp2) (string : List Octet) :
    Run (Nat × Smtp2) := do
  let smtp ← snprintfText smtp (SMTP_TEXT_SIZE - 3) string
  smtp2Print server system smtp (.text string.length)

end Session

end Snert
