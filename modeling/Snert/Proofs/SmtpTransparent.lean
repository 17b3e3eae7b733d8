/-
Module: Snert.Proofs.SmtpTransparent
Purpose: The lines of one message, each passed to `smtp2Print` or to `smtp2Printf`: exactly when the
  octets that follow DATA are the lines with their dots doubled and the missing headers put in.
Trusted boundary: none
Main exports: message_transparent_iff
-/
import Snert.Proofs.SmtpTransactions

namespace Snert

open CModel CModel.Run

/-! ### Calls -/

/-- A line with its CR LF and no other CR or LF, shorter than the working buffer by at least four
octets. -/
structure MailLine where
  body : List Octet
  noEnd : ch '\r' ∉ body ∧ ch '\n' ∉ body
  short : body.length + 2 + 4 ≤ SMTP_TEXT_SIZE

/-- The octets of the line. -/
def MailLine.octets (line : MailLine) : List Octet :=
  line.body ++ ascii "\r\n"

/-- A line is passed to `smtp2Print`, or to `smtp2Printf` with `%s`. -/
inductive PrintCall where
  | print (line : MailLine)
  | printf (line : MailLine) (noNul : 0 ∉ line.body)

namespace PrintCall

/-- The octets of the line that is passed. -/
def octets : PrintCall → List Octet
  | print line => line.octets
  | printf line _ => line.octets

/-- The line is passed to `smtp2Printf`. -/
def formatted : PrintCall → Bool
  | print _ => false
  | printf _ _ => true

/-- The call on a session. -/
def run (server : List Octet → Nat) (system : SmtpSystem) (smtp : Smtp2) :
    PrintCall → Run Smtp2
  | print line => do return (← smtp2Print server system smtp (.caller line.octets)).2
  | printf line _ => do return (← smtp2Printf server system smtp line.octets).2

end PrintCall

/-- A line as it is to be written: an extra dot in front of a line that begins with one. -/
def stuffed (line : List Octet) : List Octet :=
  if peek line = ch '.' then ch '.' :: line else line

/-- The octets that are written behind DATA. -/
def Smtp2.dataOctets (smtp : Smtp2) : List Octet :=
  (smtp.sent.filterMap SmtpSent.line?).flatten

theorem MailLine.octets_length (line : MailLine) : line.octets.length = line.body.length + 2 :=
  List.length_append

theorem PrintCall.octets_length (call : PrintCall) : call.octets.length + 4 ≤ SMTP_TEXT_SIZE := by
  cases call with
  | print line => exact line.octets_length ▸ line.short
  | printf line noNul => exact line.octets_length ▸ line.short

theorem PrintCall.octets_ne_nil (call : PrintCall) : call.octets ≠ [] := by
  cases call <;> exact List.append_ne_nil_of_right_ne_nil _ (by decide)

theorem printed_call (call : PrintCall) : printed call.octets = stuffed call.octets := by
  have hlength := call.octets_length
  rw [printed, stuffed, List.take_of_length_le (by omega)]

/-! ### One call -/

section Calls

variable {server : List Octet → Nat} {smtp : Smtp2}

/-- The call writes what is to be written, given the flags in front of it and the length of the
sender: a line of `smtp2Printf` does not begin with a dot, and no header is added in front of it by
way of the working buffer; From, if it is added, fits. -/
structure Met (flags : SmtpFlags) (sender : List Octet) (call : PrintCall) : Prop where
  dot : call.formatted = true → peek call.octets ≠ ch '.'
  sender : .sender ∈ addedBy flags call.octets → sender.length + 13 < SMTP_TEXT_SIZE
  headers : call.formatted = true → ∀ header ∈ addedBy flags call.octets, header = .subject

/-- What a call leaves that writes these lines. -/
def Smtp2.wrote (begun : Smtp2) (line : List Octet) (text : Buffer SMTP_TEXT_SIZE)
    (pieces : List (List Octet)) : Smtp2 :=
  { begun with
    flags := notedBy begun.flags line
    text := text
    sent := begun.sent ++ pieces.map SmtpSent.data }

theorem cut_all {strings pieces : List (List Octet)} (h : List.Forall₂ Cut strings pieces) :
    pieces.map List.length = strings.map List.length ∧
      (pieces = strings ↔ ∀ string ∈ strings, string.length < SMTP_TEXT_SIZE - 3) := by
  induction h with
  | nil => exact ⟨rfl, iff_of_true rfl (by simp)⟩
  | cons hcut _ ih =>
      refine ⟨by rw [List.map_cons, List.map_cons, hcut.1, ih.1], ?_⟩
      rw [List.cons.injEq, hcut.2, ih.2, List.forall_mem_cons]

theorem cut_pieces {system : SmtpSystem} {begun : Smtp2} {headers : List MailHeader}
    {pieces : List (List Octet)} {line w : List Octet} {P : Prop}
    (hcut : List.Forall₂ Cut (headers.map (MailHeader.text system begun)) pieces)
    (hlength : w.length = line.length) (hline : w = line ↔ P) :
    (pieces ++ [w]).map List.length =
        (headers.map (MailHeader.text system begun) ++ [line]).map List.length ∧
      (pieces ++ [w] = headers.map (MailHeader.text system begun) ++ [line] ↔
        (.sender ∈ headers → (begun.sender.getD []).length + 13 < SMTP_TEXT_SIZE) ∧ P) := by
  have hsize : SMTP_TEXT_SIZE = 1001 := rfl
  obtain ⟨hlengths, heq⟩ := cut_all hcut
  have hfits : (∀ string ∈ headers.map (MailHeader.text system begun),
      string.length < SMTP_TEXT_SIZE - 3) ↔
        (.sender ∈ headers → (begun.sender.getD []).length + 13 < SMTP_TEXT_SIZE) := by
    have hsender := MailHeader.text_sender_length system begun
    constructor
    · intro h hmem
      have hlt := h _ (List.mem_map_of_mem hmem)
      omega
    · intro h string hstring
      obtain ⟨header, hmem, rfl⟩ := List.mem_map.mp hstring
      by_cases hfrom : header = .sender
      · subst hfrom
        have hlt := h hmem
        omega
      · exact MailHeader.text_length system begun hfrom
  refine ⟨?_, ?_⟩
  · rw [List.map_append, List.map_append, hlengths, List.map_singleton, hlength, List.map_singleton]
  · rw [← hfits, ← heq, ← hline]
    constructor
    · intro h
      obtain ⟨hpieces, hlast⟩ := List.append_inj' h rfl
      exact ⟨hpieces, List.singleton_inj.mp hlast⟩
    · rintro ⟨rfl, rfl⟩
      rfl

/-- What a call leaves that ends: as many octets as are to be written, and these if and only if the
condition is met. -/
def Writes (system : SmtpSystem) (begun : Smtp2) (call : PrintCall) (smtp : Smtp2) : Prop :=
  ∃ text pieces, smtp = begun.wrote call.octets text pieces ∧
    pieces.map List.length =
      ((addedBy begun.flags call.octets).map (MailHeader.text system begun) ++
        [printed call.octets]).map List.length ∧
    (pieces = (addedBy begun.flags call.octets).map (MailHeader.text system begun) ++
      [printed call.octets] ↔ Met begun.flags (begun.sender.getD []) call)

theorem print_writes (system : SmtpSystem) (haccepts : AcceptsCommands server)
    (herror : smtp.flags.error = false) (line : MailLine)
    (hreads : .sender ∈ addedBy smtp.begun.flags line.octets → smtp.begun.SenderReads) :
    ((PrintCall.print line).run server system smtp).Ends
      (Writes system smtp.begun (.print line)) := by
  rw [PrintCall.run, ends_bind]
  refine (print_caller_ends system haccepts.data herror line.octets hreads).mono ?_
  rintro r ⟨text, pieces, hr, hcut⟩
  obtain ⟨hlengths, heq⟩ := cut_pieces hcut rfl (iff_of_true rfl trivial)
  refine ends_pure.mpr ⟨text, pieces ++ [printed line.octets], hr, hlengths, heq.trans ?_⟩
  exact ⟨fun h => ⟨nofun, h.1, nofun⟩, fun h => ⟨h.sender, trivial⟩⟩

theorem smtp2Printf_eq (server : List Octet → Nat) (system : SmtpSystem) (smtp : Smtp2)
    (line : MailLine) :
    ∃ text : Buffer SMTP_TEXT_SIZE, (∃ rest, text.octets = line.octets ++ 0 :: rest) ∧
      ∀ Q, (smtp2Printf server system smtp line.octets).Ends Q ↔
        (smtp2Print server system { smtp with text := text }
          (.text line.octets.length)).Ends Q := by
  have hlength : line.octets.length + 4 ≤ SMTP_TEXT_SIZE := line.octets_length ▸ line.short
  obtain ⟨rest, hrest⟩ := octets_snprintf smtp.text line.octets
  rw [List.take_of_length_le (by omega)] at hrest
  refine ⟨_, ⟨rest, hrest⟩, fun Q => ?_⟩
  rw [smtp2Printf, (snprintfText_yields smtp (by decide) (by decide) _).bind_ends_iff,
    List.take_of_length_le (by omega)]

theorem printf_dot_crashes (system : SmtpSystem) (smtp : Smtp2) {line : MailLine}
    (hdot : peek line.octets = ch '.') (Q : Nat × Smtp2 → Prop) :
    ¬ (smtp2Printf server system smtp line.octets).Ends Q := by
  obtain ⟨text, ⟨rest, hrest⟩, hends⟩ := smtp2Printf_eq server system smtp line
  have hne : line.octets ≠ [] := (PrintCall.print line).octets_ne_nil
  have hstuff : 0 < (SmtpLine.text line.octets.length).length ∧
      (SmtpLine.text line.octets.length).getOctet { smtp with text := text } 0 = ch '.' := by
    refine ⟨List.length_pos_of_ne_nil hne, ?_⟩
    rw [SmtpLine.getOctet, getOctet_text hrest hne 0 (by decide), ← hdot]
    cases line.octets <;> rfl
  rw [hends, smtp2Print, smtp2PrintDepth, stuffDot, if_neg (not_not.mpr hstuff)]
  rintro ⟨-, r, hdone, -⟩
  cases hdone

theorem endsHeaders_of_added {flags : SmtpFlags} {line : List Octet}
    (h : addedBy flags line ≠ []) : EndsHeaders line := by
  unfold addedBy at h
  split at h
  next hends => exact hends.2
  next => exact absurd rfl h

theorem printf_writes (system : SmtpSystem) (haccepts : AcceptsCommands server)
    (herror : smtp.flags.error = false) (line : MailLine) (hnul : 0 ∉ line.body)
    (hdot : peek line.octets ≠ ch '.')
    (hreads : .sender ∈ addedBy smtp.begun.flags line.octets → smtp.begun.SenderReads) :
    ((PrintCall.printf line hnul).run server system smtp).Ends
      (Writes system smtp.begun (.printf line hnul)) := by
  have hlength : line.octets.length + 4 ≤ SMTP_TEXT_SIZE := line.octets_length ▸ line.short
  have hne : line.octets ≠ [] := (PrintCall.print line).octets_ne_nil
  obtain ⟨text, ⟨rest, hrest⟩, hends⟩ := smtp2Printf_eq server system smtp line
  have hplain : (SmtpLine.text line.octets.length).getOctet { smtp with text := text } 0 ≠
      ch '.' := by
    rw [SmtpLine.getOctet, getOctet_text hrest hne 0 (by decide)]
    intro h
    refine hdot (Eq.trans ?_ h)
    cases line.octets <;> rfl
  have hprinted : printed line.octets = line.octets := if_neg hdot
  rw [PrintCall.run, ends_bind, hends, smtp2Print,
    print_plain { smtp with text := text } haccepts.data herror hplain, begun_text]
  have hdata := begun_data smtp
  have herror' : smtp.begun.flags.error = false := (begun_error smtp).trans herror
  generalize smtp.begun = begun at hdata herror' hreads ⊢
  have hcheck := @checkHeaders_ends server { begun with text := text } system haccepts.data herror'
    hdata (.text line.octets.length) line.octets (getOctet_text hrest hne)
    (by rw [SmtpLine.octets, hrest, List.take_left]) hreads 0
  have htexts : MailHeader.text system { begun with text := text } =
      MailHeader.text system begun := by
    funext header
    cases header <;> rfl
  rw [htexts] at hcheck
  rw [ends_bind]
  refine hcheck.mono ?_
  rintro smtp' ⟨text', pieces, rfl, hcut, htext⟩
  have hwritten := mxPrintLine_text { begun with
    flags := notedBy begun.flags line.octets
    text := text'
    sent := begun.sent ++ pieces.map SmtpSent.data }
    ((notedBy_rest begun.flags line.octets).2.trans herror') (n := line.octets.length) (by omega)
  have hline : text'.octets.take line.octets.length = line.octets ↔
      ∀ header ∈ addedBy begun.flags line.octets, header = .subject := by
    constructor
    · intro h
      by_contra hsome
      refine htext.2 hsome ?_
      obtain ⟨hcr, -⟩ := (endsHeaders_iff _).mpr (endsHeaders_of_added fun hnil => hsome (by
        rw [hnil]
        simp))
      rw [Buffer.get, ← List.take_append_drop line.octets.length text'.octets, h, ← hcr]
      cases hcase : line.octets with
      | nil => exact absurd hcase hne
      | cons c os => rfl
    · intro h
      rw [htext.1 h, hrest, List.take_left]
  have hn := text'.length_octets
  obtain ⟨hlengths, heq⟩ := cut_pieces hcut
    (by rw [List.length_take]; omega : (text'.octets.take line.octets.length).length = _) hline
  rw [hwritten.ends_iff]
  refine ends_pure.mpr ⟨text', pieces ++ [text'.octets.take line.octets.length], ?_, ?_, ?_⟩
  · simp [Smtp2.wrote, PrintCall.octets]
  · rw [PrintCall.octets, hprinted]
    exact hlengths
  · rw [PrintCall.octets, hprinted]
    exact heq.trans ⟨fun h => ⟨fun _ => hdot, h.1, fun _ => h.2⟩,
      fun h => ⟨h.sender, h.headers rfl⟩⟩

theorem call_crashes (system : SmtpSystem) (haccepts : AcceptsCommands server)
    (herror : smtp.flags.error = false) {call : PrintCall}
    (hadded : .sender ∈ addedBy smtp.begun.flags call.octets)
    (hlength : SMTP_TEXT_SIZE < (smtp.begun.sender.getD []).length + 10) (Q : Smtp2 → Prop) :
    ¬ (call.run server system smtp).Ends Q := by
  cases call with
  | print line =>
      rw [PrintCall.run, ends_bind]
      exact not_print_caller_ends haccepts.data herror hadded hlength _
  | printf line hnul =>
      have hne : line.octets ≠ [] := (PrintCall.print line).octets_ne_nil
      have hends : EndsHeaders line.octets := endsHeaders_of_added (List.ne_nil_of_mem hadded)
      obtain ⟨text, ⟨rest, hrest⟩, hprintf⟩ := smtp2Printf_eq server system smtp line
      have hfirst := getOctet_text hrest hne
      have hplain : (SmtpLine.text line.octets.length).getOctet { smtp with text := text } 0 ≠
          ch '.' := by
        rw [SmtpLine.getOctet, hfirst 0 (by decide), ((endsHeaders_iff _).mpr hends).1]
        decide
      rw [PrintCall.run, ends_bind, hprintf, smtp2Print,
        print_plain { smtp with text := text } haccepts.data herror hplain, begun_text, ends_bind]
      have hdata := begun_data smtp
      have herror' : smtp.begun.flags.error = false := (begun_error smtp).trans herror
      exact @not_checkHeaders_ends server system { smtp.begun with text := text } haccepts.data
        herror' hdata (.text line.octets.length) line.octets hfirst hadded hlength 0 _

theorem call_cases (system : SmtpSystem) (haccepts : AcceptsCommands server)
    (herror : smtp.flags.error = false) (hnul : 0 ∉ smtp.sender.getD []) (call : PrintCall) :
    (¬ Met smtp.begun.flags (smtp.sender.getD []) call ∧
      ∀ Q, ¬ (call.run server system smtp).Ends Q) ∨
    (call.run server system smtp).Ends (Writes system smtp.begun call) := by
  have hsize : SMTP_TEXT_SIZE = 1001 := rfl
  have hsender := begun_sender smtp
  by_cases hlong : .sender ∈ addedBy smtp.begun.flags call.octets ∧
      SMTP_TEXT_SIZE < (smtp.sender.getD []).length + 10
  · refine .inl ⟨fun h => ?_, call_crashes system haccepts herror hlong.1 (hsender ▸ hlong.2)⟩
    have hfits := h.sender hlong.1
    have hlt := hlong.2
    omega
  have hreads : .sender ∈ addedBy smtp.begun.flags call.octets → smtp.begun.SenderReads := by
    intro hadded
    refine ⟨by rw [hsender]; exact hnul, ?_⟩
    rw [hsender]
    exact Nat.not_lt.mp fun hlt => hlong ⟨hadded, hlt⟩
  cases call with
  | print line => exact .inr (print_writes system haccepts herror line hreads)
  | printf line noNul =>
      by_cases hdot : peek line.octets = ch '.'
      · refine .inl ⟨fun h => h.dot rfl hdot, fun Q h => ?_⟩
        rw [PrintCall.run, ends_bind] at h
        exact printf_dot_crashes system smtp hdot _ h
      · exact .inr (printf_writes system haccepts herror line noNul hdot hreads)

/-! ### Calls one after the other -/

/-- The calls of a message on a session. -/
def callAll (server : List Octet → Nat) (system : SmtpSystem) :
    Smtp2 → List PrintCall → Run Smtp2 :=
  deliver fun smtp call => call.run server system smtp

/-- The condition is met at every call. -/
def MetAll (sender : List Octet) : SmtpFlags → List PrintCall → Prop
  | _, [] => True
  | flags, call :: calls =>
      Met flags sender call ∧ MetAll sender (notedBy flags call.octets) calls

theorem begun_wrote (begun : Smtp2) (hdata : begun.flags.data = true) (line : List Octet)
    (text : Buffer SMTP_TEXT_SIZE) (pieces : List (List Octet)) :
    (begun.wrote line text pieces).begun = begun.wrote line text pieces :=
  begun_eq ((notedBy_rest begun.flags line).1.trans hdata)

theorem dataOctets_begun (smtp : Smtp2) : smtp.begun.dataOctets = smtp.dataOctets := by
  unfold Smtp2.begun
  split
  · rfl
  · simp [Smtp2.dataOctets, SmtpSent.line?]

theorem dataOctets_wrote (begun : Smtp2) (line : List Octet) (text : Buffer SMTP_TEXT_SIZE)
    (pieces : List (List Octet)) :
    (begun.wrote line text pieces).dataOctets = begun.dataOctets ++ pieces.flatten := by
  have hpieces : (pieces.map SmtpSent.data).filterMap SmtpSent.line? = pieces := by
    rw [List.filterMap_map]
    exact List.filterMap_some
  rw [Smtp2.dataOctets, Smtp2.wrote, List.filterMap_append, hpieces, List.flatten_append]
  rfl

theorem callAll_cons (system : SmtpSystem) (smtp : Smtp2) (call : PrintCall)
    (calls : List PrintCall) (Q : Smtp2 → Prop) :
    (callAll server system smtp (call :: calls)).Ends Q ↔
      (call.run server system smtp).Ends fun smtp => (callAll server system smtp calls).Ends Q := by
  rw [callAll, deliver, ends_bind]

theorem callAll_grows (system : SmtpSystem) (haccepts : AcceptsCommands server)
    (herror : smtp.flags.error = false) (hnul : 0 ∉ smtp.sender.getD []) {calls : List PrintCall}
    {Q : Smtp2 → Prop} (h : (callAll server system smtp calls).Ends Q) :
    ∃ smtp', Q smtp' ∧ smtp.dataOctets <+: smtp'.dataOctets := by
  induction calls generalizing smtp with
  | nil => exact ⟨smtp, ends_pure.mp h, List.prefix_rfl⟩
  | cons call calls ih =>
      rw [callAll_cons] at h
      rcases call_cases system haccepts herror hnul call with ⟨-, hcrash⟩ | hwrites
      · exact absurd h (hcrash _)
      · obtain ⟨smtp', ⟨text, pieces, rfl, -, -⟩, hrest⟩ := hwrites.both h
        have herror' : smtp.begun.flags.error = false := (begun_error smtp).trans herror
        have hnul' : 0 ∉ smtp.begun.sender.getD [] := by
          rw [begun_sender]
          exact hnul
        obtain ⟨smtp', hQ, hgrows⟩ := @ih (smtp.begun.wrote call.octets text pieces)
          ((notedBy_rest _ _).2.trans herror') hnul' hrest
        rw [dataOctets_wrote, dataOctets_begun] at hgrows
        exact ⟨smtp', hQ, (List.prefix_append _ _).trans hgrows⟩

theorem callAll_ends_iff (system : SmtpSystem) (haccepts : AcceptsCommands server)
    (herror : smtp.flags.error = false) (hnul : 0 ∉ smtp.sender.getD []) (calls : List PrintCall) :
    (callAll server system smtp calls).Ends (fun smtp' => smtp'.dataOctets = smtp.dataOctets ++
        (written (MailHeader.text system smtp) smtp.begun.flags
          (calls.map PrintCall.octets)).flatten) ↔
      MetAll (smtp.sender.getD []) smtp.begun.flags calls := by
  induction calls generalizing smtp with
  | nil => exact ends_pure.trans (iff_of_true (List.append_nil _).symm trivial)
  | cons call calls ih =>
      have herror' : smtp.begun.flags.error = false := (begun_error smtp).trans herror
      have hsender := begun_sender smtp
      have htexts : MailHeader.text system smtp.begun = MailHeader.text system smtp := by
        funext header
        unfold Smtp2.begun
        cases header <;> split <;> rfl
      rw [callAll_cons, MetAll, List.map_cons, written, List.append_cons, List.flatten_append,
        ← List.append_assoc]
      rcases call_cases system haccepts herror hnul call with ⟨hmet, hcrash⟩ | hwrites
      · exact iff_of_false (hcrash _) fun h => hmet h.1
      have hnul' : 0 ∉ smtp.begun.sender.getD [] := hsender ▸ hnul
      have hdue : ((addedBy smtp.begun.flags call.octets).map (MailHeader.text system smtp) ++
          [printed call.octets]) =
          (addedBy smtp.begun.flags call.octets).map (MailHeader.text system smtp.begun) ++
            [printed call.octets] := by
        rw [htexts]
      rw [hdue]
      generalize hwant : (addedBy smtp.begun.flags call.octets).map
        (MailHeader.text system smtp.begun) ++ [printed call.octets] = due
      -- The calls that follow, from where this one has written what is due.
      have hrest : ∀ text,
          (callAll server system (smtp.begun.wrote call.octets text due) calls).Ends (fun smtp' =>
            smtp'.dataOctets = smtp.dataOctets ++ due.flatten ++
              (written (MailHeader.text system smtp) (notedBy smtp.begun.flags call.octets)
                (calls.map PrintCall.octets)).flatten) ↔
          MetAll (smtp.sender.getD []) (notedBy smtp.begun.flags call.octets) calls := by
        intro text
        have hih := @ih (smtp.begun.wrote call.octets text due)
          ((notedBy_rest _ _).2.trans herror') hnul'
        have htexts' : MailHeader.text system (smtp.begun.wrote call.octets text due) =
            MailHeader.text system smtp := by
          rw [← htexts]
          funext header
          cases header <;> rfl
        rw [begun_wrote _ (begun_data smtp), htexts', dataOctets_wrote, dataOctets_begun] at hih
        rw [← hsender]
        exact hih
      constructor
      · intro h
        obtain ⟨smtp', ⟨text, pieces, rfl, hlengths, heq⟩, hends⟩ := hwrites.both h
        obtain ⟨smtp', hend, hgrows⟩ := @callAll_grows _ (smtp.begun.wrote call.octets text pieces)
          system haccepts ((notedBy_rest smtp.begun.flags call.octets).2.trans herror') hnul' _ _
          hends
        rw [hend, dataOctets_wrote, dataOctets_begun, List.append_assoc,
          List.prefix_append_right_inj] at hgrows
        rw [hwant] at hlengths heq
        have hflatten : pieces.flatten = due.flatten := by
          have hlength : pieces.flatten.length = due.flatten.length := by
            rw [List.length_flatten, List.length_flatten, hlengths]
          obtain ⟨rest, hrest⟩ := hgrows
          exact (List.append_inj hrest hlength).1
        obtain rfl : pieces = due := List.eq_iff_flatten_eq.mpr ⟨hflatten, hlengths⟩
        exact ⟨hsender ▸ heq.mp rfl, (hrest text).mp hends⟩
      · rintro ⟨hmet, hmets⟩
        refine hwrites.mono ?_
        rintro smtp' ⟨text, pieces, rfl, -, heq⟩
        rw [hwant, hsender] at heq
        rw [heq.mpr hmet]
        exact (hrest text).mpr hmets

end Calls

/-! ### The whole message -/

theorem metAll_of_eoh {sender : List Octet} {flags : SmtpFlags} (heoh : flags.eoh = true)
    (calls : List PrintCall) : MetAll sender flags calls ↔
      ∀ call ∈ calls, call.formatted = true → peek call.octets ≠ ch '.' := by
  induction calls with
  | nil => exact iff_of_true trivial nofun
  | cons call calls ih =>
      have hadded : addedBy flags call.octets = [] := if_neg fun h => Bool.eq_false_iff.mp h.1 heoh
      have hnoted : notedBy flags call.octets = flags := if_pos heoh
      have hmet : Met flags sender call ↔ (call.formatted = true → peek call.octets ≠ ch '.') :=
        ⟨fun h => h.dot, fun h => ⟨h, by rw [hadded]; exact nofun, by rw [hadded]; exact nofun⟩⟩
      rw [MetAll, hnoted, ih, List.forall_mem_cons, hmet]

theorem metAll_iff {sender : List Octet} {flags : SmtpFlags} (heoh : ¬ flags.eoh = true)
    (calls : List PrintCall) : MetAll sender flags calls ↔
      (∀ call ∈ calls, call.formatted = true → peek call.octets ≠ ch '.') ∧
      ∀ call, calls.find? (fun call => decide (EndsHeaders call.octets)) = some call →
        (.sender ∈ addedTo flags (calls.map PrintCall.octets) →
          sender.length + 13 < SMTP_TEXT_SIZE) ∧
        (call.formatted = true →
          ∀ header ∈ addedTo flags (calls.map PrintCall.octets), header = .subject) := by
  induction calls generalizing flags with
  | nil => exact iff_of_true trivial ⟨by simp, by simp⟩
  | cons call calls ih =>
      rw [MetAll, List.map_cons, List.forall_mem_cons]
      by_cases hends : EndsHeaders call.octets
      · have hnoted : (notedBy flags call.octets).eoh = true := by
          rw [notedBy, if_neg heoh, if_pos hends]
        have hfind : (call :: calls).find? (fun call => decide (EndsHeaders call.octets)) =
            some call := List.find?_cons_of_pos (by simpa using hends)
        rw [metAll_of_eoh hnoted, addedTo_of_ends heoh hends, hfind]
        constructor
        · rintro ⟨hmet, hdots⟩
          refine ⟨⟨hmet.dot, hdots⟩, fun call' heq => ?_⟩
          cases heq
          exact ⟨hmet.sender, hmet.headers⟩
        · rintro ⟨⟨hdot, hdots⟩, hheaders⟩
          obtain ⟨hsender, hall⟩ := hheaders call rfl
          exact ⟨⟨hdot, hsender, hall⟩, hdots⟩
      · have hnone : addedBy flags call.octets = [] := if_neg fun h => hends h.2
        have hnoted : notedBy flags call.octets = noteHeader flags call.octets := by
          rw [notedBy, if_neg heoh, if_neg hends]
        have heoh' : ¬ (noteHeader flags call.octets).eoh = true := by
          rw [(noteHeader_rest flags call.octets).1]
          exact heoh
        have hmet : Met flags sender call ↔ (call.formatted = true → peek call.octets ≠ ch '.') :=
          ⟨fun h => h.dot, fun h => ⟨h, by rw [hnone]; simp, by rw [hnone]; simp⟩⟩
        have hfind : (call :: calls).find? (fun call => decide (EndsHeaders call.octets)) =
            calls.find? (fun call => decide (EndsHeaders call.octets)) :=
          List.find?_cons_of_neg (by simpa using hends)
        rw [hnoted, ih heoh', hmet, addedTo_of_not_ends flags hends, hfind, and_assoc]

/-- The message as it is to be written: its lines with their dots doubled, with the headers that it
lacks where its headers end. -/
def dueLines (text : MailHeader → List Octet) (lines : List (List Octet)) : List (List Octet) :=
  (headerLines lines).map stuffed ++
    (if bodyLines lines = [] then [] else lacking lines).map text ++ (bodyLines lines).map stuffed

/-- A message on a session: its sender, its recipients and its lines. -/
def smtpMessage (server : List Octet → Nat) (system : SmtpSystem) (smtp : Smtp2)
    (sender : Option CString) (recipients : List CString) (calls : List PrintCall) : Run Smtp2 := do
  let (_, smtp) ← smtp2Mail server system smtp sender
  let smtp ← rcptAll server smtp recipients
  callAll server system smtp calls

/-- The headers as a session adds them to its first message. -/
def addedText (system : SmtpSystem) (smtp : Smtp2) (sender : Option CString) :
    MailHeader → List Octet :=
  MailHeader.text system
    { nextMsgId system smtp with sender := some (senderOf smtp.heloHost.1 sender) }

/-- The flags behind DATA of a session that had none. -/
def SmtpFlags.started : SmtpFlags :=
  { SmtpFlags.none with data := true }

theorem addedTo_begun (lines : List (List Octet)) :
    addedTo SmtpFlags.started lines =
      if bodyLines lines = [] then [] else lacking lines := by
  refine List.Sublist.eq_of_length (addedTo_sublist _ _) ((addedTo_length_iff _ _).mpr ?_)
  exact fun _ header _ => ⟨rfl, by cases header <;> rfl⟩

theorem written_calls (text : MailHeader → List Octet) (calls : List PrintCall) :
    written text SmtpFlags.started (calls.map PrintCall.octets) =
      dueLines text (calls.map PrintCall.octets) := by
  have hprinted : ∀ line ∈ calls.map PrintCall.octets, printed line = stuffed line := by
    intro line hline
    obtain ⟨call, -, rfl⟩ := List.mem_map.mp hline
    exact printed_call call
  have hheaders : (headerLines (calls.map PrintCall.octets)).map printed =
      (headerLines (calls.map PrintCall.octets)).map stuffed :=
    List.map_congr_left fun line hline => hprinted line ((List.takeWhile_sublist _).subset hline)
  have hbody : (bodyLines (calls.map PrintCall.octets)).map printed =
      (bodyLines (calls.map PrintCall.octets)).map stuffed :=
    List.map_congr_left fun line hline => hprinted line ((List.dropWhile_sublist _).subset hline)
  rw [written_eq, addedTo_begun, hheaders, hbody, dueLines]

theorem bodyLines_of_find {calls : List PrintCall} {call : PrintCall}
    (h : calls.find? (fun call => decide (EndsHeaders call.octets)) = some call) :
    bodyLines (calls.map PrintCall.octets) ≠ [] := by
  have hends : EndsHeaders call.octets := by simpa using List.find?_some h
  intro hnil
  have hall := List.dropWhile_eq_nil_iff.mp hnil call.octets
    (List.mem_map_of_mem (List.mem_of_find?_eq_some h))
  simp [hends] at hall

/-- No line that is passed to `smtp2Printf` begins with a dot; From fits into the working buffer if
it is added; and the line that ends the headers is passed to `smtp2Print` if other headers than
Subject are added. -/
structure PassesClean (sender : List Octet) (calls : List PrintCall) : Prop where
  dot : ∀ call ∈ calls, call.formatted = true → peek call.octets ≠ ch '.'
  sender : bodyLines (calls.map PrintCall.octets) ≠ [] →
    .sender ∈ lacking (calls.map PrintCall.octets) → sender.length + 13 < SMTP_TEXT_SIZE
  headers : ∀ call, calls.find? (fun call => decide (EndsHeaders call.octets)) = some call →
    call.formatted = true → ∀ header ∈ lacking (calls.map PrintCall.octets), header = .subject

theorem metAll_started_iff (sender : List Octet) (calls : List PrintCall) :
    MetAll sender .started calls ↔ PassesClean sender calls := by
  have hadded : ∀ call, calls.find? (fun call => decide (EndsHeaders call.octets)) = some call →
      addedTo .started (calls.map PrintCall.octets) = lacking (calls.map PrintCall.octets) :=
    fun call h => by rw [addedTo_begun, if_neg (bodyLines_of_find h)]
  rw [metAll_iff (by decide)]
  constructor
  · rintro ⟨hdot, hheaders⟩
    refine ⟨hdot, fun hbody => ?_, fun call hcall => ?_⟩
    · cases hfind : calls.find? (fun call => decide (EndsHeaders call.octets)) with
      | none =>
          refine absurd ?_ hbody
          rw [bodyLines, List.dropWhile_eq_nil_iff]
          simpa using hfind
      | some call =>
          rw [← hadded call hfind]
          exact (hheaders call hfind).1
    · rw [← hadded call hcall]
      exact (hheaders call hcall).2
  · intro h
    refine ⟨h.dot, fun call hcall => ?_⟩
    rw [hadded call hcall]
    exact ⟨h.sender (bodyLines_of_find hcall), h.headers call hcall⟩

/-- The octets that follow DATA are the lines with their dots doubled and the missing headers put in
if and only if the lines are passed clean. -/
theorem message_transparent_iff (server : List Octet → Nat) (haccepts : AcceptsCommands server)
    (system : SmtpSystem) (start id : Nat)
    (heloHost : {s : CString // s.octets.length < DOMAIN_SIZE}) (sender : Option CString)
    (recipients : List CString) (calls : List PrintCall) :
    (smtpMessage server system (smtp2Opened system start id heloHost) sender recipients calls).Ends
        (fun smtp => smtp.dataOctets =
          (dueLines (addedText system (smtp2Opened system start id heloHost) sender)
            (calls.map PrintCall.octets)).flatten) ↔
      PassesClean (senderOf heloHost.1 sender) calls := by
  have hnul : 0 ∉ senderOf heloHost.1 sender := senderOf_noNul heloHost.1 sender
  rw [← metAll_started_iff, ← written_calls, addedText, smtpMessage, ends_bind]
  generalize hopened : smtp2Opened system start id heloHost = opened
  have hflags : opened.flags = .none := by rw [← hopened]; rfl
  have hhelo : opened.heloHost = heloHost := by rw [← hopened]; rfl
  have hsender : opened.sender = none := by rw [← hopened]; rfl
  have hsent : opened.sent = [] := by rw [← hopened]; rfl
  have hmail := @mail_ends server opened system haccepts (by rw [hflags]; rfl) sender (by
    rw [hsender, hhelo]
    exact hnul)
  rw [hsender, hsent, hhelo, Option.getD_none] at hmail
  rw [hhelo]
  refine hmail.ends_iff ?_
  rintro ⟨rc, smtp₁⟩ ⟨text₁, code₁, hsmtp₁⟩
  dsimp only at hsmtp₁ ⊢
  have hflags₁ : smtp₁.flags = .none := by
    rw [hsmtp₁]
    exact hflags
  rw [ends_bind]
  refine (rcptAll_ends haccepts (by rw [hflags₁]; rfl) recipients).ends_iff ?_
  rintro smtp₂ ⟨text₂, code₂, front, hsmtp₂⟩
  have hflags₂ : smtp₂.flags = .none := by
    rw [hsmtp₂]
    exact hflags₁
  have hsender₂ : smtp₂.sender = some (senderOf heloHost.1 sender) := by rw [hsmtp₂, hsmtp₁]
  have hdata₂ : smtp₂.dataOctets = [] := by
    have hsent₂ : smtp₂.sent = (((mailFrom (senderOf heloHost.1 sender)).take
        (SMTP_TEXT_SIZE - 1)) :: front).map SmtpSent.command ++ [].map SmtpSent.data ++
          [].map SmtpSent.command := by
      rw [hsmtp₂, hsmtp₁]
      simp
    rw [Smtp2.dataOctets, hsent₂, filterMap_line]
    rfl
  have htexts : MailHeader.text system smtp₂ = MailHeader.text system
      { nextMsgId system opened with sender := some (senderOf heloHost.1 sender) } := by
    rw [hsmtp₂, hsmtp₁]
    funext header
    cases header <;> rfl
  have hbegun : smtp₂.begun.flags = .started := by
    unfold Smtp2.begun
    rw [hflags₂]
    rfl
  have hcalls := @callAll_ends_iff server smtp₂ system haccepts (by rw [hflags₂]; rfl)
    (by rw [hsender₂]; exact hnul) calls
  rw [hdata₂, hbegun, hsender₂, htexts] at hcalls
  exact hcalls

/-- A header of the message itself. -/
def subjectLine : MailLine :=
  ⟨ascii "Subject: x", by decide, by decide⟩

/-- The empty line. -/
def emptyLine : MailLine :=
  ⟨[], by decide, by decide⟩

/-- A message whose lines are all passed to `smtp2Print`. -/
theorem print_transparent :
    (smtpMessage acceptAll stillSystem (smtp2Opened stillSystem 0 1 localHost) (some annSender) []
      [.print subjectLine, .print emptyLine]).Ends fun smtp => smtp.dataOctets =
        (dueLines (addedText stillSystem (smtp2Opened stillSystem 0 1 localHost) (some annSender))
          [subjectLine.octets, emptyLine.octets]).flatten := by
  refine (message_transparent_iff acceptAll acceptAll_accepts stillSystem 0 1 localHost
    (some annSender) [] [.print subjectLine, .print emptyLine]).mpr ⟨by decide, ?_, by decide⟩
  exact fun _ _ => by decide

/-- The empty line that is passed to `smtp2Printf` is overwritten by the headers that are added. -/
theorem printf_emptyLine :
    ¬ (smtpMessage acceptAll stillSystem (smtp2Opened stillSystem 0 1 localHost) (some annSender) []
      [.print subjectLine, .printf emptyLine List.not_mem_nil]).Ends fun smtp => smtp.dataOctets =
        (dueLines (addedText stillSystem (smtp2Opened stillSystem 0 1 localHost) (some annSender))
          [subjectLine.octets, emptyLine.octets]).flatten := by
  have hdiffers : (smtpMessage acceptAll stillSystem (smtp2Opened stillSystem 0 1 localHost)
      (some annSender) [] [.print subjectLine, .printf emptyLine List.not_mem_nil]).result.map
        (fun smtp => decide (smtp.dataOctets =
          (dueLines (addedText stillSystem (smtp2Opened stillSystem 0 1 localHost) (some annSender))
            [subjectLine.octets, emptyLine.octets]).flatten)) = some false := by
    decide +kernel
  rintro ⟨-, smtp, hdone, heq⟩
  rw [result_eq_some.mpr hdone, Option.map_some, Option.some.injEq, decide_eq_false_iff_not]
    at hdiffers
  exact hdiffers heq

end Snert
