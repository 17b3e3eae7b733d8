/-
Module: Snert.Proofs.QueryConservation
Purpose: Queries are neither lost nor answered twice. Whatever `pdqPoll` does is a series of exchanges:
  an answer for a query that is pending, which then stays pending or leaves. An exchange keeps the
  balance of queries pending and queries done, and so does every run.
Trusted boundary: none
Main exports: query_conservation
-/
import Snert.Pdq.Query
import Snert.Proofs.RecordDecode

namespace Snert

open CModel CModel.Run Relation

/-! ### The list for one reply -/

/-- An answer holds one query record, with the return code of the answer, and then records of the
    other sections; or it holds nothing, as the reply could not be decoded. -/
def Answer.Proper (answer : Answer) : Prop :=
  answer.records = [] ∧ answer.rcode = PDQ_RCODE_ERRNO ∨
    ∃ record records, answer.records = record :: records ∧ record.isQuery ∧
      record.rcode = answer.rcode ∧ ∀ x ∈ records, x.isQuery = false

theorem replyLoop_sections {packet : Packet} {rest i p : Nat} {list list' : List PdqRr}
    (h : (replyLoop packet rest i p list).outcome = .done (some list'))
    (hlist : ∀ x ∈ list, x.isQuery = false) : ∀ x ∈ list', x.isQuery = false := by
  induction rest generalizing i p list with
  | zero =>
      obtain rfl : list = list' := by simpa [replyLoop] using h
      exact hlist
  | succ rest ih =>
      rw [replyLoop, outcome_bind_eq_done] at h
      obtain ⟨start, -, h⟩ := h
      cases start with
      | fault => cases h
      | unsupported stop =>
          obtain ⟨skipped, -, h⟩ := outcome_bind_eq_done.mp h
          cases skipped with
          | none => cases h
          | some q => exact ih h hlist
      | record name type rrClass kind hkind stop =>
          obtain ⟨filled, hfilled, h⟩ := outcome_bind_eq_done.mp h
          cases filled with
          | none => cases h
          | some record =>
              refine ih h fun x hx => ?_
              rcases mem_pdqInsert.mp hx with rfl | hx
              · unfold PdqRr.isQuery
                rw [(fillRr_fields hfilled).1]
                exact decide_eq_false (sectionAt_ne_query _ _)
              · exact hlist x hx

theorem replyParse_proper {packet : Packet} {rcode : Nat} {list : Option (List PdqRr)}
    (h : (pdqReplyParse packet).outcome = .done (rcode, list)) (query : PdqQuery) :
    Answer.Proper { query := query, rcode := rcode, records := list.getD [] } := by
  unfold pdqReplyParse Packet.getHeader at h
  rw [outcome_load_bind] at h
  obtain ⟨head, -, h⟩ := outcome_bind_eq_done.mp h
  dsimp only at h
  split at h
  · cases h
    exact .inr ⟨_, [], rfl, rfl, rfl, by simp⟩
  · obtain ⟨loop, hloop, h⟩ := outcome_bind_eq_done.mp h
    cases loop with
    | none =>
        cases h
        exact .inl ⟨rfl, rfl⟩
    | some records =>
        cases h
        refine .inr ⟨_, _, rfl, rfl, rfl, fun x hx => ?_⟩
        exact replyLoop_sections hloop (by simp) x (List.mem_reverse.mp hx)

theorem readReply_proper {settings : PdqSettings} {query query' : PdqQuery} {reply : Datagram}
    {rcode : Nat} {list : Option (List PdqRr)}
    (h : (readReply settings query reply).outcome = .done (rcode, list, query')) :
    query'.serial = query.serial ∧ query'.nextNs = query.nextNs ∧
      Answer.Proper { query := query', rcode := rcode, records := list.getD [] } := by
  unfold readReply at h
  split at h
  · unfold pdqQueryTcp at h
    cases htcp : reply.tcp with
    | none =>
        rw [htcp] at h
        cases h
        exact ⟨rfl, rfl, .inl ⟨rfl, rfl⟩⟩
    | some tcp =>
        rw [htcp] at h
        dsimp only at h
        split at h
        · cases h
          exact ⟨rfl, rfl, .inl ⟨rfl, rfl⟩⟩
        · obtain ⟨parsed, hparsed, h⟩ := outcome_bind_eq_done.mp h
          cases h
          exact ⟨rfl, rfl, replyParse_proper hparsed _⟩
  · obtain ⟨parsed, hparsed, h⟩ := outcome_bind_eq_done.mp h
    cases h
    exact ⟨rfl, rfl, replyParse_proper hparsed _⟩

/-! ### The balance -/

/-- The query records returned for a query, with the query as it then was. -/
def queryRecords (answers : List Answer) (serial : Nat) : List (PdqQuery × PdqRr) :=
  answers.flatMap fun answer =>
    if answer.query.serial = serial then
      (answer.records.filter PdqRr.isQuery).map (answer.query, ·)
    else []

/-- Those that end the query: not the failure of one server of several. -/
def lastRecords (settings : PdqSettings) (answers : List Answer) (serial : Nat) :
    List (PdqQuery × PdqRr) :=
  (queryRecords answers serial).filter fun record =>
    !staysPending settings record.1 record.2.rcode

/-- The answers for a query whose reply could not be decoded. -/
def undecoded (answers : List Answer) (serial : Nat) : List Answer :=
  answers.filter fun answer => answer.query.serial = serial && answer.records.isEmpty

section

variable {settings : PdqSettings}

theorem queryRecords_append (answers answers' : List Answer) (serial : Nat) :
    queryRecords (answers ++ answers') serial =
      queryRecords answers serial ++ queryRecords answers' serial :=
  List.flatMap_append

theorem lastRecords_append (answers answers' : List Answer) (serial : Nat) :
    lastRecords settings (answers ++ answers') serial =
      lastRecords settings answers serial ++ lastRecords settings answers' serial := by
  unfold lastRecords
  rw [queryRecords_append, List.filter_append]

theorem undecoded_append (answers answers' : List Answer) (serial : Nat) :
    undecoded (answers ++ answers') serial = undecoded answers serial ++ undecoded answers' serial :=
  List.filter_append ..

/-- Answers take queries from `serials` pending to `serials'` pending: a query that leaves does so
    with one last record or with a reply that could not be decoded, and only queries that are pending
    are answered. -/
structure Balanced (settings : PdqSettings) (serials serials' : List Nat) (answers : List Answer) :
    Prop where
  count : ∀ serial, serials.count serial = serials'.count serial +
    (lastRecords settings answers serial).length + (undecoded answers serial).length
  pending : ∀ answer ∈ answers, answer.query.serial ∈ serials

theorem Balanced.refl (serials : List Nat) : Balanced settings serials serials [] :=
  ⟨fun _ => rfl, by simp⟩

theorem Balanced.subset {serials serials' : List Nat} {answers : List Answer}
    (h : Balanced settings serials serials' answers) {serial : Nat} (hmem : serial ∈ serials') :
    serial ∈ serials := by
  have hcount := h.count serial
  have hpos := List.count_pos_iff.mpr hmem
  exact List.count_pos_iff.mp (by omega)

theorem Balanced.append {serials serials' serials'' : List Nat} {answers answers' : List Answer}
    (h : Balanced settings serials serials' answers)
    (h' : Balanced settings serials' serials'' answers') :
    Balanced settings serials serials'' (answers ++ answers') := by
  refine ⟨fun serial => ?_, fun answer hmem => ?_⟩
  · have hcount := h.count serial
    have hcount' := h'.count serial
    rw [lastRecords_append, undecoded_append, List.length_append, List.length_append]
    omega
  · rcases List.mem_append.mp hmem with hmem | hmem
    · exact h.pending answer hmem
    · exact h.subset (h'.pending answer hmem)

theorem Balanced.cons {serials serials' : List Nat} {answers : List Answer}
    (h : Balanced settings serials serials' answers) (first : Nat) :
    Balanced settings (first :: serials) (first :: serials') answers := by
  refine ⟨fun serial => ?_, fun answer hmem => List.mem_cons_of_mem _ (h.pending answer hmem)⟩
  have hcount := h.count serial
  rw [List.count_cons, List.count_cons]
  omega

theorem Answer.Proper.length {answer : Answer} (h : answer.Proper) (settings : PdqSettings)
    (serial : Nat) :
    (lastRecords settings [answer] serial).length + (undecoded [answer] serial).length =
      if answer.query.serial = serial ∧ staysPending settings answer.query answer.rcode = false
        then 1 else 0 := by
  unfold lastRecords queryRecords undecoded
  rw [List.flatMap_singleton]
  by_cases hserial : answer.query.serial = serial
  · rcases h with ⟨hrecords, hrcode⟩ | ⟨record, records, hrecords, hquery, hrcode, hrest⟩
    · have hstays : staysPending settings answer.query answer.rcode = false := by
        rw [hrcode]
        rfl
      simp [hserial, hrecords, hstays]
    · have hfilter : (record :: records).filter PdqRr.isQuery = [record] := by
        rw [List.filter_cons_of_pos hquery, List.filter_eq_nil_iff.mpr]
        intro x hx
        rw [hrest x hx]
        exact Bool.false_ne_true
      cases hstays : staysPending settings answer.query answer.rcode with
      | false => simp [hserial, hrecords, hfilter, hrcode, hstays]
      | true => simp [hserial, hrecords, hfilter, hrcode, hstays]
  · simp [hserial]

theorem Balanced.stays {answer : Answer} (h : answer.Proper)
    (hstays : staysPending settings answer.query answer.rcode) {serials : List Nat}
    (hmem : answer.query.serial ∈ serials) : Balanced settings serials serials [answer] := by
  refine ⟨fun serial => ?_, by simpa using hmem⟩
  have hlength := h.length settings serial
  rw [if_neg (by simp [hstays])] at hlength
  omega

theorem Balanced.leaves {answer : Answer} (h : answer.Proper)
    (hstays : staysPending settings answer.query answer.rcode = false) (before behind : List Nat) :
    Balanced settings (before ++ answer.query.serial :: behind) (before ++ behind) [answer] := by
  refine ⟨fun serial => ?_, by simp⟩
  have hlength := h.length settings serial
  rw [List.count_append, List.count_append, List.count_cons]
  by_cases hserial : answer.query.serial = serial
  · rw [if_pos ⟨hserial, hstays⟩] at hlength
    rw [if_pos (by simpa using hserial)]
    omega
  · rw [if_neg (by simp [hserial])] at hlength
    rw [if_neg (by simpa using hserial)]
    omega

end

/-! ### What a poll does -/

/-- The serial numbers of the queries pending. -/
def Pdq.serials (pdq : Pdq) : List Nat :=
  pdq.pending.map PdqQuery.serial

section

variable {settings : PdqSettings} {pdq pdq' : Pdq}

theorem pdqQueryReply_balanced {reply : Datagram} {answer : Option Answer}
    (h : (pdqQueryReply settings pdq reply).outcome = .done (pdq', answer)) :
    pdq'.posted = pdq.posted ∧ Balanced settings pdq.serials pdq'.serials answer.toList := by
  unfold pdqQueryReply at h
  dsimp only at h
  split at h
  · cases h
    exact ⟨rfl, Balanced.refl _⟩
  · rename_i query behind hfound
    split at h
    · cases h
      exact ⟨rfl, Balanced.refl _⟩
    · obtain ⟨⟨rcode, list, query'⟩, hread, h⟩ := outcome_bind_eq_done.mp h
      obtain ⟨hserial, hns, hproper⟩ := readReply_proper hread
      cases h
      refine ⟨rfl, ?_⟩
      unfold Pdq.serials
      dsimp only
      generalize hbefore : pdq.pending.takeWhile _ = before
      have hpending : pdq.pending = before ++ query :: behind := by
        rw [← hbefore, ← hfound, List.takeWhile_append_dropWhile]
      rw [hpending, List.map_append, List.map_cons, ← hserial, List.map_append]
      cases hstays : staysPending settings query' rcode with
      | true => exact Balanced.stays hproper hstays (by simp)
      | false => exact Balanced.leaves hproper hstays _ _

theorem parseReplies_balanced {replies : List Datagram} {answers : List Answer}
    (h : (parseReplies settings replies pdq).outcome = .done (pdq', answers)) :
    pdq'.posted = pdq.posted ∧ Balanced settings pdq.serials pdq'.serials answers := by
  induction replies generalizing pdq answers with
  | nil =>
      cases h
      exact ⟨rfl, Balanced.refl _⟩
  | cons reply replies ih =>
      rw [parseReplies] at h
      obtain ⟨⟨pdq₁, answer⟩, hreply, h⟩ := outcome_bind_eq_done.mp h
      obtain ⟨⟨pdq₂, rest⟩, hrest, h⟩ := outcome_bind_eq_done.mp h
      cases h
      obtain ⟨hposted, hbalanced⟩ := pdqQueryReply_balanced hreply
      obtain ⟨hposted', hbalanced'⟩ := ih hrest
      exact ⟨hposted'.trans hposted, hbalanced.append hbalanced'⟩

theorem pdqQuerySend_serial (query : PdqQuery) :
    (pdqQuerySend settings pdq query).serial = query.serial := by
  unfold pdqQuerySend
  split
  · rfl
  · split
    · split
      · rfl
      · rfl
    · rfl

theorem timedOutRecord_proper (query : PdqQuery) (head : RrHead) : Answer.Proper
    { query := query, rcode := PDQ_RCODE_TIMEDOUT, records := [timedOutRecord head] } :=
  .inr ⟨_, [], rfl, rfl, rfl, by simp⟩

theorem pdqQuerySendAll_balanced {now : Nat} {queries queries' : List PdqQuery}
    {answers : List Answer}
    (h : (pdqQuerySendAll settings pdq now queries).outcome = .done (queries', answers)) :
    Balanced settings (queries.map PdqQuery.serial) (queries'.map PdqQuery.serial) answers := by
  induction queries generalizing queries' answers with
  | nil =>
      cases h
      exact Balanced.refl _
  | cons query queries ih =>
      rw [pdqQuerySendAll] at h
      split at h
      · obtain ⟨⟨rest, answers'⟩, hrest, h⟩ := outcome_bind_eq_done.mp h
        cases h
        rw [List.map_cons, List.map_cons, pdqQuerySend_serial]
        exact (ih hrest).cons query.serial
      · obtain ⟨head, -, h⟩ := outcome_bind_eq_done.mp h
        obtain ⟨⟨rest, answers'⟩, hrest, h⟩ := outcome_bind_eq_done.mp h
        cases h
        have hleaves : Balanced settings _ _ _ := Balanced.leaves (timedOutRecord_proper query head)
          rfl [] (queries.map PdqQuery.serial)
        exact hleaves.append (ih hrest)

theorem pdqPoll_balanced {event : PollEvent} {answers : List Answer}
    (h : (pdqPoll settings pdq event).outcome = .done (pdq', answers)) :
    pdq'.posted = pdq.posted ∧ Balanced settings pdq.serials pdq'.serials answers := by
  cases event with
  | received datagrams => exact parseReplies_balanced h
  | timedOut now =>
      rw [pdqPoll] at h
      obtain ⟨⟨queries, answers'⟩, hsent, h⟩ := outcome_bind_eq_done.mp h
      cases h
      exact ⟨rfl, pdqQuerySendAll_balanced hsent⟩

end

/-! ### Runs -/

/-- The queries, and all that has been returned for them. -/
structure Session where
  pdq : Pdq
  returned : List Answer

namespace Session

/-- A query is posted, or a poll returns. -/
inductive Step (settings : PdqSettings) : Session → Session → Prop
  | query {s : Session} {now : Nat} {id : UInt16} {rrClass type : Nat} {name : List Octet}
      {ns : Option SocketAddress} {pdq : Pdq} :
      pdqQuery settings s.pdq now id rrClass type name ns = some pdq →
      Step settings s { s with pdq := pdq }
  | poll {s : Session} {event : PollEvent} {pdq : Pdq} {answers : List Answer} :
      (pdqPoll settings s.pdq event).outcome = .done (pdq, answers) →
      Step settings s { pdq := pdq, returned := s.returned ++ answers }

/-- Any number of steps, in any order. -/
def Steps (settings : PdqSettings) : Session → Session → Prop :=
  ReflTransGen (Step settings)

/-- A session that has not begun. -/
def Fresh (s : Session) : Prop :=
  s.pdq.posted = 0 ∧ s.pdq.pending = [] ∧ s.returned = []

def Reachable (settings : PdqSettings) (s : Session) : Prop :=
  ∃ fresh, Fresh fresh ∧ Steps settings fresh s

/-- Every query posted is pending, or its last record was returned, or it had a reply that could not
    be decoded: just one of these, and once. Others are neither pending nor answered. -/
structure Inv (settings : PdqSettings) (s : Session) : Prop where
  balance : ∀ serial < s.pdq.posted, s.pdq.serials.count serial +
    (lastRecords settings s.returned serial).length + (undecoded s.returned serial).length = 1
  pending : ∀ serial ∈ s.pdq.serials, serial < s.pdq.posted
  answered : ∀ answer ∈ s.returned, answer.query.serial < s.pdq.posted

end Session

section

variable {settings : PdqSettings} {s s' : Session}

theorem pdqQuery_serials {pdq pdq' : Pdq} {now : Nat} {id : UInt16} {rrClass type : Nat}
    {name : List Octet} {ns : Option SocketAddress}
    (h : pdqQuery settings pdq now id rrClass type name ns = some pdq') :
    pdq'.posted = pdq.posted + 1 ∧ pdq'.serials = pdq.posted :: pdq.serials := by
  unfold pdqQuery at h
  split at h
  · cases h
  · obtain ⟨packet, -, rfl⟩ := Option.map_eq_some_iff.mp h
    unfold Pdq.serials
    dsimp only
    rw [List.map_cons, pdqQuerySend_serial]
    exact ⟨rfl, rfl⟩

theorem queryRecords_eq_nil {answers : List Answer} {serial : Nat}
    (h : ∀ answer ∈ answers, answer.query.serial ≠ serial) : queryRecords answers serial = [] := by
  unfold queryRecords
  rw [List.flatMap_eq_nil_iff]
  exact fun answer hmem => if_neg (h answer hmem)

theorem undecoded_eq_nil {answers : List Answer} {serial : Nat}
    (h : ∀ answer ∈ answers, answer.query.serial ≠ serial) : undecoded answers serial = [] := by
  unfold undecoded
  rw [List.filter_eq_nil_iff]
  intro answer hmem
  simp [h answer hmem]

theorem inv_fresh (h : s.Fresh) : s.Inv settings := by
  obtain ⟨hposted, hpending, hreturned⟩ := h
  refine ⟨fun serial hlt => ?_, fun serial hmem => ?_, fun answer hmem => ?_⟩
  · omega
  · rw [Pdq.serials, hpending] at hmem
    cases hmem
  · rw [hreturned] at hmem
    cases hmem

theorem inv_step (hinv : s.Inv settings) (h : Session.Step settings s s') : s'.Inv settings := by
  obtain ⟨hbalance, hpending, hanswered⟩ := hinv
  cases h with
  | query h =>
      obtain ⟨hposted, hserials⟩ := pdqQuery_serials h
      refine ⟨fun serial hlt => ?_, fun serial hmem => ?_, fun answer hmem => ?_⟩
      · dsimp only at hlt ⊢
        rw [hserials, List.count_cons]
        by_cases hnew : s.pdq.posted = serial
        · have hfresh : ∀ answer ∈ s.returned, answer.query.serial ≠ serial := fun answer hmem => by
            have := hanswered answer hmem
            omega
          have hcount : s.pdq.serials.count serial = 0 :=
            List.count_eq_zero.mpr fun hmem => by
              have := hpending serial hmem
              omega
          rw [if_pos (by simpa using hnew), hcount, lastRecords, queryRecords_eq_nil hfresh,
            undecoded_eq_nil hfresh]
          rfl
        · rw [if_neg (by simpa using hnew)]
          exact hbalance serial (by omega)
      · dsimp only at hmem ⊢
        rw [hserials] at hmem
        rcases List.mem_cons.mp hmem with rfl | hmem
        · omega
        · have := hpending serial hmem
          omega
      · have := hanswered answer hmem
        dsimp only
        omega
  | poll h =>
      obtain ⟨hposted, hbalanced⟩ := pdqPoll_balanced h
      refine ⟨fun serial hlt => ?_, fun serial hmem => ?_, fun answer hmem => ?_⟩
      · dsimp only at hlt ⊢
        have hold := hbalance serial (by omega)
        have hcount := hbalanced.count serial
        rw [lastRecords_append, undecoded_append, List.length_append, List.length_append]
        omega
      · have := hpending serial (hbalanced.subset hmem)
        dsimp only
        omega
      · dsimp only
        rw [hposted]
        rcases List.mem_append.mp hmem with hmem | hmem
        · exact hanswered answer hmem
        · exact hpending _ (hbalanced.pending answer hmem)

theorem reachable_inv (h : s.Reachable settings) : s.Inv settings := by
  obtain ⟨fresh, hfresh, hsteps⟩ := h
  induction hsteps with
  | refl => exact inv_fresh hfresh
  | tail _ hstep ih => exact inv_step ih hstep

theorem step_left {serial : Nat} (h : Session.Step settings s s') (hlt : serial < s.pdq.posted)
    (hleft : serial ∉ s.pdq.serials) :
    serial < s'.pdq.posted ∧ serial ∉ s'.pdq.serials ∧
      queryRecords s'.returned serial = queryRecords s.returned serial := by
  cases h with
  | query h =>
      obtain ⟨hposted, hserials⟩ := pdqQuery_serials h
      refine ⟨by dsimp only; omega, ?_, rfl⟩
      dsimp only
      rw [hserials, List.mem_cons, not_or]
      exact ⟨by omega, hleft⟩
  | @poll event pdq answers h =>
      obtain ⟨hposted, hbalanced⟩ := pdqPoll_balanced h
      refine ⟨by dsimp only; omega, fun hmem => hleft (hbalanced.subset hmem), ?_⟩
      have hnone : queryRecords answers serial = [] := queryRecords_eq_nil fun answer hmem heq =>
        hleft (heq ▸ hbalanced.pending answer hmem)
      dsimp only
      rw [queryRecords_append, hnone, List.append_nil]

theorem steps_left {serial : Nat} (h : Session.Steps settings s s') (hlt : serial < s.pdq.posted)
    (hleft : serial ∉ s.pdq.serials) :
    serial < s'.pdq.posted ∧ serial ∉ s'.pdq.serials ∧
      queryRecords s'.returned serial = queryRecords s.returned serial := by
  induction h with
  | refl => exact ⟨hlt, hleft, rfl⟩
  | tail _ hstep ih =>
      obtain ⟨hlt', hleft', hrecords⟩ := ih
      obtain ⟨hlt'', hleft'', hrecords'⟩ := step_left hstep hlt' hleft'
      exact ⟨hlt'', hleft'', hrecords'.trans hrecords⟩

/-- In every run, a query of which every reply could be decoded is pending, or its last record was
returned, and not both; and no record is returned for it once it is not pending. -/
theorem query_conservation (settings : PdqSettings) (s : Session) (serial : Nat)
    (hs : s.Reachable settings) (hlt : serial < s.pdq.posted) :
    (undecoded s.returned serial = [] → s.pdq.serials.count serial +
      (lastRecords settings s.returned serial).length = 1) ∧
    s.pdq.serials.count serial + (lastRecords settings s.returned serial).length ≤ 1 ∧
    (serial ∉ s.pdq.serials → ∀ s', Session.Steps settings s s' → serial ∉ s'.pdq.serials ∧
      queryRecords s'.returned serial = queryRecords s.returned serial) := by
  have hbalance := (reachable_inv hs).balance serial hlt
  refine ⟨fun hdecoded => ?_, by omega, fun hleft s' hsteps => ?_⟩
  · rw [hdecoded] at hbalance
    exact hbalance
  · exact (steps_left hsteps hlt hleft).2

end

/-! ### One of two servers fails -/

/-- The session after a poll, if it returns. -/
def Session.polled (settings : PdqSettings) (event : PollEvent) (s : Session) : Option Session :=
  match (pdqPoll settings s.pdq event).outcome with
  | .done (pdq, answers) => some { pdq := pdq, returned := s.returned ++ answers }
  | _ => none

theorem Session.step_polled {settings : PdqSettings} {s s' : Session} {event : PollEvent}
    (h : s.polled settings event = some s') : Session.Step settings s s' := by
  unfold Session.polled at h
  split at h
  · rename_i hpoll
    cases h
    exact .poll hpoll
  · cases h

def sampleServer : SocketAddress :=
  { family := AF_INET, port := 53, addr := [192, 0, 2, 1] }

/-- Two name servers. -/
def sampleSettings : PdqSettings :=
  { servers := [sampleServer, { sampleServer with addr := [192, 0, 2, 2] }], ignoreTcp := false }

def freshSession : Session :=
  { pdq := { posted := 0, roundRobin := false, timeout := 45, pending := [] }, returned := [] }

/-- The session with a query posted for the address of `a.`. -/
def askedSession : Session :=
  { freshSession with
    pdq := (pdqQuery sampleSettings freshSession.pdq 0 7 PDQ_CLASS_IN PDQ_TYPE_A [ch 'a', ch '.']
      none).getD freshSession.pdq }

theorem askedSession_reachable : askedSession.Reachable sampleSettings := by
  have hasked : pdqQuery sampleSettings freshSession.pdq 0 7 PDQ_CLASS_IN PDQ_TYPE_A
      [ch 'a', ch '.'] none = some askedSession.pdq := rfl
  exact ⟨freshSession, ⟨rfl, rfl, rfl⟩, .single (.query hasked)⟩

theorem query_conservation_asked :
    askedSession.pdq.serials.count 0 +
      (lastRecords sampleSettings askedSession.returned 0).length = 1 :=
  (query_conservation sampleSettings askedSession 0 askedSession_reachable Nat.one_pos).1 rfl

/-- One of the servers replies SERVFAIL. -/
def servfailReply : Datagram :=
  { packet :=
      { length := 19
        header := { id := 7, bits := 0x8002, qdcount := 1, ancount := 0, nscount := 0, arcount := 0 }
        octet := fun i =>
          [0, 7, 0x80, 2, 0, 1, 0, 0, 0, 0, 0, 0, 1, ch 'a', 0, 0, 1, 0, 1].getD i 0 }
    source := sampleServer
    tcp := none }

/-- A record was returned for the query, and yet it is pending. -/
theorem servfail_stays_pending : ∃ s : Session, s.Reachable sampleSettings ∧ 0 < s.pdq.posted ∧
    s.pdq.serials.count 0 = 1 ∧ (queryRecords s.returned 0).length = 1 := by
  have hview : (askedSession.polled sampleSettings (.received [servfailReply])).map (fun s =>
      (s.pdq.posted, s.pdq.serials.count 0, (queryRecords s.returned 0).length)) =
        some (1, 1, 1) := by
    decide
  obtain ⟨s, hs, hview⟩ := Option.map_eq_some_iff.mp hview
  simp only [Prod.mk.injEq] at hview
  obtain ⟨hposted, hcount, hrecords⟩ := hview
  obtain ⟨fresh, hfresh, hsteps⟩ := askedSession_reachable
  exact ⟨s, ⟨fresh, hfresh, hsteps.tail (Session.step_polled hs)⟩, by omega, hcount, hrecords⟩

end Snert
