/-
Module: Snert.Proofs.QueryTrace
Purpose: What a call of `pdqQuery` leaves behind when it returns -1. A query that is refused before it
  is linked leaves nothing; one that is linked and then cannot be sent stays pending, and an answer to
  it is returned later. A call that succeeds does what the model of whole sessions has it do.
Trusted boundary: none
Main exports: pdqQuery_traceless_iff
-/
import Snert.Pdq.Post
import Snert.Proofs.QueryConservation

namespace Snert

open CModel CModel.Run

/-- When `pdqQuery` returns -1, the pending queries are those of before. -/
def LeavesNoTrace (settings : PdqSettings) (pdq : Pdq) (calls : PostCalls) (rrClass type : Nat)
    (name ns : Option (List Octet)) : Prop :=
  ∀ pdq', (pdqQueryPost settings pdq calls rrClass type name ns).outcome = .done (-1, pdq') →
    pdq'.pending = pdq.pending

/-- The name or the name server is refused, or there is no memory for the query. -/
def Refused (pdq : Pdq) (calls : PostCalls) (rrClass type : Nat) (name ns : Option (List Octet)) :
    Prop :=
  ∀ query, (pdqQueryCreate calls pdq.posted rrClass type name ns).outcome ≠ .done (some query)

/-- The packet is sent: to the one server it is for, or to one of all servers. -/
def SomeSent (settings : PdqSettings) (pdq : Pdq) (ns : Option (List Octet)) (sent : Nat → Bool) :
    Prop :=
  if ns.isSome ∨ pdq.roundRobin then sent 0 = true
  else ∃ i < settings.servers.length, sent i = true

section

variable {settings : PdqSettings} {pdq : Pdq} {calls : PostCalls} {serial rrClass type : Nat}
  {name ns : Option (List Octet)} {query : PdqQuery}

/-! ### Sending -/

theorem pdqQueryCreate_nextNs
    (h : (pdqQueryCreate calls serial rrClass type name ns).outcome = .done (some query)) :
    query.nextNs = -1 ↔ ns.isSome := by
  unfold pdqQueryCreate at h
  cases name with
  | none => cases h
  | some name =>
      dsimp only at h
      split at h
      · cases h
      · obtain ⟨question, -, h⟩ := outcome_bind_eq_done.mp h
        cases question with
        | none => cases h
        | some question =>
            dsimp only at h
            cases hfill : pdqQueryFill calls.id rrClass type question with
            | none =>
                rw [hfill] at h
                cases h
            | some packet =>
                rw [hfill] at h
                obtain ⟨server, hserver, h⟩ := outcome_bind_eq_done.mp h
                cases ns with
                | none =>
                    cases hserver
                    cases h
                    exact iff_of_false (by simp) nofun
                | some ns =>
                    obtain ⟨parsed, -, hparsed⟩ := outcome_bind_eq_done.mp hserver
                    cases parsed with
                    | none =>
                        cases hparsed
                        cases h
                    | some address =>
                        cases hparsed
                        cases h
                        exact iff_of_true rfl rfl

theorem pdqQuerySendTo_fails_iff (hns : query.nextNs = -1 ↔ ns.isSome) (sent : Nat → Bool) :
    (pdqQuerySendTo settings pdq query sent).1 = -1 ↔ ¬ SomeSent settings pdq ns sent := by
  unfold pdqQuerySendTo SomeSent
  dsimp only
  have hsame : query.nextNs = -1 ∨ pdq.roundRobin ↔ ns.isSome ∨ pdq.roundRobin := by rw [hns]
  by_cases hone : ns.isSome ∨ pdq.roundRobin
  · rw [if_pos (hsame.mpr hone), if_pos hone]
    cases sent 0 <;> simp
  · rw [if_neg (mt hsame.mp hone), if_neg hone]
    have hcount : (List.range settings.servers.length).countP (fun i => !sent i) =
        settings.servers.length ↔ ¬ ∃ i < settings.servers.length, sent i = true := by
      have hall := List.countP_eq_length (p := fun i => !sent i)
        (l := List.range settings.servers.length)
      rw [List.length_range] at hall
      rw [hall]
      simp
    rw [← hcount]
    by_cases hfails : (List.range settings.servers.length).countP (fun i => !sent i) =
        settings.servers.length
    · simp [hfails]
    · simp [hfails]

theorem pdqQueryPost_outcome
    (h : (pdqQueryCreate calls pdq.posted rrClass type name ns).outcome = .done (some query)) :
    (pdqQueryPost settings pdq calls rrClass type name ns).outcome =
      .done ((pdqQuerySendTo settings pdq query calls.sent).1,
        { pdq with
          posted := pdq.posted + 1
          pending := pdqQuerySend settings pdq query :: pdq.pending }) := by
  unfold pdqQueryPost
  rw [outcome_bind_of_done h]
  rfl

theorem pdqQueryPost_refused {rc : Int} {pdq' : Pdq}
    (hrefused : Refused pdq calls rrClass type name ns)
    (h : (pdqQueryPost settings pdq calls rrClass type name ns).outcome = .done (rc, pdq')) :
    pdq' = pdq := by
  obtain ⟨created, hcreated, h⟩ := outcome_bind_eq_done.mp h
  cases created with
  | none =>
      cases h
      rfl
  | some query => exact absurd hcreated (hrefused query)

/-- `pdqQuery` leaves no trace of a query that it could not post exactly when the query is refused or
some of it is sent. -/
theorem pdqQuery_traceless_iff (settings : PdqSettings) (pdq : Pdq) (calls : PostCalls)
    (rrClass type : Nat) (name ns : Option (List Octet)) :
    LeavesNoTrace settings pdq calls rrClass type name ns ↔
      Refused pdq calls rrClass type name ns ∨ SomeSent settings pdq ns calls.sent := by
  constructor
  · intro hleaves
    by_contra hneither
    obtain ⟨haccepted, hfails⟩ := not_or.mp hneither
    unfold Refused at haccepted
    push Not at haccepted
    obtain ⟨query, hquery⟩ := haccepted
    have hrc := (pdqQuerySendTo_fails_iff (pdqQueryCreate_nextNs hquery) _).mpr hfails
    have hpending := hleaves _ ((pdqQueryPost_outcome hquery).trans (by rw [hrc]))
    exact List.cons_ne_self _ _ hpending
  · rintro (hrefused | hsent) pdq' h
    · rw [pdqQueryPost_refused hrefused h]
    · by_cases hrefused : Refused pdq calls rrClass type name ns
      · rw [pdqQueryPost_refused hrefused h]
      · unfold Refused at hrefused
        push Not at hrefused
        obtain ⟨query, hquery⟩ := hrefused
        rw [pdqQueryPost_outcome hquery, Outcome.done.injEq, Prod.mk.injEq] at h
        exact absurd hsent ((pdqQuerySendTo_fails_iff (pdqQueryCreate_nextNs hquery) _).mp h.1)

end

/-- Calls of which only `sendto` fails, as when the network is down. -/
def unsentCalls : PostCalls :=
  { now := 0, id := 7, queryMemory := true, bufferMemory := true, sent := fun _ => false
    stack := Buffer.replicate 16 0 }

theorem pdqQuery_trace :
    ¬ LeavesNoTrace sampleSettings freshSession.pdq unsentCalls PDQ_CLASS_IN PDQ_TYPE_A
      (some [ch 'a', ch '.']) none := by
  intro hleaves
  have hpost : (pdqQueryPost sampleSettings freshSession.pdq unsentCalls PDQ_CLASS_IN PDQ_TYPE_A
      (some [ch 'a', ch '.']) none).outcome = .done (-1, _) := rfl
  cases hleaves _ hpost

end Snert
