/-
Module: Snert.Proofs.SpfRuns
Purpose: What holds of every check of a sender, whatever the DNS answers and however records include
  each other and redirect: the mechanisms that are counted are counted across all records, and no
  domain is checked twice.
Trusted boundary: none
Main exports: spfCheck_orderly
-/
import Snert.Mail.Spf

namespace Snert

open CModel CModel.Run

/-! ### Orderly states -/

/-- The mechanisms that `mechanism_count` counts. -/
def SpfKind.isCounted : SpfKind → Bool
  | .a | .mx | .ptr | .existing => true
  | _ => false

/-- What `mechanism_count` was when the counted mechanisms were met. -/
def SpfState.counts (s : SpfState) : List Nat :=
  (s.met.filter fun m => m.1.isCounted).map Prod.snd

/-- Every mechanism has been counted, and no domain visited twice. -/
structure SpfState.Orderly (s : SpfState) : Prop where
  counts : s.counts = List.range s.mechanismCount
  visited : s.circular.Pairwise fun name other => strcasecmp name other ≠ 0

/-- At most ten mechanisms have asked; one more is a PermError. -/
def WithinLimit (mechanismCount : Nat) (result : SpfResult) : Prop :=
  mechanismCount ≤ MAX_DNS_MECHANISMS ∨
    mechanismCount = MAX_DNS_MECHANISMS + 1 ∧ result = .permError

/-- What a check leaves behind. -/
structure SpfReturn.Orderly (r : SpfReturn) : Prop where
  state : r.state.Orderly
  limit : WithinLimit r.state.mechanismCount r.result

/-- What a round leaves behind: only at its end may a check have gone over the limit. -/
structure RoundOrderly (round : SpfLoop × SpfFlow) : Prop where
  state : round.1.state.Orderly
  limit : round.1.state.mechanismCount ≤ MAX_DNS_MECHANISMS ∨
    round.2 = .done ∧ WithinLimit round.1.state.mechanismCount round.1.qualifier

theorem WithinLimit.le {n : Nat} {result : SpfResult} (h : WithinLimit n result)
    (hresult : result ≠ .permError) : n ≤ MAX_DNS_MECHANISMS :=
  h.resolve_right fun hover => hresult hover.2

theorem SpfState.Orderly.meet {s : SpfState} (h : s.Orderly) {kind : SpfKind}
    (hkind : kind.isCounted = false) : (s.meet kind).Orderly where
  counts := by
    have hsame : (s.meet kind).counts = s.counts := by
      simp [SpfState.counts, SpfState.meet, hkind]
    exact hsame.trans h.counts
  visited := h.visited

theorem SpfState.Orderly.count {s : SpfState} (h : s.Orderly) {kind : SpfKind}
    (hkind : kind.isCounted = true) :
    ({ s.meet kind with mechanismCount := s.mechanismCount + 1 } : SpfState).Orderly where
  counts := by
    have hmore : ({ s.meet kind with mechanismCount := s.mechanismCount + 1 } : SpfState).counts =
        s.counts ++ [s.mechanismCount] := by
      simp [SpfState.counts, SpfState.meet, hkind]
    rw [hmore, h.counts, ← List.range_succ]
  visited := h.visited

theorem spfIsCircularReference_eq_false {circular : List (List Octet)} {domain : List Octet} :
    spfIsCircularReference circular domain = false ↔
      ∀ name ∈ circular, strcasecmp name domain ≠ 0 := by
  simp [spfIsCircularReference]

theorem SpfState.Orderly.visit {s : SpfState} (h : s.Orderly) {domain : List Octet}
    (hnew : spfIsCircularReference s.circular domain = false) :
    ({ s with circular := s.circular ++ [domain] } : SpfState).Orderly where
  counts := h.counts
  visited := by
    rw [List.pairwise_append]
    refine ⟨h.visited, List.pairwise_singleton _ _, fun name hname other hother => ?_⟩
    rw [List.mem_singleton.mp hother]
    exact spfIsCircularReference_eq_false.mp hnew name hname

/-! ### Mechanisms -/

/-- A mechanism counts itself once it has a target, and at the limit it is a PermError. -/
structure Counts (mechanismCount : Nat) (target : Option (List Octet)) (term : SpfTerm × Nat) :
    Prop where
  untargeted : target = none → term.2 = mechanismCount
  counted : target ≠ none → term.2 = mechanismCount + 1
  limited : target ≠ none → MAX_DNS_MECHANISMS ≤ mechanismCount →
    ∃ err, term.1 = .error .permError err

theorem counts_addressTerm (unanswered : SpfTerm) (ipv6 : Ipv6) (tempErrorDns : Bool)
    (mechanismCount : Nat) (target : Option (List Octet)) (term : List Octet)
    (get : List Octet → Option (List PdqRr)) : Counts mechanismCount target
      (spfAddressTerm unanswered ipv6 tempErrorDns mechanismCount target term get) := by
  cases target with
  | none => exact ⟨fun _ => rfl, fun h => absurd rfl h, fun h => absurd rfl h⟩
  | some target =>
      refine ⟨by simp, fun _ => ?_, fun _ hlimit => ?_⟩
      · unfold spfAddressTerm
        dsimp only
        repeat' first | rfl | split
      · exact ⟨.dnsLimit, by rw [spfAddressTerm, if_pos hlimit]⟩

theorem counts_countedTerm (mechanismCount : Nat) (target : Option (List Octet))
    (ask : List Octet → SpfTerm) :
    Counts mechanismCount target (spfCountedTerm mechanismCount target ask) := by
  cases target with
  | none => exact ⟨fun _ => rfl, fun h => absurd rfl h, fun h => absurd rfl h⟩
  | some target =>
      refine ⟨by simp, fun _ => ?_, fun _ hlimit => ?_⟩
      · unfold spfCountedTerm
        dsimp only
        split <;> rfl
      · exact ⟨.dnsLimit, by rw [spfCountedTerm, if_pos hlimit]⟩

theorem RoundOrderly.follow {v : SpfLoop} (h : v.state.Orderly) {term : SpfTerm}
    (hlimit : v.state.mechanismCount ≤ MAX_DNS_MECHANISMS ∨
      v.state.mechanismCount = MAX_DNS_MECHANISMS + 1 ∧ ∃ err, term = .error .permError err) :
    RoundOrderly (v.follow term) := by
  obtain hle | ⟨hover, err, rfl⟩ := hlimit
  · cases term with
    | done => exact ⟨h, .inl hle⟩
    | next tempError => exact ⟨⟨h.counts, h.visited⟩, .inl hle⟩
    | error qualifier err => exact ⟨h, .inl hle⟩
  · exact ⟨h, .inr ⟨rfl, .inr ⟨hover, rfl⟩⟩⟩

section

variable {env : SpfEnv} {ctx : SpfContext} {nested : SpfState → CString → Run SpfReturn}
  {domain : CString} {v : SpfLoop}

theorem spfTarget_gives (fmt : List Octet) {s : SpfState} (h : s.Orderly) :
    (spfTarget ctx domain fmt s).Gives fun target =>
      target.2.Orderly ∧ target.2.mechanismCount = s.mechanismCount := by
  refine Gives.bind (P := fun _ => True) (fun _ _ => trivial) fun expanded _ => gives_pure ?_
  exact ⟨⟨h.counts, h.visited⟩, rfl⟩

theorem spfCounted_gives {kind : SpfKind} (hkind : kind.isCounted = true) (fmt : List Octet)
    {mechanism : Nat → Option (List Octet) → SpfTerm × Nat}
    (hmechanism : ∀ count target, Counts count target (mechanism count target))
    (h : v.state.Orderly) (hle : v.state.mechanismCount ≤ MAX_DNS_MECHANISMS) :
    (spfCounted ctx domain kind fmt mechanism v).Gives RoundOrderly := by
  refine (spfTarget_gives fmt h).bind fun target htarget => gives_pure ?_
  obtain ⟨hstate, hcount⟩ := htarget
  have hcounts := hmechanism target.2.mechanismCount target.1
  rw [← hcount] at hle
  by_cases hnone : target.1 = none
  · refine RoundOrderly.follow ?_ (.inl ?_)
    · rw [if_pos hnone, hcounts.untargeted hnone]
      exact hstate
    · rw [hcounts.untargeted hnone]
      exact hle
  · refine RoundOrderly.follow ?_ ?_
    · rw [if_neg hnone, hcounts.counted hnone]
      exact hstate.count hkind
    · rw [hcounts.counted hnone]
      rcases Nat.lt_or_eq_of_le hle with hlt | heq
      · exact .inl hlt
      · exact .inr ⟨congrArg (· + 1) heq, hcounts.limited hnone (Nat.le_of_eq heq.symm)⟩

theorem RoundOrderly.included {checked : SpfReturn} (h : checked.Orderly) :
    RoundOrderly (v.included checked) := by
  obtain ⟨err, result, state⟩ := checked
  have hstate : state.Orderly := h.state
  have hlimit : WithinLimit state.mechanismCount result := h.limit
  cases result with
  | permError => exact ⟨hstate, .inr ⟨rfl, hlimit⟩⟩
  | pass | fail | none | neutral | softFail | tempError =>
      exact ⟨hstate, .inl (hlimit.le (by simp))⟩

variable (hnested : ∀ s target, s.Orderly → s.mechanismCount ≤ MAX_DNS_MECHANISMS →
  (nested s target).Gives SpfReturn.Orderly)
include hnested

theorem spfTermInclude_gives (fmt : List Octet) (h : v.state.Orderly)
    (hle : v.state.mechanismCount ≤ MAX_DNS_MECHANISMS) :
    (spfTermInclude ctx nested domain fmt v).Gives RoundOrderly := by
  refine (spfTarget_gives fmt h).bind fun target htarget => ?_
  obtain ⟨hstate, hcount⟩ := htarget
  rw [← hcount] at hle
  cases htext : target.1 with
  | none => exact gives_pure ⟨hstate, .inl hle⟩
  | some name =>
      exact (hnested _ _ (hstate.meet rfl) hle).bind fun checked hchecked =>
        gives_pure (.included hchecked)

theorem spfMechanism_gives (term : List Octet) (h : v.state.Orderly)
    (hle : v.state.mechanismCount ≤ MAX_DNS_MECHANISMS) :
    (spfMechanism env ctx nested domain term v).Gives RoundOrderly := by
  unfold spfMechanism
  cases spfKind term with
  | all => exact gives_pure ⟨h, .inl hle⟩
  | a => exact spfCounted_gives rfl _ (fun _ _ => counts_addressTerm ..) h hle
  | mx => exact spfCounted_gives rfl _ (fun _ _ => counts_addressTerm ..) h hle
  | ptr => exact spfCounted_gives rfl _ (fun _ _ => counts_countedTerm ..) h hle
  | ip =>
      exact Gives.bind (P := fun _ => True) (fun _ _ => trivial) fun matched _ =>
        gives_pure (.follow h (.inl hle))
  | includes => exact spfTermInclude_gives hnested _ h hle
  | existing => exact spfCounted_gives rfl _ (fun _ _ => counts_countedTerm ..) h hle
  | redirect =>
      refine gives_pure ?_
      unfold SpfLoop.setRedirect
      split <;> exact ⟨h, .inl hle⟩
  | exp =>
      refine gives_pure ?_
      unfold SpfLoop.setExplain
      split <;> exact ⟨h, .inl hle⟩
  | skipped => exact gives_pure ⟨h, .inl hle⟩

theorem spfRedirect_gives (h : v.state.Orderly)
    (hle : v.state.mechanismCount ≤ MAX_DNS_MECHANISMS) :
    (spfRedirect ctx nested domain v).Gives SpfReturn.Orderly := by
  unfold spfRedirect
  cases v.redirect with
  | none => exact gives_pure ⟨h, .inl hle⟩
  | some redirect =>
      refine (spfTarget_gives redirect h).bind fun target htarget => ?_
      obtain ⟨hstate, hcount⟩ := htarget
      rw [← hcount] at hle
      cases target.1 with
      | none => exact gives_pure ⟨hstate, .inl hle⟩
      | some name => exact hnested _ _ (hstate.meet rfl) hle

theorem spfTerms_gives (terms : List (List Octet)) (h : v.state.Orderly)
    (hle : v.state.mechanismCount ≤ MAX_DNS_MECHANISMS) :
    (spfTerms env ctx nested domain terms v).Gives SpfReturn.Orderly := by
  induction terms generalizing v with
  | nil => exact spfRedirect_gives hnested h hle
  | cons term terms ih =>
      have hround : (spfRound env ctx nested domain term v).Gives RoundOrderly :=
        spfMechanism_gives hnested _ h hle
      rw [spfTerms]
      refine hround.bind fun round hround => ?_
      cases hflow : round.2 with
      | next =>
          have hnext := hround.limit.resolve_right fun hover => by simp [hflow] at hover
          exact ih hround.state hnext
      | leave =>
          have hnext := hround.limit.resolve_right fun hover => by simp [hflow] at hover
          exact spfRedirect_gives hnested hround.state hnext
      | done => exact gives_pure ⟨hround.state, hround.limit.elim .inl And.right⟩

end

/-! ### Checks -/

/-- Every check keeps the order, however deep it goes. -/
theorem spfCheck_orderly (env : SpfEnv) (ctx : SpfContext) (depth : Nat) :
    ∀ (s : SpfState) (domain : CString) (altTxt : Option CString), s.Orderly →
      s.mechanismCount ≤ MAX_DNS_MECHANISMS →
        (spfCheck env ctx depth s domain altTxt).Gives SpfReturn.Orderly := by
  induction depth with
  | zero =>
      intro s domain altTxt h hle r hr
      cases hr
  | succ depth ih =>
      intro s domain altTxt h hle
      rw [spfCheck]
      by_cases hempty : ctx.ip.octets = [] ∨ domain.octets = []
      · rw [if_pos hempty]
        exact gives_pure ⟨h, .inl hle⟩
      rw [if_neg hempty]
      by_cases hliteral : peek domain.octets = ch '['
      · rw [if_pos hliteral]
        exact gives_pure ⟨h, .inl hle⟩
      rw [if_neg hliteral]
      cases hcircular : spfIsCircularReference s.circular domain.octets with
      | true => exact gives_pure ⟨h, .inl hle⟩
      | false =>
          have hvisit := h.visit hcircular
          rw [if_neg Bool.false_ne_true]
          dsimp only
          cases spfRecord env domain.octets altTxt with
          | error ended => exact gives_pure ⟨hvisit, .inl hle⟩
          | ok found =>
              exact spfTerms_gives (fun s target => ih s target none) _ hvisit hle

theorem spfCheckHeloMailTxt_orderly (env : SpfEnv) (pointers : Nat → Option (List PtrAnswer))
    (scratch : Nat → Ipv6) (depth : Nat) (clientAddr : CString) (helo : Option CString)
    (mail : CString) (txt : Option CString) :
    (spfCheckHeloMailTxt env pointers scratch depth clientAddr helo mail txt).Gives
      SpfReturn.Orderly := by
  have hinitial : SpfState.initial.Orderly := ⟨rfl, List.Pairwise.nil⟩
  have hle : SpfState.initial.mechanismCount ≤ MAX_DNS_MECHANISMS := by decide
  refine Gives.bind (P := fun _ => True) (fun _ _ => trivial) fun parsed _ => ?_
  by_cases hparsed : parsed.1 = 0
  · rw [if_pos hparsed]
    exact gives_pure ⟨hinitial, .inl hle⟩
  rw [if_neg hparsed]
  refine Gives.bind (P := fun _ => True) (fun _ _ => trivial) fun sender _ => ?_
  cases sender with
  | none => exact gives_pure ⟨hinitial, .inl hle⟩
  | some path => exact spfCheck_orderly env _ depth _ _ txt hinitial hle

/-- At most ten mechanisms `a`, `mx`, `ptr` and `exists` ask the DNS in one check of a sender, over
all records that its record names; where one more is met, the result is PermError. -/
theorem spfCheckHeloMailTxt_asked (env : SpfEnv) (pointers : Nat → Option (List PtrAnswer))
    (scratch : Nat → Ipv6) (depth : Nat) (clientAddr : CString) (helo : Option CString)
    (mail : CString) (txt : Option CString) :
    (spfCheckHeloMailTxt env pointers scratch depth clientAddr helo mail txt).Gives fun r =>
      (r.state.counts.filter (· < MAX_DNS_MECHANISMS)).length ≤ MAX_DNS_MECHANISMS ∧
        (MAX_DNS_MECHANISMS < r.state.counts.length →
          r.state.counts.length = MAX_DNS_MECHANISMS + 1 ∧ r.result = .permError) := by
  intro r hr
  obtain ⟨hstate, hlimit⟩ := spfCheckHeloMailTxt_orderly env pointers scratch depth clientAddr helo
    mail txt r hr
  have hlength : r.state.counts.length = r.state.mechanismCount := by
    rw [hstate.counts, List.length_range]
  rw [hlength]
  refine ⟨?_, fun hover => hlimit.resolve_left (Nat.not_le.mpr hover)⟩
  rw [hstate.counts]
  obtain hle | ⟨hover, -⟩ := hlimit
  · exact (List.length_filter_le _ _).trans (by rwa [List.length_range])
  · rw [hover]
    decide

/-- No domain is checked twice in one check of a sender, in whatever letter case it is named. -/
theorem spfCheckHeloMailTxt_visited (env : SpfEnv) (pointers : Nat → Option (List PtrAnswer))
    (scratch : Nat → Ipv6) (depth : Nat) (clientAddr : CString) (helo : Option CString)
    (mail : CString) (txt : Option CString) :
    (spfCheckHeloMailTxt env pointers scratch depth clientAddr helo mail txt).Gives fun r =>
      r.state.circular.Pairwise fun name other => strcasecmp name other ≠ 0 :=
  fun r hr => (spfCheckHeloMailTxt_orderly env pointers scratch depth clientAddr helo mail txt r
    hr).state.visited

end Snert
