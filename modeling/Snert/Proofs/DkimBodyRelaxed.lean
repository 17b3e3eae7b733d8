/-
Module: Snert.Proofs.DkimBodyRelaxed
Purpose: The relaxed canonicalisation of a body. Its white space is reduced as it should be for
  every body. The empty lines at the end go wrong in three cases: a body that becomes empty is left
  with a CRLF, a line of white space after an empty end keeps the CRLFs before it, and a CR before
  the last CRLFs is lost.
Trusted boundary: none
Main exports: canonBodyRelaxed_iff
-/
import Mathlib.Data.List.DropRight
import Snert.Proofs.DkimBodySimple

namespace Snert

open CModel

/-! ### The form that is meant -/

theorem length_dropWhile_lt (c : Octet) (text : List Octet) :
    (text.dropWhile isWsp).length < (c :: text).length :=
  Nat.lt_succ_of_le (List.dropWhile_suffix (l := text) isWsp).length_le

theorem length_lt_cons (c : Octet) (text : List Octet) : text.length < (c :: text).length :=
  Nat.lt_succ_self _

/-- A text in which each run of white space has been reduced to one space, and in which there is
none before a CRLF and at the end. -/
def reduceWsp : List Octet → List Octet
  | [] => []
  | c :: text =>
      if isWsp c then
        let rest := text.dropWhile isWsp
        if rest = [] ∨ crlf <+: rest then reduceWsp rest else ASCII_SPACE :: reduceWsp rest
      else c :: reduceWsp text
termination_by text => text.length
decreasing_by
  · exact length_dropWhile_lt c text
  · exact length_dropWhile_lt c text
  · exact length_lt_cons c text

/-- The relaxed form of a body: when its white space is reduced all empty lines at its end are
removed. If anything is left it ends with one CRLF. -/
def relaxedForm (body : List Octet) : List Octet :=
  let text := stripCrlf (reduceWsp body)
  if text = [] then [] else text ++ crlf

/-- What is in the context when `canon_body_relaxed` has been given a body and the end of the
file. -/
def relaxedBody (fp ctxCrlf body : List Octet) : List Octet :=
  (dkimLoop canonBodyRelaxed body (canonCreate fp ctxCrlf [])).ctx

/-- A text without the white space at its end. -/
def stripWsp (text : List Octet) : List Octet :=
  text.rdropWhile isWsp

/-- The text ends with white space. -/
def EndsWsp (text : List Octet) : Prop :=
  ∃ c ∈ text.getLast?, isWsp c

instance (text : List Octet) : Decidable (EndsWsp text) :=
  inferInstanceAs (Decidable (∃ c ∈ text.getLast?, isWsp c))

/-- The text ends with a CR that has no white space before it. -/
def EndsBareCr (text : List Octet) : Prop :=
  EndsCr text ∧ ¬ EndsWsp text.dropLast

instance (text : List Octet) : Decidable (EndsBareCr text) :=
  inferInstanceAs (Decidable (_ ∧ _))

/-! ### Reduced white space -/

theorem reduceWsp_of_not {c : Octet} (h : ¬ isWsp c) (text : List Octet) :
    reduceWsp (c :: text) = c :: reduceWsp text := by
  rw [reduceWsp, if_neg h]

theorem reduceWsp_nil : reduceWsp [] = [] := by
  rw [reduceWsp]

theorem reduceWsp_end {c : Octet} (h : isWsp c) : reduceWsp [c] = [] := by
  rw [reduceWsp, if_pos h, List.dropWhile_nil, if_pos (.inl rfl), reduceWsp_nil]

theorem reduceWsp_run {a b : Octet} (ha : isWsp a) (hb : isWsp b) (text : List Octet) :
    reduceWsp (a :: b :: text) = reduceWsp (ASCII_SPACE :: text) := by
  have hspace : isWsp ASCII_SPACE := by decide
  rw [reduceWsp, if_pos ha, reduceWsp, if_pos hspace, List.dropWhile_cons_of_pos hb]

theorem reduceWsp_wsp {a : Octet} (ha : isWsp a) (text : List Octet) :
    reduceWsp (a :: text) = reduceWsp (ASCII_SPACE :: text) := by
  have hspace : isWsp ASCII_SPACE := by decide
  rw [reduceWsp, if_pos ha, reduceWsp, if_pos hspace]

theorem reduceWsp_space {c : Octet} (h : ¬ isWsp c) (text : List Octet) :
    reduceWsp (ASCII_SPACE :: c :: text) =
      if c = ASCII_CR ∧ text.head? = some ASCII_LF then c :: reduceWsp text
      else ASCII_SPACE :: c :: reduceWsp text := by
  have hspace : isWsp ASCII_SPACE := by decide
  have hcrlf : crlf <+: c :: text ↔ c = ASCII_CR ∧ text.head? = some ASCII_LF := by
    cases text <;> simp [crlf, List.cons_prefix_cons, eq_comm]
  rw [reduceWsp, if_pos hspace]
  dsimp only
  rw [List.dropWhile_cons_of_neg (by simpa using h), reduceWsp_of_not h]
  simp only [reduceCtorEq, false_or, hcrlf]

theorem endsWsp_concat (text : List Octet) (c : Octet) : EndsWsp (text ++ [c]) ↔ isWsp c := by
  simp [EndsWsp]

theorem EndsWsp.not_endsCr {text : List Octet} (h : EndsWsp text) : ¬ EndsCr text := by
  obtain ⟨c, hc, hwsp⟩ := h
  intro hcr
  rw [EndsCr, hc] at hcr
  rw [Option.some.inj hcr] at hwsp
  exact absurd hwsp (by decide)

theorem EndsWsp.not_endsCrlf {text : List Octet} (h : EndsWsp text) : ¬ EndsCrlf text := by
  intro hcrlf
  obtain ⟨front, rfl⟩ := hcrlf.split
  obtain ⟨c, hc, hwsp⟩ := h
  have hlast : (front ++ crlf).getLast? = some ASCII_LF := by simp [crlf]
  rw [hlast] at hc
  rw [← Option.some.inj hc] at hwsp
  exact absurd hwsp (by decide)

theorem stripWsp_concat_wsp {c : Octet} (h : isWsp c) (text : List Octet) :
    stripWsp (text ++ [c]) = stripWsp text :=
  List.rdropWhile_concat_pos _ _ _ h

theorem stripWsp_concat {c : Octet} (h : ¬ isWsp c) (text : List Octet) :
    stripWsp (text ++ [c]) = text ++ [c] :=
  List.rdropWhile_concat_neg _ _ _ h

theorem stripWsp_of_not {text : List Octet} (h : ¬ EndsWsp text) : stripWsp text = text := by
  rcases List.eq_nil_or_concat' text with rfl | ⟨front, c, rfl⟩
  · rfl
  · rw [endsWsp_concat] at h
    exact stripWsp_concat h front

/-! ### The form and what is left -/

theorem stripCrlf_eq_iff (text : List Octet) : stripCrlf text = text ↔ ¬ EndsCrlf text := by
  constructor
  · intro h hcrlf
    obtain ⟨front, rfl⟩ := hcrlf.split
    have hlength := (stripCrlf_isPrefix front).length_le
    rw [stripCrlf_append] at h
    rw [h, List.length_append] at hlength
    exact absurd hlength (Nat.not_le_of_lt (Nat.lt_add_of_pos_right (by decide)))
  · exact stripCrlf_of_not

theorem relaxedForm_iff (body text : List Octet) :
    text ++ crlf = relaxedForm body ↔ stripCrlf (reduceWsp body) = text ∧ text ≠ [] := by
  rw [relaxedForm]
  by_cases h : stripCrlf (reduceWsp body) = []
  · rw [if_pos h, h]
    constructor
    · intro heq
      simp [crlf] at heq
    · rintro ⟨rfl, hne⟩
      exact absurd rfl hne
  · rw [if_neg h, List.append_left_inj]
    exact ⟨fun heq => ⟨heq.symm, heq ▸ h⟩, fun heq => heq.1.symm⟩

/-! ### Runs of CRs and CRLFs -/

/-- A run of CRs and CRLFs. -/
inductive CrRun : List Octet → Prop where
  | nil : CrRun []
  | cr {run : List Octet} (h : CrRun run) : CrRun (run ++ [ASCII_CR])
  | crlf {run : List Octet} (h : CrRun run) : CrRun (run ++ crlf)

theorem CrRun.lf {run : List Octet} (h : CrRun run) (hcr : EndsCr run) :
    CrRun (run ++ [ASCII_LF]) := by
  cases h with
  | nil => exact absurd hcr (by decide)
  | cr h =>
      rw [List.append_assoc]
      exact h.crlf
  | crlf h => exact absurd (endsCrlf_append _) hcr.not_endsCrlf

theorem CrRun.strip {run : List Octet} (h : CrRun run) (front : List Octet) :
    (stripCrlf run = [] ∧ stripCrlf (front ++ run) = stripCrlf front) ∨
      (EndsCr (stripCrlf run) ∧ stripCrlf (front ++ run) = front ++ stripCrlf run) := by
  induction h with
  | nil => exact .inl ⟨rfl, by rw [List.append_nil]⟩
  | @cr run _ _ =>
      have hcr : ∀ text, EndsCr (text ++ [ASCII_CR]) := fun text => (endsCr_concat text _).mpr rfl
      have hstrip : ∀ text, stripCrlf (text ++ [ASCII_CR]) = text ++ [ASCII_CR] := fun text =>
        stripCrlf_of_not (hcr text).not_endsCrlf
      refine .inr ⟨?_, ?_⟩
      · rw [hstrip]
        exact hcr run
      · rw [← List.append_assoc, hstrip, hstrip, List.append_assoc]
  | @crlf run _ ih => rwa [← List.append_assoc, stripCrlf_append, stripCrlf_append]

theorem CrRun.not_wsp {run : List Octet} (h : CrRun run) : ∀ c ∈ run, ¬ isWsp c := by
  induction h with
  | nil => nofun
  | cr _ ih =>
      intro c hc
      obtain hc | hc := List.mem_append.mp hc
      · exact ih c hc
      · rw [List.mem_singleton.mp hc]
        decide
  | crlf _ ih =>
      intro c hc
      obtain hc | hc := List.mem_append.mp hc
      · exact ih c hc
      · obtain rfl | rfl : c = ASCII_CR ∨ c = ASCII_LF := by simpa [Snert.crlf] using hc
        all_goals decide

theorem stripCrlf_tail (text : List Octet) :
    ∃ tail, text = stripCrlf text ++ tail ∧ (tail = [] ∨ crlf <+: tail) := by
  induction hn : text.length using Nat.strongRecOn generalizing text with
  | ind n ih =>
    by_cases hcrlf : EndsCrlf text
    · obtain ⟨front, rfl⟩ := hcrlf.split
      have hlt : front.length < n := by
        rw [← hn, List.length_append]
        exact Nat.lt_add_of_pos_right (by decide)
      obtain ⟨tail, hfront, htail⟩ := ih front.length hlt front rfl
      refine ⟨tail ++ crlf, ?_, .inr ?_⟩
      · rw [stripCrlf_append, ← List.append_assoc, ← hfront]
      · obtain rfl | htail := htail
        · exact List.prefix_refl crlf
        · exact htail.trans (List.prefix_append tail crlf)
    · exact ⟨[], by rw [stripCrlf_of_not hcrlf, List.append_nil], .inl rfl⟩

theorem CrRun.endsBareCr {run front : List Octet} (h : CrRun run) (hcr : EndsCr (stripCrlf run))
    (hfront : EndsWsp front → Snert.crlf <+: run) : EndsBareCr (front ++ stripCrlf run) := by
  obtain ⟨tail, hrun, htail⟩ := stripCrlf_tail run
  obtain ⟨before, hbefore⟩ := List.getLast?_eq_some_iff.mp hcr
  rw [hbefore] at hrun ⊢
  rw [← List.append_assoc]
  refine ⟨(endsCr_concat _ _).mpr rfl, ?_⟩
  rw [List.dropLast_concat]
  rcases List.eq_nil_or_concat' before with rfl | ⟨before, c, rfl⟩
  · intro hwsp
    rw [List.append_nil] at hwsp
    -- The run would begin with CRLF and with CR CR.
    have hcrlf := hfront hwsp
    rw [hrun] at hcrlf
    obtain rfl | ⟨rest, rfl⟩ := htail
    · exact absurd hcrlf (by decide)
    · have hsecond : ASCII_LF = ASCII_CR := by
        simpa [Snert.crlf, List.cons_prefix_cons] using hcrlf
      exact absurd hsecond (by decide)
  · rw [← List.append_assoc, endsWsp_concat]
    refine h.not_wsp c ?_
    rw [hrun]
    simp

/-! ### The state behind some octets -/

/-- The state that `read` leaves, when `left` is still in the file. -/
def relaxedState (read left : List Octet) : DkimState :=
  if read = [] then .start
  else if EndsWsp read then .wsp
  else if EndsCr read then
    if EndsWsp read.dropLast ∧ left.head? ≠ some ASCII_LF then .text else .cr
  else if EndsCrlf read then .lf
  else .text

theorem relaxedState_concat (read left : List Octet) (c : Octet) :
    relaxedState (read ++ [c]) left =
      if isWsp c then .wsp
      else if c = ASCII_CR then
        if EndsWsp read ∧ left.head? ≠ some ASCII_LF then .text else .cr
      else if c = ASCII_LF ∧ EndsCr read then .lf
      else .text := by
  have hne : read ++ [c] ≠ [] := by simp
  simp only [relaxedState, if_neg hne, endsWsp_concat, endsCr_concat, endsCrlf_concat,
    List.dropLast_concat]

/-- Two texts have the same end, where white space at the end of the second does not count. -/
structure SameEnd (short read : List Octet) : Prop where
  nil : short = [] ↔ stripWsp read = []
  cr : EndsCr short ↔ EndsCr (stripWsp read)
  crlf : EndsCrlf short ↔ EndsCrlf (stripWsp read)

theorem SameEnd.wsp {short read : List Octet} (h : SameEnd short read) {c : Octet} (hc : isWsp c) :
    SameEnd short (read ++ [c]) := by
  obtain ⟨hnil, hcr, hcrlf⟩ := h
  constructor <;> rwa [stripWsp_concat_wsp hc]

theorem SameEnd.octet {short read : List Octet} (h : SameEnd short read) {c : Octet}
    (hc : ¬ isWsp c) (hread : ¬ EndsWsp read) : SameEnd (short ++ [c]) (read ++ [c]) := by
  have hcr := h.cr
  rw [stripWsp_of_not hread] at hcr
  constructor
  · simp [stripWsp_concat hc]
  · rw [stripWsp_concat hc, endsCr_concat, endsCr_concat]
  · rw [stripWsp_concat hc, endsCrlf_concat, endsCrlf_concat, hcr]

theorem SameEnd.behind {short read : List Octet} {c : Octet} (hc : ¬ isWsp c) (hread : EndsWsp read)
    (hshort : c = ASCII_LF → ¬ EndsCr short) : SameEnd (short ++ [c]) (read ++ [c]) := by
  have hcr := hread.not_endsCr
  constructor
  · simp [stripWsp_concat hc]
  · rw [stripWsp_concat hc, endsCr_concat, endsCr_concat]
  · rw [stripWsp_concat hc, endsCrlf_concat, endsCrlf_concat]
    exact ⟨fun h => absurd h.2 (hshort h.1), fun h => absurd h.2 hcr⟩

/-- When the copy of the context was made: a run of CRs and CRLFs has been read since, and what was
read before does not end with such a run. White space is only before a CRLF. -/
structure Snapshot (read left : List Octet) (cs : CanonState) (front run : List Octet) : Prop where
  read : read = front ++ run
  ctx : cs.ctx = cs.ctxCrlf ++ run
  crRun : CrRun run
  nonempty : run ≠ []
  sameEnd : SameEnd cs.ctxCrlf front
  bare : ¬ EndsBareCr front
  crlf : ¬ EndsCrlf front
  wsp : EndsWsp front → Snert.crlf <+: run ++ left

/-- What holds when `read` has been given to `canon_body_relaxed` and `left` is still in the
file. -/
structure RelaxedRead (read left : List Octet) (cs : CanonState) : Prop where
  state : cs.state = relaxedState read left
  ctx : reduceWsp (read ++ left)
    = cs.ctx ++ reduceWsp (if EndsWsp read then ASCII_SPACE :: left else left)
  sameEnd : SameEnd cs.ctx read
  snapshot : cs.state = .cr ∨ cs.state = .lf → ∃ front run, Snapshot read left cs front run

theorem RelaxedRead.step_wsp {read left : List Octet} {c : Octet} {cs next : CanonState}
    (h : RelaxedRead read (c :: left) cs) (hc : isWsp c) (hctx : next.ctx = cs.ctx)
    (hstate : next.state = .wsp) : RelaxedRead (read ++ [c]) left next := by
  have hwsp : EndsWsp (read ++ [c]) := (endsWsp_concat read c).mpr hc
  refine ⟨?_, ?_, ?_, ?_⟩
  · rw [hstate, relaxedState_concat, if_pos hc]
  · rw [List.append_assoc, List.singleton_append, h.ctx, hctx, if_pos hwsp]
    split
    · rw [reduceWsp_run (by decide) hc]
    · rw [reduceWsp_wsp hc]
  · rw [hctx]
    exact h.sameEnd.wsp hc
  · rw [hstate]
    nofun

theorem RelaxedRead.ctx_octet {read left : List Octet} {c : Octet} {cs : CanonState}
    (h : RelaxedRead read (c :: left) cs) (hc : ¬ isWsp c) :
    reduceWsp (read ++ [c] ++ left) = cs.ctx ++
      (if EndsWsp read ∧ ¬ (c = ASCII_CR ∧ left.head? = some ASCII_LF) then [ASCII_SPACE, c]
        else [c]) ++ reduceWsp (if EndsWsp (read ++ [c]) then ASCII_SPACE :: left else left) := by
  have hnot : ¬ EndsWsp (read ++ [c]) := fun h => hc ((endsWsp_concat read c).mp h)
  rw [List.append_assoc, List.singleton_append, h.ctx, if_neg hnot, List.append_assoc]
  congr 1
  by_cases hread : EndsWsp read
  · rw [if_pos hread, reduceWsp_space hc]
    by_cases hcrlf : c = ASCII_CR ∧ left.head? = some ASCII_LF
    · rw [if_pos hcrlf, if_neg (fun h => h.2 hcrlf)]
      rfl
    · rw [if_neg hcrlf, if_pos ⟨hread, hcrlf⟩]
      rfl
  · rw [if_neg hread, reduceWsp_of_not hc, if_neg (fun h => hread h.1)]
    rfl

theorem RelaxedRead.save {read left : List Octet} {cs next : CanonState}
    (h : RelaxedRead read (ASCII_CR :: left) cs) (hsaved : next.ctxCrlf = cs.ctx)
    (hctx : next.ctx = cs.ctx ++ [ASCII_CR]) (hbare : ¬ EndsBareCr read) (hcrlf : ¬ EndsCrlf read)
    (hwsp : EndsWsp read → left.head? = some ASCII_LF) :
    Snapshot (read ++ [ASCII_CR]) left next read [ASCII_CR] where
  read := rfl
  ctx := by rw [hsaved, hctx]
  crRun := CrRun.nil.cr
  nonempty := by decide
  sameEnd := by
    rw [hsaved]
    exact h.sameEnd
  bare := hbare
  crlf := hcrlf
  wsp := by
    intro hread
    obtain ⟨file, rfl⟩ := List.head?_eq_some_iff.mp (hwsp hread)
    exact List.prefix_append crlf file

theorem Snapshot.more {read left front run : List Octet} {c : Octet} {cs next : CanonState}
    (h : Snapshot read (c :: left) cs front run) (hrun : EndsCr run → CrRun (run ++ [c]))
    (hread : EndsCr read ∨ c = ASCII_CR)
    (hsaved : next.ctxCrlf = cs.ctxCrlf) (hctx : next.ctx = cs.ctx ++ [c]) :
    Snapshot (read ++ [c]) left next front (run ++ [c]) where
  read := by rw [h.read, List.append_assoc]
  ctx := by rw [hctx, hsaved, h.ctx, List.append_assoc]
  crRun := by
    obtain hcr | rfl := hread
    · rw [h.read, EndsCr, List.getLast?_append_of_ne_nil _ h.nonempty] at hcr
      exact hrun hcr
    · exact h.crRun.cr
  nonempty := by simp
  sameEnd := by
    rw [hsaved]
    exact h.sameEnd
  bare := h.bare
  crlf := h.crlf
  wsp := by
    intro hfront
    rw [List.append_assoc]
    exact h.wsp hfront

theorem RelaxedRead.step_octet {read left : List Octet} {c : Octet} {cs next : CanonState}
    (h : RelaxedRead read (c :: left) cs) (hc : ¬ isWsp c)
    (hspace : EndsWsp read → c = ASCII_CR ∧ left.head? = some ASCII_LF)
    (hctx : next.ctx = cs.ctx ++ [c]) (hstate : next.state = relaxedState (read ++ [c]) left)
    (hsnapshot : next.state = .cr ∨ next.state = .lf →
      ∃ front run, Snapshot (read ++ [c]) left next front run) :
    RelaxedRead (read ++ [c]) left next where
  state := hstate
  ctx := by rw [h.ctx_octet hc, hctx, if_neg (fun hread => hread.2 (hspace hread.1))]
  sameEnd := by
    rw [hctx]
    by_cases hread : EndsWsp read
    · refine SameEnd.behind hc hread fun hlf => ?_
      rw [(hspace hread).1] at hlf
      exact absurd hlf (by decide)
    · exact h.sameEnd.octet hc hread
  snapshot := hsnapshot

theorem RelaxedRead.step_space {read left : List Octet} {c : Octet} {cs next : CanonState}
    (h : RelaxedRead read (c :: left) cs) (hc : ¬ isWsp c) (hread : EndsWsp read)
    (hcrlf : ¬ (c = ASCII_CR ∧ left.head? = some ASCII_LF))
    (hctx : next.ctx = cs.ctx ++ [ASCII_SPACE] ++ [c]) (hstate : next.state = .text) :
    RelaxedRead (read ++ [c]) left next where
  state := by
    rw [hstate, relaxedState_concat, if_neg hc]
    by_cases hcr : c = ASCII_CR
    · rw [if_pos hcr, if_pos ⟨hread, fun hlf => hcrlf ⟨hcr, hlf⟩⟩]
    · rw [if_neg hcr, if_neg (fun h => hread.not_endsCr h.2)]
  ctx := by
    rw [h.ctx_octet hc, hctx, if_pos ⟨hread, hcrlf⟩]
    simp only [List.append_assoc, List.cons_append, List.nil_append]
  sameEnd := by
    rw [hctx]
    refine SameEnd.behind hc hread fun _ hcr => ?_
    rw [endsCr_concat] at hcr
    exact absurd hcr (by decide)
  snapshot := by
    rw [hstate]
    nofun

/-! ### One octet -/

theorem RelaxedRead.step_text {read left : List Octet} {c : Octet} {cs : CanonState}
    (h : RelaxedRead read (c :: left) cs) (hc : ¬ isWsp c)
    (hstate : cs.state = .start ∨ cs.state = .text) (hwsp : ¬ EndsWsp read) (hbare : ¬ EndsBareCr read) (hcrlf : ¬ EndsCrlf read)
    (hlf : ¬ (c = ASCII_LF ∧ EndsCr read)) :
    RelaxedRead (read ++ [c]) left (canonBodyRelaxed { cs with fp := left } (some c)) := by
  have hspace : EndsWsp read → c = ASCII_CR ∧ left.head? = some ASCII_LF := fun h => absurd h hwsp
  by_cases hcr : c = ASCII_CR
  · subst hcr
    have hnext : canonBodyRelaxed { cs with fp := left } (some ASCII_CR) =
        { cs with state := .cr, ctxCrlf := cs.ctx, ctx := cs.ctx ++ [ASCII_CR], fp := left } := by
      obtain hstate | hstate := hstate <;>
        simp [canonBodyRelaxed, hstate, hc, CanonState.save, CanonState.goTo, CanonState.update]
    rw [hnext]
    refine h.step_octet hc hspace rfl ?_ fun _ => ?_
    · rw [relaxedState_concat, if_neg hc, if_pos rfl, if_neg (fun h => hwsp h.1)]
    · exact ⟨read, _, h.save rfl rfl hbare hcrlf fun h => absurd h hwsp⟩
  · have hnext : canonBodyRelaxed { cs with fp := left } (some c) =
        { cs with state := .text, ctx := cs.ctx ++ [c], fp := left } := by
      obtain hstate | hstate := hstate <;>
        simp [canonBodyRelaxed, hstate, hc, hcr, CanonState.goTo, CanonState.update]
    rw [hnext]
    refine h.step_octet hc hspace rfl ?_ (by simp)
    rw [relaxedState_concat, if_neg hc, if_neg hcr, if_neg hlf]

theorem RelaxedRead.step_behind {read left : List Octet} {c : Octet} {cs : CanonState}
    (h : RelaxedRead read (c :: left) cs) (hc : ¬ isWsp c) (hstate : cs.state = .wsp)
    (hwsp : EndsWsp read) :
    RelaxedRead (read ++ [c]) left (canonBodyRelaxed { cs with fp := left } (some c)) := by
  by_cases hcrlf : c = ASCII_CR ∧ left.head? = some ASCII_LF
  · obtain ⟨rfl, hlf⟩ := hcrlf
    have hnext : canonBodyRelaxed { cs with fp := left } (some ASCII_CR) =
        { cs with state := .cr, ctxCrlf := cs.ctx, ctx := cs.ctx ++ [ASCII_CR], fp := left } := by
      simp [canonBodyRelaxed, canonIsCrlf, hstate, hc, hlf, CanonState.save, CanonState.goTo,
        CanonState.update]
    rw [hnext]
    refine h.step_octet hc (fun _ => ⟨rfl, hlf⟩) rfl ?_ fun _ => ?_
    · rw [relaxedState_concat, if_neg hc, if_pos rfl, if_neg (fun h => h.2 hlf)]
    · exact ⟨read, _, h.save rfl rfl (fun h => hwsp.not_endsCr h.1) hwsp.not_endsCrlf fun _ => hlf⟩
  · have hnext : canonBodyRelaxed { cs with fp := left } (some c) =
        { cs with state := .text, ctx := cs.ctx ++ [ASCII_SPACE] ++ [c], fp := left } := by
      simp [canonBodyRelaxed, canonIsCrlf, hcrlf, hstate, hc, CanonState.goTo, CanonState.update]
    rw [hnext]
    exact h.step_space hc hwsp hcrlf rfl rfl

theorem RelaxedRead.step_run {read left : List Octet} {c : Octet} {cs : CanonState}
    (h : RelaxedRead read (c :: left) cs) (hc : ¬ isWsp c) (hwsp : ¬ EndsWsp read)
    (hstate : (cs.state = .cr ∧ EndsCr read) ∨ (cs.state = .lf ∧ ¬ EndsCr read)) :
    RelaxedRead (read ++ [c]) left (canonBodyRelaxed { cs with fp := left } (some c)) := by
  have hspace : EndsWsp read → c = ASCII_CR ∧ left.head? = some ASCII_LF := fun h => absurd h hwsp
  have hne : ASCII_CR ≠ ASCII_LF := by decide
  have hrun : cs.state = .cr ∨ cs.state = .lf := hstate.imp And.left And.left
  obtain ⟨front, run, hsnapshot⟩ := h.snapshot hrun
  have hnext : canonBodyRelaxed { cs with fp := left } (some c) =
      { cs with state := relaxedState (read ++ [c]) left, ctx := cs.ctx ++ [c], fp := left } := by
    rw [relaxedState_concat, if_neg hc]
    obtain ⟨hstate, hcr⟩ | ⟨hstate, hcr⟩ := hstate
    · rcases eq_or_ne c ASCII_CR with rfl | hnot
      · simp [canonBodyRelaxed, hstate, hc, hwsp, hne, CanonState.update]
      · by_cases hlf : c = ASCII_LF
        · subst hlf
          simp [canonBodyRelaxed, hstate, hc, hne.symm, hcr, CanonState.update, CanonState.goTo]
        · simp [canonBodyRelaxed, hstate, hc, hnot, hlf, CanonState.update, CanonState.goTo]
    · rcases eq_or_ne c ASCII_CR with rfl | hnot
      · simp [canonBodyRelaxed, hstate, hc, hwsp, CanonState.update, CanonState.goTo]
      · simp [canonBodyRelaxed, hstate, hc, hnot, hcr, CanonState.update, CanonState.goTo]
  rw [hnext]
  refine h.step_octet hc hspace rfl rfl fun hgoes => ?_
  refine ⟨front, run ++ [c], ?_⟩
  by_cases hcr : c = ASCII_CR
  · exact hsnapshot.more (fun _ => hcr ▸ hsnapshot.crRun.cr) (.inr hcr) rfl rfl
  · have hlf : c = ASCII_LF ∧ EndsCr read := by
      rw [relaxedState_concat, if_neg hc, if_neg hcr] at hgoes
      by_contra hnot
      rw [if_neg hnot] at hgoes
      obtain h | h := hgoes <;> cases h
    exact hsnapshot.more (fun hrun => hlf.1 ▸ hsnapshot.crRun.lf hrun) (.inl hlf.2) rfl rfl

theorem RelaxedRead.step {read left : List Octet} {c : Octet} {cs : CanonState}
    (h : RelaxedRead read (c :: left) cs) :
    RelaxedRead (read ++ [c]) left (canonBodyRelaxed { cs with fp := left } (some c)) := by
  have hstate := h.state
  by_cases hc : isWsp c
  · refine h.step_wsp hc ?_ ?_ <;> rw [relaxedState] at hstate <;> split_ifs at hstate <;>
      simp [canonBodyRelaxed, hstate, hc, CanonState.goTo]
  · rw [relaxedState] at hstate
    split_ifs at hstate with hnil hwsp hcr hbehind hcrlf
    · subst hnil
      exact h.step_text hc (.inl hstate) (by decide) (by decide) (by decide) (by simp [EndsCr])
    · exact h.step_behind hc hstate hwsp
    · have hbare : ¬ EndsBareCr read := fun h => h.2 hbehind.1
      refine h.step_text hc (.inr hstate) hwsp hbare hcr.not_endsCrlf fun hlf => ?_
      exact hbehind.2 (congrArg some hlf.1)
    · exact h.step_run hc hwsp (.inl ⟨hstate, hcr⟩)
    · exact h.step_run hc hwsp (.inr ⟨hstate, hcr⟩)
    · exact h.step_text hc (.inr hstate) hwsp (fun h => hcr h.1) hcrlf fun hlf => hcr hlf.2

/-! ### The body -/

/-- Where the canonicalisation goes right: the body is empty, or something else than white space is
left when the CRLFs at its end are removed; the white space behind this does not stand in a line of
its own; and if CRLFs were removed then a CR before them has white space before it. -/
def RelaxedFine (body : List Octet) : Prop :=
  body = [] ∨
    (stripWsp (stripCrlf body) ≠ [] ∧ ¬ EndsCrlf (stripWsp (stripCrlf body)) ∧
      ¬ (EndsCrlf body ∧ EndsBareCr (stripCrlf body)))

instance (body : List Octet) : Decidable (RelaxedFine body) :=
  inferInstanceAs (Decidable (_ ∨ _))

theorem relaxedBody_read (fp ctxCrlf body : List Octet) :
    ∃ last, RelaxedRead body [] last ∧
      relaxedBody fp ctxCrlf body = (canonBodyRelaxed { last with fp := [] } none).ctx := by
  have hstart : RelaxedRead [] body (canonCreate fp ctxCrlf []) := by
    refine ⟨rfl, rfl, ⟨iff_of_true rfl rfl, ?_, ?_⟩, by nofun⟩ <;> exact Iff.rfl
  obtain ⟨last, hlast, hloop⟩ :=
    dkimLoop_invariant (I := RelaxedRead) (fun read octet file cs h => by
      have hnext := h.step
      refine ⟨hnext, ?_⟩
      rw [hnext.state, relaxedState]
      constructor <;> split_ifs <;> nofun) body hstart
  exact ⟨last, hlast, congrArg CanonState.ctx hloop⟩

theorem RelaxedRead.ctx_end {body : List Octet} {cs : CanonState} (h : RelaxedRead body [] cs) :
    reduceWsp body = cs.ctx := by
  have hspace : reduceWsp (if EndsWsp body then [ASCII_SPACE] else []) = [] := by
    split
    · exact reduceWsp_end (by decide)
    · exact reduceWsp_nil
  have hctx := h.ctx
  rwa [List.append_nil, hspace, List.append_nil] at hctx

theorem RelaxedRead.fine_iff {body : List Octet} {cs : CanonState} (h : RelaxedRead body [] cs)
    (hne : body ≠ []) (hcrlf : ¬ EndsCrlf body) :
    cs.ctx ++ crlf = relaxedForm body ↔ RelaxedFine body := by
  rw [relaxedForm_iff, h.ctx_end, stripCrlf_eq_iff, Ne, h.sameEnd.nil, h.sameEnd.crlf, RelaxedFine,
    stripCrlf_of_not hcrlf]
  constructor
  · rintro ⟨hend, hleft⟩
    exact .inr ⟨hleft, hend, fun h => hcrlf h.1⟩
  · rintro (hnil | ⟨hleft, hend, -⟩)
    · exact absurd hnil hne
    · exact ⟨hend, hleft⟩

theorem Snapshot.fine_iff {body front run : List Octet} {cs : CanonState}
    (h : Snapshot body [] cs front run) (hread : RelaxedRead body [] cs) (hne : body ≠ [])
    (hcrlf : EndsCrlf body) : cs.ctxCrlf ++ Snert.crlf = relaxedForm body ↔ RelaxedFine body := by
  have hbody := h.crRun.strip front
  have hsaved := h.crRun.strip cs.ctxCrlf
  rw [← h.read] at hbody
  rw [relaxedForm_iff, hread.ctx_end, h.ctx]
  by_cases hrun : stripCrlf run = []
  · have hnotCr : ¬ EndsCr (stripCrlf run) := by
      rw [hrun]
      decide
    obtain ⟨-, hbody⟩ := hbody.resolve_right fun h => hnotCr h.1
    obtain ⟨-, hsaved⟩ := hsaved.resolve_right fun h => hnotCr h.1
    rw [hsaved, stripCrlf_eq_iff, Ne, h.sameEnd.nil, h.sameEnd.crlf, RelaxedFine, hbody,
      stripCrlf_of_not h.crlf]
    constructor
    · rintro ⟨hend, hleft⟩
      exact .inr ⟨hleft, hend, fun hbare => h.bare hbare.2⟩
    · rintro (hnil | ⟨hleft, hend, -⟩)
      · exact absurd hnil hne
      · exact ⟨hend, hleft⟩
  · obtain ⟨hcr, hbody⟩ := hbody.resolve_left fun h => hrun h.1
    obtain ⟨-, hsaved⟩ := hsaved.resolve_left fun h => hrun h.1
    have hwsp := h.wsp
    rw [List.append_nil] at hwsp
    refine iff_of_false ?_ ?_
    · rw [hsaved]
      exact fun h => hrun (List.append_right_eq_self.mp h.1)
    · rintro (hnil | ⟨-, -, hbare⟩)
      · exact hne hnil
      · refine hbare ⟨hcrlf, ?_⟩
        rw [hbody]
        exact h.crRun.endsBareCr hcr hwsp

/-- What `canon_body_relaxed` leaves of a body is its relaxed form if and only if the body is one of
those where it goes right. -/
theorem canonBodyRelaxed_iff (fp ctxCrlf body : List Octet) :
    relaxedBody fp ctxCrlf body = relaxedForm body ↔ RelaxedFine body := by
  obtain ⟨last, hread, heq⟩ := relaxedBody_read fp ctxCrlf body
  rw [heq]
  by_cases hnil : body = []
  · subst hnil
    have hstart : last.state = .start := hread.state
    have hctx : last.ctx = [] := by rw [← hread.ctx_end, reduceWsp_nil]
    refine iff_of_true ?_ (.inl rfl)
    simp [canonBodyRelaxed, hstart, hctx, CanonState.goTo, relaxedForm, reduceWsp_nil, stripCrlf,
      dropCrlfs]
  · have hstart : last.state ≠ .start := by
      rw [hread.state, relaxedState, if_neg hnil]
      split_ifs <;> simp
    by_cases hcrlf : EndsCrlf body
    · have hlf : last.state = .lf := by
        rw [hread.state, relaxedState, if_neg hnil, if_neg (fun h => h.not_endsCrlf hcrlf),
          if_neg (fun h => h.not_endsCrlf hcrlf), if_pos hcrlf]
      have hleft : (canonBodyRelaxed { last with fp := [] } none).ctx = last.ctxCrlf ++ crlf := by
        simp [canonBodyRelaxed, hlf, CanonState.goTo, CanonState.restore, CanonState.update]
      obtain ⟨front, run, hsnapshot⟩ := hread.snapshot (.inr hlf)
      rw [hleft]
      exact hsnapshot.fine_iff hread hnil hcrlf
    · have hlf : last.state ≠ .lf := by
        rw [hread.state, relaxedState, if_neg hcrlf]
        split_ifs <;> simp
      have hleft : (canonBodyRelaxed { last with fp := [] } none).ctx = last.ctx ++ crlf := by
        simp [canonBodyRelaxed, hlf, hstart, CanonState.goTo, CanonState.update]
      rw [hleft]
      exact hread.fine_iff hnil hcrlf

/-- A body of one empty line should leave nothing, but a CRLF is left. -/
theorem canonBodyRelaxed_emptyLine :
    relaxedBody [] [] crlf = crlf ∧ relaxedBody [] [] crlf ≠ relaxedForm crlf := by
  have hform : relaxedForm crlf = [] := by
    have hcr : ¬ isWsp ASCII_CR := by decide
    have hlf : ¬ isWsp ASCII_LF := by decide
    rw [relaxedForm, crlf, reduceWsp_of_not hcr, reduceWsp_of_not hlf, reduceWsp_nil]
    decide
  rw [hform]
  decide

end Snert
