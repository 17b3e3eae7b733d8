/-
Module: Snert.Proofs.DkimBodySimple
Purpose: The simple canonicalisation of a body. The copy of the context that is restored at the end
  of the file was made before the first CR of a run of CRs and CRLFs. Where each CR of the run has
  its own LF that is what stands before the empty lines at the end; but a CR before a CRLF belongs
  to the text, and is lost.
Trusted boundary: none
Main exports: canonBodySimple_iff
-/
import Snert.Mail.DkimHash

namespace Snert

open CModel

/-! ### The loop over a file -/

theorem dkimLoop_invariant {fn : CanonFn} {I : List Octet → List Octet → CanonState → Prop}
    (hstep : ∀ read octet file cs, I read (octet :: file) cs →
      I (read ++ [octet]) file (fn { cs with fp := file } (some octet)) ∧
        (fn { cs with fp := file } (some octet)).state ≠ .error ∧
        (fn { cs with fp := file } (some octet)).state ≠ .finish)
    {read : List Octet} (file : List Octet) {cs : CanonState} (h : I read file cs) :
    ∃ last, I (read ++ file) [] last ∧ dkimLoop fn file cs = fn { last with fp := [] } none := by
  induction file generalizing read cs with
  | nil => exact ⟨cs, by rwa [List.append_nil], rfl⟩
  | cons octet file ih =>
      obtain ⟨hnext, herror, hfinish⟩ := hstep read octet file cs h
      obtain ⟨last, hlast, hloop⟩ := ih hnext
      refine ⟨last, by simpa using hlast, ?_⟩
      rw [dkimLoop, if_neg herror, if_neg hfinish, hloop]

/-! ### Empty lines at the end -/

/-- A list in reverse order, without the CRLFs at its start. -/
def dropCrlfs : List Octet → List Octet
  | lf :: cr :: l => if lf = ASCII_LF ∧ cr = ASCII_CR then dropCrlfs l else lf :: cr :: l
  | l => l

/-- A text without the CRLFs at its end. -/
def stripCrlf (text : List Octet) : List Octet :=
  (dropCrlfs text.reverse).reverse

/-- The text ends with CRLF. -/
def EndsCrlf (text : List Octet) : Prop :=
  crlf <:+ text

instance (text : List Octet) : Decidable (EndsCrlf text) :=
  inferInstanceAs (Decidable (crlf <:+ text))

/-- The text ends with CR. -/
def EndsCr (text : List Octet) : Prop :=
  text.getLast? = some ASCII_CR

instance (text : List Octet) : Decidable (EndsCr text) :=
  inferInstanceAs (Decidable (_ = _))

theorem endsCrlf_append (text : List Octet) : EndsCrlf (text ++ crlf) :=
  List.suffix_append text crlf

theorem EndsCrlf.split {text : List Octet} (h : EndsCrlf text) : ∃ front, text = front ++ crlf := by
  obtain ⟨front, hfront⟩ := h
  exact ⟨front, hfront.symm⟩

theorem stripCrlf_append (text : List Octet) : stripCrlf (text ++ crlf) = stripCrlf text := by
  have hreverse : (text ++ crlf).reverse = ASCII_LF :: ASCII_CR :: text.reverse := by
    rw [List.reverse_append]
    rfl
  rw [stripCrlf, hreverse, dropCrlfs, if_pos ⟨rfl, rfl⟩]
  rfl

theorem stripCrlf_of_not {text : List Octet} (h : ¬ EndsCrlf text) : stripCrlf text = text := by
  have hdrop : dropCrlfs text.reverse = text.reverse := by
    match hreverse : text.reverse with
    | [] => rfl
    | [c] => rfl
    | lf :: cr :: l =>
        rw [dropCrlfs]
        refine if_neg ?_
        rintro ⟨rfl, rfl⟩
        refine h ⟨l.reverse, ?_⟩
        have htext := congrArg List.reverse hreverse
        rw [List.reverse_reverse] at htext
        rw [htext]
        simp [crlf]
  rw [stripCrlf, hdrop, List.reverse_reverse]

theorem EndsCr.not_endsCrlf {text : List Octet} (h : EndsCr text) : ¬ EndsCrlf text := by
  intro hcrlf
  obtain ⟨front, rfl⟩ := hcrlf.split
  have hlast : (front ++ crlf).getLast? = some ASCII_LF := by simp [crlf]
  rw [EndsCr, hlast] at h
  exact absurd (Option.some.inj h) (by decide)

theorem stripCrlf_isPrefix (text : List Octet) : stripCrlf text <+: text := by
  have hdrop : ∀ l, dropCrlfs l <:+ l := by
    intro l
    induction l using dropCrlfs.induct with
    | case1 lf cr l hcrlf ih =>
        rw [dropCrlfs, if_pos hcrlf]
        exact ih.trans ((List.suffix_cons cr l).trans (List.suffix_cons lf _))
    | case2 lf cr l hnot =>
        rw [dropCrlfs, if_neg hnot]
    | case3 l hshort =>
        rw [dropCrlfs]
        exact hshort
  have hsuffix := hdrop text.reverse
  rw [← List.reverse_prefix, List.reverse_reverse] at hsuffix
  exact hsuffix

/-! ### The form that is meant -/

/-- The simple form of a body: all empty lines at its end are removed, and it ends with one CRLF. -/
def simpleForm (body : List Octet) : List Octet :=
  stripCrlf body ++ crlf

/-- What is in the context when `canon_body_simple` has been given a body and the end of the
file. -/
def simpleBody (fp ctxCrlf body : List Octet) : List Octet :=
  (dkimLoop canonBodySimple body (canonCreate fp ctxCrlf [])).ctx

/-! ### The state behind some octets -/

/-- The text ends in a run of CRs and CRLFs. -/
def InRun (text : List Octet) : Prop :=
  EndsCr text ∨ EndsCrlf text

instance (text : List Octet) : Decidable (InRun text) :=
  inferInstanceAs (Decidable (_ ∨ _))

/-- What the context held when it was copied last: the text in reverse order, before its last run of
CRs and CRLFs. -/
def rollbackRev : List Octet → List Octet
  | [] => []
  | _ :: l => if InRun l.reverse then rollbackRev l else l

/-- The text before the run of CRs and CRLFs at its end. -/
def rollback (text : List Octet) : List Octet :=
  (rollbackRev text.reverse).reverse

theorem rollback_concat (text : List Octet) (c : Octet) :
    rollback (text ++ [c]) = if InRun text then rollback text else text := by
  rw [rollback, List.reverse_append, List.reverse_singleton, List.singleton_append, rollbackRev,
    List.reverse_reverse]
  split
  · rfl
  · exact List.reverse_reverse text

/-- The state that the text leaves. -/
def simpleState (text : List Octet) : DkimState :=
  if EndsCr text then .cr else if EndsCrlf text then .lf else .start

/-- What holds when `read` has been given to `canon_body_simple`. -/
structure SimpleRead (read : List Octet) (cs : CanonState) : Prop where
  ctx : cs.ctx = read
  state : cs.state = simpleState read
  ctxCrlf : InRun read → cs.ctxCrlf = rollback read

theorem endsCr_concat (text : List Octet) (c : Octet) : EndsCr (text ++ [c]) ↔ c = ASCII_CR := by
  simp [EndsCr]

theorem endsCrlf_concat (text : List Octet) (c : Octet) :
    EndsCrlf (text ++ [c]) ↔ c = ASCII_LF ∧ EndsCr text := by
  constructor
  · rintro ⟨front, hfront⟩
    have hsplit : front ++ crlf = (front ++ [ASCII_CR]) ++ [ASCII_LF] := by simp [crlf]
    rw [hsplit] at hfront
    have happend := List.append_inj' hfront rfl
    refine ⟨(List.singleton_inj.mp happend.2).symm, ?_⟩
    rw [← happend.1]
    exact (endsCr_concat front _).mpr rfl
  · rintro ⟨rfl, hcr⟩
    obtain ⟨front, rfl⟩ := List.getLast?_eq_some_iff.mp hcr
    exact ⟨front, by simp [crlf]⟩

theorem SimpleRead.step {read : List Octet} {cs : CanonState} (h : SimpleRead read cs)
    (file : List Octet) (c : Octet) :
    SimpleRead (read ++ [c]) (canonBodySimple { cs with fp := file } (some c)) := by
  have hconcat : InRun (read ++ [c]) → c = ASCII_CR ∨ (c = ASCII_LF ∧ EndsCr read) := by
    rintro (hcr | hcrlf)
    · exact .inl ((endsCr_concat read c).mp hcr)
    · exact .inr ((endsCrlf_concat read c).mp hcrlf)
  have hstate : simpleState (read ++ [c]) =
      if c = ASCII_CR then .cr else if c = ASCII_LF ∧ EndsCr read then .lf else .start := by
    simp only [simpleState, endsCr_concat, endsCrlf_concat]
  have hne : ASCII_CR ≠ ASCII_LF := by decide
  obtain ⟨hctx, hfrom, hsaved⟩ := h
  by_cases hcr : EndsCr read
  · have hread : cs.state = .cr := by rw [hfrom, simpleState, if_pos hcr]
    have hkept : cs.ctxCrlf = rollback (read ++ [c]) := by
      rw [rollback_concat, if_pos (.inl hcr), hsaved (.inl hcr)]
    rcases eq_or_ne c ASCII_LF with rfl | hlf
    · refine ⟨?_, ?_, fun _ => ?_⟩ <;>
        simp [canonBodySimple, CanonState.update, CanonState.goTo, hread, hctx, hstate, hcr, hkept,
          hne.symm]
    · rcases eq_or_ne c ASCII_CR with rfl | hc
      · refine ⟨?_, ?_, fun _ => ?_⟩ <;>
          simp [canonBodySimple, CanonState.update, hread, hctx, hstate, hkept, hne]
      · refine ⟨?_, ?_, fun _ => ?_⟩ <;>
          simp [canonBodySimple, CanonState.update, CanonState.goTo, hread, hctx, hstate, hkept, hc,
            hlf]
  · by_cases hcrlf : EndsCrlf read
    · have hread : cs.state = .lf := by rw [hfrom, simpleState, if_neg hcr, if_pos hcrlf]
      have hkept : cs.ctxCrlf = rollback (read ++ [c]) := by
        rw [rollback_concat, if_pos (.inr hcrlf), hsaved (.inr hcrlf)]
      rcases eq_or_ne c ASCII_CR with rfl | hc
      · refine ⟨?_, ?_, fun _ => ?_⟩ <;>
          simp [canonBodySimple, CanonState.update, CanonState.goTo, hread, hctx, hstate, hkept]
      · refine ⟨?_, ?_, fun _ => ?_⟩ <;>
          simp [canonBodySimple, CanonState.update, CanonState.goTo, hread, hctx, hstate, hkept, hc,
            hcr]
    · have hread : cs.state = .start := by rw [hfrom, simpleState, if_neg hcr, if_neg hcrlf]
      have hnot : ¬ InRun read := by
        rintro (h | h)
        exacts [hcr h, hcrlf h]
      rcases eq_or_ne c ASCII_CR with rfl | hc
      · refine ⟨?_, ?_, fun _ => ?_⟩ <;>
          simp [canonBodySimple, CanonState.update, CanonState.goTo, CanonState.save, hread, hctx,
            hstate, rollback_concat, hnot]
      · refine ⟨?_, ?_, fun hrun => ?_⟩
        · simp [canonBodySimple, CanonState.update, hread, hctx, hc]
        · simp [canonBodySimple, CanonState.update, hread, hstate, hc, hcr]
        · obtain h | ⟨-, h⟩ := hconcat hrun
          exacts [absurd h hc, absurd h hcr]

/-! ### The body -/

theorem simpleBody_eq (fp ctxCrlf body : List Octet) :
    simpleBody fp ctxCrlf body = (if EndsCrlf body then rollback body else body) ++ crlf := by
  have hstart : SimpleRead [] (canonCreate fp ctxCrlf []) :=
    ⟨rfl, rfl, fun h => absurd h (by decide)⟩
  obtain ⟨last, ⟨hctx, hstate, hsaved⟩, hloop⟩ :=
    dkimLoop_invariant (I := fun read _ cs => SimpleRead read cs) (fun read octet file cs h => by
      have hnext := h.step file octet
      refine ⟨hnext, ?_⟩
      rw [hnext.state, simpleState]
      constructor <;> split_ifs <;> nofun) body hstart
  rw [List.nil_append] at hctx hstate hsaved
  rw [simpleBody, hloop]
  by_cases hcrlf : EndsCrlf body
  · have hlf : last.state = .lf := by
      rw [hstate, simpleState, if_neg (fun h => EndsCr.not_endsCrlf h hcrlf), if_pos hcrlf]
    rw [if_pos hcrlf, ← hsaved (.inr hcrlf)]
    simp [canonBodySimple, CanonState.update, CanonState.goTo, CanonState.restore, hlf]
  · have hlf : last.state ≠ .lf := by
      rw [hstate, simpleState, if_neg hcrlf]
      split_ifs <;> nofun
    rw [if_neg hcrlf, ← hctx]
    simp [canonBodySimple, CanonState.update, CanonState.goTo, hlf]

theorem rollback_append_crlf (text : List Octet) :
    rollback (text ++ crlf) = if InRun text then rollback text else text := by
  have hsplit : text ++ crlf = (text ++ [ASCII_CR]) ++ [ASCII_LF] := by simp [crlf]
  rw [hsplit, rollback_concat, if_pos (.inl ((endsCr_concat text _).mpr rfl)), rollback_concat]

theorem rollback_length_lt {text : List Octet} (h : text ≠ []) :
    (rollback text).length < text.length := by
  have hrev : ∀ l : List Octet, l ≠ [] → (rollbackRev l).length < l.length := by
    intro l
    induction l with
    | nil => exact fun h => absurd rfl h
    | cons c l ih =>
        intro _
        rw [rollbackRev]
        split
        · next hrun =>
            have hne : l ≠ [] := by
              rintro rfl
              exact absurd hrun (by decide)
            have := ih hne
            simp only [List.length_cons]
            omega
        · simp
  have := hrev text.reverse (by simpa using h)
  simpa [rollback] using this

theorem rollback_eq_stripCrlf_iff {text : List Octet} (h : EndsCrlf text) :
    rollback text = stripCrlf text ↔ ¬ EndsCr (stripCrlf text) := by
  induction hn : text.length using Nat.strongRecOn generalizing text with
  | ind n ih =>
    obtain ⟨front, rfl⟩ := h.split
    rw [rollback_append_crlf, stripCrlf_append]
    by_cases hcrlf : EndsCrlf front
    · rw [if_pos (.inr hcrlf)]
      refine ih front.length ?_ hcrlf rfl
      rw [← hn, List.length_append]
      exact Nat.lt_add_of_pos_right (by decide)
    · rw [stripCrlf_of_not hcrlf]
      by_cases hcr : EndsCr front
      · have hne : front ≠ [] := by
          rintro rfl
          exact absurd hcr (by decide)
        have hlength := rollback_length_lt hne
        rw [if_pos (.inl hcr)]
        constructor
        · intro heq
          rw [heq] at hlength
          exact absurd hlength (Nat.lt_irrefl _)
        · exact fun hnot => absurd hcr hnot
      · have hrun : ¬ InRun front := by
          rintro (h | h)
          exacts [hcr h, hcrlf h]
        rw [if_neg hrun]
        exact iff_of_true rfl hcr

/-- What `canon_body_simple` leaves of a body is its simple form if and only if the body is not one
in which a CR stands before the CRLFs at its end. -/
theorem canonBodySimple_iff (fp ctxCrlf body : List Octet) :
    simpleBody fp ctxCrlf body = simpleForm body ↔
      ¬ (EndsCrlf body ∧ EndsCr (stripCrlf body)) := by
  rw [simpleBody_eq, simpleForm, List.append_left_inj, not_and]
  by_cases hcrlf : EndsCrlf body
  · rw [if_pos hcrlf, rollback_eq_stripCrlf_iff hcrlf]
    exact ⟨fun h _ => h, fun h => h hcrlf⟩
  · rw [if_neg hcrlf, stripCrlf_of_not hcrlf]
    exact iff_of_true rfl fun h => absurd h hcrlf

/-- A CR before the last CRLF is lost: of `abc CR CR LF` the octets `abc CR LF` are left. -/
theorem canonBodySimple_cr :
    simpleBody [] [] [0x61, 0x62, 0x63, ASCII_CR, ASCII_CR, ASCII_LF]
        = [0x61, 0x62, 0x63, ASCII_CR, ASCII_LF] ∧
      simpleBody [] [] [0x61, 0x62, 0x63, ASCII_CR, ASCII_CR, ASCII_LF]
        ≠ simpleForm [0x61, 0x62, 0x63, ASCII_CR, ASCII_CR, ASCII_LF] := by
  decide

end Snert
