/-
Module: Snert.Proofs.SpfDispatch
Purpose: Which names of terms lead to which branch of `spfCheck`. The names `all`, `a`, `mx` and `ptr`
  are compared without what ends them, so that a term with a longer name goes the way of a mechanism;
  the other names are compared with the colon or the equals sign behind them. A term that is skipped
  leaves nothing behind but the qualifier Neutral, which every round of the loop leaves.
Trusted boundary: none
Main exports: spfTerms_dispatch_iff
-/
import Mathlib.Data.List.TakeWhile
import Snert.Lists.OctetBits
import Snert.Mail.Spf

namespace Snert

open CModel CModel.Run Lists

/-! ### Names -/

/-- The name of a term, up to the first colon or slash. -/
def termName (term : List Octet) : List Octet :=
  term.takeWhile fun c => c ≠ ch ':' ∧ c ≠ ch '/'

/-- The term has the name, ignoring case. -/
def IsNamed (term : List Octet) (name : String) : Prop :=
  (termName term).map tolower = ascii name

/-- The term is a modifier of the name: an equals sign stands behind it. -/
def IsModifier (term : List Octet) (name : String) : Prop :=
  ch '=' ∈ term ∧ (term.takeWhile (· ≠ ch '=')).map tolower = ascii name

/-- The names of the mechanism that a branch is for. `ip4` and `ip6` share one. -/
def SpfKind.names (kind : SpfKind) (term : List Octet) : List String :=
  match kind with
  | .all => ["all"]
  | .a => ["a"]
  | .mx => ["mx"]
  | .ptr => ["ptr"]
  | .ip => if term.getD 2 0 = ch '4' then ["ip4"] else ["ip6"]
  | .includes => ["include"]
  | .existing => ["exists"]
  | .redirect | .exp | .skipped => []

/-- The names of all mechanisms. -/
def mechanismNames : List String :=
  ["all", "a", "mx", "ptr", "ip4", "ip6", "include", "exists"]

/-- A term of the form name=value that is neither named as a mechanism nor one of the two modifiers. -/
def UnknownModifier (term : List Octet) : Prop :=
  (∀ name ∈ mechanismNames, ¬ IsNamed term name) ∧ ch '=' ∈ term ∧
    ¬ IsModifier term "redirect" ∧ ¬ IsModifier term "exp"

/-- The term makes no difference to the check of a record, wherever it stands in it. The check begins
with the qualifier given. -/
def HasNoEffect (qualifier : SpfResult) (term : List Octet) : Prop :=
  ∀ (env : SpfEnv) (ctx : SpfContext) (nested : SpfState → CString → Run SpfReturn)
    (domain : CString) (before behind : List (List Octet)) (v : SpfLoop), v.qualifier = qualifier →
      spfTerms env ctx nested domain (before ++ term :: behind) v =
        spfTerms env ctx nested domain (before ++ behind) v

/-- A term is treated as a mechanism only by its name, and an unknown modifier has no effect. -/
def DispatchedByName (qualifier : SpfResult) (term : List Octet) : Prop :=
  (∀ kind : SpfKind, spfKind (spfQualifier term).2 = kind → kind.names (spfQualifier term).2 ≠ [] →
      ∃ name ∈ kind.names (spfQualifier term).2, IsNamed (spfQualifier term).2 name) ∧
    (UnknownModifier (spfQualifier term).2 → HasNoEffect qualifier term)

/-- The term has one of the short names, or begins with none of them. -/
def PlainName (term : List Octet) : Prop :=
  (∃ name ∈ ["all", "a", "mx", "ptr"], IsNamed term name) ∨
    ∀ name ∈ ["a", "mx", "ptr"], ¬ termBegins term name

/-! ### Beginnings of terms -/

/-- A name in lower case. -/
def LowerName (name : String) : Prop :=
  0 ∉ ascii name ∧ (ascii name).map tolower = ascii name

instance (name : String) : Decidable (LowerName name) :=
  inferInstanceAs (Decidable (_ ∧ _))

theorem termBegins_iff {name : String} (h : LowerName name) (term : List Octet) :
    termBegins term name ↔ ascii name <+: term.map tolower := by
  unfold termBegins strncasecmp
  rw [decide_eq_true_iff, List.take_length,
    strcasecmp_eq_zero_iff h.1 (.inr (List.length_take_le _ _)), h.2, List.map_take,
    List.prefix_iff_eq_take, eq_comm]

variable {stop : Octet → Bool} {name : String} {term : List Octet}

theorem map_takeWhile_tolower (hstop : ∀ c, stop (tolower c) = stop c) (term : List Octet) :
    (term.takeWhile stop).map tolower = (term.map tolower).takeWhile stop := by
  rw [List.takeWhile_map]
  congr 2
  funext c
  exact (hstop c).symm

theorem prefix_takeWhile {pre l : List Octet} (h : pre <+: l) (hpre : ∀ c ∈ pre, stop c) :
    pre <+: l.takeWhile stop := by
  obtain ⟨rest, rfl⟩ := h
  rw [List.takeWhile_append_of_pos hpre]
  exact List.prefix_append _ _

theorem takeWhile_of_prefix {pre l : List Octet} {c : Octet} (h : pre ++ [c] <+: l)
    (hpre : ∀ c ∈ pre, stop c) (hc : stop c = false) : l.takeWhile stop = pre := by
  obtain ⟨rest, rfl⟩ := h
  rw [List.append_assoc, List.takeWhile_append_of_pos hpre, List.singleton_append,
    List.takeWhile_cons_of_neg (by simp [hc]), List.append_nil]

theorem termName_tolower (term : List Octet) : (termName term).map tolower =
    (term.map tolower).takeWhile fun c => c ≠ ch ':' ∧ c ≠ ch '/' :=
  map_takeWhile_tolower (forall_octet (by decide +kernel)) term

theorem IsNamed.termBegins_iff (h : IsNamed term name) (start : String) (hlower : LowerName start)
    (hplain : ∀ c ∈ ascii start, c ≠ ch ':' ∧ c ≠ ch '/') :
    termBegins term start ↔ ascii start <+: ascii name := by
  rw [Snert.termBegins_iff hlower, ← h, termName_tolower]
  constructor
  · intro hbegins
    exact prefix_takeWhile hbegins (by simpa using hplain)
  · intro hbegins
    exact hbegins.trans (List.takeWhile_prefix _)

theorem isNamed_of_begins {start : String} (h : termBegins term start) (hlower : LowerName start)
    (hstart : ascii start = ascii name ++ [ch ':'])
    (hplain : ∀ c ∈ ascii name, c ≠ ch ':' ∧ c ≠ ch '/') : IsNamed term name := by
  rw [termBegins_iff hlower, hstart] at h
  rw [IsNamed, termName_tolower]
  exact takeWhile_of_prefix h (by simpa using hplain) (by decide)

theorem isModifier_of_begins {start : String} (h : termBegins term start) (hlower : LowerName start)
    (hstart : ascii start = ascii name ++ [ch '=']) (hplain : ch '=' ∉ ascii name) :
    IsModifier term name := by
  rw [termBegins_iff hlower, hstart] at h
  have hequals : ∀ c, tolower c = ch '=' → c = ch '=' := forall_octet (by decide +kernel)
  constructor
  · have hmem : ch '=' ∈ term.map tolower := h.subset (by simp)
    obtain ⟨c, hc, heq⟩ := List.mem_map.mp hmem
    exact hequals c heq ▸ hc
  · rw [map_takeWhile_tolower (forall_octet (by decide +kernel))]
    refine takeWhile_of_prefix h (fun c hc => ?_) (by decide)
    simp only [ne_eq, decide_not, Bool.not_eq_eq_eq_not, Bool.not_true, decide_eq_false_iff_not]
    exact fun heq => hplain (heq ▸ hc)

/-! ### Branches -/

theorem spfKind_of_isNamed (hmem : name ∈ ["all", "a", "mx", "ptr"]) (h : IsNamed term name) :
    name ∈ (spfKind term).names term := by
  have hall := h.termBegins_iff "all" (by decide) (by decide)
  have ha := h.termBegins_iff "a" (by decide) (by decide)
  have hmx := h.termBegins_iff "mx" (by decide) (by decide)
  have hptr := h.termBegins_iff "ptr" (by decide) (by decide)
  unfold spfKind
  simp only [hall, ha, hmx, hptr]
  simp only [List.mem_cons, List.not_mem_nil, or_false] at hmem
  rcases hmem with rfl | rfl | rfl | rfl
  · rw [if_pos (by decide)]
    exact List.mem_singleton_self _
  · rw [if_neg (by decide), if_pos (by decide)]
    exact List.mem_singleton_self _
  · rw [if_neg (by decide), if_neg (by decide), if_pos (by decide)]
    exact List.mem_singleton_self _
  · rw [if_neg (by decide), if_neg (by decide), if_neg (by decide), if_pos (by decide)]
    exact List.mem_singleton_self _

theorem spfKind_of_not_short (h : ∀ name ∈ ["a", "mx", "ptr"], ¬ termBegins term name) :
    ((spfKind term).names term ≠ [] → ∃ name ∈ (spfKind term).names term, IsNamed term name) ∧
      (UnknownModifier term → spfKind term = .skipped) := by
  have ha : ¬ termBegins term "a" := h "a" (by decide)
  have hmx : ¬ termBegins term "mx" := h "mx" (by decide)
  have hptr : ¬ termBegins term "ptr" := h "ptr" (by decide)
  have hall : ¬ termBegins term "all" := by
    intro hall
    rw [termBegins_iff (by decide)] at hall
    refine ha ((termBegins_iff (by decide) term).mpr (List.IsPrefix.trans ?_ hall))
    decide
  unfold spfKind
  rw [if_neg hall, if_neg ha, if_neg hmx, if_neg hptr]
  by_cases hip : termBegins term "ip4:" ∨ termBegins term "ip6:"
  · rw [if_pos hip]
    have hfour (c : Char) {start : String} (hstart : termBegins term start) (hlower : LowerName start)
        (heq : ascii start = [ch 'i', ch 'p', ch c, ch ':']) : tolower (term.getD 2 0) = ch c := by
      rw [termBegins_iff hlower, heq] at hstart
      match term, hstart with
      | x :: y :: z :: rest, hstart =>
          have hz := hstart
          simp only [List.map_cons, List.cons_prefix_cons] at hz
          exact hz.2.2.1.symm
      | [], hstart => exact absurd hstart (by simp)
      | [x], hstart => exact absurd hstart (by simp)
      | [x, y], hstart => exact absurd hstart (by simp)
    have hdigit : ∀ c, tolower c = ch '4' → c = ch '4' := forall_octet (by decide +kernel)
    rcases hip with hip | hip
    · have hnamed : IsNamed term "ip4" := isNamed_of_begins hip (by decide) (by decide) (by decide)
      have hnames : SpfKind.ip.names term = ["ip4"] :=
        if_pos (hdigit _ (hfour '4' hip (by decide) (by decide)))
      rw [hnames]
      exact ⟨fun _ => ⟨"ip4", by simp, hnamed⟩, fun hother => absurd hnamed (hother.1 "ip4" (by decide))⟩
    · have hnamed : IsNamed term "ip6" := isNamed_of_begins hip (by decide) (by decide) (by decide)
      have hsix := hfour '6' hip (by decide) (by decide)
      have hnames : SpfKind.ip.names term = ["ip6"] := by
        refine if_neg fun hc => ?_
        rw [hc] at hsix
        exact absurd hsix (by decide)
      rw [hnames]
      exact ⟨fun _ => ⟨"ip6", by simp, hnamed⟩, fun hother => absurd hnamed (hother.1 "ip6" (by decide))⟩
  rw [if_neg hip]
  by_cases hincludes : termBegins term "include:"
  · rw [if_pos hincludes]
    have hnamed : IsNamed term "include" :=
      isNamed_of_begins hincludes (by decide) (by decide) (by decide)
    exact ⟨fun _ => ⟨"include", List.mem_singleton_self _, hnamed⟩,
      fun hother => absurd hnamed (hother.1 "include" (by decide))⟩
  rw [if_neg hincludes]
  by_cases hexisting : termBegins term "exists:"
  · rw [if_pos hexisting]
    have hnamed : IsNamed term "exists" :=
      isNamed_of_begins hexisting (by decide) (by decide) (by decide)
    exact ⟨fun _ => ⟨"exists", List.mem_singleton_self _, hnamed⟩,
      fun hother => absurd hnamed (hother.1 "exists" (by decide))⟩
  rw [if_neg hexisting]
  by_cases hredirect : termBegins term "redirect="
  · rw [if_pos hredirect]
    exact ⟨fun hne => absurd rfl hne, fun hother => absurd
      (isModifier_of_begins hredirect (by decide) (by decide) (by decide)) hother.2.2.1⟩
  rw [if_neg hredirect]
  by_cases hexp : termBegins term "exp="
  · rw [if_pos hexp]
    exact ⟨fun hne => absurd rfl hne, fun hother => absurd
      (isModifier_of_begins hexp (by decide) (by decide) (by decide)) hother.2.2.2⟩
  rw [if_neg hexp]
  exact ⟨fun hne => absurd rfl hne, fun _ => rfl⟩

/-! ### Terms that are skipped -/

section

variable (env : SpfEnv) (ctx : SpfContext) (nested : SpfState → CString → Run SpfReturn)
  (domain : CString)

theorem spfTerms_skip (h : spfKind (spfQualifier term).2 = .skipped) (terms : List (List Octet))
    (v : SpfLoop) : spfTerms env ctx nested domain (term :: terms) v =
      spfTerms env ctx nested domain terms { v with qualifier := .neutral } := by
  rw [spfTerms, spfRound]
  dsimp only
  rw [spfMechanism, h]
  rfl

theorem spfTerms_leaveOut (h : spfKind (spfQualifier term).2 = .skipped)
    (before behind : List (List Octet)) {v : SpfLoop} (hv : v.qualifier = .neutral) :
    spfTerms env ctx nested domain (before ++ term :: behind) v =
      spfTerms env ctx nested domain (before ++ behind) v := by
  induction before generalizing v with
  | nil =>
      rw [List.nil_append, List.nil_append, spfTerms_skip env ctx nested domain h, ← hv]
  | cons first before ih =>
      rw [List.cons_append, List.cons_append, spfTerms, spfTerms]
      congr 1
      funext round
      cases round.2 with
      | next => exact ih rfl
      | leave => rfl
      | done => rfl

end

theorem hasNoEffect_iff (h : spfKind (spfQualifier term).2 = .skipped) (qualifier : SpfResult) :
    HasNoEffect qualifier term ↔ qualifier = .neutral := by
  constructor
  · intro heffect
    -- A record of this term alone ends with Neutral, and an empty one with the first qualifier.
    have hempty := heffect ⟨fun _ _ => none, fun _ _ => 0, false⟩
      (spfContext (CString.upTo []) (CString.upTo []) none (Buffer.replicate 16 0) (fun _ => none)
        fun _ => Buffer.replicate 16 0)
      (fun _ _ => ⟨[], .diverge⟩) (CString.upTo []) [] []
      ⟨qualifier, none, none, none, .initial⟩ rfl
    rw [List.nil_append, List.nil_append, spfTerms_skip _ _ _ _ h] at hempty
    have hreturn := congrArg Run.result hempty
    simp only [spfTerms, spfRedirect] at hreturn
    exact (congrArg SpfReturn.result (Option.some.inj hreturn)).symm
  · rintro rfl env ctx nested domain before behind v hv
    exact spfTerms_leaveOut env ctx nested domain h before behind hv

/-! ### Terms by their names -/

theorem spfKind_of_short (h : ∃ name ∈ ["a", "mx", "ptr"], termBegins term name) :
    ∃ name ∈ ["all", "a", "mx", "ptr"], (spfKind term).names term = [name] := by
  obtain ⟨name, hname, hbegins⟩ := h
  unfold spfKind
  by_cases hall : termBegins term "all"
  · exact ⟨"all", by decide, by rw [if_pos hall]; rfl⟩
  rw [if_neg hall]
  by_cases ha : termBegins term "a"
  · exact ⟨"a", by decide, by rw [if_pos ha]; rfl⟩
  rw [if_neg ha]
  by_cases hmx : termBegins term "mx"
  · exact ⟨"mx", by decide, by rw [if_pos hmx]; rfl⟩
  rw [if_neg hmx]
  by_cases hptr : termBegins term "ptr"
  · exact ⟨"ptr", by decide, by rw [if_pos hptr]; rfl⟩
  simp only [List.mem_cons, List.not_mem_nil, or_false] at hname
  rcases hname with rfl | rfl | rfl
  · exact absurd hbegins ha
  · exact absurd hbegins hmx
  · exact absurd hbegins hptr

/-- A term is dispatched by its name exactly if its name is plain and, when it is an unknown modifier,
the check begins with the qualifier Neutral. -/
theorem spfTerms_dispatch_iff (qualifier : SpfResult) (term : List Octet) :
    DispatchedByName qualifier term ↔ PlainName (spfQualifier term).2 ∧
      (UnknownModifier (spfQualifier term).2 → qualifier = .neutral) := by
  by_cases hshort : ∀ name ∈ ["a", "mx", "ptr"], ¬ termBegins (spfQualifier term).2 name
  · obtain ⟨hnames, hskipped⟩ := spfKind_of_not_short hshort
    constructor
    · rintro ⟨-, heffect⟩
      exact ⟨.inr hshort, fun hother => (hasNoEffect_iff (hskipped hother) _).mp (heffect hother)⟩
    · rintro ⟨-, hneutral⟩
      refine ⟨?_, fun hother => (hasNoEffect_iff (hskipped hother) _).mpr (hneutral hother)⟩
      rintro _ rfl hne
      exact hnames hne
  · -- The term begins with a short name, so it goes to the branch of one.
    have hbegins : ∃ name ∈ ["a", "mx", "ptr"], termBegins (spfQualifier term).2 name := by
      push Not at hshort
      exact hshort
    obtain ⟨short, hmemShort, hkind⟩ := spfKind_of_short hbegins
    constructor
    · rintro ⟨hbyName, -⟩
      obtain ⟨name, hmem, hnamed⟩ := hbyName _ rfl (hkind ▸ List.cons_ne_nil _ _)
      obtain rfl := List.mem_singleton.mp (hkind ▸ hmem)
      refine ⟨.inl ⟨name, hmemShort, hnamed⟩, fun hother => absurd hnamed (hother.1 name ?_)⟩
      exact List.mem_of_mem_take (i := 4) hmemShort
    · rintro ⟨hplain, -⟩
      obtain ⟨name, hmem, hnamed⟩ := hplain.resolve_right hshort
      refine ⟨?_, fun hother => absurd hnamed (hother.1 name (List.mem_of_mem_take (i := 4) hmem))⟩
      rintro _ rfl -
      exact ⟨name, spfKind_of_isNamed hmem hnamed, hnamed⟩

/-- The modifier `abuse=x` is treated as the mechanism `a`. -/
theorem spfTerms_not_dispatched : ¬ ∀ term, DispatchedByName .neutral term := by
  intro h
  have hkind : spfKind (spfQualifier (ascii "abuse=x")).2 = .a := by decide
  obtain ⟨name, hmem, hnamed⟩ := (h (ascii "abuse=x")).1 .a hkind (List.cons_ne_nil _ _)
  obtain rfl := List.mem_singleton.mp hmem
  exact absurd hnamed (by unfold IsNamed; decide)

end Snert
