/-
Module: Snert.Proofs.PathLengths
Purpose: `formatPathLength` counts what `formatPath` stores. Both walk over the format in the same way;
  the lengths that the first adds up are those of the strings that the second copies, since `parsePath`
  passes back the length of each of its strings, and with room to spare `formatPath` drops nothing.
Trusted boundary: none
Main exports: formatPathLength_agrees
-/
import Snert.Mail.ParsePath
import Snert.Proofs.FormatPathTruncation
import Snert.Proofs.PathParts

namespace Snert

open CModel CModel.Run

/-! ### The lengths of the strings -/

/-- Each length is that of its string. -/
structure Measured (p : MeasuredPath) : Prop where
  address : p.addressLength = (pathString p.strings.address).length
  sourceRoute : p.sourceRouteLength = (pathString p.strings.sourceRoute).length
  localLeft : p.localLeftLength = (pathString p.strings.localLeft).length
  localRight : p.localRightLength = (pathString p.strings.localRight).length
  domain : p.domainLength = (pathString p.strings.domain).length

theorem measuredPath_measured {path : CString} {flags : Nat} {dots : Int} {p : Option ParsedPath}
    (h : (parsePath path flags dots).outcome = .done (.ok p)) : Measured (measuredPath p) := by
  cases p with
  | none => exact ⟨rfl, rfl, rfl, rfl, rfl⟩
  | some p =>
      have hlengths := (parsePath_decomposed h).lengths (pathAddress_noNul path flags)
      simp only [ParsedPath.parts, List.forall_mem_cons] at hlengths
      obtain ⟨haddress, hroute, hleft, hright, hdomain, -⟩ := hlengths
      exact ⟨haddress, hroute, hleft, hright, hdomain⟩

theorem Measured.conversionLength {p : MeasuredPath} (h : Measured p) (c : Octet) :
    conversionLength p c = (conversionText p.strings c).length := by
  unfold Snert.conversionLength conversionText
  dsimp only
  by_cases hpercent : c = ch '%'
  · rw [if_pos hpercent, if_pos hpercent, List.length_singleton]
  rw [if_neg hpercent, if_neg hpercent]
  by_cases hA : c = ch 'A'
  · rw [if_pos hA, if_pos hA, h.address]
  rw [if_neg hA, if_neg hA]
  by_cases hD : c = ch 'D'
  · rw [if_pos hD, if_pos hD, h.domain]
  rw [if_neg hD, if_neg hD]
  by_cases hL : c = ch 'L'
  · have hnoP : ¬ (c = ch 'P' ∧ pathString p.strings.localRight ≠ []) := fun hP =>
      absurd (hL.symm.trans hP.1) (by decide)
    rw [if_pos (.inl hL), if_pos hL, if_neg hnoP, h.localLeft, Nat.add_zero]
  by_cases hP : c = ch 'P'
  · rw [if_pos (.inr hP), if_neg hL, if_pos hP, List.length_append, h.localLeft, h.localRight]
    by_cases hright : pathString p.strings.localRight = []
    · rw [if_neg fun hc => hc.2 hright, if_pos hright, List.length_nil]
    · rw [if_pos ⟨hP, hright⟩, if_neg hright, List.length_cons, Nat.add_comm 1]
  rw [if_neg (by simp [hL, hP]), if_neg hL, if_neg hP]
  by_cases hR : c = ch 'R'
  · rw [if_pos hR, if_pos hR, h.localRight]
  rw [if_neg hR, if_neg hR]
  by_cases hS : c = ch 'S'
  · have hnoT : ¬ c = ch 'T' := fun hT => absurd (hS.symm.trans hT) (by decide)
    rw [if_pos (.inl hS), if_pos hS, if_neg hnoT, h.sourceRoute, Nat.add_zero]
    split
    · rfl
    · next hroute => rw [not_not.mp hroute, List.length_nil]
  by_cases hT : c = ch 'T'
  · rw [if_pos (.inr hT), if_neg hS, if_pos hT, if_pos hT, List.length_append, h.sourceRoute]
    by_cases hroute : pathString p.strings.sourceRoute = []
    · rw [if_neg (not_not.mpr hroute), if_pos hroute, hroute, List.length_nil]
    · rw [if_pos hroute, if_neg hroute, List.length_singleton]
  · rw [if_neg (by simp [hS, hT]), if_neg hS, if_neg hT, List.length_nil]

/-! ### The two walks over the format -/

theorem lengthLoop_yields {p : MeasuredPath} (h : Measured p) (fmt : List Octet) : ∀ {length : Nat},
    Complete fmt → (lengthLoop p fmt length).Yields (length + (expansion p.strings fmt).length) := by
  intro length hcomplete
  cases fmt with
  | nil => exact yields_pure _
  | cons c fmt =>
      unfold Complete at hcomplete
      unfold expansion lengthLoop
      by_cases hc : c = ch '%'
      · rw [if_neg (not_not_intro hc)] at hcomplete ⊢
        rw [if_neg (not_not_intro hc)]
        cases fmt with
        | nil => exact hcomplete.elim
        | cons c fmt =>
            have hrest := @lengthLoop_yields p h fmt (length + conversionLength p c) hcomplete
            rw [h.conversionLength] at hrest
            dsimp only
            rwa [List.length_append, ← Nat.add_assoc, h.conversionLength]
      · rw [if_pos hc] at hcomplete ⊢
        rw [if_pos hc]
        have hrest := @lengthLoop_yields p h fmt (length + 1) hcomplete
        rwa [List.length_cons, Nat.add_comm (expansion p.strings fmt).length, ← Nat.add_assoc]

theorem Puts.goesOn {n i : Nat} {p : ParsePath} {x : Run (Buffer n × Nat)}
    {text more rest : List Octet} (h : Puts x (text ++ more) (some (n - i - more.length)))
    (hroom : i + more.length < n)
    (hgo : ∀ {buffer : Buffer n}, Holds buffer (i + more.length) (text ++ more) →
      (formatLoop p rest buffer (i + more.length)).Ends fun put =>
        put.2 = i + more.length + (expansion p rest).length ∧
          Holds put.1 put.2 (text ++ more ++ expansion p rest)) :
    (x >>= fun put => formatLoop p rest put.1 put.2).Ends fun put =>
      put.2 = i + (more ++ expansion p rest).length ∧
        Holds put.1 put.2 (text ++ (more ++ expansion p rest)) := by
  obtain ⟨buffer, -, hyields, hheld⟩ := h
  have hindex : n - (n - i - more.length) = i + more.length := by omega
  rw [hindex] at hyields hheld
  refine (Yields.bind_ends_iff hyields).mpr ((hgo hheld).mono ?_)
  rintro put ⟨hcount, hput⟩
  rw [List.length_append, ← Nat.add_assoc, ← List.append_assoc]
  exact ⟨hcount, hput⟩

theorem formatLoop_counts {n : Nat} (p : ParsePath) (fmt : List Octet) :
    ∀ {buffer : Buffer n} {i : Nat} {text : List Octet}, Holds buffer i text → Complete fmt →
      i + (expansion p fmt).length < n →
      (formatLoop p fmt buffer i).Ends fun put =>
        put.2 = i + (expansion p fmt).length ∧ Holds put.1 put.2 (text ++ expansion p fmt) := by
  intro buffer i text hholds hcomplete hroom
  cases fmt with
  | nil => exact ends_pure.mpr ⟨rfl, by rw [expansion, List.append_nil]; exact hholds⟩
  | cons c fmt =>
      unfold Complete at hcomplete
      unfold expansion at hroom ⊢
      unfold formatLoop
      by_cases hc : c = ch '%'
      · rw [if_neg (not_not_intro hc)] at hcomplete hroom ⊢
        rw [if_neg (by omega), if_neg (not_not_intro hc)]
        cases fmt with
        | nil => exact hcomplete.elim
        | cons c fmt =>
            rw [List.length_append] at hroom
            have hput := formatConversion_puts p c hholds (by omega)
            rw [conversionRoom_of_lt p c (by omega)] at hput
            exact hput.goesOn (by omega) fun hheld =>
              formatLoop_counts p fmt hheld hcomplete (by omega)
      · rw [if_pos hc] at hcomplete hroom ⊢
        rw [List.length_cons] at hroom
        rw [if_neg (by omega), if_pos hc]
        have hput : Puts (putOctet buffer i c) (text ++ [c]) (some (n - i - [c].length)) :=
          putOctet_puts hholds (by omega) c
        exact hput.goesOn (by rw [List.length_singleton]; omega) fun hheld =>
          formatLoop_counts p fmt hheld hcomplete (by rw [List.length_singleton]; omega)

theorem formatPath_counts {n : Nat} (buffer : Buffer n) (fmt : CString) (p : ParsePath)
    (hfmt : Complete fmt.octets) (hroom : (expansion p fmt.octets).length < n) :
    (formatPath buffer fmt p).Ends fun result =>
      result.2 = ((expansion p fmt.octets).length : Nat) ∧
        result.1.cstring = expansion p fmt.octets := by
  have hpos : 0 < n := Nat.zero_lt_of_lt hroom
  have hloop := formatLoop_counts p fmt.octets (Holds.initial buffer) hfmt (by omega)
  rw [formatPath, if_neg (Nat.not_le.mpr hpos)]
  refine ends_bind.mpr (hloop.mono ?_)
  rintro ⟨buffer', i⟩ ⟨hcount, hholds⟩
  rw [List.nil_append] at hholds
  rw [Nat.zero_add] at hcount
  dsimp only at hcount hholds
  have hends := hholds.terminate_ends hpos (expansion_noNul p fmt.noNul)
  have hindex : (formatTerminate buffer' i).Ends fun result => result.2 = (i : Int) := by
    rw [formatTerminate, ends_bind] at hends ⊢
    exact hends.mono fun _ _ => ends_pure.mpr rfl
  obtain ⟨hin, result, hresult, htruncates⟩ := hends
  obtain ⟨-, result', hresult', hcounted⟩ := hindex
  obtain rfl := Outcome.done.inj (hresult.symm.trans hresult')
  refine ⟨hin, result, hresult, hcounted.trans (by rw [hcount]), ?_⟩
  rw [htruncates.2, List.take_of_length_le (by omega)]

/-- For what `parsePath` passes back and a format without a lone percent sign, `formatPathLength` is
what `formatPath` returns and the length of what it leaves, in every buffer with room for that, and
`allocatePath` finds no mismatch. -/
theorem formatPathLength_agrees (path : CString) (flags : Nat) (dots : Int) (p : Option ParsedPath)
    (h : (parsePath path flags dots).outcome = .done (.ok p)) (fmt : CString)
    (hfmt : Complete fmt.octets) :
    ∃ length, (formatPathLength fmt (measuredPath p)).Yields length ∧
      (∀ (n : Nat) (buffer : Buffer n), length < n →
        (formatPath buffer fmt (measuredPath p).strings).Ends fun result =>
          result.2 = (length : Nat) ∧ result.1.cstring.length = length) ∧
      (allocatePath fmt (measuredPath p)).Ends fun text => text.isSome := by
  have hmeasured := measuredPath_measured h
  have hlength := @lengthLoop_yields _ hmeasured fmt.octets 0 hfmt
  rw [Nat.zero_add] at hlength
  refine ⟨_, hlength, fun n buffer hroom => ?_, ?_⟩
  · refine (formatPath_counts buffer fmt _ hfmt hroom).mono ?_
    rintro result ⟨hcount, hstring⟩
    exact ⟨hcount, congrArg List.length hstring⟩
  · refine (Yields.bind_ends_iff hlength).mpr (ends_bind.mpr ?_)
    refine (formatPath_counts _ fmt _ hfmt (Nat.lt_succ_self _)).mono ?_
    rintro result ⟨hcount, -⟩
    rw [if_neg (not_not.mpr hcount)]
    exact ends_pure.mpr rfl

theorem formatPathLength_agrees_plus : ∃ p,
    (parsePath ⟨ascii "<@a.com,@b.com:Foo+Bar@example.com>", by decide⟩ 0 1).outcome = .done (.ok p) ∧
      Complete [ch '%', ch 'T', ch '%', ch 'P', ch '@'] ∧
      ∃ length, (formatPathLength ⟨[ch '%', ch 'T', ch '%', ch 'P', ch '@'], by decide⟩
          (measuredPath p)).Yields length ∧
        (∀ (n : Nat) (buffer : Buffer n), length < n →
          (formatPath buffer ⟨[ch '%', ch 'T', ch '%', ch 'P', ch '@'], by decide⟩
              (measuredPath p).strings).Ends
            fun result => result.2 = (length : Nat) ∧ result.1.cstring.length = length) ∧
        (allocatePath ⟨[ch '%', ch 'T', ch '%', ch 'P', ch '@'], by decide⟩ (measuredPath p)).Ends
          fun text => text.isSome := by
  have haccepted :
      (acceptedPath ⟨ascii "<@a.com,@b.com:Foo+Bar@example.com>", by decide⟩ 0 1).isSome := by
    decide
  obtain ⟨p, hp⟩ := Option.isSome_iff_exists.mp haccepted
  have hdone := outcome_of_acceptedPath hp
  have hcomplete : Complete [ch '%', ch 'T', ch '%', ch 'P', ch '@'] := by
    simp only [Complete]
    decide
  exact ⟨some p, hdone, hcomplete, formatPathLength_agrees _ 0 1 (some p) hdone
    ⟨[ch '%', ch 'T', ch '%', ch 'P', ch '@'], by decide⟩ hcomplete⟩

end Snert
