/-
Module: Snert.Proofs.MacroTransformers
Purpose: What `spfMacro` of mail/spf.c makes of the value of a macro. Turning the value round,
  cutting it and putting dots for its delimiters each have an effect on its segments, which holds of
  values without an empty one. A value with a colon is taken for an IPv6 address when it is to be
  turned round, and comes out as nibbles.
Trusted boundary: none
Main exports: spfMacro_transforms
-/
import Mathlib.Data.List.DropRight
import Snert.Proofs.ReverseNibbles
import Snert.Proofs.SegmentOrder
import Snert.Proofs.SpfMacroBounds

namespace Snert

open CModel CModel.Run Lists

/-! ### The last segments -/

theorem rightHandOffset_append {front behind delims : List Octet} {n offset : Nat}
    (h : offset ≤ front.length) : rightHandOffset (front ++ behind) delims n offset =
      rightHandOffset front delims n offset := by
  induction n generalizing offset with
  | zero => rfl
  | succ n ih =>
      have hback := strlrspn_le front delims offset
      have hnext := strlrcspn_le front delims (strlrspn front delims offset)
      rw [rightHandOffset, rightHandOffset, strlrspn_append _ _ _ h,
        strlrcspn_append _ _ _ (Nat.le_trans hback h),
        ih (Nat.le_trans hnext (Nat.le_trans hback h))]

theorem rightHandOffset_le (s delims : List Octet) (n offset : Nat) :
    rightHandOffset s delims n offset ≤ offset := by
  induction n generalizing offset with
  | zero => exact Nat.le_refl _
  | succ n ih =>
      rw [rightHandOffset]
      split
      · exact Nat.le_trans (ih _) (Nat.le_trans (strlrcspn_le ..) (strlrspn_le ..))
      · exact Nat.le_refl _

theorem strlrspn_concat (front delims : List Octet) (c : Octet) :
    strlrspn (front ++ [c]) delims (front ++ [c]).length =
      if c ∈ delims then strlrspn front delims front.length else (front ++ [c]).length := by
  have hget : (front ++ [c]).getD front.length 0 = c := by
    rw [List.getD_append_right _ _ _ _ (Nat.le_refl _), Nat.sub_self]
    rfl
  rw [List.length_append, List.length_singleton, strlrspn, hget, strlrspn_append _ _ _ (Nat.le_refl _)]

theorem strlrcspn_concat (front delims : List Octet) (c : Octet) :
    strlrcspn (front ++ [c]) delims (front ++ [c]).length =
      if c ∈ delims then (front ++ [c]).length else strlrcspn front delims front.length := by
  have hget : (front ++ [c]).getD front.length 0 = c := by
    rw [List.getD_append_right _ _ _ _ (Nat.le_refl _), Nat.sub_self]
    rfl
  rw [List.length_append, List.length_singleton, strlrcspn, hget, strlrcspn_append _ _ _ (Nat.le_refl _)]

theorem segments_concat (front : List Octet) {delims seg : List Octet} {sep : Octet}
    (hsep : decide (sep ∈ delims) = true) (hseg : ∀ x ∈ seg, decide (x ∈ delims) = false) :
    segments delims (front ++ sep :: seg) = segments delims front ++ [seg] := by
  rw [segments, List.splitOnP_append_cons front seg hsep, List.splitOnP_eq_singleton hseg]
  rfl

theorem strlrspn_whole {delims s : List Octet} (h : [] ∉ segments delims s) :
    strlrspn s delims s.length = s.length := by
  induction s using List.reverseRecOn with
  | nil => rfl
  | append_singleton front c _ =>
      rw [strlrspn_concat]
      refine if_neg fun hc => h ?_
      rw [segments, List.splitOnP_append_cons front [] (decide_eq_true hc)]
      exact List.mem_append_right _ (List.mem_singleton.mpr rfl)

theorem strlrcspn_segment (front : List Octet) {seg delims : List Octet}
    (hseg : ∀ x ∈ seg, decide (x ∈ delims) = false) :
    strlrcspn (front ++ seg) delims (front ++ seg).length =
      strlrcspn front delims front.length := by
  induction seg using List.reverseRecOn with
  | nil => rw [List.append_nil]
  | append_singleton seg c ih =>
      have hlast : c ∉ delims := of_decide_eq_false (hseg c (by simp))
      rw [← List.append_assoc, strlrcspn_concat, if_neg hlast,
        ih fun x hx => hseg x (List.mem_append_left _ hx)]

theorem rightHandOffset_start (s delims : List Octet) (n : Nat) :
    rightHandOffset s delims n 0 = 0 := by
  cases n with
  | zero => rfl
  | succ n => rfl

theorem rightHandOffset_separator {front delims : List Octet} {sep : Octet} (hsep : sep ∈ delims)
    (h : [] ∉ segments delims front) (n : Nat) :
    rightHandOffset (front ++ [sep]) delims (n + 1) (front ++ [sep]).length =
      rightHandOffset front delims (n + 1) front.length := by
  have hlength : (front ++ [sep]).length = front.length + 1 := List.length_append
  have hpos : 0 < front.length := by
    refine List.length_pos_of_ne_nil fun hnil => h ?_
    rw [hnil, segments_single (List.forall_mem_nil _)]
    exact List.mem_singleton.mpr rfl
  have hnext := strlrcspn_le front delims front.length
  rw [rightHandOffset, rightHandOffset, if_pos (by omega), if_pos hpos, strlrspn_concat,
    if_pos hsep, strlrspn_whole h, strlrcspn_append _ _ _ (Nat.le_refl _), rightHandOffset_append hnext]

theorem rightHandParts_single {delims s : List Octet} (hs : ∀ x ∈ s, decide (x ∈ delims) = false)
    (h : [] ∉ segments delims s) (n : Nat) : rightHandParts s delims (n + 1) = s := by
  have hstart : strlrcspn s delims s.length = 0 := strlrcspn_segment [] hs
  have hoffset : rightHandOffset s delims (n + 1) s.length = 0 := by
    rw [rightHandOffset, strlrspn_whole h, hstart, rightHandOffset_start]
    split
    · rfl
    · omega
  rw [rightHandParts, hoffset, List.drop_zero]

theorem rightHandParts_more {delims front seg : List Octet} {sep : Octet} (hsep : sep ∈ delims)
    (hseg : ∀ x ∈ seg, decide (x ∈ delims) = false)
    (h : [] ∉ segments delims (front ++ sep :: seg)) (hfront : [] ∉ segments delims front) :
    rightHandParts (front ++ sep :: seg) delims 1 = seg ∧
      ∀ n, rightHandParts (front ++ sep :: seg) delims (n + 2) =
        rightHandParts front delims (n + 1) ++ sep :: seg := by
  have hback : strlrcspn (front ++ sep :: seg) delims (front ++ sep :: seg).length =
      (front ++ [sep]).length := by
    rw [List.append_cons, strlrcspn_segment _ hseg, strlrcspn_concat, if_pos hsep]
  have hpos : 0 < (front ++ sep :: seg).length := by
    rw [List.length_append, List.length_cons]
    omega
  have hoffset (n : Nat) : rightHandOffset (front ++ sep :: seg) delims (n + 1)
      (front ++ sep :: seg).length =
        rightHandOffset (front ++ [sep]) delims n (front ++ [sep]).length := by
    rw [rightHandOffset, if_pos hpos, strlrspn_whole h, hback, List.append_cons,
      rightHandOffset_append (Nat.le_refl _)]
  constructor
  · rw [rightHandParts, hoffset, rightHandOffset, List.append_cons front sep seg, List.drop_left]
  · intro n
    rw [rightHandParts, hoffset, rightHandOffset_separator hsep hfront, rightHandParts,
      List.drop_append_of_le_length (rightHandOffset_le _ _ _ _)]

theorem rightHandParts_segments {delims : List Octet} (n : Nat) {s : List Octet}
    (h : [] ∉ segments delims s) :
    segments delims (rightHandParts s delims (n + 1)) = (segments delims s).rtake (n + 1) := by
  have hone (seg : List Octet) (n : Nat) : [seg].rtake (n + 1) = [seg] := by
    rw [← List.nil_append [seg], List.rtake_concat_succ, List.rtake_nil]
  induction n generalizing s with
  | zero =>
      rcases last_segment (fun x => decide (x ∈ delims)) s with
        hs | ⟨front, sep, seg, rfl, hseg, hsep⟩
      · rw [rightHandParts_single hs h, segments_single hs, hone]
      · have hsplit := segments_concat front hsep hseg
        have hfront : [] ∉ segments delims front := fun hmem =>
          h (hsplit ▸ List.mem_append_left _ hmem)
        rw [(rightHandParts_more (of_decide_eq_true hsep) hseg h hfront).1, hsplit,
          List.rtake_concat_succ, List.rtake_zero, segments_single hseg]
        rfl
  | succ n ih =>
      rcases last_segment (fun x => decide (x ∈ delims)) s with
        hs | ⟨front, sep, seg, rfl, hseg, hsep⟩
      · rw [rightHandParts_single hs h, segments_single hs, hone]
      · have hsplit := segments_concat front hsep hseg
        have hfront : [] ∉ segments delims front := fun hmem =>
          h (hsplit ▸ List.mem_append_left _ hmem)
        rw [(rightHandParts_more (of_decide_eq_true hsep) hseg h hfront).2,
          segments_concat _ hsep hseg, hsplit, List.rtake_concat_succ, ih hfront]

/-! ### Turning round and putting dots -/

theorem withoutTrailing_whole {delims s : List Octet} (h : [] ∉ segments delims s) :
    withoutTrailing delims s = s := by
  induction s using List.reverseRecOn with
  | nil => rfl
  | append_singleton front c _ =>
      rw [withoutTrailing, List.getLast?_concat]
      refine if_neg fun hc => h ?_
      rw [segments, List.splitOnP_append_cons front [] hc]
      exact List.mem_append_right _ (List.mem_singleton.mpr rfl)

theorem not_tag_of_no_colon {p : List Octet} (h : ch ':' ∉ p) : ¬ strncasecmp p IPV6_TAG 5 = 0 := by
  intro htag
  have htake := (strncasecmp_tag p).mp htag
  have hcolon : ch ':' ∈ (p.take 5).map tolower := htake ▸ by decide
  obtain ⟨c, hc, hlower⟩ := List.mem_map.mp hcolon
  have hsame : c = ch ':' := forall_octet (P := fun c => tolower c = ch ':' → c = ch ':')
    (by decide +kernel) c hlower
  exact h (hsame ▸ List.mem_of_mem_take hc)

theorem reverseValue_segments {delims value : List Octet} (ctx : SpfContext) (fmt : List Octet)
    (hcolon : ch ':' ∉ value) (hroom : value.length < DOMAIN_SIZE)
    (h : [] ∉ segments delims value) :
    ∃ turned, (reverseValue ctx true value delims fmt).Yields turned ∧
      turned.length = value.length ∧
      segments delims turned = (segments delims value).reverse := by
  have hturned : reverseSegments value delims DOMAIN_SIZE (ctx.scratch fmt.length) =
      pure (reverseSegmentOrder value delims DOMAIN_SIZE) := by
    rw [reverseSegments, if_neg (not_tag_of_no_colon hcolon), if_pos hcolon]
  have hwhole := withoutTrailing_whole h
  refine ⟨(reverseSegmentOrder value delims DOMAIN_SIZE).1, ?_, ?_, ?_⟩
  · rw [reverseValue, if_pos rfl, hturned]
    exact (yields_pure _).bind (yields_pure _)
  · rw [reverseSegmentOrder_eq hroom, hwhole]
    exact (length_reverseEachSegment _ _).trans List.length_reverse
  · have hnone : [] ∉ (segments delims value).reverse := fun hmem => h (List.mem_reverse.mp hmem)
    rw [(reverseSegmentOrder_segments hroom delims).mpr, hwhole]
    rw [hwhole, dropWhile_no_empty hnone]
    exact List.forall_mem_nil _

theorem textTransliterate_segments {delims : List Octet} (hne : delims ≠ []) (s : List Octet) :
    textTransliterate s delims (List.replicate delims.length (ch '.')) =
      [ch '.'].intercalate (segments delims s) := by
  have hlength := List.length_pos_of_ne_nil hne
  have hput (c : Octet) (hc : decide (c ∈ delims) = true) :
      transliterateOctet delims (List.replicate delims.length (ch '.')) c = ch '.' := by
    rw [transliterateOctet, if_pos (of_decide_eq_true hc), List.length_replicate,
      List.getD_eq_getElem _ _ (by rw [List.length_replicate]; omega), List.getElem_replicate]
  rw [textTransliterate, if_neg (by simpa using hne)]
  exact map_separators (fun c hc => if_neg (of_decide_eq_false hc)) hput s

/-! ### A macro in writing -/

/-- A macro: its letter, the digits of a number or none, the reverse flag and the delimiters. -/
structure MacroCall where
  letter : Octet
  digits : List Octet
  reverse : Bool
  delims : List Octet
  digits_decimal : ∀ c ∈ digits, isDigit 10 c
  delims_scanset : ∀ c ∈ delims, c ∈ delimScanset
  delims_room : delims.length ≤ 7

namespace MacroCall

/-- What stands behind the digits. -/
def behindDigits (call : MacroCall) : List Octet :=
  (if call.reverse then [ch 'r'] else []) ++ (call.delims ++ [ch '\x7d'])

/-- The macro as it stands in a format. -/
def text (call : MacroCall) : List Octet :=
  ch '%' :: ch '\x7b' :: call.letter :: (call.digits ++ call.behindDigits)

/-- The number of parts, zero without digits. -/
def parts (call : MacroCall) : Nat :=
  digitsValue 10 call.digits

/-- The delimiters that the macro stands for. -/
def separators (call : MacroCall) : List Octet :=
  if call.delims = [] then [ch '.'] else call.delims

/-- The value is split at the delimiters, the list of parts is reversed when that is asked for, the
right-most parts are kept, all of them when their number is zero, and dots join them. -/
def expansion (call : MacroCall) (value : List Octet) : List Octet :=
  let split := segments call.separators value
  let turned := if call.reverse then split.reverse else split
  [ch '.'].intercalate (if call.parts = 0 then turned else turned.rtake call.parts)

end MacroCall

example : (MacroCall.mk (ch 'l') (ascii "1") true (ascii "-") (by decide) (by decide)
    (by decide)).expansion (ascii "strong-bad") = ascii "strong" := by decide

theorem not_digit_of_behind {c : Octet} (h : c ∈ delimScanset ++ [ch '\x7d']) :
    isDigit 10 c = false ∧ isspace c = false ∧ c ≠ ch 'r' :=
  forall_octet (P := fun c => c ∈ delimScanset ++ [ch '\x7d'] →
    isDigit 10 c = false ∧ isspace c = false ∧ c ≠ ch 'r') (by decide +kernel) c h

theorem peek_behind {delims : List Octet} (h : ∀ c ∈ delims, c ∈ delimScanset) :
    peek (delims ++ [ch '\x7d']) ∈ delimScanset ++ [ch '\x7d'] := by
  cases delims with
  | nil => decide
  | cons c delims => exact List.mem_append_left _ (h c List.mem_cons_self)

namespace MacroCall

variable (call : MacroCall)

theorem peek_behindDigits (rest : List Octet) :
    isDigit 10 (peek (call.behindDigits ++ rest)) = false ∧
      isspace (peek (call.behindDigits ++ rest)) = false ∧
      isDigit 10 (peek (numberSign (call.behindDigits ++ rest)).2) = false := by
  have hpeek {delims : List Octet} (h : ∀ c ∈ delims, c ∈ delimScanset) :
      isDigit 10 (peek (delims ++ [ch '\x7d'] ++ rest)) = false ∧
        isspace (peek (delims ++ [ch '\x7d'] ++ rest)) = false := by
    have hsame : peek (delims ++ [ch '\x7d'] ++ rest) = peek (delims ++ [ch '\x7d']) := by
      cases delims with
      | nil => rfl
      | cons c delims => rfl
    rw [hsame]
    exact ⟨(not_digit_of_behind (peek_behind h)).1, (not_digit_of_behind (peek_behind h)).2.1⟩
  unfold behindDigits
  by_cases hreverse : call.reverse = true
  · rw [if_pos hreverse]
    exact ⟨rfl, rfl, rfl⟩
  · rw [if_neg hreverse, List.nil_append]
    obtain ⟨hdigit, hspace⟩ := hpeek call.delims_scanset
    refine ⟨hdigit, hspace, ?_⟩
    cases hdelims : call.delims with
    | nil => rfl
    | cons c delims =>
        have hrest := hpeek fun d hd => call.delims_scanset d (hdelims ▸ List.mem_cons_of_mem c hd)
        rw [hdelims] at hdigit
        rw [List.cons_append, List.cons_append, numberSign]
        split
        · exact hrest.1
        · split
          · exact hrest.1
          · exact hdigit

theorem strtol_number (rest : List Octet) :
    strtol (call.digits ++ (call.behindDigits ++ rest)) 10 =
      (clampLong call.parts, call.behindDigits ++ rest) := by
  obtain ⟨hdigit, hspace, hsign⟩ := call.peek_behindDigits rest
  rw [parts]
  by_cases hdigits : call.digits = []
  · rw [hdigits, List.nil_append, strtol_without_digits hspace hsign]
    rfl
  · rw [strtol_stop ⟨hdigits, call.digits_decimal⟩ hdigit]

theorem reverseFlag_call (rest : List Octet) :
    reverseFlag (call.behindDigits ++ rest) = (call.reverse, call.delims ++ ch '\x7d' :: rest) := by
  unfold behindDigits
  by_cases hreverse : call.reverse = true
  · rw [if_pos hreverse, hreverse]
    simp [reverseFlag]
  · have hfalse : call.reverse = false := by simpa using hreverse
    have hpeek : peek (call.delims ++ ch '\x7d' :: rest) ≠ ch 'r' := by
      cases hdelims : call.delims with
      | nil => exact (by decide : ch '\x7d' ≠ ch 'r')
      | cons c delims =>
          have hmem := call.delims_scanset c (hdelims ▸ List.mem_cons_self)
          exact (not_digit_of_behind (List.mem_append_left _ hmem)).2.2
    rw [if_neg hreverse, hfalse, List.nil_append, List.append_assoc, List.singleton_append,
      reverseFlag, if_neg hpeek]

theorem delimSpan_call (rest : List Octet) :
    delimSpan (call.delims ++ ch '\x7d' :: rest) = call.delims := by
  rw [delimSpan, List.takeWhile_append_of_pos (by simpa using call.delims_scanset),
    List.takeWhile_cons_of_neg (by decide), List.append_nil]

theorem macroDelims_call (rest : List Octet) :
    macroDelims (call.delims ++ ch '\x7d' :: rest) = call.separators := by
  rw [macroDelims, delimSpan_call, separators]

theorem separators_ne_nil : call.separators ≠ [] := by
  unfold separators
  split
  · exact List.cons_ne_nil _ _
  · assumption

theorem separators_room : call.separators.length < 8 := by
  unfold separators
  split
  · decide
  · exact Nat.lt_succ_of_le call.delims_room

/-! ### What the macro stands for -/

/-- What is put for the macro, from its value as it is or turned round. -/
def put (turned : List Octet) : List Octet :=
  textTransliterate (cutValue (clampLong call.parts) turned call.separators) call.separators
    (List.replicate call.separators.length (ch '.'))

theorem length_put_le (turned : List Octet) : (call.put turned).length ≤ turned.length := by
  rw [put, textTransliterate_length (by simpa using call.separators_ne_nil), cutValue]
  split
  · rw [rightHandParts, List.length_drop]
    exact Nat.sub_le _ _
  · exact Nat.le_refl _

theorem transform_yields (ctx : SpfContext) (fmt : List Octet) {value : List Octet}
    (hroom : value.length < DOMAIN_SIZE) (hsegments : [] ∉ segments call.separators value)
    (hcolon : call.reverse = true → ch ':' ∉ value) (hparts : call.parts < 2 ^ 31) :
    ∃ turned, (reverseValue ctx call.reverse value call.separators fmt).Yields turned ∧
      turned.length = value.length ∧ call.put turned = call.expansion value := by
  have hturned : ∃ turned, (reverseValue ctx call.reverse value call.separators fmt).Yields turned ∧
      turned.length = value.length ∧ segments call.separators turned =
        if call.reverse then (segments call.separators value).reverse
        else segments call.separators value := by
    by_cases hreverse : call.reverse = true
    · rw [hreverse, if_pos rfl]
      exact reverseValue_segments ctx fmt (hcolon hreverse) hroom hsegments
    · rw [if_neg hreverse, reverseValue, if_neg hreverse]
      exact ⟨value, yields_pure _, rfl, rfl⟩
  obtain ⟨turned, hyields, hlength, hsplit⟩ := hturned
  have hnone : [] ∉ segments call.separators turned := by
    rw [hsplit]
    split
    · exact fun hmem => hsegments (List.mem_reverse.mp hmem)
    · exact hsegments
  have hclamp : clampLong call.parts = call.parts := clampLong_natCast (by omega)
  have hcut : segments call.separators (cutValue call.parts turned call.separators) =
      if call.parts = 0 then segments call.separators turned
      else (segments call.separators turned).rtake call.parts := by
    by_cases hzero : call.parts = 0
    · rw [if_pos hzero, hzero]
      rfl
    · have hint : (intOfLong call.parts).toNat = call.parts := by
        rw [intOfLong]
        omega
      obtain ⟨n, hn⟩ := Nat.exists_eq_succ_of_ne_zero hzero
      rw [if_neg hzero, cutValue, if_pos (by omega), hint, hn]
      exact rightHandParts_segments n hnone
  refine ⟨turned, hyields, hlength, ?_⟩
  rw [put, hclamp, textTransliterate_segments call.separators_ne_nil, hcut, hsplit]
  rfl

end MacroCall

/-! ### The macro in a format -/

section

variable {ctx : SpfContext} {domain : CString} {s : SpfScan} {call : MacroCall}
  {value turned rest : List Octet}

theorem spfStep_delims (hfmt : s.fmt = call.text ++ rest)
    (hvalue : (macroValue ctx domain s.ptrCount call.letter).Yields (some value)) {r : SpfRound}
    (h : (spfDelims ctx { s with ptrCount := countPtr call.letter s.ptrCount } value
      (clampLong call.parts) call.reverse (call.delims ++ ch '\x7d' :: rest)).Yields r)
    (hroom : s.offset < DOMAIN_SIZE) : (spfStep ctx domain s).Yields r := by
  have htext : call.text ++ rest =
      ch '%' :: ch '\x7b' :: call.letter :: (call.digits ++ (call.behindDigits ++ rest)) := by
    rw [MacroCall.text, List.cons_append, List.cons_append, List.cons_append, List.append_assoc]
  have hnumber : ¬ clampLong call.parts < 0 := by
    unfold clampLong
    omega
  rw [spfStep, hfmt, htext]
  dsimp only
  rw [if_neg (not_or.mpr ⟨by decide, not_not.mpr hroom⟩), if_neg (by decide), spfPercent,
    if_neg (by decide), if_neg (by decide), if_neg (by decide), if_pos rfl, spfLetter]
  refine hvalue.bind ?_
  dsimp only
  rw [spfTail, call.strtol_number]
  dsimp only
  rw [if_neg hnumber, call.reverseFlag_call]
  exact h

theorem spfStep_call (hfmt : s.fmt = call.text ++ rest)
    (hvalue : (macroValue ctx domain s.ptrCount call.letter).Yields (some value))
    (hturned : (reverseValue ctx call.reverse value call.separators
      (ch '\x7d' :: rest)).Yields turned)
    (hfits : s.offset + (call.put turned).length < DOMAIN_SIZE) :
    (spfStep ctx domain s).Yields (.inl
      { fmt := rest
        buffer := s.buffer.splice s.offset (call.put turned ++ [0])
        offset := s.offset + (call.put turned).length
        ptrCount := countPtr call.letter s.ptrCount }) := by
  have hspan := call.delimSpan_call rest
  obtain ⟨delims, hdelims, hscan⟩ := @scanDelims_yields (Buffer.replicate 8 0)
    (call.delims ++ ch '\x7d' :: rest)
    (by rw [hspan]; exact Nat.lt_succ_of_le call.delims_room)
  rw [call.macroDelims_call, hspan, List.drop_left] at hscan
  rw [call.macroDelims_call] at hdelims
  obtain ⟨dots, hdots, hfill⟩ := fillDots_yields (Buffer.replicate 8 0) call.separators_room
  have hbuffer : s.offset + (DOMAIN_SIZE - s.offset) ≤ 256 := (Nat.add_sub_of_le (by omega)).le
  have hput := textCopy_yields s.buffer (call.put turned) (by omega) hbuffer
  rw [List.take_of_length_le (by omega)] at hput
  refine spfStep_delims hfmt hvalue ?_ (by omega)
  rw [spfDelims]
  refine hscan.bind (hfill.bind ?_)
  rw [hdelims, hdots, spfTransform, if_neg (not_not.mpr rfl)]
  exact hturned.bind (hput.bind (yields_pure _))

end

/-! ### No NUL -/

theorem macroCopy_noNul {value : List Octet} (h : 0 ∉ value) : 0 ∉ macroCopy value :=
  fun hmem => h (List.mem_of_mem_take hmem)

theorem cstring_noNul {n : Nat} (b : Buffer n) : 0 ∉ b.cstring := fun hmem => by
  simpa using List.mem_takeWhile_imp hmem

theorem ptrHost_noNul (ipv6 : Ipv6) {value : List Octet} (list : List PtrAnswer) (h : 0 ∉ value) :
    0 ∉ ptrHost ipv6 value list := by
  induction list generalizing value with
  | nil => exact h
  | cons rr list ih =>
      rw [ptrHost]
      split
      · exact ih h
      · split
        · exact cstring_noNul _
        · exact ih (cstring_noNul _)

theorem ptrValue_noNul (ctx : SpfContext) (ptrCount : Nat) : 0 ∉ ptrValue ctx ptrCount := by
  have hunknown : 0 ∉ unknown := by decide
  unfold ptrValue
  split
  · exact macroCopy_noNul hunknown
  · dsimp only
    split
    · exact fun hmem => ptrHost_noNul _ _ hunknown (List.mem_of_mem_dropLast hmem)
    · exact macroCopy_noNul (ptrHost_noNul _ _ hunknown)

theorem safe_ite {β : Type} {p : Prop} [Decidable p] {x y : Run β} {Q : β → Prop} (hx : x.Safe Q)
    (hy : y.Safe Q) : (if p then x else y).Safe Q := by
  split
  · exact hx
  · exact hy

theorem macroValue_noNul (ctx : SpfContext) (domain : CString) (ptrCount : Nat) (letter : Octet) :
    (macroValue ctx domain ptrCount letter).Safe fun value => ∀ text ∈ value, 0 ∉ text := by
  have hsome {text : List Octet} (h : 0 ∉ text) :
      (pure (some text) : Run (Option (List Octet))).Safe fun value => ∀ text ∈ value, 0 ∉ text :=
    safe_pure.mpr fun _ hmem => Option.some.inj hmem ▸ h
  have hnone : (pure none : Run (Option (List Octet))).Safe fun value => ∀ text ∈ value, 0 ∉ text :=
    safe_pure.mpr nofun
  unfold macroValue
  refine safe_ite (hsome (macroCopy_noNul domain.noNul)) ?_
  refine safe_ite (hsome (macroCopy_noNul ctx.helo.noNul)) ?_
  refine safe_ite ?_ ?_
  · rw [safe_bind, ipValue, safe_bind]
    exact ⟨inBounds_unfollowed _, fun put _ => safe_pure.mpr (hsome (cstring_noNul _))⟩
  refine safe_ite (hsome (macroCopy_noNul ctx.localLeft.noNul)) ?_
  refine safe_ite (hsome (macroCopy_noNul ctx.domain.noNul)) ?_
  refine safe_ite (hsome (macroCopy_noNul ctx.address.noNul)) ?_
  refine safe_ite (hsome (macroCopy_noNul ?_)) (safe_ite ?_ hnone)
  · split
    · decide
    · decide
  · split
    · exact hnone
    · exact hsome (ptrValue_noNul ctx ptrCount)

theorem mem_intercalate {d c : Octet} {l : List (List Octet)} (h : c ∈ [d].intercalate l) :
    c = d ∨ ∃ seg ∈ l, c ∈ seg := by
  induction l with
  | nil => exact nomatch h
  | cons seg l ih =>
      by_cases hl : l = []
      · rw [hl, List.intercalate_singleton] at h
        exact .inr ⟨seg, List.mem_cons_self, h⟩
      · rw [List.intercalate_cons_of_ne_nil hl, List.append_assoc, List.mem_append, List.mem_append,
          List.mem_singleton] at h
        rcases h with hseg | hd | hrest
        · exact .inr ⟨seg, List.mem_cons_self, hseg⟩
        · exact .inl hd
        · exact (ih hrest).imp_right fun ⟨seg', hmem, hc⟩ => ⟨seg', List.mem_cons_of_mem _ hmem, hc⟩

theorem mem_of_mem_segments {delims s seg : List Octet} (h : seg ∈ segments delims s) :
    ∀ c ∈ seg, c ∈ s := by
  induction s using segments_induction (fun x => decide (x ∈ delims)) with
  | single s hs =>
      rw [segments_single hs, List.mem_singleton] at h
      exact fun c hc => h ▸ hc
  | more first sep rest hfirst hsep ih =>
      rw [segments_more hfirst hsep, List.mem_cons] at h
      rcases h with rfl | h
      · exact fun c hc => List.mem_append_left _ hc
      · exact fun c hc => List.mem_append_right _ (List.mem_cons_of_mem _ (ih h c hc))

theorem MacroCall.expansion_noNul (call : MacroCall) {value : List Octet} (h : 0 ∉ value) :
    0 ∉ call.expansion value := by
  intro hmem
  rcases mem_intercalate hmem with hdot | ⟨seg, hseg, hc⟩
  · exact absurd hdot (by decide)
  · refine h (@mem_of_mem_segments call.separators _ _ ?_ 0 hc)
    have hturned {l : List (List Octet)} (hl : seg ∈ if call.reverse then l.reverse else l) :
        seg ∈ l := by
      split at hl
      · exact List.mem_reverse.mp hl
      · exact hl
    split at hseg
    · exact hturned hseg
    · exact hturned (List.mem_of_mem_drop hseg)

/-! ### The whole function -/

theorem spfMacro_call {ctx : SpfContext} {domain fmt : CString} {call : MacroCall}
    {value turned : List Octet} (buffer : Buffer 256) (hfmt : fmt.octets = call.text)
    (hvalue : (macroValue ctx domain ctx.ptrCount call.letter).Yields (some value))
    (hturned : (reverseValue ctx call.reverse value call.separators [ch '\x7d']).Yields turned)
    (hfits : (call.put turned).length < DOMAIN_SIZE) (hnul : 0 ∉ call.put turned) :
    (spfMacro ctx domain fmt buffer).Yields
      (some (call.put turned), countPtr call.letter ctx.ptrCount) := by
  have hformat : spfFormat fmt.octets = call.text := by
    rw [hfmt, spfFormat]
    rfl
  let start : SpfScan := ⟨call.text, buffer, 0, ctx.ptrCount⟩
  have hstep := @spfStep_call _ _ start _ _ _ [] (List.append_nil _).symm hvalue hturned
    (by rw [Nat.zero_add]; exact hfits)
  have hloop : (loop (spfStep ctx domain) (call.text.length + 1) start).Yields (.ok
      { fmt := []
        buffer := buffer.splice 0 (call.put turned ++ [0])
        offset := 0 + (call.put turned).length
        ptrCount := countPtr call.letter ctx.ptrCount }) := by
    rw [loop]
    refine hstep.bind ?_
    dsimp only
    rw [MacroCall.text, List.length_cons, loop]
    exact (yields_pure _).bind (yields_pure _)
  have hoffset : ¬ DOMAIN_SIZE ≤ (call.put turned).length := Nat.not_le.mpr hfits
  have hlast := @Buffer.splice_splice_last _ buffer 0 (call.put turned) 0 0
    (by rw [Nat.zero_add]; exact hfits)
  have hend := (buffer.splice 0 (call.put turned ++ [0])).yields_write [0]
    (i := (call.put turned).length) hfits
  rw [Nat.zero_add] at hlast
  rw [hlast] at hend
  rw [spfMacro, hformat]
  refine hloop.bind ?_
  dsimp only
  rw [SpfScan.terminate]
  dsimp only
  rw [Nat.zero_add, if_neg hoffset]
  refine hend.bind ?_
  rw [buffer.cstring_splice_zero hfits hnul]
  exact yields_pure _

/-- A macro with a value that has no empty segment is expanded as it reads, if the value has no
colon when it is to be turned round. -/
theorem spfMacro_transforms (ctx : SpfContext) (domain fmt : CString) (buffer : Buffer 256)
    (call : MacroCall) (value : List Octet) (hfmt : fmt.octets = call.text)
    (hvalue : (macroValue ctx domain ctx.ptrCount call.letter).Yields (some value))
    (hroom : value.length < DOMAIN_SIZE) (hsegments : [] ∉ segments call.separators value)
    (hcolon : call.reverse = true → ch ':' ∉ value) (hparts : call.parts < 2 ^ 31) :
    (spfMacro ctx domain fmt buffer).Yields
      (some (call.expansion value), countPtr call.letter ctx.ptrCount) := by
  obtain ⟨turned, hturned, hlength, hput⟩ :=
    call.transform_yields ctx [ch '\x7d'] hroom hsegments hcolon hparts
  have hnul : 0 ∉ call.expansion value := call.expansion_noNul
    ((macroValue_noNul ctx domain ctx.ptrCount call.letter).2 _ hvalue.outcome value rfl)
  have hle := call.length_put_le turned
  rw [← hput] at hnul ⊢
  exact spfMacro_call buffer hfmt hvalue hturned (by omega) hnul

/-- A client of the network 2001:db8::/32. -/
def ipv6Client : SpfContext where
  ip := ⟨ascii "2001:DB8::CB01", by decide⟩
  helo := ⟨ascii "mx.example.org", by decide⟩
  localLeft := ⟨ascii "strong-bad", by decide⟩
  domain := ⟨ascii "email.example.com", by decide⟩
  address := ⟨ascii "strong-bad@email.example.com", by decide⟩
  ipv6 := ⟨[0x20, 0x01, 0x0d, 0xb8, 0, 0, 0, 0, 0, 0, 0, 0, 0, 0, 0xcb, 0x01], rfl⟩
  ptrCount := 0
  pointers := fun _ => none
  scratch := fun _ => Buffer.replicate 16 0

/-- The local part of an address with its two parts turned round, of which the last is kept. -/
theorem spfMacro_transforms_local :
    (spfMacro ipv6Client ⟨ascii "email.example.com", by decide⟩ ⟨ascii "%\x7bl1r-\x7d", by decide⟩
      (Buffer.replicate 256 0)).Yields (some (ascii "strong"), 0) :=
  spfMacro_transforms ipv6Client ⟨ascii "email.example.com", by decide⟩
    ⟨ascii "%\x7bl1r-\x7d", by decide⟩ (Buffer.replicate 256 0)
    ⟨ch 'l', ascii "1", true, ascii "-", by decide, by decide, by decide⟩ (ascii "strong-bad")
    (by decide) (yields_of_result (by decide) (by decide)) (by decide)
    (by decide) (fun _ => by decide) (by decide)

/-- Without a condition on the value it is not so: the address of the client has no dot, and is
turned round by its nibbles. -/
theorem spfMacro_nibbles : ¬ ∀ (ctx : SpfContext) (domain fmt : CString) (buffer : Buffer 256)
    (call : MacroCall) (value : List Octet), fmt.octets = call.text →
    (macroValue ctx domain ctx.ptrCount call.letter).Yields (some value) →
    value.length < DOMAIN_SIZE → [] ∉ segments call.separators value →
    (spfMacro ctx domain fmt buffer).Yields
      (some (call.expansion value), countPtr call.letter ctx.ptrCount) := by
  intro h
  let domain : CString := ⟨ascii "email.example.com", by decide⟩
  let fmt : CString := ⟨ascii "%\x7bir\x7d", by decide⟩
  let call : MacroCall := ⟨ch 'i', [], true, [], by decide, by decide, by decide⟩
  have hfmt : fmt.octets = call.text := by decide
  have hvalue : (macroValue ipv6Client domain 0 (ch 'i')).Yields
      (some (ascii "2001:db8:0:0:0:0:0:cb01")) :=
    yields_of_result (by decide) (by decide)
  have hyields := h ipv6Client domain fmt (Buffer.replicate 256 0) call
    (ascii "2001:db8:0:0:0:0:0:cb01") hfmt hvalue (by decide) (by decide)
  have hgroups : hexGroups (fieldsText ([ascii "2001", ascii "db8"] ++
      List.replicate 5 (ascii "0")) ++ ascii "cb01") = [0x2001, 0xdb8, 0, 0, 0, 0, 0, 0xcb01] := by
    rw [hexGroups_fieldsText (by decide),
      hexGroups_last (by decide) (by decide)]
    decide
  have hnibbles := @reverseByNibble_eq (fieldsText ([ascii "2001", ascii "db8"] ++
    List.replicate 5 (ascii "0")) ++ ascii "cb01") DOMAIN_SIZE (by rw [hgroups]; decide)
  have hturned : (reverseValue ipv6Client true (ascii "2001:db8:0:0:0:0:0:cb01") (ascii ".")
      [ch '\x7d']).Yields
        (ascii "1.0.b.c.0.0.0.0.0.0.0.0.0.0.0.0.0.0.0.0.0.0.0.0.8.b.d.0.1.0.0.2") := by
    have hsource : fieldsText ([ascii "2001", ascii "db8"] ++ List.replicate 5 (ascii "0")) ++
        ascii "cb01" = ascii "2001:db8:0:0:0:0:0:cb01" := by decide
    rw [hgroups, hsource] at hnibbles
    rw [reverseValue, if_pos rfl, reverseSegments, if_neg (by decide),
      if_neg (by decide), expandCompact, if_neg (by decide)]
    refine (yields_pure _).bind ?_
    rw [hnibbles]
    exact yields_of_result (by decide) (by decide)
  have hput := @spfMacro_call _ domain fmt call _ _
    (Buffer.replicate 256 0) hfmt hvalue hturned (by decide) (by decide)
  have hsame := congrArg Prod.fst (Option.some.inj ((result_eq_some.mpr hyields.outcome).symm.trans
    (result_eq_some.mpr hput.outcome)))
  revert hsame
  decide

end Snert
