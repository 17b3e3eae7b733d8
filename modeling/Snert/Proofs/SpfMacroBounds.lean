/-
Module: Snert.Proofs.SpfMacroBounds
Purpose: When `spfMacro` stays in its arrays. The format is read as a sequence of items, each with
  the text it stands for. The offset advances by the length of a whole text even when only part of
  it fits, so the arrays hold exactly when no text that begins inside the buffer ends beyond it, and
  no macro among them has more delimiters than the arrays for them have room for.
Trusted boundary: none
Main exports: spfMacro_inBounds_iff
-/
import Snert.Mail.SpfMacro

namespace Snert

open CModel CModel.Run

/-! ### The items of a format -/

/-- What the rest of a format begins with. -/
inductive SpfItem where
  /-- The end of the format: a NUL or a slash. -/
  | done
  /-- An item for which NULL is returned. -/
  | refused (ptrCount : Nat)
  /-- A macro whose value is never there: a call made for it does not come back. -/
  | lost
  /-- A macro with more delimiters than there is room for. -/
  | overlong
  /-- An item that stands for a text, with the format behind it. -/
  | text (octets rest : List Octet) (ptrCount : Nat)

/-- The delimiters of a macro: a dot when none are given. -/
def macroDelims (fmt : List Octet) : List Octet :=
  if delimSpan fmt = [] then [ch '.'] else delimSpan fmt

/-- The item that the end of a macro makes. -/
def transformItem (ctx : SpfContext) (value : List Octet) (rhp : Int) (reverse : Bool)
    (delims fmt : List Octet) (ptrCount : Nat) : SpfItem :=
  match fmt with
  | [] => .refused ptrCount
  | c :: rest =>
      if c ≠ ch '\x7d' then .refused ptrCount
      else
        match (reverseValue ctx reverse value delims fmt).result with
        | none => .lost
        | some value =>
            let dots := List.replicate delims.length (ch '.')
            .text (textTransliterate (cutValue rhp value delims) delims dots) rest ptrCount

/-- The item that a macro makes, from its delimiters on. -/
def delimsItem (ctx : SpfContext) (value : List Octet) (rhp : Int) (reverse : Bool)
    (fmt : List Octet) (ptrCount : Nat) : SpfItem :=
  if 8 ≤ (delimSpan fmt).length then .overlong
  else
    transformItem ctx value rhp reverse (macroDelims fmt) (fmt.drop (delimSpan fmt).length) ptrCount

/-- The item that a macro with the value `value` makes, from behind its letter on. -/
def tailItem (ctx : SpfContext) (value fmt : List Octet) (ptrCount : Nat) : SpfItem :=
  let number := strtol fmt 10
  if number.1 < 0 then .refused ptrCount
  else
    let flag := reverseFlag number.2
    delimsItem ctx value number.1 flag.1 flag.2 ptrCount

/-- The item that a macro makes, from its letter on. -/
def letterItem (ctx : SpfContext) (domain : CString) (ptrCount : Nat) : List Octet → SpfItem
  | [] => .refused ptrCount
  | letter :: fmt =>
      match (macroValue ctx domain ptrCount letter).result with
      | none => .lost
      | some none => .refused (countPtr letter ptrCount)
      | some (some value) => tailItem ctx value fmt (countPtr letter ptrCount)

/-- The item that a percent character makes, with the format behind it. -/
def percentItem (ctx : SpfContext) (domain : CString) (ptrCount : Nat) : List Octet → SpfItem
  | [] => .refused ptrCount
  | c :: fmt =>
      if c = ch '%' then .text [c] fmt ptrCount
      else if c = ch '_' then .text [ch ' '] fmt ptrCount
      else if c = ch '-' then .text (ascii "%20") fmt ptrCount
      else if c = ch '\x7b' then letterItem ctx domain ptrCount fmt
      else .refused ptrCount

/-- The first item of a format, at a value of `ctx->ptr_count`. -/
def spfItem (ctx : SpfContext) (domain : CString) (ptrCount : Nat) : List Octet → SpfItem
  | [] => .done
  | c :: fmt =>
      if c = ch '/' then .done
      else if c ≠ ch '%' then .text [c] fmt ptrCount
      else percentItem ctx domain ptrCount fmt

/-! ### Items get shorter -/

/-- The format behind the item is shorter than `fmt`. -/
def SpfItem.Shortens (fmt : List Octet) : SpfItem → Prop
  | .text _ rest _ => rest.length < fmt.length
  | _ => True

theorem SpfItem.Shortens.mono {item : SpfItem} {fmt fmt' : List Octet} (h : item.Shortens fmt)
    (hle : fmt.length ≤ fmt'.length) : item.Shortens fmt' := by
  cases item with
  | text octets rest ptrCount => exact Nat.lt_of_lt_of_le h hle
  | done => trivial
  | refused ptrCount => trivial
  | lost => trivial
  | overlong => trivial

theorem transformItem_shortens (ctx : SpfContext) (value : List Octet) (rhp : Int) (reverse : Bool)
    (delims fmt : List Octet) (ptrCount : Nat) :
    (transformItem ctx value rhp reverse delims fmt ptrCount).Shortens fmt := by
  unfold transformItem
  cases fmt with
  | nil => trivial
  | cons c rest =>
      dsimp only
      split
      · trivial
      · split
        · trivial
        · exact Nat.lt_succ_self _

theorem delimsItem_shortens (ctx : SpfContext) (value : List Octet) (rhp : Int) (reverse : Bool)
    (fmt : List Octet) (ptrCount : Nat) :
    (delimsItem ctx value rhp reverse fmt ptrCount).Shortens fmt := by
  unfold delimsItem
  split
  · trivial
  · exact (transformItem_shortens ..).mono (List.length_drop ▸ Nat.sub_le _ _)

theorem reverseFlag_length_le (fmt : List Octet) : (reverseFlag fmt).2.length ≤ fmt.length := by
  unfold reverseFlag
  split
  · exact (List.tail_suffix fmt).length_le
  · exact Nat.le_refl _

theorem tailItem_shortens (ctx : SpfContext) (value fmt : List Octet) (ptrCount : Nat) :
    (tailItem ctx value fmt ptrCount).Shortens fmt := by
  unfold tailItem
  dsimp only
  split
  · trivial
  · exact (delimsItem_shortens ..).mono
      (Nat.le_trans (reverseFlag_length_le _) (strtol_suffix fmt 10).length_le)

theorem letterItem_shortens (ctx : SpfContext) (domain : CString) (ptrCount : Nat)
    (fmt : List Octet) : (letterItem ctx domain ptrCount fmt).Shortens fmt := by
  cases fmt with
  | nil => trivial
  | cons letter fmt =>
      rw [letterItem]
      split
      · trivial
      · trivial
      · exact (tailItem_shortens ..).mono (Nat.le_succ fmt.length)

theorem percentItem_shortens (ctx : SpfContext) (domain : CString) (ptrCount : Nat)
    (fmt : List Octet) : (percentItem ctx domain ptrCount fmt).Shortens fmt := by
  cases fmt with
  | nil => trivial
  | cons c fmt =>
      have hput (octets : List Octet) : (SpfItem.text octets fmt ptrCount).Shortens (c :: fmt) :=
        Nat.lt_succ_self _
      rw [percentItem]
      split
      · exact hput _
      · split
        · exact hput _
        · split
          · exact hput _
          · split
            · exact (letterItem_shortens ..).mono (Nat.le_succ fmt.length)
            · trivial

theorem spfItem_shortens (ctx : SpfContext) (domain : CString) (ptrCount : Nat)
    (fmt : List Octet) : (spfItem ctx domain ptrCount fmt).Shortens fmt := by
  cases fmt with
  | nil => trivial
  | cons c fmt =>
      rw [spfItem]
      split
      · trivial
      · split
        · exact Nat.lt_succ_self _
        · exact (percentItem_shortens ..).mono (Nat.le_succ fmt.length)

/-! ### When the items fit -/

/-- The items of a format fit into the room left of the buffer: as long as there is room for the
next item to begin, its text is no longer than that, and it is no macro with too many delimiters. -/
def SpfFits (ctx : SpfContext) (domain : CString) (room : Nat) (fmt : List Octet)
    (ptrCount : Nat) : Prop :=
  0 < room →
    match _h : spfItem ctx domain ptrCount fmt with
    | .text octets rest counted =>
        octets.length ≤ room ∧ SpfFits ctx domain (room - octets.length) rest counted
    | .overlong => False
    | .done => True
    | .refused _ => True
    | .lost => True
termination_by fmt.length
decreasing_by
  have hrest := spfItem_shortens ctx domain ptrCount fmt
  rw [_h] at hrest
  exact hrest

/-! ### What a round does with an item -/

/-- The run `x` is what a round at the given offset does when its format begins with the item. -/
def SpfItem.Reads (offset : Nat) (x : Run SpfRound) : SpfItem → Prop
  | .done => ∃ s : SpfScan, s.offset = offset ∧ x.Yields (.inr (.ok s))
  | .refused ptrCount => x.Yields (.inr (.error ptrCount))
  | .lost => x.InBounds ∧ ∀ r, x.outcome ≠ .done r
  | .overlong => ¬ x.InBounds
  | .text octets rest ptrCount =>
      ∃ buffer, x.Yields (.inl ⟨rest, buffer, offset + octets.length, ptrCount⟩)

section

variable {s : SpfScan}

theorem putOctet_reads (h : s.offset < DOMAIN_SIZE) (c : Octet) (fmt : List Octet) :
    (SpfItem.text [c] fmt s.ptrCount).Reads s.offset (s.putOctet c fmt) :=
  ⟨s.buffer.splice s.offset [c],
    (s.buffer.yields_write [c] (Nat.succ_le_of_lt h)).bind (yields_pure _)⟩

theorem putText_reads (h : s.offset < DOMAIN_SIZE) (value fmt : List Octet) :
    (SpfItem.text value fmt s.ptrCount).Reads s.offset (s.putText value fmt) := by
  have hroom : s.offset + (DOMAIN_SIZE - s.offset) ≤ 256 := (Nat.add_sub_of_le (Nat.le_of_lt h)).le
  exact ⟨_, (textCopy_yields s.buffer value (Nat.sub_pos_of_lt h) hroom).bind (yields_pure _)⟩

theorem delimSpan_noNul (fmt : List Octet) : 0 ∉ delimSpan fmt := by
  intro hmem
  have hset := List.all_eq_true.mp List.all_takeWhile _ hmem
  exact absurd hset (by decide)

theorem scanDelims_yields (b : Buffer 8) {fmt : List Octet} (h : (delimSpan fmt).length < 8) :
    ∃ delims, delims.cstring = macroDelims fmt ∧
      (scanDelims b fmt).Yields
        (delims, (macroDelims fmt).length, fmt.drop (delimSpan fmt).length) := by
  by_cases hset : delimSpan fmt = []
  · have hdelims : macroDelims fmt = [ch '.'] := if_pos hset
    have hdot := b.yields_write [ch '.'] (i := 0) (by simp)
    have hnul := (b.splice 0 [ch '.']).yields_write [0] (i := 1) (by simp)
    have hjoin := b.splice_splice [ch '.'] [0] (i := 0) (by simp)
    rw [List.length_singleton, Nat.zero_add] at hjoin
    rw [hjoin] at hnul
    rw [hdelims]
    refine ⟨b.splice 0 ([ch '.'] ++ [0]), b.cstring_splice_zero (by simp) (by decide), ?_⟩
    rw [scanDelims, if_neg (not_not.mpr hset), hset]
    exact hdot.bind (hnul.bind (yields_pure _))
  · have hdelims : macroDelims fmt = delimSpan fmt := if_neg hset
    have hroom : 0 + (delimSpan fmt).length + 1 ≤ 8 := by omega
    have hput := b.yields_write (delimSpan fmt ++ [0]) (i := 0) (by simpa using hroom)
    have hnul := (b.splice 0 (delimSpan fmt ++ [0])).yields_write [0] (i := (delimSpan fmt).length)
      (by simpa using hroom)
    have hlast : (b.splice 0 (delimSpan fmt ++ [0])).splice (0 + (delimSpan fmt).length) [0] =
      b.splice 0 (delimSpan fmt ++ [0]) := b.splice_splice_last hroom
    rw [Nat.zero_add] at hlast
    rw [hlast] at hnul
    rw [hdelims]
    refine ⟨b.splice 0 (delimSpan fmt ++ [0]), b.cstring_splice_zero h (delimSpan_noNul fmt), ?_⟩
    rw [scanDelims, if_pos hset]
    exact hput.bind (hnul.bind (yields_pure _))

theorem scanDelims_overlong (b : Buffer 8) {fmt : List Octet} (h : 8 ≤ (delimSpan fmt).length) :
    ¬ (scanDelims b fmt).InBounds := by
  have hset : delimSpan fmt ≠ [] := by
    intro hnil
    rw [hnil] at h
    exact absurd h (by decide)
  intro hin
  rw [scanDelims, if_pos hset, inBounds_bind, Buffer.inBounds_write, List.length_append] at hin
  have hroom := hin.1.2
  change (0 : Int) + ((delimSpan fmt).length + [(0 : Octet)].length : Nat) ≤ 8 at hroom
  rw [List.length_singleton] at hroom
  omega

example : ¬ (scanDelims (Buffer.replicate 8 0) (ascii ".-+,/_=.\x7d")).InBounds := by decide

theorem fillDots_yields (b : Buffer 8) {span : Nat} (h : span < 8) :
    ∃ dots, dots.cstring = List.replicate span (ch '.') ∧ (fillDots b span).Yields dots := by
  have hlen : (List.replicate span (ch '.')).length = span := List.length_replicate
  have hmin : min span 8 = span := Nat.min_eq_left (Nat.le_of_lt h)
  refine ⟨b.splice 0 (List.replicate span (ch '.') ++ [0]), b.cstring_splice_zero ?_ ?_, ?_⟩
  · rw [hlen]
    exact h
  · exact fun hmem => absurd (List.eq_of_mem_replicate hmem) (by decide)
  · have hjoin := b.splice_splice (List.replicate span (ch '.')) [0] (i := 0)
      (by rw [hlen, List.length_singleton]; omega)
    rw [hlen, Nat.zero_add] at hjoin
    rw [fillDots, Buffer.fill, hmin, Yields, ends_bind, ends_store, ← hjoin]
    refine ⟨⟨Int.le_refl 0, ?_⟩, Buffer.yields_write _ [0] h⟩
    change (0 : Int) + (span : Nat) ≤ 8
    omega

theorem refuse_reads (s : SpfScan) : (SpfItem.refused s.ptrCount).Reads s.offset s.refuse :=
  yields_pure _

theorem lost_reads {α : Type} {x : Run α} (hin : x.InBounds) (h : x.result = none) (offset : Nat)
    (f : α → Run SpfRound) : SpfItem.lost.Reads offset (x >>= f) :=
  bind_of_result_eq_none hin h f

theorem SpfItem.Reads.bind {α : Type} {item : SpfItem} {offset : Nat} {x : Run α} {a : α}
    {f : α → Run SpfRound} (hx : x.Yields a) (h : item.Reads offset (f a)) :
    item.Reads offset (x >>= f) := by
  have hout : (x >>= f).outcome = (f a).outcome := outcome_bind_of_done hx.outcome f
  have hin : (x >>= f).InBounds ↔ (f a).InBounds := by
    simp only [inBounds_iff_safe, safe_bind, hx.safe_iff]
  cases item with
  | done =>
      obtain ⟨t, ht, hend⟩ := h
      exact ⟨t, ht, hx.bind hend⟩
  | refused ptrCount => exact hx.bind h
  | lost => exact ⟨hin.mpr h.1, fun r => hout ▸ h.2 r⟩
  | overlong => exact fun hall => h (hin.mp hall)
  | text octets rest ptrCount =>
      obtain ⟨buffer, hbuffer⟩ := h
      exact ⟨buffer, hx.bind hbuffer⟩

theorem reverseValue_inBounds (ctx : SpfContext) (reverse : Bool) (value delims fmt : List Octet) :
    (reverseValue ctx reverse value delims fmt).InBounds := by
  unfold reverseValue
  split
  · exact inBounds_bind.mpr ⟨inBounds_unfollowed _, fun reversed _ => inBounds_pure _⟩
  · exact inBounds_pure _

theorem spfTransform_reads (ctx : SpfContext) (h : s.offset < DOMAIN_SIZE) (value : List Octet)
    (rhp : Int) (reverse : Bool) (delims fmt : List Octet) :
    (transformItem ctx value rhp reverse delims fmt s.ptrCount).Reads s.offset
      (spfTransform ctx s value rhp reverse delims (List.replicate delims.length (ch '.')) fmt) := by
  cases fmt with
  | nil => exact refuse_reads s
  | cons c rest =>
      rw [transformItem, spfTransform]
      by_cases hend : c = ch '\x7d'
      · rw [if_neg (not_not.mpr hend), if_neg (not_not.mpr hend)]
        have hin := reverseValue_inBounds ctx reverse value delims (c :: rest)
        cases hvalue : (reverseValue ctx reverse value delims (c :: rest)).result with
        | none => exact lost_reads hin hvalue _ _
        | some value => exact (putText_reads h _ rest).bind (yields_of_result hin hvalue)
      · rw [if_pos hend, if_pos hend]
        exact refuse_reads s

theorem spfDelims_reads (ctx : SpfContext) (h : s.offset < DOMAIN_SIZE) (value : List Octet)
    (rhp : Int) (reverse : Bool) (fmt : List Octet) :
    (delimsItem ctx value rhp reverse fmt s.ptrCount).Reads s.offset
      (spfDelims ctx s value rhp reverse fmt) := by
  rw [delimsItem, spfDelims]
  split
  · rename_i hlong
    exact fun hin => scanDelims_overlong _ hlong (inBounds_bind.mp hin).1
  · rename_i hshort
    obtain ⟨delims, hdelims, hscan⟩ :=
      scanDelims_yields (Buffer.replicate 8 0) (Nat.not_le.mp hshort)
    have hspan : (macroDelims fmt).length < 8 := by
      unfold macroDelims
      split
      · decide
      · exact Nat.not_le.mp hshort
    obtain ⟨dots, hdots, hfill⟩ := fillDots_yields (Buffer.replicate 8 0) hspan
    refine SpfItem.Reads.bind hscan (SpfItem.Reads.bind hfill ?_)
    rw [hdelims, hdots]
    exact spfTransform_reads ctx h value rhp reverse _ _

theorem spfTail_reads (ctx : SpfContext) (h : s.offset < DOMAIN_SIZE) (value fmt : List Octet) :
    (tailItem ctx value fmt s.ptrCount).Reads s.offset (spfTail ctx s value fmt) := by
  unfold tailItem spfTail
  dsimp only
  split
  · exact refuse_reads s
  · exact spfDelims_reads ctx h value _ _ _

theorem macroValue_inBounds (ctx : SpfContext) (domain : CString) (ptrCount : Nat)
    (letter : Octet) : (macroValue ctx domain ptrCount letter).InBounds := by
  have hip : (ipValue ctx).InBounds :=
    inBounds_bind.mpr ⟨inBounds_unfollowed _, fun _ _ => inBounds_pure _⟩
  have hvalue : (ipValue ctx >>= fun value => pure (some value) : Run (Option _)).InBounds :=
    inBounds_bind.mpr ⟨hip, fun _ _ => inBounds_pure _⟩
  simp only [macroValue, apply_ite InBounds, inBounds_pure, hvalue, ite_self]

theorem spfLetter_reads (ctx : SpfContext) (domain : CString) (h : s.offset < DOMAIN_SIZE)
    (fmt : List Octet) :
    (letterItem ctx domain s.ptrCount fmt).Reads s.offset (spfLetter ctx domain s fmt) := by
  cases fmt with
  | nil => exact refuse_reads s
  | cons letter fmt =>
      rw [letterItem, spfLetter]
      have hin := macroValue_inBounds ctx domain s.ptrCount letter
      cases hvalue : (macroValue ctx domain s.ptrCount letter).result with
      | none => exact lost_reads hin hvalue _ _
      | some value =>
          refine SpfItem.Reads.bind (yields_of_result hin hvalue) ?_
          cases value with
          | none => exact yields_pure _
          | some value =>
              let counted : SpfScan := { s with ptrCount := countPtr letter s.ptrCount }
              exact spfTail_reads (s := counted) ctx h value fmt

theorem spfPercent_reads (ctx : SpfContext) (domain : CString) (h : s.offset < DOMAIN_SIZE)
    (fmt : List Octet) :
    (percentItem ctx domain s.ptrCount fmt).Reads s.offset (spfPercent ctx domain s fmt) := by
  cases fmt with
  | nil => exact refuse_reads s
  | cons c fmt =>
      rw [percentItem, spfPercent]
      split
      · exact putOctet_reads h c fmt
      · split
        · exact putOctet_reads h _ fmt
        · split
          · exact putText_reads h _ fmt
          · split
            · exact spfLetter_reads ctx domain h fmt
            · exact refuse_reads s

theorem spfStep_reads (ctx : SpfContext) (domain : CString) (h : s.offset < DOMAIN_SIZE) :
    (spfItem ctx domain s.ptrCount s.fmt).Reads s.offset (spfStep ctx domain s) := by
  rw [spfStep]
  cases s.fmt with
  | nil => exact ⟨s, rfl, yields_pure _⟩
  | cons c fmt =>
      rw [spfItem]
      dsimp only
      by_cases hslash : c = ch '/'
      · rw [if_pos hslash, if_pos (Or.inl hslash)]
        exact ⟨s, rfl, yields_pure _⟩
      · rw [if_neg hslash, if_neg (not_or.mpr ⟨hslash, not_not.mpr h⟩)]
        split
        · exact putOctet_reads h c fmt
        · exact spfPercent_reads ctx domain h fmt

theorem spfStep_full (ctx : SpfContext) (domain : CString) (h : ¬ s.offset < DOMAIN_SIZE) :
    (spfStep ctx domain s).Yields (.inr (.ok s)) := by
  rw [spfStep]
  split
  · exact yields_pure _
  · rw [if_pos (Or.inr h)]
    exact yields_pure _

end

/-! ### The loop -/

/-- The offset that the loop ends with is right for the NUL behind it. -/
def EndFits : Except Nat SpfScan → Prop
  | .ok s => s.offset ≤ DOMAIN_SIZE
  | .error _ => True

theorem spfLoop_safe_iff (ctx : SpfContext) (domain : CString) {rounds : Nat} :
    ∀ {s : SpfScan}, s.fmt.length < rounds →
      ((loop (spfStep ctx domain) rounds s).Safe EndFits ↔
        s.offset ≤ DOMAIN_SIZE ∧ SpfFits ctx domain (DOMAIN_SIZE - s.offset) s.fmt s.ptrCount) := by
  induction rounds with
  | zero => exact fun h => absurd h (Nat.not_lt_zero _)
  | succ rounds ih =>
      intro s hrounds
      rw [loop, safe_bind, SpfFits]
      by_cases h : s.offset < DOMAIN_SIZE
      · have hroom : 0 < DOMAIN_SIZE - s.offset := Nat.sub_pos_of_lt h
        have hreads := spfStep_reads ctx domain h
        have hshort := spfItem_shortens ctx domain s.ptrCount s.fmt
        rw [and_iff_right (Nat.le_of_lt h), imp_iff_right hroom]
        cases hitem : spfItem ctx domain s.ptrCount s.fmt with
        | done =>
            rw [hitem] at hreads
            obtain ⟨t, ht, hend⟩ := hreads
            rw [hend.safe_iff, safe_pure]
            exact iff_of_true (show t.offset ≤ DOMAIN_SIZE by omega) trivial
        | refused ptrCount =>
            rw [hitem] at hreads
            rw [Yields.safe_iff hreads, safe_pure]
            exact iff_of_true trivial trivial
        | lost =>
            rw [hitem] at hreads
            exact iff_of_true ⟨hreads.1, fun r hr => absurd hr (hreads.2 r)⟩ trivial
        | overlong =>
            rw [hitem] at hreads
            exact iff_of_false (fun hsafe => hreads hsafe.1) not_false
        | text octets rest ptrCount =>
            rw [hitem] at hreads hshort
            obtain ⟨buffer, hend⟩ := hreads
            have hlt : rest.length < s.fmt.length := hshort
            rw [hend.safe_iff]
            refine (ih (show rest.length < rounds by omega)).trans ?_
            dsimp only
            rw [Nat.sub_sub]
            refine and_congr_left fun _ => ?_
            omega
      · rw [(spfStep_full ctx domain h).safe_iff, safe_pure]
        refine (and_iff_left fun hroom => ?_).symm
        omega

theorem terminate_inBounds_iff (s : SpfScan) :
    s.terminate.InBounds ↔ s.offset ≤ DOMAIN_SIZE := by
  have hnul : (s.buffer.write (s.offset - if DOMAIN_SIZE ≤ s.offset then 1 else 0) [0]).InBounds ↔
      s.offset ≤ DOMAIN_SIZE := by
    rw [Buffer.inBounds_write, List.length_singleton]
    change 0 ≤ (s.offset : Int) - (if 256 ≤ s.offset then 1 else 0) ∧
      (s.offset : Int) - (if 256 ≤ s.offset then 1 else 0) + (1 : Nat) ≤ (256 : Nat) ↔ s.offset ≤ 256
    split
    · omega
    · omega
  rw [SpfScan.terminate, inBounds_bind, hnul]
  exact and_iff_left fun buffer _ => inBounds_pure _

/-- `spfMacro` stays in its arrays exactly when the items of the format fit into the buffer. -/
theorem spfMacro_inBounds_iff (ctx : SpfContext) (domain fmt : CString) (buffer : Buffer 256) :
    (spfMacro ctx domain fmt buffer).InBounds ↔
      SpfFits ctx domain DOMAIN_SIZE (spfFormat fmt.octets) ctx.ptrCount := by
  have hloop := spfLoop_safe_iff ctx domain
    (s := ⟨spfFormat fmt.octets, buffer, 0, ctx.ptrCount⟩) (Nat.lt_succ_self _)
  rw [and_iff_right (Nat.zero_le _)] at hloop
  rw [spfMacro, inBounds_iff_safe, safe_bind]
  refine Iff.trans (safe_congr fun r => ?_) hloop
  rw [← inBounds_iff_safe]
  cases r with
  | error ptrCount => exact iff_of_true (inBounds_pure _) trivial
  | ok s => exact terminate_inBounds_iff s

/-- Four times a domain of 75 octets: the last of them begins inside the buffer and ends 47 octets
behind it. -/
theorem spfMacro_overrun :
    ¬ (spfMacro
        { ip := ⟨ascii "192.0.2.3", by decide⟩
          helo := ⟨ascii "mx.example.com", by decide⟩
          localLeft := ⟨ascii "joe", by decide⟩
          domain := ⟨ascii "example.com", by decide⟩
          address := ⟨ascii "joe@example.com", by decide⟩
          ipv6 := ⟨[0, 0, 0, 0, 0, 0, 0, 0, 0, 0, 0xff, 0xff, 192, 0, 2, 3], rfl⟩
          ptrCount := 0
          pointers := fun _ => none
          scratch := fun _ => Buffer.replicate 16 0 }
        ⟨List.replicate 63 (ch 'a') ++ ascii ".example.com", by decide⟩
        ⟨ascii "%\x7bd\x7d.%\x7bd\x7d.%\x7bd\x7d.%\x7bd\x7d", by decide⟩
        (Buffer.replicate 256 0)).InBounds := by
  decide +kernel

end Snert
