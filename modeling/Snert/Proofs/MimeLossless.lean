/-
Module: Snert.Proofs.MimeLossless
Purpose: What the source buffer of the MIME parser stands for within a body: the buffers that were
  flushed and what it holds now are the octets that the parser was given. A newline is taken out of
  the buffer for a flush and put back behind it. The octets of a boundary are discarded, so that a
  line that is taken for one is left out of account.
Trusted boundary: none
Main exports: mimeFeed_lossless
-/
import Snert.Proofs.MimeScan

namespace Snert

open CModel

/-- The source buffers seen by the hooks `source_flush`, joined. -/
def sourceFlushed (log : List MimeEvent) : List Octet :=
  log.flatMap fun
    | .sourceFlush octets => octets
    | _ => []

@[simp] theorem sourceFlushed_append (log new : List MimeEvent) :
    sourceFlushed (log ++ new) = sourceFlushed log ++ sourceFlushed new :=
  List.flatMap_append

/-- The octets that went through the source buffer: those flushed, and those it holds. -/
def Mime.streamed (m : Mime) : List Octet :=
  sourceFlushed m.log ++ m.source.octets

section

variable {m m' : Mime} {c : Octet} {held : List Octet}

/-! ### Decoding and flushes -/

theorem Mime.Decodes.streamed {new : List MimeEvent} (h : m.Decodes new m') :
    m'.streamed = m.streamed := by
  have hnone : sourceFlushed new = [] := by
    refine List.flatMap_eq_nil_iff.mpr fun event hmem => ?_
    have hdecoding := h.decoding event hmem
    cases event <;> first | rfl | cases hdecoding
  rw [Mime.streamed, h.log, h.source_eq, sourceFlushed_append, hnone, List.append_nil]
  rfl

theorem mimeDecodeState_streamed (m : Mime) (ch : Ch) :
    (mimeDecodeState m ch).streamed = m.streamed :=
  have ⟨_, hd, _⟩ := mimeDecodeState_decodes m ch
  hd.streamed

theorem mimeDecodeAll_streamed (m : Mime) (octets : List Octet) :
    (mimeDecodeAll m octets).streamed = m.streamed :=
  have ⟨_, hd, _⟩ := mimeDecodeAll_decodes octets m
  hd.streamed

theorem mimeSourceFlush_streamed (m : Mime) :
    sourceFlushed (mimeSourceFlush m).log = m.streamed := by
  unfold mimeSourceFlush Mime.streamed
  split
  · change sourceFlushed (m.log ++ [.sourceFlush m.source.octets]) = _
    rw [sourceFlushed_append]
    exact congrArg (sourceFlushed m.log ++ ·) (List.append_nil _)
  · rename_i hempty
    have hnone : m.source.octets = [] :=
      List.eq_nil_of_length_eq_zero (Nat.eq_zero_of_not_pos hempty)
    rw [hnone, List.append_nil]

theorem flush_restored (m : Mime) (source : MimeBuffer) (newline : List Octet) :
    sourceFlushed (mimeSourceFlush { m with source := source }).log ++
        ((mimeSourceFlush { m with source := source }).source.octets ++ newline) =
      sourceFlushed m.log ++ (source.octets ++ newline) := by
  rw [mimeSourceFlush_streamed, mimeSourceFlush_octets, List.nil_append]
  exact List.append_assoc _ _ _

theorem flushLine_streamed (h : m.source.octets = held ++ [ASCII_LF]) :
    m.flushLine.streamed = m.streamed := by
  have hshrunk : m.source.octets.dropLast = held := by rw [h, List.dropLast_concat]
  unfold Mime.flushLine Mime.streamed
  dsimp only
  split
  · rename_i hcr
    have hcr : m.source.octets.dropLast.getLast? = some ASCII_CR := of_decide_eq_true hcr
    rw [hshrunk] at hcr
    obtain ⟨before, rfl⟩ := List.getLast?_eq_some_iff.mp hcr
    have hbefore : m.source.shrink.useAll.shrink.octets = before := by
      change m.source.octets.dropLast.dropLast = before
      rw [hshrunk, List.dropLast_concat]
    change sourceFlushed (mimeSourceFlush _).log ++
      ((mimeSourceFlush _).source.octets ++ [ASCII_CR] ++ [ASCII_LF]) = _
    rw [List.append_assoc (mimeSourceFlush _).source.octets, h]
    refine (flush_restored m m.source.shrink.useAll.shrink [ASCII_CR, ASCII_LF]).trans ?_
    rw [hbefore, List.append_assoc before]
    rfl
  · refine (flush_restored m m.source.shrink.useAll [ASCII_LF]).trans ?_
    rw [h]
    exact congrArg (fun octets => sourceFlushed m.log ++ (octets ++ [ASCII_LF])) hshrunk

theorem flushBegun_streamed (h : m.source.octets = held ++ [c]) :
    (m.flushBegun c).streamed = m.streamed := by
  unfold Mime.flushBegun
  split
  · rename_i hcr
    refine (flush_restored m m.source.shrink [ASCII_CR]).trans ?_
    have hshrunk : m.source.shrink.octets = held := by
      change m.source.octets.dropLast = held
      rw [h, List.dropLast_concat]
    rw [hshrunk, Mime.streamed, h, hcr]
  · rw [Mime.streamed, mimeSourceFlush_streamed, mimeSourceFlush_octets, List.append_nil]

/-! ### The states -/

theorem mimeStateBdy_streamed (h : m.source.octets = held ++ [c]) :
    (mimeStateBdy m c).streamed = m.streamed := by
  unfold mimeStateBdy
  split
  · rename_i hc
    have hline := flushLine_streamed (hc ▸ h)
    dsimp only
    split
    · exact hline
    · rw [mimeDecodeState_streamed, hline]
  · exact mimeDecodeState_streamed m (some c)

theorem mimeStateBdyLF_streamed (h : m.source.octets = held ++ [c]) :
    (mimeStateBdyLF m c).streamed = m.streamed := by
  unfold mimeStateBdyLF
  split
  · rfl
  · split
    · rename_i hc
      obtain ⟨new, hd, -⟩ := mimeDecodeState_decodes m (some ASCII_LF)
      have hsource : (mimeDecodeState m (some ASCII_LF)).source.octets = held ++ [ASCII_LF] := by
        rw [hd.source_eq, h, hc]
      rw [mimeStateBdy_streamed hsource, mimeDecodeState_streamed]
    · have hgiven := mimeDecodeAll_streamed (m.flushBegun c) [ASCII_LF, c]
      exact hgiven.trans (flushBegun_streamed h)

theorem mimeStateHdrBdy_streamed (h : m.source.octets = held ++ [c]) :
    (mimeStateHdrBdy m c).streamed = m.streamed := by
  unfold mimeStateHdrBdy
  dsimp only
  split
  · exact mimeStateBdyLF_streamed (m := { m with sourceState := .bdy }) h
  · exact mimeStateBdy_streamed (m := { m with sourceState := .bdy }) h

theorem mimeStateDash1_streamed (m : Mime) (c : Octet) :
    (mimeStateDash1 m c).streamed = m.streamed := by
  unfold mimeStateDash1
  split
  · rfl
  · exact mimeDecodeAll_streamed m _

theorem mimeStateDash2_streamed (m : Mime) (c : Octet) :
    (mimeStateDash2 m c).streamed = m.streamed := by
  unfold mimeStateDash2
  split
  · exact mimeDecodeAll_streamed m _
  · rfl

theorem mimeBoundaryNotFound_streamed (m : Mime) (c : Octet) :
    (mimeBoundaryNotFound m c).streamed = m.streamed := by
  unfold mimeBoundaryNotFound
  dsimp only
  split
  · rw [mimeDecodeState_streamed, mimeDecodeAll_streamed]
    rfl
  · rw [mimeDecodeAll_streamed]
    rfl

theorem mimeStateBoundary_streamed (hroom : m.source.octets.length < MIME_BUFFER_SIZE)
    (hline : ¬ (c = ASCII_LF ∧ isBoundaryLine m.encoding m.source.octets)) :
    (mimeStateBoundary m c).streamed = m.streamed := by
  by_cases hc : c = ASCII_LF
  · have hrefused : ¬ isBoundaryLine m.encoding m.source.useAll.octets = true :=
      fun haccepted => hline ⟨hc, haccepted⟩
    unfold mimeStateBoundary
    rw [if_pos (.inl hc)]
    dsimp only
    rw [if_neg hrefused]
    exact mimeBoundaryNotFound_streamed _ c
  · rw [mimeStateBoundary_octet hc hroom]

theorem runBodyState_streamed (h : m.source.octets = held ++ [c])
    (hroom : m.source.octets.length < MIME_BUFFER_SIZE)
    (hline : ¬ (m.sourceState = .boundary ∧ c = ASCII_LF ∧
      isBoundaryLine m.encoding m.source.octets)) :
    (m.runBodyState c).streamed = m.streamed := by
  unfold Mime.runBodyState
  split
  · exact mimeStateHdrBdy_streamed h
  · exact mimeStateBdy_streamed h
  · exact mimeStateBdyLF_streamed h
  · exact mimeStateDash1_streamed m c
  · exact mimeStateDash2_streamed m c
  · rename_i hstate
    exact mimeStateBoundary_streamed hroom fun haccepted => hline ⟨hstate, haccepted⟩
  · rfl

/-! ### The parser -/

/-- The parser is within a body, and its source buffer has room for an octet. -/
structure Mime.InBody (m : Mime) : Prop where
  body : m.sourceState.isBody
  thrown : m.thrown = none
  room : m.source.octets.length < MIME_BUFFER_SIZE - 1

theorem mimeNextOctet_streamed (h : m.InBody) (hline : ¬ m.Accepts c) :
    (mimeNextOctet m c).InBody ∧ (mimeNextOctet m c).streamed = m.streamed ++ [c] := by
  have hroom : (m.take c).source.octets.length < MIME_BUFFER_SIZE := by
    have hlength : (m.source.octets ++ [c]).length = m.source.octets.length + 1 :=
      List.length_append
    have hbefore := h.room
    change (m.source.octets ++ [c]).length < 1024
    change m.source.octets.length < 1023 at hbefore
    omega
  have htaken : (m.take c).streamed = m.streamed ++ [c] := by
    have hnone : sourceFlushed [MimeEvent.next (some c)] = [] := rfl
    change sourceFlushed (m.log ++ [.next (some c)]) ++ (m.source.octets ++ [c]) = _
    rw [sourceFlushed_append, hnone, List.append_nil, ← List.append_assoc]
    rfl
  have hrun := runSourceState_body (m := m.take c) c h.body
  have hstreamed := (runBodyState_streamed (m := m.take c) rfl hroom hline).trans htaken
  rcases runBodyState_cases (m := m.take c) c h.body with ⟨new, hquiet⟩ | ⟨hfound, -⟩
  · have hthrown : ((m.take c).runBodyState c).thrown = none := hquiet.thrown_eq.trans h.thrown
    have hflush := flushFull_gives hquiet.body
    have hnext : mimeNextOctet m c = ((m.take c).runBodyState c).flushFull := by
      unfold mimeNextOctet
      dsimp only
      rw [hrun, if_neg (by rw [hthrown]; exact Bool.false_ne_true)]
    rw [hnext]
    refine ⟨⟨?_, ?_, ?_⟩, ?_⟩
    · rw [hflush.state]
      exact hquiet.body
    · change ((m.take c).runBodyState c).flushFull.outer.thrown = none
      rw [hflush.gives.outer]
      exact hthrown
    · rw [hflush.source]
      exact unlessFull_length _
    · rw [← hstreamed]
      unfold Mime.flushFull
      split
      · rw [Mime.streamed, mimeSourceFlush_streamed, mimeSourceFlush_octets, List.append_nil]
      · rfl
  · obtain ⟨hstate, hends, haccepted⟩ := hfound
    have hc : c = ASCII_LF := hends.resolve_right (Nat.not_le.mpr hroom)
    exact absurd ⟨hstate, hc, haccepted⟩ hline

theorem mimeFeed_streamed (octets : List Octet) : ∀ {m : Mime}, m.InBody →
    m.Along (fun m c => ¬ m.Accepts c) octets →
    (mimeFeed m (octets.map some)).InBody ∧
      (mimeFeed m (octets.map some)).streamed = m.streamed ++ octets := by
  induction octets with
  | nil => exact fun h _ => ⟨h, (List.append_nil _).symm⟩
  | cons c octets ih =>
      intro m h halong
      obtain ⟨hline, hrest⟩ := along_cons.mp halong
      obtain ⟨hnext, hstreamed⟩ := mimeNextOctet_streamed h (hline h.thrown)
      have hone : mimeFeed m [some c] = mimeNextOctet m c := mimeFeed_cons h.thrown c []
      rw [hone] at hrest
      obtain ⟨hin, hall⟩ := ih hnext hrest
      rw [mimeFeed_cons h.thrown]
      exact ⟨hin, by rw [hall, hstreamed, List.append_assoc]; rfl⟩

end

/-- In a body that a parser begins with, the source buffers flushed and what the buffer holds are
the octets given so far, as long as no line is taken for a boundary. -/
theorem mimeFeed_lossless (m : Mime) (octets : List Octet) (hthrown : m.thrown = none)
    (hempty : m.source.octets = [])
    (hline : (mimeHeadersFirst m false).Along (fun m c => ¬ m.Accepts c) octets) :
    sourceFlushed (mimeFeed (mimeHeadersFirst m false) (octets.map some)).log ++
        (mimeFeed (mimeHeadersFirst m false) (octets.map some)).source.octets =
      sourceFlushed m.log ++ octets := by
  have hroom : m.source.octets.length < MIME_BUFFER_SIZE - 1 := by
    rw [hempty]
    decide
  have hstart : (mimeHeadersFirst m false).InBody := ⟨rfl, hthrown, hroom⟩
  have hstreamed : (mimeHeadersFirst m false).streamed = sourceFlushed m.log := by
    change sourceFlushed m.log ++ m.source.octets = _
    rw [hempty, List.append_nil]
  have hall := (mimeFeed_streamed octets hstart hline).2
  rwa [hstreamed] at hall

/-- A line that begins like a boundary in a body given as multipart. -/
theorem mimeFeed_lossless_dashes :
    sourceFlushed (mimeFeed (mimeHeadersFirst { mimeCreate false with isMultipart := true } false)
        ((ascii "a\r\n\r\n--\r\n--b c\r\nd").map some)).log ++
      (mimeFeed (mimeHeadersFirst { mimeCreate false with isMultipart := true } false)
        ((ascii "a\r\n\r\n--\r\n--b c\r\nd").map some)).source.octets =
    sourceFlushed { mimeCreate false with isMultipart := true }.log ++
      ascii "a\r\n\r\n--\r\n--b c\r\nd" :=
  mimeFeed_lossless { mimeCreate false with isMultipart := true }
    (ascii "a\r\n\r\n--\r\n--b c\r\nd") (by decide) (by decide)
    (by decide)

end Snert
