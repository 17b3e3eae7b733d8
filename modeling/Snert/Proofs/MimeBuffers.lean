/-
Module: Snert.Proofs.MimeBuffers
Purpose: The buffers of the MIME parser hold in every state it can come to: their lengths and all
  indices used stay below the size, and no length or counter is taken below zero. The octets in the
  source buffer were all counted, so a boundary can be discounted from the counters; and the loop of
  `mimeStateHdr` calls a state only while there is an octet in the source buffer.
Trusted boundary: none
Main exports: mimeNextCh_bounded, Mime.Reachable, mime_bounded
-/
import Snert.Proofs.MimeSteps

namespace Snert

open CModel

/-! ### The decode buffer -/

/-- The decode buffer has room for an octet, and nothing has gone wrong with it. -/
def Mime.DecodeFits (m : Mime) : Prop :=
  m.decode.octets.length < MIME_BUFFER_SIZE - 1 ∧ m.decode.fault = false

theorem mimeDecodeFlush_decode (m : Mime) :
    (mimeDecodeFlush m).decode = if 0 < m.decode.length then m.decode.clear else m.decode := by
  unfold mimeDecodeFlush
  split
  · cases mimeIsAnyHeader m with
    | true => rfl
    | false => rfl
  · rfl

theorem mimeDecodeFlush_fits {m : Mime} (h : m.decode.fault = false) :
    (mimeDecodeFlush m).DecodeFits := by
  unfold Mime.DecodeFits
  rw [mimeDecodeFlush_decode]
  split
  · exact ⟨Nat.succ_pos _, h⟩
  · rename_i hempty
    have hlen : m.decode.octets.length = 0 := Nat.eq_zero_of_not_pos hempty
    rw [hlen]
    exact ⟨Nat.succ_pos _, h⟩

theorem mimeDecodePut_fault {m : Mime} (ch : Ch) (h : m.DecodeFits) :
    (mimeDecodePut (m.note (.decodedOctet ch)) ch).decode.fault = false := by
  obtain ⟨hlen, hfault⟩ := h
  cases ch with
  | none => exact hfault
  | some c =>
      change (m.decode.fault || decide (1024 ≤ m.decode.octets.length + 1)) = false
      rw [hfault, Bool.false_or, decide_eq_false_iff_not]
      change m.decode.octets.length < 1023 at hlen
      omega

theorem mimeDecodeAppend_fits {m : Mime} (ch : Ch) (h : m.DecodeFits) :
    (mimeDecodeAppend m ch).DecodeFits := by
  have hfault := mimeDecodePut_fault ch h
  unfold mimeDecodeAppend
  dsimp only
  split
  · exact mimeDecodeFlush_fits hfault
  · rename_i hfull
    exact ⟨Nat.not_le.mp fun hle => hfull (Or.inr (Or.inr hle)), hfault⟩

theorem mimeDecodeAdd_fits {m : Mime} (ch : Ch) (h : m.DecodeFits) :
    (mimeDecodeAdd m ch).DecodeFits := by
  unfold mimeDecodeAdd
  split
  · exact h
  · have hcr : (mimeDecodeCr m).DecodeFits := by
      unfold mimeDecodeCr
      split
      · exact mimeDecodeAppend_fits _ h
      · exact h
    obtain ⟨hlen, hfault⟩ := mimeDecodeAppend_fits ch hcr
    refine ⟨hlen, ?_⟩
    change (_ || decide (1024 ≤ (mimeDecodeAppend (mimeDecodeCr m) ch).decode.octets.length)) = false
    rw [hfault, Bool.false_or, decide_eq_false_iff_not]
    change _ < 1023 at hlen
    omega

theorem Mime.DecodeFits.use {m : Mime} (h : m.DecodeFits) :
    ({ m with decode := m.decode.use m.decode.length } : Mime).DecodeFits := by
  obtain ⟨hlen, hfault⟩ := h
  refine ⟨hlen, ?_⟩
  change (m.decode.fault || decide (1024 ≤ m.decode.octets.length)) = false
  rw [hfault, Bool.false_or, decide_eq_false_iff_not]
  change _ < 1023 at hlen
  omega

theorem mimeDecodeState_fits {m : Mime} (ch : Ch) (h : m.DecodeFits) :
    (mimeDecodeState m ch).DecodeFits := by
  unfold mimeDecodeState Mime.runDecodeState
  have h : (m.note (.sourceOctet ch)).DecodeFits := h
  split
  · exact mimeDecodeAdd_fits ch h
  · unfold mimeStateBase64
    dsimp only
    split
    · exact mimeDecodeAdd_fits _ h
    · exact mimeDecodeAdd_fits _ h
    · exact h
    · exact h
  · unfold mimeStateQpLiteral
    split
    · exact h
    · exact mimeDecodeAdd_fits _ h
  · unfold mimeStateQpSoftLine mimeStateQpLiteral
    split
    · exact h
    · exact mimeDecodeAdd_fits _ h
  · unfold mimeStateQpDecode
    dsimp only
    split
    · exact mimeDecodeAdd_fits _ h.use
    · exact mimeDecodeAdd_fits _ (mimeDecodeAdd_fits _ (mimeDecodeAdd_fits _ h.use))
  · unfold mimeStateQpEqual
    split
    · exact h
    · split
      · exact h
      · split
        · exact h.use
        · exact mimeDecodeAdd_fits _ (mimeDecodeAdd_fits _ h)

theorem mimeDecodeAll_fits (octets : List Octet) {m : Mime} (h : m.DecodeFits) :
    (mimeDecodeAll m octets).DecodeFits := by
  induction octets generalizing m with
  | nil => exact h
  | cons c octets ih => exact ih (mimeDecodeState_fits (some c) h)

/-! ### The source buffer -/

/-- The counters that are discounted, and whether one has gone below zero. -/
def Mime.counters (m : Mime) : Nat × Nat × Bool :=
  (m.partLength, m.bodyLength, m.underflow)

theorem mimeSourceFlush_counters (m : Mime) : (mimeSourceFlush m).counters = m.counters := by
  unfold mimeSourceFlush
  split
  · rfl
  · rfl

theorem mimeCheckHeader_counters (m : Mime) (header : List Octet) :
    (mimeCheckHeader m header).counters = m.counters := by
  rw [mimeCheckHeader_eq]
  rfl

/-- Both buffers hold, with at most `n` octets in the source buffer, and the counters stand for at
    least these. -/
structure Mime.Bounded (n : Nat) (m : Mime) : Prop where
  decode : m.DecodeFits
  length : m.source.octets.length ≤ n
  part : m.source.octets.length ≤ m.partLength
  body : m.source.octets.length ≤ m.bodyLength
  fault : m.source.fault = false
  underflow : m.underflow = false

namespace Mime.Bounded

variable {m m' : Mime} {n : Nat}

theorem of_source (h : m.Bounded n) (hdecode : m'.DecodeFits)
    (hlen : m'.source.octets.length ≤ m.source.octets.length) (hfault : m'.source.fault = false)
    (hcounters : m'.counters = m.counters) : m'.Bounded n := by
  obtain ⟨hpart, hbody, hunder⟩ :
      m'.partLength = m.partLength ∧ m'.bodyLength = m.bodyLength ∧ m'.underflow = m.underflow := by
    simpa only [Mime.counters, Prod.mk.injEq] using hcounters
  exact ⟨hdecode, hlen.trans h.length, hlen.trans (h.part.trans hpart.ge),
    hlen.trans (h.body.trans hbody.ge), hfault, hunder.trans h.underflow⟩

theorem of_decodes {new : List MimeEvent} (h : m.Bounded n) (hd : m.Decodes new m')
    (hfits : m'.DecodeFits) : m'.Bounded n :=
  h.of_source hfits (by rw [hd.source_eq]) (by rw [hd.source_eq, h.fault])
    (by simp only [Mime.counters, hd.partLength_eq, hd.bodyLength_eq, hd.underflow_eq])

theorem mono {k : Nat} (h : m.Bounded n) (hle : n ≤ k) : m.Bounded k :=
  { h with length := h.length.trans hle }

theorem append_fault {b : MimeBuffer} (c : Octet) (hfault : b.fault = false)
    (hlen : b.octets.length + 1 < MIME_BUFFER_SIZE) : (b.append c).fault = false := by
  change (b.fault || decide (1024 ≤ b.octets.length + 1)) = false
  change b.octets.length + 1 < 1024 at hlen
  rw [hfault, Bool.false_or, decide_eq_false_iff_not]
  omega

theorem use_fault {b : MimeBuffer} {i : Nat} (hfault : b.fault = false)
    (hlen : i < MIME_BUFFER_SIZE) : (b.use i).fault = false := by
  change (b.fault || decide (1024 ≤ i)) = false
  change i < 1024 at hlen
  rw [hfault, Bool.false_or, decide_eq_false_iff_not]
  omega

theorem shrink_fault {b : MimeBuffer} (hfault : b.fault = false) (hpos : 0 < b.octets.length) :
    b.shrink.fault = false := by
  change (b.fault || decide (b.octets.length = 0)) = false
  rw [hfault, Bool.false_or, decide_eq_false_iff_not]
  omega

end Mime.Bounded

variable {m : Mime} {n : Nat}

theorem mimeDecodeState_bounded (ch : Ch) (h : m.Bounded n) : (mimeDecodeState m ch).Bounded n :=
  have ⟨_, hd, _⟩ := mimeDecodeState_decodes m ch
  h.of_decodes hd (mimeDecodeState_fits ch h.decode)

theorem mimeDecodeAll_bounded (octets : List Octet) (h : m.Bounded n) :
    (mimeDecodeAll m octets).Bounded n :=
  have ⟨_, hd, _⟩ := mimeDecodeAll_decodes octets m
  h.of_decodes hd (mimeDecodeAll_fits octets h.decode)

theorem mimeDecodeFlush_bounded (h : m.Bounded n) : (mimeDecodeFlush m).Bounded n :=
  have ⟨_, hd, _⟩ := mimeDecodeFlush_decodes m
  h.of_decodes hd (mimeDecodeFlush_fits h.decode.2)

theorem mimeSourceFlush_bounded (h : m.Bounded n) (hn : n < MIME_BUFFER_SIZE) :
    (mimeSourceFlush m).Bounded n := by
  unfold mimeSourceFlush
  split
  · have hfault := Mime.Bounded.use_fault h.fault (h.length.trans_lt hn)
    exact h.of_source h.decode (Nat.zero_le _) hfault rfl
  · exact h

theorem Mime.Bounded.shrink (h : m.Bounded n) (hpos : 0 < m.source.octets.length) :
    ({ m with source := m.source.shrink } : Mime).Bounded n := by
  have hlen : m.source.octets.dropLast.length ≤ m.source.octets.length := by simp
  exact h.of_source h.decode hlen (shrink_fault h.fault hpos) rfl

theorem Mime.Bounded.useAll (h : m.Bounded n) (hn : n < MIME_BUFFER_SIZE) :
    ({ m with source := m.source.useAll } : Mime).Bounded n := by
  have hlen : m.source.octets.length - 1 < MIME_BUFFER_SIZE := by have := h.length; omega
  exact h.of_source h.decode le_rfl (use_fault h.fault hlen) rfl

theorem sourceCr_length (h : m.sourceCr) : 0 < m.source.octets.length := by
  apply List.length_pos_of_ne_nil
  intro hnil
  simp [Mime.sourceCr, hnil] at h

theorem mimeSourceFlush_put (h : m.Bounded n) (flushed : MimeBuffer) {b : MimeBuffer}
    (hlen : b.octets.length ≤ m.source.octets.length) (hfault : b.fault = false) :
    ({ mimeSourceFlush { m with source := flushed } with source := b } : Mime).Bounded n := by
  rw [mimeSourceFlush_eq]
  exact h.of_source h.decode hlen hfault rfl

theorem append_flushed (c : Octet) {b : MimeBuffer} (hempty : b.octets = [])
    (hfault : b.fault = false) : (b.append c).octets = [c] ∧ (b.append c).fault = false := by
  refine ⟨?_, Mime.Bounded.append_fault c hfault ?_⟩
  · change b.octets ++ [c] = [c]
    rw [hempty, List.nil_append]
  · rw [hempty]
    decide

theorem flushLine_bounded (h : m.Bounded n) (hn : n < MIME_BUFFER_SIZE)
    (hpos : 0 < m.source.octets.length) : m.flushLine.Bounded n := by
  have hshrunk := (h.shrink hpos).useAll hn
  unfold Mime.flushLine
  dsimp only
  split
  · rename_i hcr
    have hcrPos := sourceCr_length hcr
    have hlength : 2 ≤ m.source.octets.length := by
      change 0 < m.source.octets.dropLast.length at hcrPos
      rw [List.length_dropLast] at hcrPos
      omega
    have hfault := (mimeSourceFlush_bounded (hshrunk.shrink hcrPos) hn).fault
    obtain ⟨hoctets, hfault⟩ := append_flushed ASCII_CR (mimeSourceFlush_octets _) hfault
    refine mimeSourceFlush_put h _ ?_ (Mime.Bounded.append_fault ASCII_LF hfault ?_)
    · change (_ ++ [ASCII_LF]).length ≤ _
      rw [hoctets]
      exact hlength
    · rw [hoctets]
      decide
  · have hfault := (mimeSourceFlush_bounded hshrunk hn).fault
    obtain ⟨hoctets, hfault⟩ := append_flushed ASCII_LF (mimeSourceFlush_octets _) hfault
    refine mimeSourceFlush_put h _ ?_ hfault
    rw [hoctets]
    exact hpos

theorem flushBegun_bounded (c : Octet) (h : m.Bounded n) (hn : n < MIME_BUFFER_SIZE)
    (hpos : 0 < m.source.octets.length) : (m.flushBegun c).Bounded n := by
  unfold Mime.flushBegun
  split
  · have hfault := (mimeSourceFlush_bounded (h.shrink hpos) hn).fault
    obtain ⟨hoctets, hfault⟩ := append_flushed ASCII_CR (mimeSourceFlush_octets _) hfault
    refine mimeSourceFlush_put h _ ?_ hfault
    rw [hoctets]
    exact hpos
  · exact mimeSourceFlush_bounded h hn

/-! ### The states of a body -/

theorem Mime.Bounded.setState (h : m.Bounded n) (state : SourceState) :
    ({ m with sourceState := state } : Mime).Bounded n :=
  h.of_source h.decode le_rfl h.fault rfl

theorem mimeStateBdy_bounded (c : Octet) (h : m.Bounded n) (hn : n < MIME_BUFFER_SIZE)
    (hpos : 0 < m.source.octets.length) : (mimeStateBdy m c).Bounded n := by
  unfold mimeStateBdy
  split
  · have hline := flushLine_bounded h hn hpos
    dsimp only
    split
    · exact hline.setState .bdyLF
    · exact mimeDecodeState_bounded _ hline
  · exact mimeDecodeState_bounded _ h

theorem mimeStateBdyLF_bounded (c : Octet) (h : m.Bounded n) (hn : n < MIME_BUFFER_SIZE)
    (hpos : 0 < m.source.octets.length) : (mimeStateBdyLF m c).Bounded n := by
  unfold mimeStateBdyLF
  split
  · exact h.setState .dash1
  · split
    · obtain ⟨new, hd, -⟩ := mimeDecodeState_decodes m (some ASCII_LF)
      refine mimeStateBdy_bounded _ (mimeDecodeState_bounded _ h) hn ?_
      rw [hd.source_eq]
      exact hpos
    · exact (mimeDecodeAll_bounded _ (flushBegun_bounded c h hn hpos)).setState .bdy

theorem Mime.Bounded.of_empty (hdecode : m.DecodeFits) (hempty : m.source.octets = [])
    (hfault : m.source.fault = false) (hunder : m.underflow = false) : m.Bounded n := by
  have hlen : m.source.octets.length = 0 := by rw [hempty]; rfl
  exact ⟨hdecode, hlen.le.trans (Nat.zero_le _), hlen.le.trans (Nat.zero_le _),
    hlen.le.trans (Nat.zero_le _), hfault, hunder⟩

theorem discount_underflow (h : m.Bounded n) : (m.discount m.source.length).underflow = false := by
  change (m.underflow || decide (m.partLength < m.source.octets.length)
    || decide (m.bodyLength < m.source.octets.length)) = false
  simp only [h.underflow, Bool.false_or, Bool.or_eq_false_iff, decide_eq_false_iff_not, not_lt]
  exact ⟨h.part, h.body⟩

theorem mimeBodyFinish_bounded (h : m.Bounded n) : (mimeBodyFinish m).Bounded n := by
  unfold mimeBodyFinish
  split
  · exact h
  · exact h.of_source h.decode le_rfl h.fault rfl

theorem nextPart_bounded (h : m.Bounded n) (hempty : m.source.octets = []) :
    m.nextPart.Bounded n :=
  .of_empty h.decode hempty h.fault h.underflow

theorem mimeBoundaryFound_bounded (h : m.Bounded n) : (mimeBoundaryFound m).Bounded n := by
  have hended : ({ m with decodeStateCr := false, decodeState := .decodeAdd } : Mime).Bounded n :=
    h.of_source h.decode le_rfl h.fault rfl
  have hdecoded := mimeDecodeState_bounded none hended
  have hunder := discount_underflow hdecoded
  unfold mimeBoundaryFound
  dsimp only
  refine nextPart_bounded (mimeBodyFinish_bounded ?_) ?_
  · exact .of_empty hdecoded.decode rfl hdecoded.fault hunder
  · rw [mimeBodyFinish_source]
    rfl

theorem mimeBoundaryNotFound_bounded (c : Octet) (h : m.Bounded n) (hn : n < MIME_BUFFER_SIZE) :
    (mimeBoundaryNotFound m c).Bounded n := by
  have hread : ({ m with
      decodeStateCr := false, sourceState := .bdy, source := m.source.useAll } : Mime).Bounded n :=
    (h.useAll hn).of_source h.decode le_rfl (h.useAll hn).fault rfl
  have hreplayed := mimeDecodeAll_bounded m.source.octets hread
  unfold mimeBoundaryNotFound
  dsimp only
  split
  · exact mimeDecodeState_bounded _ hreplayed
  · exact hreplayed

theorem mimeStateBoundary_bounded (c : Octet) (h : m.Bounded n) (hn : n < MIME_BUFFER_SIZE) :
    (mimeStateBoundary m c).Bounded n := by
  unfold mimeStateBoundary
  split
  · dsimp only
    split
    · exact mimeBoundaryFound_bounded (h.useAll hn)
    · exact mimeBoundaryNotFound_bounded c (h.useAll hn) hn
  · exact h

theorem mimeStateDash2_bounded (c : Octet) (h : m.Bounded n) : (mimeStateDash2 m c).Bounded n := by
  unfold mimeStateDash2
  split
  · exact (mimeDecodeAll_bounded _ h).setState .bdy
  · exact h.setState .boundary

theorem mimeStateDash1_bounded (c : Octet) (h : m.Bounded n) : (mimeStateDash1 m c).Bounded n := by
  unfold mimeStateDash1
  split
  · exact h.setState .dash2
  · exact (mimeDecodeAll_bounded _ h).setState .bdy

theorem mimeStateHdrBdy_bounded (c : Octet) (h : m.Bounded n) (hn : n < MIME_BUFFER_SIZE)
    (hpos : 0 < m.source.octets.length) : (mimeStateHdrBdy m c).Bounded n := by
  unfold mimeStateHdrBdy
  dsimp only
  split
  · exact mimeStateBdyLF_bounded c (h.setState .bdy) hn hpos
  · exact mimeStateBdy_bounded c (h.setState .bdy) hn hpos

theorem runBodyState_bounded (c : Octet) (h : m.Bounded n) (hn : n < MIME_BUFFER_SIZE)
    (hpos : 0 < m.source.octets.length) : (m.runBodyState c).Bounded n := by
  unfold Mime.runBodyState
  cases m.sourceState with
  | hdrBdy => exact mimeStateHdrBdy_bounded c h hn hpos
  | bdy => exact mimeStateBdy_bounded c h hn hpos
  | bdyLF => exact mimeStateBdyLF_bounded c h hn hpos
  | dash1 => exact mimeStateDash1_bounded c h
  | dash2 => exact mimeStateDash2_bounded c h
  | boundary => exact mimeStateBoundary_bounded c h hn
  | hdrStart => exact h
  | hdr => exact h
  | hdrValue => exact h
  | hdrLF => exact h

/-! ### The states of a header -/

theorem mimeReplay_bounded (rounds : Nat) : ∀ (i : Nat) {m : Mime}, m.Bounded n →
    n < MIME_BUFFER_SIZE → (mimeReplay rounds i m).Bounded n := by
  induction rounds with
  | zero => exact fun _ _ h _ => h
  | succ rounds ih =>
      intro i m h hn
      unfold mimeReplay
      split
      · rename_i hi
        have hindex : i < MIME_BUFFER_SIZE := hi.trans (h.length.trans_lt hn)
        have hused : ({ m with source := m.source.use i } : Mime).Bounded n :=
          h.of_source h.decode le_rfl (Mime.Bounded.use_fault h.fault hindex) rfl
        exact ih (i + 1) (runBodyState_bounded _ hused hn (Nat.zero_lt_of_lt hi)) hn
      · exact h

theorem dropEmptyLine_bounded (c : Octet) (h : m.Bounded n) (hpos : 0 < m.source.octets.length) :
    ({ m with source := dropEmptyLine m.source c } : Mime).Bounded n := by
  unfold dropEmptyLine
  split
  · exact h
  · split
    · exact h.shrink hpos
    · split
      · rename_i hline
        refine (h.shrink hpos).shrink ?_
        change 0 < m.source.octets.dropLast.length
        have hlen : m.source.octets.length = 2 := hline.1
        rw [List.length_dropLast, hlen]
        decide
      · exact h

theorem mimeHeaderless_bounded (c : Octet) (h : m.Bounded n) (hn : n < MIME_BUFFER_SIZE)
    (hpos : 0 < m.source.octets.length) : (mimeHeaderless m c).Bounded n := by
  have hdropped := dropEmptyLine_bounded c h hpos
  exact mimeReplay_bounded _ 0
    (hdropped.of_source hdropped.decode le_rfl hdropped.fault rfl) hn

theorem mimeStateHdr_bounded (c : Octet) (h : m.Bounded n) (hn : n < MIME_BUFFER_SIZE)
    (hpos : 0 < m.source.octets.length) : (mimeStateHdr m c).Bounded n := by
  unfold mimeStateHdr
  split
  · exact h.setState .hdrValue
  · split
    · exact h
    · split
      · cases headerError m c with
        | some error => exact h.of_source h.decode le_rfl h.fault rfl
        | none => exact mimeHeaderless_bounded c h hn hpos
      · exact h

theorem mimeStateHdrValue_bounded (c : Octet) (h : m.Bounded n) (hn : n < MIME_BUFFER_SIZE)
    (hpos : 0 < m.source.octets.length) : (mimeStateHdrValue m c).Bounded n := by
  have hline := ((h.shrink hpos).useAll hn).setState .hdrLF
  unfold mimeStateHdrValue
  split
  · dsimp only
    split
    · rename_i hcr
      exact hline.shrink (sourceCr_length hcr)
    · exact hline
  · exact h

theorem mimeEndHeader_bounded (c : Octet) (h : m.Bounded n) (hn : n < MIME_BUFFER_SIZE)
    (hpos : 0 < m.source.octets.length) : (mimeEndHeader m c).Bounded n := by
  have hlen : m.source.octets.dropLast.length < MIME_BUFFER_SIZE := by
    rw [List.length_dropLast]
    exact (Nat.sub_le _ _).trans_lt (h.length.trans_lt hn)
  have hshrunk : m.endHeaderLine.Bounded n :=
    (h.shrink hpos).of_source h.decode le_rfl
      (Mime.Bounded.use_fault (Mime.Bounded.shrink_fault h.fault hpos) hlen) rfl
  have hcounters : m.endHeaderLine.checkedHeader.counters = m.counters :=
    mimeCheckHeader_counters _ _
  have hsource : m.endHeaderLine.checkedHeader.source = m.endHeaderLine.source := by
    rw [Mime.checkedHeader, mimeCheckHeader_eq]
  have hdecode : m.endHeaderLine.checkedHeader.decode = m.decode := by
    rw [Mime.checkedHeader, mimeCheckHeader_eq]
    rfl
  have hchecked : m.endHeaderLine.checkedHeader.Bounded n := by
    refine hshrunk.of_source ?_ (by rw [hsource]) (by rw [hsource, hshrunk.fault]) hcounters
    unfold Mime.DecodeFits
    rw [hdecode]
    exact h.decode
  have hchecked : (m.endHeaderLine.checkedHeader.note
      (.header m.source.octets.dropLast)).Bounded n :=
    hchecked.of_source hchecked.decode le_rfl hchecked.fault rfl
  have hflushed : m.flushedHeader.Bounded n := mimeSourceFlush_bounded hchecked hn
  obtain ⟨hoctets, hfault⟩ := append_flushed c (mimeSourceFlush_octets _) hflushed.fault
  rw [mimeEndHeader_eq]
  refine h.of_source hflushed.decode ?_ hfault ?_
  · rw [Mime.flushedHeader, hoctets]
    exact hpos
  · exact (mimeSourceFlush_counters _).trans hcounters

theorem startBody_bounded (h : m.Bounded n) (hn : n < MIME_BUFFER_SIZE) :
    m.startBody.Bounded n ∧ m.startBody.source.octets = [] := by
  have hflushed := mimeDecodeFlush_bounded (mimeSourceFlush_bounded h hn)
  have hempty : (mimeDecodeFlush (mimeSourceFlush m)).source.octets = [] := by
    obtain ⟨new, hd, -⟩ := mimeDecodeFlush_decodes (mimeSourceFlush m)
    rw [hd.source_eq, mimeSourceFlush_octets]
  have hsource : m.startBody.source.octets = [] := by rw [startBody_source, hempty]
  refine ⟨.of_empty ?_ hsource ?_ ?_, hsource⟩
  · unfold Mime.DecodeFits
    rw [startBody_decode]
    exact hflushed.decode
  · rw [startBody_source, hflushed.fault]
  · rw [startBody_underflow, hflushed.underflow]

theorem mimeStateEOH_bounded (h : m.Bounded n) (hn : n < MIME_BUFFER_SIZE) :
    (mimeStateEOH m).Bounded n := by
  obtain ⟨hstart, hempty⟩ := startBody_bounded h hn
  rw [mimeStateEOH_eq]
  split
  · refine nextPart_bounded (mimeBodyFinish_bounded hstart) ?_
    rw [mimeBodyFinish_source]
    exact hempty
  · exact hstart

theorem mimeStateHdrLF_bounded (c : Octet) (h : m.Bounded n) (hn : n < MIME_BUFFER_SIZE)
    (hpos : 0 < m.source.octets.length) : (mimeStateHdrLF m c).Bounded n := by
  unfold mimeStateHdrLF
  split
  · exact h.shrink hpos
  · split
    · -- The newline's place in the buffer is that of its last octet.
      have hindex : m.source.octets.length - 1 < MIME_BUFFER_SIZE := by have := h.length; omega
      have hlast : (m.source.setLast ASCII_SPACE).fault = false := by
        change ((m.source.use (m.source.octets.length - 1)).fault
          || decide (m.source.octets.length = 0)) = false
        rw [Mime.Bounded.use_fault h.fault hindex, Bool.false_or, decide_eq_false_iff_not]
        omega
      refine h.of_source h.decode ?_ hlast rfl
      change (m.source.octets.dropLast ++ [ASCII_SPACE]).length ≤ m.source.octets.length
      simp only [List.length_append, List.length_dropLast, List.length_singleton]
      omega
    · have hended : (if 0 < m.source.length then mimeEndHeader m c else m).Bounded n := by
        split
        · exact mimeEndHeader_bounded c h hn hpos
        · exact h
      dsimp only
      split
      · exact mimeStateEOH_bounded hended hn
      · exact hended

theorem runSourceState_bounded (c : Octet) (h : m.Bounded n) (hn : n < MIME_BUFFER_SIZE)
    (hpos : 0 < m.source.octets.length) : (m.runSourceState c).Bounded n := by
  unfold Mime.runSourceState
  split
  · refine mimeStateHdr_bounded c (m := ({ m with sourceState := .hdr }.note .hdrStart)) ?_ hn hpos
    exact h.of_source h.decode le_rfl h.fault rfl
  · exact mimeStateHdr_bounded c h hn hpos
  · exact mimeStateHdrValue_bounded c h hn hpos
  · exact mimeStateHdrLF_bounded c h hn hpos
  · exact runBodyState_bounded c h hn hpos

/-! ### Whole runs -/

theorem take_bounded (c : Octet) (h : m.Bounded n) (hn : n + 1 < MIME_BUFFER_SIZE) :
    (m.take c).Bounded (n + 1) := by
  have hlength : (m.source.append c).octets.length = m.source.octets.length + 1 :=
    List.length_append
  have hle : m.source.octets.length + 1 < MIME_BUFFER_SIZE :=
    (Nat.add_le_add_right h.length 1).trans_lt hn
  exact
    { decode := h.decode
      length := hlength.le.trans (Nat.add_le_add_right h.length 1)
      part := hlength.le.trans (Nat.add_le_add_right h.part 1)
      body := hlength.le.trans (Nat.add_le_add_right h.body 1)
      fault := Mime.Bounded.append_fault c h.fault hle
      underflow := h.underflow }

theorem flushFull_bounded (h : m.Bounded (MIME_BUFFER_SIZE - 1)) :
    m.flushFull.Bounded (MIME_BUFFER_SIZE - 2) := by
  unfold Mime.flushFull
  split
  · have hflushed := mimeSourceFlush_bounded h (Nat.sub_lt (Nat.succ_pos _) Nat.one_pos)
    exact .of_empty hflushed.decode (mimeSourceFlush_octets m) hflushed.fault hflushed.underflow
  · rename_i hroom
    exact { h with length := Nat.le_pred_of_lt (Nat.not_le.mp hroom) }

/-- The bounds of a parser: where an error was thrown, the buffer may be full. -/
def Mime.InBounds (m : Mime) : Prop :=
  m.Bounded (MIME_BUFFER_SIZE - 1) ∧ (m.thrown = none → m.Bounded (MIME_BUFFER_SIZE - 2))

theorem mimeNextOctet_inBounds (c : Octet) (h : m.Bounded (MIME_BUFFER_SIZE - 2)) :
    (mimeNextOctet m c).InBounds := by
  have htaken : (m.take c).Bounded (MIME_BUFFER_SIZE - 1) := take_bounded c h (by decide)
  have hpos : 0 < (m.take c).source.octets.length := by
    change 0 < (m.source.octets ++ [c]).length
    simp
  have hrun := runSourceState_bounded c htaken (by decide) hpos
  unfold mimeNextOctet
  dsimp only
  split
  · rename_i hthrown
    exact ⟨hrun, fun hnone => by simp [hnone] at hthrown⟩
  · have hflushed := flushFull_bounded hrun
    exact ⟨hflushed.mono (by decide), fun _ => hflushed⟩

theorem mimeNextEof_bounded (h : m.Bounded n) (hn : n < MIME_BUFFER_SIZE) :
    (mimeNextEof m).Bounded n := by
  have hnoted : (m.note (.next none)).Bounded n :=
    h.of_source h.decode le_rfl h.fault rfl
  have hdecoded := mimeDecodeFlush_bounded (mimeDecodeState_bounded none hnoted)
  exact mimeBodyFinish_bounded (mimeSourceFlush_bounded hdecoded hn)

theorem mimeNextCh_inBounds (ch : Ch) (h : m.Bounded (MIME_BUFFER_SIZE - 2)) :
    (mimeNextCh m ch).InBounds := by
  cases ch with
  | none =>
      have heof := mimeNextEof_bounded h (by decide)
      exact ⟨heof.mono (by decide), fun _ => heof⟩
  | some c => exact mimeNextOctet_inBounds c h

theorem mimeReset_bounded (h : m.Bounded (MIME_BUFFER_SIZE - 1)) :
    (mimeReset m).Bounded (MIME_BUFFER_SIZE - 2) := by
  have hstart : m.resetStates.Bounded (MIME_BUFFER_SIZE - 1) :=
    h.of_source h.decode le_rfl h.fault rfl
  have hflushed := mimeDecodeFlush_bounded (mimeSourceFlush_bounded hstart (by decide))
  refine .of_empty ?_ (mimeReset_octets m) ?_ ?_
  · unfold Mime.DecodeFits
    rw [mimeReset_decode]
    exact hflushed.decode
  · rw [mimeReset_source, hflushed.fault]
  · rw [mimeReset_underflow, hflushed.underflow]

/-- The parsers that an application can have: a new one, one that was reset, and one that was given
an octet or `EOF`. A parser that has thrown an error is given nothing more but a reset. -/
inductive Mime.Reachable : Mime → Prop where
  | create (throwReady : Bool) : Mime.Reachable (mimeCreate throwReady)
  | reset {m : Mime} : m.Reachable → Mime.Reachable (mimeReset m)
  | next {m : Mime} (ch : Ch) : m.Reachable → m.thrown = none → Mime.Reachable (mimeNextCh m ch)

theorem reachable_inBounds (h : m.Reachable) : m.InBounds := by
  induction h with
  | create throwReady =>
      have hcreate : (mimeCreate throwReady).Bounded (MIME_BUFFER_SIZE - 2) :=
        mimeReset_bounded (.of_empty ⟨Nat.succ_pos _, rfl⟩ rfl rfl rfl)
      exact ⟨hcreate.mono (by decide), fun _ => hcreate⟩
  | reset _ ih =>
      have hreset := mimeReset_bounded ih.1
      exact ⟨hreset.mono (by decide), fun _ => hreset⟩
  | next ch _ hnone ih => exact mimeNextCh_inBounds ch (ih.2 hnone)

/-- In every parser that an application can have, the two lengths are below the size of the buffers,
no index was at or above it, no length was decremented at zero, and no counter was taken below
zero. -/
theorem mime_inBounds (h : m.Reachable) :
    m.source.length ≤ MIME_BUFFER_SIZE - 1 ∧ m.decode.length ≤ MIME_BUFFER_SIZE - 1 ∧
      m.source.fault = false ∧ m.decode.fault = false ∧ m.underflow = false := by
  have hbounded := (reachable_inBounds h).1
  exact ⟨hbounded.length, hbounded.decode.1.le, hbounded.fault, hbounded.decode.2,
    hbounded.underflow⟩

/-- A new parser that was given a colon is one of them. -/
theorem mime_inBounds_colon :
    (mimeNextCh (mimeCreate false) (some (ch ':'))).source.length ≤ 1023 ∧
      (mimeNextCh (mimeCreate false) (some (ch ':'))).decode.length ≤ 1023 ∧
      (mimeNextCh (mimeCreate false) (some (ch ':'))).source.fault = false ∧
      (mimeNextCh (mimeCreate false) (some (ch ':'))).decode.fault = false ∧
      (mimeNextCh (mimeCreate false) (some (ch ':'))).underflow = false :=
  mime_inBounds (.next (some (ch ':')) (.create false) rfl)

end Snert
