/-
Module: Snert.Proofs.RecordDecode
Purpose: The routines that decode one record undo its encoding, up to the way `strncpy` copies a
  label: names, the data of every type, and the record as a whole. A record without data at the end
  of the packet stops the parser.
Trusted boundary: none
Main exports: entry_outcome, entry_stops, entry_any
-/
import Snert.Pdq.Message
import Snert.Proofs.NameBounds

namespace Snert

open CModel CModel.Run Relation

/-! ### Names as they are encoded -/

theorem isPointer_eq (c : Octet) : isPointer c = decide (192 ≤ c.toNat) := by
  have hall : ∀ n < 256, isPointer (UInt8.ofNat n) = decide (192 ≤ n) := by decide +kernel
  have hc := hall c.toNat c.toNat_lt
  rwa [UInt8.ofNat_toNat] at hc

section

variable {packet : Packet} {p q e : Nat} {label : List Octet} {labels : List (List Octet)}

theorem labelAt_of_length (hp : p + 1 + label.length ≤ packet.length) (hpos : 0 < label.length)
    (hle : label.length ≤ 63) (hoctet : (packet.octet p).toNat = label.length) :
    LabelAt packet p label.length := by
  refine ⟨by omega, fun hzero => ?_, ?_, hoctet.symm⟩
  · rw [hzero] at hoctet
    exact absurd hoctet (by simp; omega)
  · rw [isPointer_eq, decide_eq_false_iff_not]
    omega

theorem pointsTo_of_short (hp : p + 2 ≤ packet.length) (hshort : packet.short p = 0xc000 + q) :
    PointsTo packet p q := by
  have hlt := packet.short_lt p
  refine ⟨by omega, ?_, ?_⟩
  · have hlow := (packet.octet (p + 1)).toNat_lt
    unfold Packet.short at hshort
    rw [isPointer_eq, decide_eq_true_iff]
    omega
  · unfold pointerTarget
    omega

theorem NameAt.lt_length (h : NameAt packet p labels e) : p < packet.length := by
  cases h with
  | root hp _ => exact hp
  | label hp _ _ _ _ _ => omega
  | pointer hp _ _ _ _ => omega

theorem NameAt.nameEnd (h : NameAt packet p labels e) : NameEnd packet p e := by
  induction h with
  | root hp hroot => exact .root hp hroot
  | label hp hpos hle hoctet _ _ ih => exact .label (labelAt_of_length hp hpos hle hoctet) ih
  | pointer hp hshort _ _ _ _ => exact .pointer hp (pointsTo_of_short hp hshort).2.1

theorem NameAt.lt_end (h : NameAt packet p labels e) : p < e := by
  induction h with
  | root _ _ => exact Nat.lt_succ_self _
  | label _ _ _ _ _ _ ih => omega
  | pointer _ _ _ _ _ _ => omega

theorem nameSkip_outcome (h : NameAt packet p labels e) :
    (pdqNameSkip packet p).outcome = .done (some e) := by
  obtain ⟨-, r, hr, rfl⟩ := nameSkip_of_nameEnd h.nameEnd
  exact hr

/-! ### Copying a name -/

theorem strncpyOctets_of_noNul {label : List Octet} (h : 0 ∉ label) :
    strncpyOctets label = label := by
  have hall : label.takeWhile (· ≠ 0) = label := by
    rw [List.takeWhile_eq_self_iff]
    intro c hc
    exact decide_eq_true fun hzero => h (hzero ▸ hc)
  simp only [strncpyOctets, hall, Nat.sub_self, List.replicate_zero, List.append_nil]

/-- The text of labels as the loop of `pdq_name_copy` puts it. -/
def copiedText (labels : List (List Octet)) : List Octet :=
  (labels.map strncpyOctets).flatMap fun label => label ++ [ch '.']

theorem length_copiedText (labels : List (List Octet)) :
    (copiedText labels).length = textLength labels := by
  induction labels with
  | nil => rfl
  | cons label labels ih =>
      have hcons : copiedText (label :: labels) =
          strncpyOctets label ++ [ch '.'] ++ copiedText labels := rfl
      rw [hcons, List.length_append, ih]
      simp [textLength]

theorem NameAt.reaches (h : NameAt packet p labels e) :
    ∀ s : NameScan DOMAIN_SIZE, s.ptr = p → NameInv s → textLength labels < s.remaining →
      ∃ t, Reaches (nameCopyStep packet) s t ∧ t.ptr < packet.length ∧ packet.octet t.ptr = 0 ∧
        t.value = s.value.splice s.buf (copiedText labels) ∧
        t.remaining = s.remaining - textLength labels := by
  induction h with
  | root hp hroot =>
      rintro s rfl hinv hroom
      refine ⟨s, .refl, hp, hroot, ?_, rfl⟩
      exact (Buffer.splice_nil _ _).symm
  | @label p e label labels hp hpos hle hoctet hlabel hrest ih =>
      rintro s rfl hinv hroom
      have hl := labelAt_of_length hp hpos hle hoctet
      have hlen : textLength (label :: labels) = label.length + 1 + textLength labels := by
        simp [textLength]
      have hroom' : label.length < s.remaining := by omega
      have hnext : Next (nameCopyStep packet) s (behindLabel packet s label.length) :=
        (next_iff hinv).mpr (.inr ⟨_, hl, hroom', rfl⟩)
      obtain ⟨t, ht, hlt, hroot, hvalue, hremaining⟩ :=
        ih (behindLabel packet s label.length) rfl (nameInv_next hinv hnext)
          (by dsimp only [behindLabel]; omega)
      refine ⟨t, .head hnext ht, hlt, hroot, ?_, ?_⟩
      · unfold NameInv at hinv
        have hcopied : copiedText (label :: labels) =
            strncpyOctets label ++ [ch '.'] ++ copiedText labels := rfl
        have hlength := length_copiedText labels
        rw [hvalue, hcopied, ← Buffer.splice_splice, ← Buffer.splice_splice]
        · dsimp only [behindLabel]
          rw [hlabel, length_strncpyOctets, List.length_append, length_strncpyOctets]
          rfl
        · simp
          omega
        · simp
          omega
      · rw [hremaining, hlen]
        dsimp only [behindLabel]
        omega
  | @pointer p q e labels hp hshort _ _ hrest ih =>
      rintro s rfl hinv hroom
      have hnext : Next (nameCopyStep packet) s { s with ptr := q } :=
        (next_iff hinv).mpr (.inl ⟨q, pointsTo_of_short hp hshort, rfl⟩)
      obtain ⟨t, ht, hrest⟩ := ih { s with ptr := q } rfl hinv hroom
      exact ⟨t, .head hnext ht, hrest⟩

theorem textLength_eq_zero_iff : textLength labels = 0 ↔ labels = [] := by
  cases labels with
  | nil => simp [textLength]
  | cons label labels => simp [textLength]

theorem nameText_of_ne_nil (h : labels ≠ []) :
    nameText (labels.map strncpyOctets) = copiedText labels :=
  if_neg (mt List.map_eq_nil_iff.mp h)

theorem length_nameText_le (h : textLength labels ≤ 255) :
    (nameText (labels.map strncpyOctets)).length ≤ 255 := by
  by_cases hroot : labels = []
  · rw [hroot]
    decide
  · rw [nameText_of_ne_nil hroot, length_copiedText]
    exact h

theorem finishName_outcome {size : Nat} {buf : Buffer size} {t : NameScan size}
    (hinv : NameInv t) (hlt : t.ptr < packet.length)
    (htext : (nameText (labels.map strncpyOctets)).length < size)
    (hvalue : t.value = buf.splice 0 (copiedText labels))
    (hremaining : t.remaining + textLength labels = size) :
    (finishName packet t).outcome = .done
      (((nameText (labels.map strncpyOctets)).length : Int),
        buf.splice 0 (nameText (labels.map strncpyOctets) ++ [0])) := by
  have hlength := length_copiedText labels
  unfold NameInv at hinv
  have hbuf : t.buf = textLength labels := by omega
  unfold finishName
  rw [if_neg (Nat.not_le.mpr hlt)]
  unfold copyRoot
  by_cases hroot : labels = []
  · subst hroot
    have hzero : textLength [] = 0 := rfl
    have hempty : buf.splice 0 (copiedText []) = buf := buf.splice_nil 0
    have hsize : 1 < size := htext
    have hjoin : (buf.splice 0 [ch '.']).splice 1 [0] = buf.splice 0 [ch '.', 0] :=
      buf.splice_splice (i := 0) [ch '.'] [0] hsize
    rw [hzero] at hbuf hremaining
    rw [Nat.add_zero] at hremaining
    have hdot := t.value.yields_write (i := t.buf) [ch '.'] (by
      rw [hbuf, List.length_singleton]
      omega)
    have hnul := (t.value.splice t.buf [ch '.']).yields_write (i := t.buf + 1) [0] (by
      rw [hbuf, List.length_singleton]
      omega)
    rw [if_pos hremaining, outcome_bind_of_done (outcome_bind_of_done hdot.outcome _)]
    dsimp only
    rw [if_neg (by omega), outcome_bind_of_done hnul.outcome, hvalue, hbuf, hremaining, hempty,
      hjoin, outcome_pure]
    congr 2
    change (size : Int) - (size - 1 : Nat) = 1
    omega
  · have hne := mt textLength_eq_zero_iff.mp hroot
    have htexts := nameText_of_ne_nil hroot
    rw [htexts, hlength] at htext
    have hnul := t.value.yields_write (i := t.buf) [0] (by rw [List.length_singleton]; omega)
    have hjoin := buf.splice_splice (i := 0) (copiedText labels) [0]
      (by rw [List.length_singleton]; omega)
    rw [Nat.zero_add, hlength] at hjoin
    rw [if_neg (show ¬ t.remaining = size by omega), Run.pure_bind, if_neg (by omega),
      outcome_bind_of_done hnul.outcome, outcome_pure, hvalue, hbuf, hjoin, htexts, hlength]
    congr 2
    omega

theorem nameCopy_outcome (buf : Buffer DOMAIN_SIZE) (h : NameAt packet p labels e)
    (htext : textLength labels ≤ 255) :
    (pdqNameCopy packet p buf).outcome = .done
      (((nameText (labels.map strncpyOctets)).length : Int),
        buf.splice 0 (nameText (labels.map strncpyOctets) ++ [0])) := by
  have hinv := nameInv_initial p buf
  obtain ⟨t, ht, hlt, hroot, hvalue, hremaining⟩ :=
    h.reaches (NameScan.initial p buf) rfl hinv (show textLength labels < 256 by omega)
  have htinv := nameInv_reaches hinv ht
  have hloop := (nameCopy_enoughRounds packet p buf).outcome_eq_done.mpr
    ⟨t, ht, (nameCopyStep_stops htinv).mpr ⟨rfl, .inr hroot⟩⟩
  unfold pdqNameCopy
  rw [outcome_bind_of_done hloop]
  have hlength := length_nameText_le htext
  refine finishName_outcome htinv hlt (by change _ < 256; omega) hvalue ?_
  rw [hremaining]
  change 256 - _ + _ = 256
  omega

theorem copyName_outcome {name : DomainName} (h : NameAt packet p name.labels e) :
    (copyName packet p).outcome = .done (name.decoded strncpyOctets) := by
  have htext := name.text_length
  unfold copyName
  rw [outcome_bind_of_done (nameCopy_outcome (Buffer.replicate 256 0) h htext), outcome_pure]
  have hle := length_nameText_le htext
  have hmod : (((nameText (name.labels.map strncpyOctets)).length : Int) % 65536).toNat =
      (nameText (name.labels.map strncpyOctets)).length := by omega
  rw [hmod]
  rfl

theorem dataName_outcome {name : DomainName} (h : NameAt packet p name.labels e) :
    (dataName packet p).outcome = .done (some (name.decoded strncpyOctets, e)) := by
  unfold dataName
  rw [outcome_bind_of_done (copyName_outcome h), outcome_bind_of_done (nameSkip_outcome h)]
  rfl

end

/-! ### The data of a record -/

section

variable {packet : Packet} {p e : Nat}

@[simp] theorem getOctet_bind_outcome {α : Type} (f : Octet → Run α) :
    (packet.getOctet p >>= f).outcome = (f (packet.octet p)).outcome := rfl

@[simp] theorem read_bind_outcome {α : Type} (count : Nat) (f : List Octet → Run α) :
    (packet.read p count >>= f).outcome = (f (packet.octets p count)).outcome := rfl

@[simp] theorem netGetShort_bind_outcome {α : Type} (f : Nat → Run α) :
    (packet.netGetShort p >>= f).outcome = (f (packet.short p)).outcome := rfl

@[simp] theorem netGetLong_bind_outcome {α : Type} (f : Nat → Run α) :
    (packet.netGetLong p >>= f).outcome = (f (packet.long p)).outcome := rfl

theorem formatIP_outcome (ip : List Octet) :
    (formatIP ip 1 (Buffer.replicate 40 0)).outcome = .done (ipText ip) := by
  obtain ⟨-, text, htext, -⟩ := formatIP_ends ip 1 (Buffer.replicate 40 0) (by decide)
  unfold ipText
  rw [htext]

theorem addressData_outcome {type : Nat} {ip : List Octet}
    (hfits : (RrData.address ip).Fits type) (h : OctetsAt packet p ip e) :
    (addressData packet type p ip.length).outcome =
      .done (⟨(RrData.address ip).decoded strncpyOctets type, rfl⟩, e) := by
  have hroom : (if type = PDQ_TYPE_A then 12 else 0 : Nat) + ip.length ≤ 16 := by
    rcases hfits with ⟨rfl, hlen⟩ | ⟨rfl, hlen⟩
    · rw [hlen]
      decide
    · rw [hlen]
      decide
  have hwrite := (Buffer.replicate 16 0).yields_write ip hroom
  unfold addressData
  rw [read_bind_outcome, h.1, outcome_bind_of_done hwrite.outcome,
    outcome_bind_of_done (formatIP_outcome ip), outcome_pure, h.2]
  rfl

theorem hostData_outcome {name : DomainName} (h : NameAt packet p name.labels e) :
    (hostData packet p).outcome =
      .done (some (⟨.host (name.decoded strncpyOctets), rfl⟩, e)) := by
  unfold hostData
  rw [outcome_bind_of_done (dataName_outcome h)]
  rfl

theorem mxData_outcome {name : DomainName} (h : NameAt packet (p + 2) name.labels e) :
    (mxData packet p).outcome =
      .done (some (⟨.mx (name.decoded strncpyOctets) (packet.short p), rfl⟩, e)) := by
  unfold mxData
  rw [netGetShort_bind_outcome, outcome_bind_of_done (dataName_outcome h)]
  rfl

theorem StringsAt.le {texts : List (List Octet)} (h : StringsAt packet p texts e) : p ≤ e := by
  induction texts generalizing p with
  | nil => exact Nat.le_of_eq h.symm
  | cons text texts ih =>
      have := ih h.2.2
      omega

theorem StringsAt.lt_of_cons {text : List Octet} {texts : List (List Octet)}
    (h : StringsAt packet p (text :: texts) e) : p + text.length < e := by
  have := StringsAt.le h.2.2
  omega

theorem StringsAt.flatten_le {texts : List (List Octet)} (h : StringsAt packet p texts e) :
    p + texts.flatten.length ≤ e := by
  induction texts generalizing p with
  | nil => exact Nat.le_of_eq h.symm
  | cons text texts ih =>
      have := ih h.2.2
      rw [List.flatten_cons, List.length_append]
      omega

theorem txtLoop_outcome {texts : List (List Octet)} {rdlength rounds : Nat} {text : List Octet}
    (h : StringsAt packet p texts e) (hrounds : e ≤ p + rounds)
    (hroom : text.length + (e - p) ≤ rdlength) :
    (txtLoop packet rdlength e rounds p text).outcome = .done (some (text ++ texts.flatten)) := by
  induction texts generalizing p rounds text with
  | nil =>
      obtain rfl : e = p := h
      cases rounds with
      | zero => simp [txtLoop]
      | succ rounds => simp [txtLoop]
  | cons string texts ih =>
      have hlt := h.lt_of_cons
      obtain ⟨hlen, hstring, hrest⟩ := h
      cases rounds with
      | zero => omega
      | succ rounds =>
          unfold txtLoop
          rw [if_neg (by omega), getOctet_bind_outcome, hlen, if_neg (by omega),
            read_bind_outcome, hstring, outcome_store_bind (Access.inBounds_iff_le.mpr (by omega)),
            ih hrest (by omega) (by rw [List.length_append]; omega), List.flatten_cons,
            List.append_assoc]

theorem txtCreate_outcome {texts : List (List Octet)} {rdlength : Nat}
    (h : StringsAt packet p texts (p + rdlength)) :
    (pdqTxtCreate packet p rdlength).outcome = .done (some texts.flatten) := by
  have hloop := txtLoop_outcome h (Nat.le_refl _)
    (show ([] : List Octet).length + (p + rdlength - p) ≤ rdlength by simp)
  have hle := h.flatten_le
  rw [List.nil_append] at hloop
  unfold pdqTxtCreate
  rw [outcome_bind_of_done hloop]
  exact outcome_store_of_inBounds (Access.inBounds_iff_le.mpr (by omega)) _

theorem stringsData_outcome {texts : List (List Octet)} {length : Nat}
    (h : StringsAt packet p texts (p + length)) :
    (textData packet PDQ_TYPE_TXT p length).outcome =
      .done (some (⟨.text texts.flatten, rfl⟩, p + length)) := by
  unfold textData
  rw [if_pos rfl, outcome_bind_of_done (txtCreate_outcome h)]
  rfl

theorem octetsData_outcome {os : List Octet} (h : OctetsAt packet p os e) :
    (textData packet PDQ_TYPE_NULL p os.length).outcome = .done (some (⟨.text os, rfl⟩, e)) := by
  have hstore : Access.InBounds ⟨0, os.length, os.length⟩ :=
    Access.inBounds_iff_le.mpr (Nat.le_of_eq (Nat.zero_add _))
  unfold textData
  rw [if_neg (by decide), read_bind_outcome, h.1, outcome_store_bind hstore, h.2]
  rfl

theorem soaData_outcome {mname rname : DomainName} {q r : Nat}
    (hm : NameAt packet p mname.labels q) (hr : NameAt packet q rname.labels r) :
    (soaData packet p).outcome = .done (some
      (⟨.soa (mname.decoded strncpyOctets) (rname.decoded strncpyOctets) (packet.long r)
        (int32 (packet.long (r + 4))) (int32 (packet.long (r + 8))) (int32 (packet.long (r + 12)))
        (packet.long (r + 16)), rfl⟩, r + 20)) := by
  unfold soaData
  rw [outcome_bind_of_done (dataName_outcome hm)]
  dsimp only
  rw [outcome_bind_of_done (dataName_outcome hr)]
  rfl

theorem hinfoString_outcome {text : List Octet} (hlen : (packet.octet p).toNat = text.length)
    (htext : packet.octets (p + 1) text.length = text) :
    (hinfoString packet p).outcome = .done (PdqName.ofText text, p + (text.length + 1)) := by
  have hlt := (packet.octet p).toNat_lt
  have hstring : ((Buffer.replicate 256 0).write 0 text).Yields _ :=
    (Buffer.replicate 256 0).yields_write (i := 0) _ (by omega)
  have hnul := ((Buffer.replicate 256 0).splice 0 text).yields_write (i := text.length) [0]
    (by rw [List.length_singleton]; omega)
  have hjoin := (Buffer.replicate 256 0).splice_splice (i := 0) text [0]
    (by rw [List.length_singleton]; omega)
  unfold hinfoString
  rw [getOctet_bind_outcome, hlen, read_bind_outcome, htext, outcome_bind_of_done hstring.outcome,
    outcome_bind_of_done hnul.outcome, outcome_pure]
  rw [Nat.zero_add] at hjoin
  rw [hjoin]
  rfl

theorem hinfoData_outcome {cpu os : List Octet} (h : StringsAt packet p [cpu, os] e) :
    (hinfoData packet PDQ_TYPE_HINFO p).outcome =
      .done (some (⟨.hinfo (PdqName.ofText cpu) (PdqName.ofText os), rfl⟩, e)) := by
  obtain ⟨hcpu, hcpuText, hos, hosText, rfl⟩ := h
  unfold hinfoData
  rw [if_pos rfl, outcome_bind_of_done (hinfoString_outcome hcpu hcpuText),
    outcome_bind_of_done (hinfoString_outcome hos hosText)]
  rfl

theorem minfoData_outcome {rmailbx emailbx : DomainName} {q : Nat}
    (hr : NameAt packet p rmailbx.labels q) (he : NameAt packet q emailbx.labels e) :
    (hinfoData packet PDQ_TYPE_MINFO p).outcome = .done (some
      (⟨.hinfo (rmailbx.decoded strncpyOctets) (emailbx.decoded strncpyOctets), rfl⟩, e)) := by
  unfold hinfoData
  rw [if_neg (by decide), outcome_bind_of_done (dataName_outcome hr)]
  dsimp only
  rw [outcome_bind_of_done (dataName_outcome he)]
  rfl

theorem replyData_outcome (rr : Rr) (length : Nat) (h : DataAt packet p rr.data (p + length))
    {kind : PdqKind} (hkind : kindOfType rr.type = some kind) :
    ∃ layout, (replyData packet rr.type p length kind).outcome =
      .done (some (⟨rr.data.decoded strncpyOctets rr.type, layout⟩, p + length)) := by
  obtain rfl : (rr.data.decoded strncpyOctets rr.type).kind = kind := by
    rw [rr.fits.kind strncpyOctets] at hkind
    exact Option.some.inj hkind
  refine ⟨rfl, ?_⟩
  rcases rr with ⟨name, type, rrClass, ttl, data, fits⟩
  dsimp only at h hkind ⊢
  cases data with
  | address ip =>
      obtain rfl : length = ip.length := by
        have := h.2
        omega
      show (replyData packet type p ip.length .address).outcome = _
      unfold replyData
      rw [outcome_bind_of_done (addressData_outcome fits h)]
      rfl
  | host name => exact hostData_outcome h
  | mx preference name =>
      obtain ⟨rfl, hname⟩ := h
      exact mxData_outcome hname
  | strings texts =>
      obtain rfl : type = PDQ_TYPE_TXT := fits
      exact stringsData_outcome h
  | octets os =>
      obtain rfl : type = PDQ_TYPE_NULL := fits
      obtain rfl : length = os.length := by
        have := h.2
        omega
      exact octetsData_outcome h
  | soa mname rname serial refresh retry expire minimum =>
      obtain ⟨q, r, hm, hr, rfl, rfl, rfl, rfl, rfl, he⟩ := h
      rw [he]
      exact soaData_outcome hm hr
  | hinfo cpu os =>
      obtain rfl : type = PDQ_TYPE_HINFO := fits
      exact hinfoData_outcome h
  | minfo rmailbx emailbx =>
      obtain rfl : type = PDQ_TYPE_MINFO := fits
      obtain ⟨q, hr, he⟩ := h
      exact minfoData_outcome hr he

/-! ### One record -/

theorem createRr_outcome {name : DomainName} {type rrClass stop : Nat} {kind : PdqKind}
    (h : NameAt packet p name.labels e) (hkind : kindOfType type = some kind) :
    (createRr packet p type rrClass stop).outcome =
      .done (.record (name.decoded strncpyOctets) type rrClass kind hkind stop) := by
  unfold createRr
  split
  · rename_i hnone
    rw [hkind] at hnone
    cases hnone
  · rename_i kind' hkind'
    obtain rfl : kind = kind' := by
      rw [hkind] at hkind'
      exact Option.some.inj hkind'
    rw [outcome_bind_of_done (copyName_outcome h), outcome_pure]

theorem createRr_unsupported {type rrClass stop : Nat} (hkind : kindOfType type = none) :
    (createRr packet p type rrClass stop).outcome = .done (.unsupported stop) := by
  unfold createRr
  split
  · rfl
  · rename_i kind hsome
    rw [hkind] at hsome
    cases hsome

theorem replyRr_outcome {labels : List (List Octet)} (h : NameAt packet p labels e)
    (hlt : e + 4 < packet.length) : (pdqReplyRr packet p).outcome =
      (createRr packet p (packet.short e) (packet.short (e + 2)) (e + 4)).outcome := by
  unfold pdqReplyRr
  rw [outcome_bind_of_done (nameSkip_outcome h)]
  dsimp only
  rw [netGetShort_bind_outcome, if_neg (by omega), netGetShort_bind_outcome, if_neg (by omega)]

theorem skipRr_outcome (hlt : p + 6 < packet.length) (hend : e = p + 6 + packet.short (p + 4))
    (hle : e ≤ packet.length) : (skipRr packet p).outcome = .done (some e) := by
  unfold skipRr
  rw [if_neg (by omega), netGetShort_bind_outcome, if_neg (by omega), if_neg (by omega),
    outcome_pure, hend]

theorem skipRr_stops (hend : packet.length = p + 6) : (skipRr packet p).outcome = .done none := by
  unfold skipRr
  rw [if_neg (by omega), netGetShort_bind_outcome, if_pos (by omega), outcome_pure]

section

variable {rrSection : PdqSection} (hsection : rrSection ≠ .query) (name : PdqName)
  {type : Nat} (rrClass : Nat) {kind : PdqKind} (hkind : kindOfType type = some kind)

theorem fillRr_outcome {data : KindData kind} (hlt : p + 6 < packet.length)
    (hle : data.2 ≤ packet.length)
    (hdata : (replyData packet type (p + 6) (packet.short (p + 4)) kind).outcome = .done (some data)) :
    (fillRr packet rrSection hsection name type rrClass kind hkind p).outcome = .done (some
      ({ rrSection := rrSection, name := name, rrClass := rrClass, type := type
         ttl := packet.long p, data := data.1
         layout := by rw [kindOfRecord, if_neg hsection, hkind, data.1.2] }, data.2)) := by
  unfold fillRr
  rw [netGetLong_bind_outcome, if_neg (by omega), netGetShort_bind_outcome, if_neg (by omega),
    outcome_bind_of_done hdata]
  dsimp only
  rw [if_neg (by omega), outcome_pure]

theorem fillRr_stops (hend : packet.length = p + 6) :
    (fillRr packet rrSection hsection name type rrClass kind hkind p).outcome = .done none := by
  unfold fillRr
  rw [netGetLong_bind_outcome, if_neg (by omega), netGetShort_bind_outcome, if_pos (by omega),
    outcome_pure]

end

/-! ### Records without data -/

theorem DataAt.le {q : Nat} {data : RrData} (h : DataAt packet q data e) : q ≤ e := by
  cases data with
  | address ip =>
      have := h.2
      omega
  | host name => exact Nat.le_of_lt (NameAt.lt_end h)
  | mx preference name =>
      have := NameAt.lt_end h.2
      omega
  | strings texts => exact StringsAt.le h
  | octets os =>
      have := h.2
      omega
  | soa mname rname serial refresh retry expire minimum =>
      obtain ⟨s, r, hm, hr, -, -, -, -, -, rfl⟩ := h
      have := hm.lt_end
      have := hr.lt_end
      omega
  | hinfo cpu os => exact StringsAt.le h
  | minfo rmailbx emailbx =>
      obtain ⟨s, hr, he⟩ := h
      have := hr.lt_end
      have := he.lt_end
      omega

theorem DataAt.eq_iff {q type : Nat} {data : RrData} (hfits : data.Fits type)
    (h : DataAt packet q data e) : q = e ↔ data = .octets [] ∨ data = .strings [] := by
  cases data with
  | address ip =>
      have hip := h.2
      refine iff_of_false (fun _ => ?_) (by simp)
      rcases hfits with ⟨-, hlen⟩ | ⟨-, hlen⟩
      · omega
      · omega
  | host name => exact iff_of_false (fun _ => by have := NameAt.lt_end h; omega) (by simp)
  | mx preference name => exact iff_of_false (fun _ => by have := NameAt.lt_end h.2; omega) (by simp)
  | strings texts =>
      cases texts with
      | nil => exact iff_of_true (Eq.symm h) (.inr rfl)
      | cons text texts =>
          exact iff_of_false (fun _ => by have := StringsAt.lt_of_cons h; omega) (by simp)
  | octets os =>
      have hos := h.2
      cases os with
      | nil => exact iff_of_true hos.symm (.inl rfl)
      | cons o os =>
          rw [List.length_cons] at hos
          exact iff_of_false (fun _ => by omega) (by simp)
  | soa mname rname serial refresh retry expire minimum =>
      obtain ⟨s, r, hm, hr, -, -, -, -, -, rfl⟩ := h
      refine iff_of_false (fun _ => ?_) (by simp)
      have := hm.lt_end
      have := hr.lt_end
      omega
  | hinfo cpu os => exact iff_of_false (fun _ => by have := StringsAt.lt_of_cons h; omega) (by simp)
  | minfo rmailbx emailbx =>
      obtain ⟨s, hr, he⟩ := h
      refine iff_of_false (fun _ => ?_) (by simp)
      have := hr.lt_end
      have := he.lt_end
      omega

/-! ### One record of the list -/

theorem kindOfType_other (rr : OtherRr) (hany : rr.type ≠ PDQ_TYPE_ANY) :
    kindOfType rr.type = none := by
  have hun := rr.unsupported
  simp only [supportedTypes, List.mem_cons, List.not_mem_nil, or_false, not_or] at hun
  unfold kindOfType
  simp [hun, hany]

/-- The list with the record of an entry inserted, if it has one. -/
def insertEntry (rrSection : ReplySection) (entry : Entry) (list : List PdqRr) : List PdqRr :=
  match entry.rr? with
  | some rr => pdqInsert (rr.decoded strncpyOctets rrSection) list
  | none => list

theorem replySection_ne_query (packet : Packet) (i : Nat) : sectionAt packet.header i ≠ .query :=
  sectionAt_ne_query _ _

/-- The section that the parser gives to the record at an index. -/
def replySection (packet : Packet) (i : Nat) : ReplySection :=
  ⟨sectionAt packet.header i, replySection_ne_query packet i⟩

/-- A record is decoded when its data, or anything behind it, keeps it off the end of the packet. -/
theorem entry_outcome {entry : Entry} (h : EntryAt packet p entry e)
    (hany : entry.type ≠ PDQ_TYPE_ANY) (hdata : entry.NoData → e < packet.length)
    (rest i : Nat) (list : List PdqRr) :
    (replyLoop packet (rest + 1) i p list).outcome =
      (replyLoop packet rest (i + 1) e (insertEntry (replySection packet i) entry list)).outcome := by
  cases entry with
  | record rr =>
      obtain ⟨q, ⟨s, hname, htype, hclass, httl, rfl, hlength, hle⟩, hrr⟩ := h
      have hlt : s + 10 < packet.length := by
        have hge := hrr.le
        have hiff := hrr.eq_iff rr.fits
        by_cases hempty : s + 10 = e
        · have := hdata (hiff.mp hempty)
          omega
        · omega
      have hkind := rr.fits.kind strncpyOctets
      have hdecoded := replyData_outcome rr (packet.short (s + 8)) (hlength ▸ hrr) hkind
      obtain ⟨layout, hdecoded⟩ := hdecoded
      have hfill := fillRr_outcome (p := s + 4) (sectionAt_ne_query packet.header i)
        (rr.name.decoded strncpyOctets) rr.rrClass hkind (by omega) (by dsimp only; omega) hdecoded
      have hreply := replyRr_outcome hname (by omega)
      rw [htype, hclass, createRr_outcome hname hkind] at hreply
      rw [replyLoop, outcome_bind_of_done hreply]
      dsimp only
      rw [outcome_bind_of_done hfill]
      dsimp only [insertEntry, Entry.rr?, Rr.decoded, replySection]
      rw [← httl, hlength]
  | other rr =>
      obtain ⟨q, ⟨s, hname, htype, hclass, httl, rfl, hlength, hle⟩, hrr⟩ := h
      have hlt : s + 10 < packet.length := by
        by_cases hempty : rr.data = []
        · have := hdata hempty
          omega
        · have := List.length_pos_iff.mpr hempty
          have := hrr.2
          omega
      have hkind : kindOfType (packet.short s) = none := htype ▸ kindOfType_other rr hany
      have hskip : (skipRr packet (s + 4)).outcome = .done (some e) :=
        skipRr_outcome (by omega) hlength hle
      have hreply := replyRr_outcome hname (by omega)
      rw [createRr_unsupported hkind] at hreply
      rw [replyLoop, outcome_bind_of_done hreply]
      dsimp only
      rw [outcome_bind_of_done hskip]
      rfl

/-- A record without data at the end of the packet stops the parser. -/
theorem entry_stops {entry : Entry} (h : EntryAt packet p entry packet.length)
    (hany : entry.type ≠ PDQ_TYPE_ANY) (hdata : entry.NoData) (rest i : Nat) (list : List PdqRr) :
    (replyLoop packet (rest + 1) i p list).outcome = .done none := by
  cases entry with
  | record rr =>
      obtain ⟨q, ⟨s, hname, htype, hclass, -, rfl, -, -⟩, hrr⟩ := h
      have hend := (hrr.eq_iff rr.fits).mpr hdata
      have hkind := rr.fits.kind strncpyOctets
      have hreply := replyRr_outcome hname (by omega)
      rw [htype, hclass, createRr_outcome hname hkind] at hreply
      rw [replyLoop, outcome_bind_of_done hreply]
      dsimp only
      rw [outcome_bind_of_done (fillRr_stops _ _ _ _ (p := s + 4) (by omega)), outcome_pure]
  | other rr =>
      obtain ⟨q, ⟨s, hname, htype, hclass, -, rfl, -, -⟩, hrr⟩ := h
      have hempty : rr.data = [] := hdata
      have hend := hrr.2
      rw [hempty, List.length_nil] at hend
      have hkind : kindOfType (packet.short s) = none := htype ▸ kindOfType_other rr hany
      have hreply := replyRr_outcome hname (by omega)
      rw [createRr_unsupported hkind] at hreply
      rw [replyLoop, outcome_bind_of_done hreply]
      dsimp only
      rw [outcome_bind_of_done (skipRr_stops (p := s + 4) (by omega)), outcome_pure]

theorem mem_pdqInsert {record x : PdqRr} {list : List PdqRr} :
    x ∈ pdqInsert record list ↔ x = record ∨ x ∈ list := by
  induction list with
  | nil => simp [pdqInsert]
  | cons q list ih =>
      unfold pdqInsert
      split
      · simp
      · simp only [List.mem_cons, ih]
        tauto

theorem replyLoop_keeps {rest i : Nat} {list list' : List PdqRr} {x : PdqRr}
    (h : (replyLoop packet rest i p list).outcome = .done (some list')) (hx : x ∈ list) :
    x ∈ list' := by
  induction rest generalizing i p list with
  | zero =>
      obtain rfl : list = list' := by simpa [replyLoop] using h
      exact hx
  | succ rest ih =>
      rw [replyLoop, outcome_bind_eq_done] at h
      obtain ⟨start, -, h⟩ := h
      cases start with
      | fault => cases h
      | unsupported stop =>
          obtain ⟨skipped, -, h⟩ := outcome_bind_eq_done.mp h
          cases skipped with
          | none => cases h
          | some q => exact ih h hx
      | record name type rrClass kind hkind stop =>
          obtain ⟨filled, -, h⟩ := outcome_bind_eq_done.mp h
          cases filled with
          | none => cases h
          | some record => exact ih h (mem_pdqInsert.mpr (.inr hx))

theorem fillRr_fields {rrSection : PdqSection} {hsection : rrSection ≠ .query} {name : PdqName}
    {type rrClass : Nat} {kind : PdqKind} {hkind : kindOfType type = some kind}
    {record : PdqRr × Nat}
    (h : (fillRr packet rrSection hsection name type rrClass kind hkind p).outcome =
      .done (some record)) : record.1.rrSection = rrSection ∧ record.1.type = type := by
  unfold fillRr at h
  rw [netGetLong_bind_outcome] at h
  split at h
  · cases h
  · rw [netGetShort_bind_outcome] at h
    split at h
    · cases h
    · obtain ⟨data, -, h⟩ := outcome_bind_eq_done.mp h
      cases data with
      | none => cases h
      | some data =>
          dsimp only at h
          split at h
          · cases h
          · rw [outcome_pure] at h
            cases h
            exact ⟨rfl, rfl⟩

theorem Rr.type_ne_any (rr : Rr) : rr.type ≠ PDQ_TYPE_ANY := by
  intro hany
  have hkind : kindOfType PDQ_TYPE_ANY = _ := hany ▸ rr.fits.kind id
  cases hdata : rr.data with
  | address ip => rw [hdata] at hkind; cases hkind
  | host name => rw [hdata] at hkind; cases hkind
  | mx preference name => rw [hdata] at hkind; cases hkind
  | strings texts => rw [hdata] at hkind; cases hkind
  | octets os => rw [hdata] at hkind; cases hkind
  | soa mname rname serial refresh retry expire minimum => rw [hdata] at hkind; cases hkind
  | hinfo cpu os => rw [hdata] at hkind; cases hkind
  | minfo rmailbx emailbx => rw [hdata] at hkind; cases hkind

/-- A record of type ANY gets into the list, if there is one. -/
theorem entry_any {entry : Entry} (h : EntryAt packet p entry e) (hany : entry.type = PDQ_TYPE_ANY)
    {rest i : Nat} {list list' : List PdqRr}
    (hloop : (replyLoop packet (rest + 1) i p list).outcome = .done (some list')) :
    ∃ x ∈ list', x.type = PDQ_TYPE_ANY := by
  cases entry with
  | record rr => exact absurd hany rr.type_ne_any
  | other rr =>
      obtain ⟨q, ⟨s, hname, htype, hclass, -, rfl, hlength, hle⟩, -⟩ := h
      have htypeAny : packet.short s = PDQ_TYPE_ANY := htype.trans hany
      have hreply := replyRr_outcome hname (by omega)
      rw [htypeAny, createRr_outcome hname (show kindOfType PDQ_TYPE_ANY = some .query from rfl)]
        at hreply
      rw [replyLoop, outcome_bind_of_done hreply] at hloop
      obtain ⟨filled, hfilled, hloop⟩ := outcome_bind_eq_done.mp hloop
      cases filled with
      | none => cases hloop
      | some record =>
          exact ⟨record.1, replyLoop_keeps hloop (mem_pdqInsert.mpr (.inl rfl)),
            (fillRr_fields hfilled).2⟩

end

end Snert
