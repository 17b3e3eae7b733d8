/-
Module: Snert.Proofs.QuestionEncoding
Purpose: `pdq_query_fill` encodes the question exactly when the name does not begin with a dot and
  the type and the class fit in an octet. The labels written in place are those of `fillLabels`; in
  front of a leading dot there is no label, but the dot counts in the length of the packet.
Trusted boundary: none
Main exports: pdqQueryFillInto_encodes_iff
-/
import Mathlib.Data.List.GetD
import Mathlib.Data.Set.Card
import Mathlib.Data.Int.Interval
import Snert.Pdq.QueryFill
import Snert.Proofs.RecordDecode

namespace Snert

open CModel CModel.Run

/-! ### The labels written in place -/

theorem length_fillLabels {label s os : List Octet} (h : fillLabels label s = some os) :
    os.length = label.length + s.length + 1 := by
  induction s generalizing label os with
  | nil =>
      simp only [fillLabels, Option.ite_none_left_eq_some, Option.some.injEq] at h
      rw [← h.2]
      rfl
  | cons c s ih =>
      rw [fillLabels] at h
      split at h
      · simp only [Option.ite_none_left_eq_some, Option.map_eq_some_iff] at h
        obtain ⟨-, os', hos', rfl⟩ := h
        have hlen := ih hos'
        simp only [List.length_append, List.length_cons, List.length_nil] at hlen ⊢
        omega
      · have hlen := ih h
        simp only [List.length_append, List.length_cons, List.length_nil] at hlen ⊢
        omega

/-- The state of the loop when `open` has been written of the label that begins at `label`. -/
def LabelScan.within (data : Buffer UDP_DATA_SIZE) (label : Nat) (written : List Octet) :
    LabelScan :=
  { data := data.splice (label + 1) written, label := label, t := label + 1 + written.length }

/-- The state when the labels in the octets `os` have been written from `label` on. -/
def LabelScan.behind (data : Buffer UDP_DATA_SIZE) (label : Nat) (os : List Octet) : LabelScan :=
  { data := data.splice label os, label := label + os.length, t := label + os.length }

section

variable {data : Buffer UDP_DATA_SIZE} {label : Nat} {written s os : List Octet}

theorem closeLabel_of_lt (hlt : LABEL_LENGTH < written.length) :
    closeLabel (.within data label written) = pure none := by
  have hlen : label + 1 + written.length - label - 1 = written.length := by omega
  simp only [closeLabel, LabelScan.within, hlen, if_pos hlt]

theorem closeLabel_of_le (hle : ¬ LABEL_LENGTH < written.length) :
    closeLabel (.within data label written) =
      ((data.splice (label + 1) written).write label [UInt8.ofNat written.length]).bind fun data =>
        pure (some { data := data, label := label + 1 + written.length
                     t := label + 1 + written.length }) := by
  have hlen : label + 1 + written.length - label - 1 = written.length := by omega
  simp only [closeLabel, LabelScan.within, hlen, if_neg hle]
  rfl

theorem closeLabel_yields (hle : ¬ LABEL_LENGTH < written.length)
    (hroom : label + 1 + written.length ≤ UDP_DATA_SIZE) :
    (closeLabel (.within data label written)).Yields
      (some (.behind data label (UInt8.ofNat written.length :: written))) := by
  have hend : label + 1 + written.length = label + (written.length + 1) := by omega
  have hwrite := (data.splice (label + 1) written).yields_write (i := label)
    [UInt8.ofNat written.length] (by rw [List.length_singleton]; omega)
  rw [data.splice_splice_front _ hroom] at hwrite
  rw [closeLabel_of_le hle, hend]
  exact hwrite.bind (yields_pure _)

theorem closeLabel_touched (hle : ¬ LABEL_LENGTH < written.length)
    (hroom : label + 1 + written.length ≤ UDP_DATA_SIZE) :
    (closeLabel (.within data label written)).touched = Set.Ico (label : Int) (label + 1) := by
  have hwrite := (data.splice (label + 1) written).yields_write (i := label)
    [UInt8.ofNat written.length] (by rw [List.length_singleton]; omega)
  rw [closeLabel_of_le hle, ← bind_eq, hwrite.touched_bind]
  simp

theorem LabelScan.within_store (c : Octet)
    (hroom : label + 1 + (written.length + 1) ≤ UDP_DATA_SIZE) :
    ((LabelScan.within data label written).data.write (LabelScan.within data label written).t
      [c]).Yields (data.splice (label + 1) (written ++ [c])) := by
  have hwrite := (data.splice (label + 1) written).yields_write (i := label + 1 + written.length)
    [c] (by rw [List.length_singleton]; omega)
  rwa [data.splice_splice _ _ (by rw [List.length_singleton]; omega)] at hwrite

theorem LabelScan.behind_next :
    { LabelScan.behind data label os with t := (LabelScan.behind data label os).t + 1 } =
      LabelScan.within (data.splice label os) (label + os.length) [] := by
  simp [LabelScan.behind, LabelScan.within]

theorem LabelScan.within_next (c : Octet) :
    { LabelScan.within data label written with
      data := data.splice (label + 1) (written ++ [c])
      t := (LabelScan.within data label written).t + 1 } =
      LabelScan.within data label (written ++ [c]) := by
  simp [LabelScan.within, Nat.add_assoc]

theorem LabelScan.behind_behind {os' : List Octet}
    (hroom : label + os.length + os'.length ≤ UDP_DATA_SIZE) :
    LabelScan.behind (data.splice label os) (label + os.length) os' =
      LabelScan.behind data label (os ++ os') := by
  simp [LabelScan.behind, data.splice_splice _ _ hroom, Nat.add_assoc]

theorem fillLoop_yields (s : List Octet) (data : Buffer UDP_DATA_SIZE) (label : Nat)
    (written : List Octet) (hroom : label + 1 + written.length + s.length ≤ UDP_DATA_SIZE) :
    (fillLoop s (.within data label written)).Yields
      ((fillLabels written s).map (.behind data label)) := by
  induction s generalizing data label written with
  | nil =>
      rw [fillLoop, fillLabels]
      by_cases hlong : LABEL_LENGTH < written.length
      · rw [closeLabel_of_lt hlong, if_pos hlong]
        exact yields_pure _
      · rw [if_neg hlong]
        exact closeLabel_yields hlong hroom
  | cons c s ih =>
      rw [List.length_cons] at hroom
      rw [fillLoop, fillLabels]
      by_cases hdot : c = ch '.'
      · rw [if_pos hdot, if_pos hdot]
        by_cases hlong : LABEL_LENGTH < written.length
        · rw [closeLabel_of_lt hlong, if_pos hlong]
          exact yields_pure _
        · rw [if_neg hlong]
          refine (closeLabel_yields hlong (by omega)).bind ?_
          have hrest := ih (data.splice label (UInt8.ofNat written.length :: written))
            (label + (written.length + 1)) [] (by
              rw [List.length_nil]
              omega)
          dsimp only
          rw [LabelScan.behind_next]
          cases hs : fillLabels [] s with
          | none =>
              rw [hs] at hrest
              exact hrest
          | some os =>
              have hlen := length_fillLabels hs
              rw [hs, Option.map_some, ← List.length_cons, LabelScan.behind_behind (by
                simp only [List.length_cons, List.length_nil] at hlen ⊢
                omega)] at hrest
              exact hrest
      · rw [if_neg hdot, if_neg hdot]
        refine (LabelScan.within_store c (by omega)).bind ?_
        rw [LabelScan.within_next]
        exact ih _ _ _ (by rw [List.length_append, List.length_singleton]; omega)

theorem fillLoop_touched (data : Buffer UDP_DATA_SIZE) (label : Nat)
    (hroom : label + 1 + written.length + s.length ≤ UDP_DATA_SIZE)
    (hos : fillLabels written s = some os) :
    (fillLoop s (.within data label written)).touched =
      Set.Ico (label : Int) (label + 1) ∪
        Set.Ico (label + 1 + written.length : Int) (label + os.length) := by
  have hlen := length_fillLabels hos
  induction s generalizing data label written os with
  | nil =>
      rw [fillLabels, Option.ite_none_left_eq_some] at hos
      rw [List.length_nil] at hroom hlen
      have hempty : Set.Ico (label + 1 + written.length : Int) (label + os.length) = ∅ :=
        Set.Ico_eq_empty (by omega)
      rw [fillLoop, closeLabel_touched hos.1 hroom, hempty, Set.union_empty]
  | cons c s ih =>
      rw [List.length_cons] at hroom hlen
      rw [fillLabels] at hos
      rw [fillLoop]
      by_cases hdot : c = ch '.'
      · rw [if_pos hdot, Option.ite_none_left_eq_some, Option.map_eq_some_iff] at hos
        obtain ⟨hshort, os', hos', rfl⟩ := hos
        have hlen' := length_fillLabels hos'
        rw [List.length_nil] at hlen'
        rw [if_pos hdot, (closeLabel_yields hshort (by omega)).touched_bind,
          closeLabel_touched hshort (by omega)]
        dsimp only
        rw [LabelScan.behind_next, ih _ _ (by simp only [List.length_cons, List.length_nil]; omega)
          hos' (by rw [List.length_nil]; exact hlen')]
        ext i
        simp only [Set.mem_union, Set.mem_Ico, List.length_append, List.length_cons,
          List.length_nil]
        omega
      · rw [if_neg hdot] at hos
        rw [if_neg hdot, (LabelScan.within_store c (by omega)).touched_bind,
          LabelScan.within_next,
          ih _ _ (by simp only [List.length_append, List.length_singleton]; omega) hos
            (length_fillLabels hos),
          Buffer.touched_write]
        ext i
        simp only [LabelScan.within, Set.mem_union, Set.mem_Ico, List.length_append,
          List.length_singleton]
        omega

end

/-! ### The question written in place -/

/-- The octets of a question: its labels, a root label if they need one, the type and the class. -/
def questionOctets (labels : List Octet) (needRoot : Bool) (rrClass type : Nat) : List Octet :=
  labels ++ List.replicate needRoot.toNat 0 ++ [0, UInt8.ofNat type, 0, UInt8.ofNat rrClass]

section

variable (data : Buffer UDP_DATA_SIZE) {os : List Octet}

theorem store_behind (os os' : List Octet) (hroom : os.length + os'.length ≤ UDP_DATA_SIZE) :
    ((data.splice 0 os).write os.length os').Yields (data.splice 0 (os ++ os')) := by
  have hwrite := (data.splice 0 os).yields_write (i := os.length) os' hroom
  have hjoin := data.splice_splice (i := 0) os os' (by omega)
  rw [Nat.zero_add] at hjoin
  rwa [hjoin] at hwrite

/-- The state behind a root label that is written when one is needed. -/
def LabelScan.rooted (data : Buffer UDP_DATA_SIZE) (os : List Octet) (needRoot : Bool) :
    LabelScan :=
  { data := data.splice 0 (os ++ List.replicate needRoot.toNat 0)
    label := os.length + needRoot.toNat
    t := os.length }

theorem storeRoot_yields (needRoot : Bool) (hroom : os.length + 1 ≤ UDP_DATA_SIZE) :
    (storeRoot needRoot (.behind data 0 os)).Yields (.rooted data os needRoot) := by
  cases needRoot with
  | false => simp [storeRoot, LabelScan.behind, LabelScan.rooted]
  | true =>
      simp only [storeRoot, LabelScan.behind, LabelScan.rooted, Nat.zero_add, if_true]
      exact (store_behind data os [0] hroom).bind (yields_pure _)

theorem storeRoot_touched (needRoot : Bool) (hroom : os.length + 1 ≤ UDP_DATA_SIZE) :
    (storeRoot needRoot (.behind data 0 os)).touched =
      Set.Ico (os.length : Int) (os.length + needRoot.toNat) := by
  have hstore := store_behind data os [0] hroom
  cases needRoot with
  | false => simp [storeRoot]
  | true =>
      simp only [storeRoot, LabelScan.behind, Nat.zero_add, if_true, hstore.touched_bind,
        touched_pure, Set.union_empty, Buffer.touched_write]
      rfl

theorem completeQuestion_yields (rrClass type : Nat) (scan : LabelScan)
    (hdata : scan.data = data.splice 0 os) (hlabel : scan.label = os.length)
    (hroom : os.length + 4 ≤ UDP_DATA_SIZE) :
    (completeQuestion rrClass type scan).Yields
        (data.splice 0 (os ++ [0, UInt8.ofNat type, 0, UInt8.ofNat rrClass])) ∧
      (completeQuestion rrClass type scan).touched =
        Set.Ico (os.length : Int) (os.length + 4) := by
  have hzero := store_behind data os [0] (by rw [List.length_singleton]; omega)
  have htype := store_behind data (os ++ [0]) [UInt8.ofNat type]
    (by simp only [List.length_append, List.length_singleton]; omega)
  have hhigh := store_behind data (os ++ [0, UInt8.ofNat type]) [0]
    (by simp only [List.length_append, List.length_cons, List.length_nil]; omega)
  have hclass := store_behind data (os ++ [0, UInt8.ofNat type, 0]) [UInt8.ofNat rrClass]
    (by simp only [List.length_append, List.length_cons, List.length_nil]; omega)
  simp only [List.length_append, List.length_cons, List.length_nil, List.append_assoc,
    List.cons_append, List.nil_append, Nat.zero_add] at htype hhigh hclass
  unfold completeQuestion
  rw [hdata, hlabel]
  refine ⟨hzero.bind (htype.bind (hhigh.bind hclass)), ?_⟩
  rw [hzero.touched_bind, htype.touched_bind, hhigh.touched_bind]
  ext i
  simp only [Buffer.touched_write, Set.mem_union, Set.mem_Ico, List.length_cons, List.length_nil]
  omega

end

/-- The length of the packet, as it is worked out from the name. -/
def packetLength (name : List Octet) : Nat :=
  HEADER_SIZE + 1 + name.length + (needRoot name).toNat + 2 * NET_SHORT_BYTE_SIZE

section

variable {q : UdpPacket} {id : UInt16} {rrClass type : Nat} {name : CString} {useRecursion : Bool}

/-- The packet of a query that has been filled. -/
def UdpPacket.filled (q : UdpPacket) (id : UInt16) (rrClass type : Nat) (name : List Octet)
    (useRecursion : Bool) (labels : List Octet) : UdpPacket :=
  { length := packetLength name
    header :=
      { id := id, bits := if useRecursion then PDQ_BITS_RD else q.header.bits
        qdcount := 1, ancount := 0, nscount := 0, arcount := 0 }
    data := q.data.splice 0 (questionOctets labels (needRoot name) rrClass type) }

theorem loopName_eq (name : List Octet) :
    loopName name = if name.head? = some (ch '.') then name.tail else name := by
  cases name with
  | nil => rfl
  | cons c name =>
      by_cases hdot : c = ch '.'
      · simp [loopName, hdot]
      · simp [loopName, hdot]

theorem length_loopName (name : List Octet) :
    (loopName name).length + (if name.head? = some (ch '.') then 1 else 0) = name.length := by
  rw [loopName_eq]
  cases name with
  | nil => rfl
  | cons c name =>
      split
      · rfl
      · rfl

theorem length_loopName_le (name : List Octet) : (loopName name).length ≤ name.length := by
  have hlen := length_loopName name
  omega

theorem loopName_room (hlen : name.octets.length < DOMAIN_SIZE) :
    0 + 1 + ([] : List Octet).length + (loopName name.octets).length ≤ UDP_DATA_SIZE := by
  have hle := length_loopName_le name.octets
  change 0 + 1 + 0 + _ ≤ 500
  change _ < 256 at hlen
  omega

theorem fillLoop_start (hlen : name.octets.length < DOMAIN_SIZE) :
    (fillLoop (loopName name.octets) { data := q.data, label := 0, t := 1 }).Yields
      ((fillLabels [] (loopName name.octets)).map (.behind q.data 0)) := by
  have hloop := fillLoop_yields _ q.data 0 [] (loopName_room hlen)
  rwa [LabelScan.within, Buffer.splice_nil] at hloop

theorem fillLoop_start_touched {os : List Octet} (hlen : name.octets.length < DOMAIN_SIZE)
    (hos : fillLabels [] (loopName name.octets) = some os) :
    (fillLoop (loopName name.octets) { data := q.data, label := 0, t := 1 }).touched =
      Set.Ico 0 (os.length : Int) := by
  have htouched := fillLoop_touched q.data 0 (loopName_room hlen) hos
  have hos := length_fillLabels hos
  rw [LabelScan.within, Buffer.splice_nil] at htouched
  refine htouched.trans ?_
  ext i
  simp only [List.length_nil, Set.mem_union, Set.mem_Ico]
  omega

theorem length_fillLabels_le {os : List Octet} (hlen : name.octets.length < DOMAIN_SIZE)
    (hos : fillLabels [] (loopName name.octets) = some os) : os.length ≤ 256 := by
  have hle := length_loopName_le name.octets
  have hos := length_fillLabels hos
  rw [List.length_nil] at hos
  change _ < 256 at hlen
  omega

theorem pdqQueryFillInto_of_some (q : UdpPacket) (id : UInt16) (rrClass type : Nat)
    (useRecursion : Bool) {os : List Octet} (hlen : name.octets.length < DOMAIN_SIZE)
    (hos : fillLabels [] (loopName name.octets) = some os) :
    (pdqQueryFillInto q id rrClass type name useRecursion).Yields
        (some (q.filled id rrClass type name.octets useRecursion os)) ∧
      (pdqQueryFillInto q id rrClass type name useRecursion).touched =
        Set.Ico 0 ((questionOctets os (needRoot name.octets) rrClass type).length : Int) := by
  have hloop := fillLoop_start (q := q) hlen
  have htouched := fillLoop_start_touched (q := q) hlen hos
  have hle := length_fillLabels_le hlen hos
  have hbool := (needRoot name.octets).toNat_le
  have hroom : os.length + 1 ≤ UDP_DATA_SIZE := by
    change _ ≤ 500
    omega
  have hroot := storeRoot_yields q.data (needRoot name.octets) hroom
  have hcomplete := completeQuestion_yields q.data rrClass type
    (.rooted q.data os (needRoot name.octets)) rfl
    (by simp [LabelScan.rooted])
    (by
      rw [List.length_append, List.length_replicate]
      change _ ≤ 500
      omega)
  rw [hos] at hloop
  unfold pdqQueryFillInto
  dsimp only
  rw [if_neg (Nat.not_le.mpr hlen)]
  refine ⟨hloop.bind (hroot.bind (hcomplete.1.bind (yields_pure _))), ?_⟩
  refine (hloop.touched_bind _).trans ?_
  rw [Option.map_some]
  dsimp only
  rw [hroot.touched_bind, hcomplete.1.touched_bind, htouched, storeRoot_touched _ _ hroom,
    hcomplete.2, touched_pure]
  ext i
  simp only [questionOctets, Set.mem_union, Set.mem_Ico, Set.mem_empty_iff_false, or_false,
    List.length_append, List.length_replicate, List.length_cons, List.length_nil]
  omega

theorem pdqQueryFillInto_yields (hlen : name.octets.length < DOMAIN_SIZE) :
    (pdqQueryFillInto q id rrClass type name useRecursion).Yields
      ((fillLabels [] (loopName name.octets)).map
        (q.filled id rrClass type name.octets useRecursion)) := by
  cases hos : fillLabels [] (loopName name.octets) with
  | some os => exact (pdqQueryFillInto_of_some _ _ _ _ _ hlen hos).1
  | none =>
      have hloop := fillLoop_start (q := q) hlen
      rw [hos] at hloop
      unfold pdqQueryFillInto
      dsimp only
      rw [if_neg (Nat.not_le.mpr hlen)]
      exact hloop.bind (yields_pure _)

end

/-! ### The same question as `pdqQueryFill` -/

theorem length_headerOctets (header : Header) : header.octets.length = HEADER_SIZE := rfl

theorem UdpPacket.octet_data (q : UdpPacket) (i : Nat) :
    q.packet.octet (HEADER_SIZE + i) = q.data.get i := by
  have hlen := length_headerOctets q.header
  unfold UdpPacket.packet Buffer.get
  dsimp only
  rw [List.getD_append_right _ _ _ _ (by omega), hlen, Nat.add_sub_cancel_left]

theorem get_splice_zero {n : Nat} (os : List Octet) (h : os.length ≤ n) (i : Nat) :
    ((Buffer.replicate n 0).splice 0 os).get i = os.getD i 0 := by
  unfold Buffer.get
  rw [Buffer.octets_splice _ (by omega), List.take_zero, List.nil_append, Nat.zero_add]
  by_cases hi : i < os.length
  · rw [List.getD_append _ _ _ _ hi]
  · rw [List.getD_append_right _ _ _ _ (by omega), List.getD_eq_default os _ (by omega)]
    rw [Buffer.replicate, List.drop_replicate]
    exact List.getElem?_getD_replicate_default_eq _ _ _

theorem needRoot_toNat (name : List Octet) :
    (needRoot name).toNat = if name ≠ [] ∧ name.getLast? ≠ some (ch '.') then 1 else 0 := by
  unfold needRoot
  by_cases h : name ≠ [] ∧ name.getLast? ≠ some (ch '.')
  · rw [if_pos h, decide_eq_true ⟨List.length_pos_iff.mpr h.1, h.2⟩]
    rfl
  · rw [if_neg h, decide_eq_false fun hn => h ⟨List.length_pos_iff.mp hn.1, hn.2⟩]
    rfl

/-- What a routine that is given a packet sees of its question. -/
def Packet.question (packet : Packet) : Nat × Header × (Nat → Octet) :=
  (packet.length, packet.header, fun i => packet.octet (HEADER_SIZE + i))

/-- In a new packet, the question written in place is the one that `pdqQueryFill` puts together. -/
theorem pdqQueryFillInto_refines {q : UdpPacket} (hdata : q.data = Buffer.replicate UDP_DATA_SIZE 0)
    (id : UInt16) (rrClass type : Nat) (name : CString) :
    (pdqQueryFillInto q id rrClass type name true).Ends fun filled =>
      filled.map (·.packet.question) =
        (pdqQueryFill id rrClass type name.octets).map Packet.question := by
  unfold pdqQueryFill
  by_cases hlen : DOMAIN_SIZE ≤ name.octets.length
  · rw [pdqQueryFillInto, if_pos hlen, if_pos hlen]
    exact ends_pure.mpr rfl
  · rw [if_neg hlen, ← loopName_eq, (pdqQueryFillInto_yields (Nat.lt_of_not_le hlen)).ends_iff,
      ← needRoot_toNat]
    dsimp only
    cases hos : fillLabels [] (loopName name.octets) with
    | none => rfl
    | some os =>
        have hle := length_fillLabels_le (Nat.lt_of_not_le hlen) hos
        have hbool := (needRoot name.octets).toNat_le
        simp only [Option.map_some, Option.some.injEq, Packet.question]
        refine Prod.ext rfl (Prod.ext rfl (funext fun i => ?_))
        dsimp only
        rw [UdpPacket.octet_data, if_neg (by omega), Nat.add_sub_cancel_left, UdpPacket.filled,
          hdata]
        exact get_splice_zero _ (by
          simp only [questionOctets, List.length_append, List.length_replicate, List.length_cons,
            List.length_nil]
          change _ ≤ 500
          omega) i

theorem pdqQueryFillInto_refines_cleared :
    (pdqQueryFillInto .cleared 7 PDQ_CLASS_IN PDQ_TYPE_A ⟨ascii "a.b", by decide⟩ true).Ends
      fun filled => filled.map (·.packet.question) =
        (pdqQueryFill 7 PDQ_CLASS_IN PDQ_TYPE_A (ascii "a.b")).map Packet.question :=
  pdqQueryFillInto_refines rfl ..

/-! ### Names of questions -/

/-- The text of a name: dots between its labels, and the root dot in front of them or behind them, if
it is given. The root name is a dot. -/
def questionText (leading : Bool) (labels : List (List Octet)) (trailing : Bool) : List Octet :=
  if labels = [] then [ch '.']
  else
    List.replicate leading.toNat (ch '.') ++ List.intercalate [ch '.'] labels ++
      List.replicate trailing.toNat (ch '.')

/-- A name to ask for. -/
structure QuestionName where
  leading : Bool
  labels : List (List Octet)
  trailing : Bool
  label_length : ∀ label ∈ labels, 0 < label.length ∧ label.length ≤ 63
  label_noNul : ∀ label ∈ labels, 0 ∉ label
  label_noDot : ∀ label ∈ labels, ch '.' ∉ label
  text_length : (questionText leading labels trailing).length ≤ 253

theorem mem_intercalate_dot {labels : List (List Octet)} {c : Octet}
    (h : c ∈ List.intercalate [ch '.'] labels) : c = ch '.' ∨ ∃ label ∈ labels, c ∈ label := by
  induction labels with
  | nil => cases h
  | cons label labels ih =>
      cases labels with
      | nil =>
          rw [List.intercalate_singleton] at h
          exact .inr ⟨label, List.mem_singleton_self label, h⟩
      | cons label' labels =>
          rw [List.intercalate_cons_cons, List.mem_append, List.mem_append,
            List.mem_singleton] at h
          rcases h with (h | h) | h
          · exact .inr ⟨label, List.mem_cons_self, h⟩
          · exact .inl h
          · rcases ih h with h | ⟨label, hmem, h⟩
            · exact .inl h
            · exact .inr ⟨label, List.mem_cons_of_mem _ hmem, h⟩

/-- The name as the caller gives it. -/
def QuestionName.text (name : QuestionName) : CString :=
  { octets := questionText name.leading name.labels name.trailing
    noNul := by
      intro h
      unfold questionText at h
      split at h
      · exact absurd h (by decide)
      · simp only [List.mem_append, List.mem_replicate] at h
        rcases h with (⟨-, h⟩ | h) | ⟨-, h⟩
        · exact absurd h (by decide)
        · rcases mem_intercalate_dot h with h | ⟨label, hmem, h⟩
          · exact absurd h (by decide)
          · exact name.label_noNul label hmem h
        · exact absurd h (by decide) }

/-- The octets of labels, each with its length in front. -/
def wireLabels (labels : List (List Octet)) : List Octet :=
  labels.flatMap fun label => UInt8.ofNat label.length :: label

theorem wireLabels_cons (label : List Octet) (labels : List (List Octet)) :
    wireLabels (label :: labels) = UInt8.ofNat label.length :: label ++ wireLabels labels := rfl

section

variable {written label s : List Octet} {labels : List (List Octet)}

theorem fillLabels_append (h : ch '.' ∉ label) :
    fillLabels written (label ++ s) = fillLabels (written ++ label) s := by
  induction label generalizing written with
  | nil => rw [List.nil_append, List.append_nil]
  | cons c label ih =>
      rw [List.mem_cons, not_or] at h
      rw [List.cons_append, fillLabels, if_neg (Ne.symm h.1), ih h.2, List.append_assoc]
      rfl

theorem fillLabels_dot (h : label.length ≤ LABEL_LENGTH) :
    fillLabels label (ch '.' :: s) =
      (fillLabels [] s).map (UInt8.ofNat label.length :: label ++ ·) := by
  rw [fillLabels, if_pos rfl, if_neg (Nat.not_lt.mpr h)]

theorem fillLabels_intercalate (trailing : Bool) (hne : labels ≠ [])
    (hlength : ∀ label ∈ labels, label.length ≤ LABEL_LENGTH)
    (hdot : ∀ label ∈ labels, ch '.' ∉ label) :
    fillLabels []
        (List.intercalate [ch '.'] labels ++ List.replicate trailing.toNat (ch '.')) =
      some (wireLabels labels ++ List.replicate trailing.toNat 0) := by
  induction labels with
  | nil => exact absurd rfl hne
  | cons label labels ih =>
      have hlabel := hlength label List.mem_cons_self
      have hplain := hdot label List.mem_cons_self
      cases labels with
      | nil =>
          rw [List.intercalate_singleton, fillLabels_append hplain, List.nil_append]
          cases trailing with
          | false => simp [fillLabels, wireLabels, hlabel]
          | true => simp [fillLabels, wireLabels, hlabel]
      | cons label' labels =>
          rw [List.intercalate_cons_cons, List.append_assoc, List.append_assoc,
            fillLabels_append hplain, List.nil_append, List.singleton_append,
            fillLabels_dot hlabel, ih (by simp) (fun l hl => hlength l (List.mem_cons_of_mem _ hl))
              (fun l hl => hdot l (List.mem_cons_of_mem _ hl)),
            Option.map_some, wireLabels_cons label, List.append_assoc]

theorem head?_intercalate (hne : labels ≠ []) (hlength : ∀ label ∈ labels, 0 < label.length)
    (hdot : ∀ label ∈ labels, ch '.' ∉ label) :
    (List.intercalate [ch '.'] labels ++ s).head? ≠ some (ch '.') := by
  cases labels with
  | nil => exact absurd rfl hne
  | cons label labels =>
      have hplain := hdot label List.mem_cons_self
      have hpos := hlength label List.mem_cons_self
      cases label with
      | nil => cases hpos
      | cons c label =>
          rw [List.mem_cons, not_or] at hplain
          have hhead : (List.intercalate [ch '.'] ((c :: label) :: labels)).head? = some c := by
            cases labels with
            | nil => simp
            | cons label' labels => simp
          rw [List.head?_append, hhead]
          exact fun h => hplain.1 (Option.some.inj h).symm

theorem getLast?_intercalate (hne : labels ≠ []) (hlength : ∀ label ∈ labels, 0 < label.length)
    (hdot : ∀ label ∈ labels, ch '.' ∉ label) :
    ∃ c, (List.intercalate [ch '.'] labels).getLast? = some c ∧ c ≠ ch '.' := by
  induction labels with
  | nil => exact absurd rfl hne
  | cons label labels ih =>
      cases labels with
      | nil =>
          have hplain := hdot label List.mem_cons_self
          have hpos := List.ne_nil_of_length_pos (hlength label List.mem_cons_self)
          rw [List.intercalate_singleton]
          refine ⟨label.getLast hpos, List.getLast?_eq_some_getLast hpos, fun h => hplain ?_⟩
          rw [← h]
          exact List.getLast_mem hpos
      | cons label' labels =>
          obtain ⟨c, hc, hdot⟩ := ih (by simp)
            (fun l hl => hlength l (List.mem_cons_of_mem _ hl))
            (fun l hl => hdot l (List.mem_cons_of_mem _ hl))
          refine ⟨c, ?_, hdot⟩
          rw [List.intercalate_cons_cons, List.getLast?_append, hc]
          rfl

end

namespace QuestionName

variable (name : QuestionName)

/-- The name begins with a dot. -/
def StartsWithDot : Prop :=
  name.text.octets.head? = some (ch '.')

instance : Decidable name.StartsWithDot :=
  inferInstanceAs (Decidable (_ = _))

theorem text_octets_of_ne_nil (hne : name.labels ≠ []) :
    name.text.octets = List.replicate name.leading.toNat (ch '.') ++
      (List.intercalate [ch '.'] name.labels ++ List.replicate name.trailing.toNat (ch '.')) := by
  change questionText _ _ _ = _
  rw [questionText, if_neg hne, List.append_assoc]

theorem loopName_text (hne : name.labels ≠ []) :
    loopName name.text.octets =
      List.intercalate [ch '.'] name.labels ++ List.replicate name.trailing.toNat (ch '.') := by
  have hhead := head?_intercalate (s := List.replicate name.trailing.toNat (ch '.')) hne
    (fun label h => (name.label_length label h).1) name.label_noDot
  rw [loopName_eq, name.text_octets_of_ne_nil hne]
  cases name.leading with
  | false =>
      rw [Bool.toNat_false, List.replicate_zero, List.nil_append, if_neg hhead]
  | true => rfl

theorem needRoot_text (hne : name.labels ≠ []) :
    needRoot name.text.octets = !name.trailing := by
  obtain ⟨c, hc, hdot⟩ := getLast?_intercalate hne
    (fun label h => (name.label_length label h).1) name.label_noDot
  have hlast : name.text.octets.getLast? = some (if name.trailing then ch '.' else c) := by
    rw [name.text_octets_of_ne_nil hne, List.getLast?_append, List.getLast?_append, hc]
    cases name.trailing with
    | false => rfl
    | true => rfl
  have hpos : 0 < name.text.octets.length := by
    rw [List.length_pos_iff]
    rintro hnil
    rw [hnil] at hlast
    cases hlast
  unfold needRoot
  rw [hlast]
  cases name.trailing with
  | false => simpa [hpos] using hdot
  | true => simp

theorem fillLabels_text : ∃ os, fillLabels [] (loopName name.text.octets) = some os ∧
    os ++ List.replicate (needRoot name.text.octets).toNat 0 = wireLabels name.labels ++ [0] := by
  by_cases hne : name.labels = []
  · have htext : name.text.octets = [ch '.'] := if_pos hne
    refine ⟨[0], ?_, ?_⟩
    · rw [htext]
      rfl
    · rw [htext, hne]
      rfl
  · refine ⟨wireLabels name.labels ++ List.replicate name.trailing.toNat 0, ?_, ?_⟩
    · rw [name.loopName_text hne]
      exact fillLabels_intercalate name.trailing hne
        (fun label h => (name.label_length label h).2) name.label_noDot
    · rw [name.needRoot_text hne, List.append_assoc]
      cases name.trailing with
      | false => rfl
      | true => rfl

theorem packetLength_text : packetLength name.text.octets =
    HEADER_SIZE + ((wireLabels name.labels).length + 5) +
      (if name.StartsWithDot then 1 else 0) := by
  obtain ⟨os, hos, hlabels⟩ := name.fillLabels_text
  have hlength := length_fillLabels hos
  have hlabels := congrArg List.length hlabels
  have hloop : (loopName name.text.octets).length + (if name.StartsWithDot then 1 else 0) =
      name.text.octets.length := length_loopName _
  simp only [List.length_append, List.length_replicate, List.length_cons, List.length_nil]
    at hlength hlabels
  change HEADER_SIZE + 1 + name.text.octets.length + (needRoot name.text.octets).toNat + 4 = _
  omega

end QuestionName

/-! ### What the question says -/

theorem nameAt_of_octets {packet : Packet} {p : Nat} {labels : List (List Octet)}
    (hlength : ∀ label ∈ labels, 0 < label.length ∧ label.length ≤ 63)
    (hoctets : packet.octets p ((wireLabels labels).length + 1) = wireLabels labels ++ [0])
    (hroom : p + (wireLabels labels).length + 1 ≤ packet.length) :
    NameAt packet p labels (p + (wireLabels labels).length + 1) := by
  induction labels generalizing p with
  | nil =>
      have hroot : [packet.octet p] = [0] := hoctets
      exact .root hroom (List.head_eq_of_cons_eq hroot)
  | cons label labels ih =>
      have hlabel := hlength label List.mem_cons_self
      have hlen : (wireLabels (label :: labels)).length =
          label.length + (wireLabels labels).length + 1 := by
        rw [wireLabels_cons]
        simp
      have hcount : (wireLabels (label :: labels)).length + 1 =
          label.length + ((wireLabels labels).length + 1) + 1 := by omega
      rw [hcount, Packet.octets_succ, Packet.octets_add, wireLabels_cons, List.append_assoc,
        List.cons_append, List.cons.injEq] at hoctets
      obtain ⟨hfirst, hrest⟩ := hoctets
      obtain ⟨htext, hrest⟩ := List.append_inj hrest (by simp)
      have hoctet : (packet.octet p).toNat = label.length := by
        rw [hfirst, UInt8.toNat_ofNat']
        omega
      have hnext : p + 1 + label.length = p + (label.length + 1) := by omega
      rw [hnext] at hrest
      have hname := ih (fun l hl => hlength l (List.mem_cons_of_mem _ hl)) hrest (by omega)
      have hend : p + (label.length + 1) + (wireLabels labels).length + 1 =
          p + (wireLabels (label :: labels)).length + 1 := by omega
      rw [hend] at hname
      exact .label (by omega) hlabel.1 hlabel.2 hoctet htext hname

/-- A name has one dot behind it when it is copied out of the question, and the type and the class
follow it there. -/
structure Packet.Asks (packet : Packet) (name : QuestionName) (rrClass type : Nat) : Prop where
  copied : ∀ buf : Buffer DOMAIN_SIZE, ∃ text : Buffer DOMAIN_SIZE,
    (pdqNameCopy packet HEADER_SIZE buf).outcome =
        .done (((nameText name.labels).length : Int), text) ∧
      text.cstring = nameText name.labels
  fields : ∃ ptr, (pdqNameSkip packet HEADER_SIZE).outcome = .done (some ptr) ∧
    packet.short ptr = type ∧ packet.short (ptr + 2) = rrClass

/-- The query is filled with a question for the name: `packet.length` is that of the header and of
the octets stored. -/
def EncodesQuestion (run : Run (Option UdpPacket)) (name : QuestionName) (rrClass type : Nat) :
    Prop :=
  run.Ends fun filled => ∃ q, filled = some q ∧ q.length = HEADER_SIZE + run.touched.ncard ∧
    q.packet.Asks name rrClass type

theorem ncard_Ico_zero (n : Nat) : (Set.Ico (0 : Int) n).ncard = n := by
  rw [Set.ncard_eq_toFinset_card', Set.toFinset_Ico, Int.card_Ico]
  simp

theorem UdpPacket.octets_splice {q : UdpPacket} (data : Buffer UDP_DATA_SIZE) {os : List Octet}
    (hdata : q.data = data.splice 0 os) (hroom : os.length ≤ UDP_DATA_SIZE) :
    q.packet.octets HEADER_SIZE os.length = os := by
  refine List.ext_getElem (by simp) fun i hi hi' => ?_
  have hget : q.data.get i = os.getD i 0 := by
    rw [hdata, Buffer.get, Buffer.octets_splice _ (by omega), List.take_zero, List.nil_append,
      List.getD_append _ _ _ _ hi']
  rw [List.getD_eq_getElem _ _ hi'] at hget
  rw [← hget, ← UdpPacket.octet_data]
  simp [Packet.octets]

section

variable (name : QuestionName)

theorem QuestionName.map_strncpyOctets : name.labels.map strncpyOctets = name.labels := by
  rw [List.map_congr_left fun label h => strncpyOctets_of_noNul (name.label_noNul label h),
    List.map_id']

theorem length_wireLabels (labels : List (List Octet)) :
    (wireLabels labels).length = textLength labels := by
  induction labels with
  | nil => rfl
  | cons label labels ih =>
      rw [wireLabels_cons, List.length_append, ih]
      simp [textLength]

theorem QuestionName.textLength_le : textLength name.labels ≤ 254 := by
  have htext := name.text_length
  have hlength := name.packetLength_text
  have hbool := (needRoot name.text.octets).toNat_le
  change HEADER_SIZE + 1 + name.text.octets.length + (needRoot name.text.octets).toNat + 4 = _
    at hlength
  change name.text.octets.length ≤ 253 at htext
  rw [length_wireLabels] at hlength
  omega

theorem QuestionName.noNul_nameText : 0 ∉ nameText name.labels := by
  unfold nameText
  split
  · decide
  · rw [List.mem_flatMap]
    rintro ⟨label, hlabel, h⟩
    rw [List.mem_append, List.mem_singleton] at h
    rcases h with h | h
    · exact name.label_noNul label hlabel h
    · exact absurd h (by decide)

theorem QuestionName.copied {packet : Packet} {p e : Nat} (h : NameAt packet p name.labels e)
    (buf : Buffer DOMAIN_SIZE) :
    (pdqNameCopy packet p buf).outcome = .done (((nameText name.labels).length : Int),
        buf.splice 0 (nameText name.labels ++ [0])) ∧
      (buf.splice 0 (nameText name.labels ++ [0])).cstring = nameText name.labels := by
  have htext := name.textLength_le
  have hcopy := nameCopy_outcome buf h (by omega)
  have hle := length_nameText_le (show textLength name.labels ≤ 255 by omega)
  rw [name.map_strncpyOctets] at hcopy hle
  refine ⟨hcopy, Buffer.cstring_splice_zero _ ?_ name.noNul_nameText⟩
  change _ ≤ 256
  omega

end

theorem short_of_fields {packet : Packet} {ptr rrClass type : Nat}
    (h : packet.octets ptr 4 = [0, UInt8.ofNat type, 0, UInt8.ofNat rrClass]) :
    packet.short ptr = type % 256 ∧ packet.short (ptr + 2) = rrClass % 256 := by
  have hoctets : [packet.octet ptr, packet.octet (ptr + 1), packet.octet (ptr + 2),
      packet.octet (ptr + 3)] = [0, UInt8.ofNat type, 0, UInt8.ofNat rrClass] := h
  simp only [List.cons.injEq, and_true] at hoctets
  obtain ⟨htypeHigh, htype, hclassHigh, hclass⟩ := hoctets
  constructor
  · rw [Packet.short, htypeHigh, htype, UInt8.toNat_ofNat']
    exact Nat.zero_add _
  · rw [Packet.short, hclassHigh, hclass, UInt8.toNat_ofNat']
    exact Nat.zero_add _

theorem Packet.asks_iff {packet : Packet} {name : QuestionName} {rrClass type : Nat}
    (hoctets : packet.octets HEADER_SIZE ((wireLabels name.labels).length + 5) =
      wireLabels name.labels ++ [0] ++ [0, UInt8.ofNat type, 0, UInt8.ofNat rrClass])
    (hroom : HEADER_SIZE + (wireLabels name.labels).length + 1 ≤ packet.length) :
    packet.Asks name rrClass type ↔ type < 256 ∧ rrClass < 256 := by
  have hcount : (wireLabels name.labels).length + 5 = (wireLabels name.labels).length + 1 + 4 := rfl
  rw [hcount, Packet.octets_add] at hoctets
  obtain ⟨hlabels, hfields⟩ := List.append_inj hoctets (by simp)
  have hname := nameAt_of_octets name.label_length hlabels hroom
  have hskip := nameSkip_outcome hname
  obtain ⟨htype, hclass⟩ := short_of_fields hfields
  constructor
  · rintro ⟨-, ptr, hptr, htype', hclass'⟩
    rw [hskip] at hptr
    cases hptr
    rw [Nat.add_assoc HEADER_SIZE] at htype' hclass'
    omega
  · rintro ⟨htypeLt, hclassLt⟩
    rw [Nat.mod_eq_of_lt htypeLt] at htype
    rw [Nat.mod_eq_of_lt hclassLt] at hclass
    exact
      { copied := fun buf => ⟨_, name.copied hname buf⟩
        fields := ⟨_, hskip, htype, hclass⟩ }

/-! ### When the question is encoded exactly -/

section

variable (q : UdpPacket) (id : UInt16) (rrClass type : Nat) (name : QuestionName)
  (useRecursion : Bool)

theorem pdqQueryFillInto_name :
    ∃ filled : UdpPacket,
      (pdqQueryFillInto q id rrClass type name.text useRecursion).Yields (some filled) ∧
      filled.length = HEADER_SIZE +
        (pdqQueryFillInto q id rrClass type name.text useRecursion).touched.ncard +
          (if name.StartsWithDot then 1 else 0) ∧
      (filled.packet.Asks name rrClass type ↔ type < 256 ∧ rrClass < 256) := by
  have hlen : name.text.octets.length < DOMAIN_SIZE :=
    Nat.lt_of_le_of_lt name.text_length (by decide)
  obtain ⟨os, hos, hlabels⟩ := name.fillLabels_text
  obtain ⟨hyields, htouched⟩ :=
    pdqQueryFillInto_of_some q id rrClass type useRecursion hlen hos
  have hle := name.textLength_le
  rw [← length_wireLabels] at hle
  have hquestion : questionOctets os (needRoot name.text.octets) rrClass type =
      wireLabels name.labels ++ [0] ++ [0, UInt8.ofNat type, 0, UInt8.ofNat rrClass] := by
    rw [questionOctets, hlabels]
  have hcount : (questionOctets os (needRoot name.text.octets) rrClass type).length =
      (wireLabels name.labels).length + 5 := by
    rw [hquestion]
    simp
  have hlength : (q.filled id rrClass type name.text.octets useRecursion os).length =
      HEADER_SIZE + ((wireLabels name.labels).length + 5) +
        (if name.StartsWithDot then 1 else 0) := name.packetLength_text
  refine ⟨_, hyields, ?_, Packet.asks_iff ?_ ?_⟩
  · rw [htouched, ncard_Ico_zero, hcount, hlength]
  · have hoctets := UdpPacket.octets_splice (q := q.filled id rrClass type name.text.octets
      useRecursion os) q.data rfl (by rw [hcount]; change _ ≤ 500; omega)
    rwa [hcount, hquestion] at hoctets
  · change _ ≤ (q.filled id rrClass type name.text.octets useRecursion os).length
    omega

/-- The question is encoded exactly when the name does not begin with a dot, and the type and the
class fit in an octet. -/
theorem pdqQueryFillInto_encodes_iff :
    EncodesQuestion (pdqQueryFillInto q id rrClass type name.text useRecursion) name rrClass type ↔
      ¬ name.StartsWithDot ∧ type < 256 ∧ rrClass < 256 := by
  obtain ⟨filled, hyields, hlength, hasks⟩ :=
    pdqQueryFillInto_name q id rrClass type name useRecursion
  unfold EncodesQuestion
  rw [hyields.ends_iff]
  simp only [Option.some.injEq, exists_eq_left', hasks, hlength]
  refine and_congr_left fun _ => ?_
  split
  · simpa
  · simpa

end

/-- The root name. -/
def QuestionName.root : QuestionName :=
  { leading := false
    labels := []
    trailing := false
    label_length := nofun
    label_noNul := nofun
    label_noDot := nofun
    text_length := by decide }

/-- The root name is a leading dot: the packet is said to be one octet longer than what was stored. -/
theorem pdqQueryFillInto_not_encodes :
    ¬ EncodesQuestion
      (pdqQueryFillInto .cleared 0 PDQ_CLASS_IN PDQ_TYPE_A QuestionName.root.text true)
      QuestionName.root PDQ_CLASS_IN PDQ_TYPE_A := by
  obtain ⟨filled, hyields, hlength, -⟩ :=
    pdqQueryFillInto_name .cleared 0 PDQ_CLASS_IN PDQ_TYPE_A QuestionName.root true
  have hdot : QuestionName.root.StartsWithDot := by decide
  rw [if_pos hdot] at hlength
  unfold EncodesQuestion
  rw [hyields.ends_iff]
  rintro ⟨q, hq, hexact, -⟩
  cases hq
  omega

end Snert
