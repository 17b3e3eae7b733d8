/-
Module: Snert.Proofs.ReplyDecode
Purpose: `pdq_reply_parse` on what a sender encodes. The list is the one that the message should be
  decoded to, unless a label that is copied has other octets behind a NUL, a record has the type ANY,
  or the message ends in a record without data.
Trusted boundary: none
Main exports: replyParse_decodes_iff
-/
import Snert.Proofs.RecordDecode

namespace Snert

open CModel CModel.Run

/-! ### The records of a message -/

section

variable {packet : Packet} {p q e : Nat}

theorem entriesAt_append {entries entries' : List Entry} :
    EntriesAt packet p (entries ++ entries') e ↔
      ∃ q, EntriesAt packet p entries q ∧ EntriesAt packet q entries' e := by
  induction entries generalizing p with
  | nil =>
      constructor
      · intro h
        exact ⟨p, rfl, h⟩
      · rintro ⟨q, rfl, h⟩
        exact h
  | cons entry entries ih =>
      simp only [List.cons_append, EntriesAt, ih]
      constructor
      · rintro ⟨q, hentry, r, hrest, hrest'⟩
        exact ⟨r, ⟨q, hentry, hrest⟩, hrest'⟩
      · rintro ⟨r, ⟨q, hentry, hrest⟩, hrest'⟩
        exact ⟨q, hentry, r, hrest, hrest'⟩

theorem EntryAt.lt_length {entry : Entry} (h : EntryAt packet p entry e) : p < packet.length := by
  cases entry with
  | record rr =>
      obtain ⟨q, ⟨s, hname, -⟩, -⟩ := h
      exact hname.lt_length
  | other rr =>
      obtain ⟨q, ⟨s, hname, -⟩, -⟩ := h
      exact hname.lt_length

/-- Records with their sections, the first of them the record at index `i` of the packet. -/
def SectionsFrom (packet : Packet) : Nat → List (ReplySection × Entry) → Prop
  | _, [] => True
  | i, entry :: entries => entry.1 = replySection packet i ∧ SectionsFrom packet (i + 1) entries

theorem sectionsFrom_append {i : Nat} {entries entries' : List (ReplySection × Entry)} :
    SectionsFrom packet i (entries ++ entries') ↔
      SectionsFrom packet i entries ∧ SectionsFrom packet (i + entries.length) entries' := by
  induction entries generalizing i with
  | nil => simp [SectionsFrom]
  | cons entry entries ih =>
      rw [List.cons_append, SectionsFrom, SectionsFrom, ih, and_assoc, List.length_cons,
        Nat.add_right_comm, Nat.add_assoc i]

theorem sectionsFrom_map {i : Nat} {rrSection : ReplySection} {entries : List Entry}
    (h : ∀ j < entries.length, replySection packet (i + j) = rrSection) :
    SectionsFrom packet i (entries.map (rrSection, ·)) := by
  induction entries generalizing i with
  | nil => trivial
  | cons entry entries ih =>
      refine ⟨(h 0 (by simp)).symm, ih fun j hj => ?_⟩
      rw [← h (j + 1) (by simpa using hj)]
      congr 1
      omega

/-- The list with the records of entries inserted one by one. -/
def insertEntries (entries : List (ReplySection × Entry)) (list : List PdqRr) : List PdqRr :=
  entries.foldl (fun list entry => insertEntry entry.1 entry.2 list) list

theorem replyLoop_outcome {entries : List (ReplySection × Entry)} {i : Nat}
    (h : EntriesAt packet p (entries.map Prod.snd) e) (hsections : SectionsFrom packet i entries)
    (hany : ∀ entry ∈ entries, entry.2.type ≠ PDQ_TYPE_ANY)
    (hlast : ∀ entry ∈ entries.getLast?, entry.2.NoData → e < packet.length) (rest : Nat)
    (list : List PdqRr) :
    (replyLoop packet (entries.length + rest) i p list).outcome =
      (replyLoop packet rest (i + entries.length) e (insertEntries entries list)).outcome := by
  induction entries generalizing p i list with
  | nil =>
      obtain rfl : e = p := h
      rw [List.length_nil, Nat.zero_add]
      rfl
  | cons entry entries ih =>
      obtain ⟨q, hentry, hrest⟩ := h
      have hnext : entry.2.NoData → q < packet.length := by
        intro hdata
        cases entries with
        | nil =>
            obtain rfl : e = q := hrest
            exact hlast entry rfl hdata
        | cons entry' entries =>
            obtain ⟨r, hentry', -⟩ := hrest
            exact hentry'.lt_length
      have hlast' : ∀ entry ∈ entries.getLast?, entry.2.NoData → e < packet.length := by
        intro entry' hmem
        apply hlast
        cases entries with
        | nil => cases hmem
        | cons first entries => exact hmem
      rw [List.length_cons, Nat.add_right_comm,
        entry_outcome hentry (hany entry List.mem_cons_self) hnext,
        ih hrest hsections.2 (fun entry' hmem => hany entry' (List.mem_cons_of_mem _ hmem)) hlast',
        Nat.add_right_comm, Nat.add_assoc]
      rw [← hsections.1]
      rfl

theorem replyLoop_any (rest : Nat) {entries : List (ReplySection × Entry)} {i : Nat}
    {list list' : List PdqRr} (h : EntriesAt packet p (entries.map Prod.snd) e)
    (hany : ∃ entry ∈ entries, entry.2.type = PDQ_TYPE_ANY)
    (hloop : (replyLoop packet (entries.length + rest) i p list).outcome = .done (some list')) :
    ∃ x ∈ list', x.type = PDQ_TYPE_ANY := by
  induction entries generalizing p i list with
  | nil => simp at hany
  | cons entry entries ih =>
      obtain ⟨q, hentry, hrest⟩ := h
      rw [List.length_cons, Nat.add_right_comm] at hloop
      by_cases htype : entry.2.type = PDQ_TYPE_ANY
      · exact entry_any hentry htype hloop
      · have hlater : ∃ entry ∈ entries, entry.2.type = PDQ_TYPE_ANY := by
          obtain ⟨entry', hmem, htype'⟩ := hany
          rcases List.mem_cons.mp hmem with rfl | hmem
          · exact absurd htype' htype
          · exact ⟨entry', hmem, htype'⟩
        have hnext : q < packet.length := by
          cases entries with
          | nil => simp at hlater
          | cons entry' entries =>
              obtain ⟨r, hentry', -⟩ := hrest
              exact hentry'.lt_length
        rw [entry_outcome hentry htype (fun _ => hnext)] at hloop
        exact ih hrest hlater hloop

theorem replyLoop_stops {entries : List (ReplySection × Entry)} {i : Nat} {list : List PdqRr}
    (h : EntriesAt packet p (entries.map Prod.snd) packet.length)
    (hsections : SectionsFrom packet i entries)
    (hany : ∀ entry ∈ entries, entry.2.type ≠ PDQ_TYPE_ANY)
    (hlast : ∃ entry ∈ entries.getLast?, entry.2.NoData) :
    (replyLoop packet entries.length i p list).outcome = .done none := by
  rcases List.eq_nil_or_concat' entries with rfl | ⟨entries, entry, rfl⟩
  · simp at hlast
  rw [List.map_append] at h
  obtain ⟨q, hinit, r, hentry, hend⟩ := entriesAt_append.mp h
  obtain rfl : packet.length = r := hend
  have hdata : entry.2.NoData := by simpa using hlast
  rw [List.length_append, replyLoop_outcome hinit (sectionsFrom_append.mp hsections).1
    (fun entry' hmem => hany entry' (by simp [hmem])) (fun _ _ _ => hentry.lt_length)]
  exact entry_stops hentry (hany entry (by simp)) hdata 0 _ _

end

/-! ### The order of the list -/

theorem pdqInsert_eq (record : PdqRr) (list : List PdqRr) :
    pdqInsert record list = Lists.insertRun PdqRr.isMx PdqRr.preference record list := by
  induction list with
  | nil => rfl
  | cons q list ih =>
      unfold pdqInsert Lists.insertRun
      rw [ih]
      cases q.isMx with
      | false => simp
      | true =>
          cases record.isMx with
          | false => simp
          | true =>
              by_cases hle : q.preference ≤ record.preference
              · simp [hle]
              · simp [hle, Nat.not_le.mp hle]

theorem insertEntries_nil (entries : List (ReplySection × Entry)) :
    insertEntries entries [] =
      (Lists.sortRuns PdqRr.isMx PdqRr.preference
        ((entries.filterMap fun entry => entry.2.rr?.map (entry.1, ·)).map fun rr =>
          rr.2.decoded strncpyOctets rr.1)).reverse := by
  rw [← Lists.foldl_insertRun, List.foldl_map]
  have hfold : ∀ list, insertEntries entries list =
      (entries.filterMap fun entry => entry.2.rr?.map (entry.1, ·)).foldl (fun list rr =>
        Lists.insertRun PdqRr.isMx PdqRr.preference (rr.2.decoded strncpyOctets rr.1) list) list := by
    induction entries with
    | nil => exact fun list => rfl
    | cons entry entries ih =>
        intro list
        have hcons : insertEntries (entry :: entries) list =
            insertEntries entries (insertEntry entry.1 entry.2 list) := rfl
        rw [hcons, ih, List.filterMap_cons]
        unfold insertEntry
        cases entry.2.rr? with
        | none => rfl
        | some rr =>
            dsimp only [Option.map_some]
            rw [List.foldl_cons, pdqInsert_eq]
  exact hfold []

/-! ### Labels that survive being copied -/

/-- A NUL in the label has nothing but NULs behind it. -/
def NulEnds (label : List Octet) : Prop :=
  ∃ text count, 0 ∉ text ∧ label = text ++ List.replicate count 0

theorem strncpyOctets_eq_iff (label : List Octet) : strncpyOctets label = label ↔ NulEnds label := by
  constructor
  · intro h
    refine ⟨label.takeWhile (· ≠ 0), _, fun hzero => ?_, h.symm⟩
    simpa using List.mem_takeWhile_imp hzero
  · rintro ⟨text, count, htext, rfl⟩
    have htake : (text ++ List.replicate count (0 : Octet)).takeWhile (· ≠ 0) = text := by
      rw [List.takeWhile_append_of_pos fun c hc => by
        simpa using fun hzero : c = 0 => htext (hzero ▸ hc)]
      cases count with
      | zero => simp
      | succ count => simp [List.replicate_succ]
    unfold strncpyOctets
    rw [htake]
    simp

theorem flatMap_dot_inj {copy : List Octet → List Octet} (hcopy : ∀ l, (copy l).length = l.length)
    (labels : List (List Octet)) :
    (labels.map copy).flatMap (fun label => label ++ [ch '.']) =
      labels.flatMap (fun label => label ++ [ch '.']) ↔ ∀ label ∈ labels, copy label = label := by
  induction labels with
  | nil => simp
  | cons label labels ih =>
      rw [List.map_cons, List.flatMap_cons, List.flatMap_cons, List.forall_mem_cons, ← ih]
      constructor
      · intro h
        obtain ⟨hlabel, hrest⟩ := List.append_inj h (by simp [hcopy])
        exact ⟨List.append_cancel_right hlabel, hrest⟩
      · rintro ⟨hlabel, hrest⟩
        rw [hlabel, hrest]

theorem ofText_inj {text text' : List Octet} (hlen : text.length ≤ 255)
    (h : PdqName.ofText text = PdqName.ofText text') : text = text' := by
  obtain ⟨hlength, hvalue⟩ := PdqName.mk.inj h
  have hoctets := congrArg Buffer.octets hvalue
  rw [Buffer.octets_splice _ (by rw [List.length_append, List.length_singleton]; omega),
    Buffer.octets_splice _ (by rw [List.length_append, List.length_singleton]; omega)] at hoctets
  simp only [List.take_zero, List.nil_append, List.append_assoc] at hoctets
  exact (List.append_inj hoctets hlength).1

theorem nameText_id (labels : List (List Octet)) : nameText (labels.map id) = nameText labels := by
  rw [List.map_id]

theorem decoded_eq_iff (name : DomainName) :
    name.decoded strncpyOctets = name.decoded id ↔ ∀ label ∈ name.labels, NulEnds label := by
  simp only [← strncpyOctets_eq_iff]
  unfold DomainName.decoded
  rw [← flatMap_dot_inj length_strncpyOctets, nameText_id]
  by_cases hroot : name.labels = []
  · rw [hroot]
    simp
  have hcopied : nameText (name.labels.map strncpyOctets) =
      (name.labels.map strncpyOctets).flatMap fun label => label ++ [ch '.'] :=
    nameText_of_ne_nil hroot
  have htext : nameText name.labels = name.labels.flatMap fun label => label ++ [ch '.'] :=
    if_neg hroot
  rw [← hcopied, ← htext]
  exact ⟨ofText_inj (length_nameText_le name.text_length), fun h => by rw [h]⟩

/-- The names in the data of a record. -/
def RrData.names : RrData → List DomainName
  | .host name => [name]
  | .mx _ name => [name]
  | .soa mname rname .. => [mname, rname]
  | .minfo rmailbx emailbx => [rmailbx, emailbx]
  | _ => []

/-- The names of a record. -/
def Rr.names (rr : Rr) : List DomainName :=
  rr.name :: rr.data.names

theorem data_decoded_eq_iff (type : Nat) (data : RrData) :
    data.decoded strncpyOctets type = data.decoded id type ↔
      ∀ name ∈ data.names, ∀ label ∈ name.labels, NulEnds label := by
  cases data with
  | address ip => simp [RrData.decoded, RrData.names]
  | host name => simp [RrData.decoded, RrData.names, decoded_eq_iff]
  | mx preference name => simp [RrData.decoded, RrData.names, decoded_eq_iff]
  | strings texts => simp [RrData.decoded, RrData.names]
  | octets os => simp [RrData.decoded, RrData.names]
  | soa mname rname serial refresh retry expire minimum =>
      simp [RrData.decoded, RrData.names, decoded_eq_iff]
  | hinfo cpu os => simp [RrData.decoded, RrData.names]
  | minfo rmailbx emailbx => simp [RrData.decoded, RrData.names, decoded_eq_iff]

theorem rr_decoded_eq_iff (rr : Rr) (rrSection : ReplySection) :
    rr.decoded strncpyOctets rrSection = rr.decoded id rrSection ↔
      ∀ name ∈ rr.names, ∀ label ∈ name.labels, NulEnds label := by
  unfold Rr.decoded Rr.names
  rw [PdqRr.mk.injEq, List.forall_mem_cons, ← decoded_eq_iff, ← data_decoded_eq_iff rr.type]
  simp

theorem rr_decoded_isMx (copy : List Octet → List Octet) (rr : Rr) (rrSection : ReplySection) :
    (rr.decoded copy rrSection).isMx = decide (rr.type = PDQ_TYPE_MX) := rfl

theorem rr_decoded_preference (copy : List Octet → List Octet) (rr : Rr)
    (rrSection : ReplySection) :
    (rr.decoded copy rrSection).preference = (rr.decoded id rrSection).preference := by
  unfold PdqRr.preference Rr.decoded
  dsimp only
  cases rr.data with
  | address ip => rfl
  | host name => rfl
  | mx preference name => rfl
  | strings texts => rfl
  | octets os => rfl
  | soa mname rname serial refresh retry expire minimum => rfl
  | hinfo cpu os => rfl
  | minfo rmailbx emailbx => rfl

theorem sortRuns_decoded_eq_iff (rrs : List (ReplySection × Rr)) :
    Lists.sortRuns PdqRr.isMx PdqRr.preference
        (rrs.map fun rr => rr.2.decoded strncpyOctets rr.1) =
      Lists.sortRuns PdqRr.isMx PdqRr.preference (rrs.map fun rr => rr.2.decoded id rr.1) ↔
      ∀ rr ∈ rrs, ∀ name ∈ rr.2.names, ∀ label ∈ name.labels, NulEnds label := by
  rw [Lists.sortRuns_map, Lists.sortRuns_map]
  simp only [rr_decoded_isMx, rr_decoded_preference strncpyOctets]
  rw [List.map_inj_left]
  simp only [(Lists.perm_sortRuns _ _ _).mem_iff, rr_decoded_eq_iff]

/-! ### The whole message -/

/-- What a message must be for it to be decoded right. -/
structure Message.Decodable (message : Message) : Prop where
  /-- The last record has data. -/
  last_data : ∀ entry ∈ message.entries.getLast?, ¬ entry.NoData
  /-- No record has the type ANY. -/
  no_any : ∀ entry ∈ message.entries, entry.type ≠ PDQ_TYPE_ANY
  /-- The labels of the question survive being copied. -/
  question : ∀ label ∈ message.question.labels, NulEnds label
  /-- The labels of the records that can be decoded survive being copied. -/
  names : ∀ rr ∈ message.supported, ∀ name ∈ rr.2.names, ∀ label ∈ name.labels, NulEnds label

theorem Message.map_sections (message : Message) :
    message.sections.map Prod.snd = message.entries := by
  unfold Message.sections Message.entries
  simp [Function.comp_def]

section

variable {packet : Packet} {message : Message}

theorem Encodes.sections (h : Encodes packet message) :
    SectionsFrom packet 0 message.sections := by
  have han := h.ancount
  have hns := h.nscount
  unfold Message.sections
  rw [sectionsFrom_append, sectionsFrom_append]
  refine ⟨⟨sectionsFrom_map fun j hj => ?_, sectionsFrom_map fun j hj => ?_⟩,
    sectionsFrom_map fun j hj => ?_⟩
  · apply Subtype.ext
    dsimp only [replySection, sectionAt]
    rw [if_pos (by omega)]
  · apply Subtype.ext
    dsimp only [replySection, sectionAt]
    rw [List.length_map, if_neg (by omega), if_pos (by omega)]
  · apply Subtype.ext
    dsimp only [replySection, sectionAt]
    rw [List.length_append, List.length_map, List.length_map, if_neg (by omega), if_neg (by omega)]

theorem Encodes.count (h : Encodes packet message) :
    packet.header.count = message.sections.length := by
  unfold Header.count Message.sections
  simp [h.ancount, h.nscount, h.arcount, Nat.add_assoc]

theorem pdqFillRr_outcome {name : DomainName} {p q : Nat} (h : NameAt packet p name.labels q)
    (hle : q + 4 ≤ packet.length) : (pdqFillRr packet p).outcome = .done
      { name := name.decoded strncpyOctets, type := packet.short q, rrClass := packet.short (q + 2)
        stop := some (q + 4) } := by
  unfold pdqFillRr
  rw [outcome_bind_of_done (copyName_outcome h), outcome_bind_of_done (nameSkip_outcome h)]
  dsimp only
  rw [netGetShort_bind_outcome, if_neg (by omega), netGetShort_bind_outcome, if_neg (by omega),
    outcome_pure]

theorem Encodes.queryRecord (h : Encodes packet message) (stop : Option Nat) :
    Snert.queryRecord packet.header
        { name := message.question.decoded strncpyOctets, type := message.type
          rrClass := message.rrClass, stop := stop } =
      message.query strncpyOctets packet.header := by
  unfold Snert.queryRecord Message.query
  simp only [h.rcode, h.qdcount, h.ancount, h.nscount, h.arcount]
  rfl

theorem Encodes.parse (h : Encodes packet message) : ∃ p,
    EntriesAt packet p (message.sections.map Prod.snd) packet.length ∧
      ∀ list, (pdqReplyParse packet).outcome = .done (PDQ_RCODE_OK, some list) ↔
        ∃ records, (replyLoop packet message.sections.length 0 p []).outcome =
          .done (some records) ∧
          message.query strncpyOctets packet.header :: records.reverse = list := by
  obtain ⟨q, hname, htype, hclass, hle, hentries⟩ := h.body
  refine ⟨q + 4, message.map_sections ▸ hentries, fun list => ?_⟩
  unfold pdqReplyParse Packet.getHeader
  rw [outcome_load_bind, outcome_bind_of_done (pdqFillRr_outcome hname hle), htype, hclass]
  dsimp only
  rw [if_neg (not_not.mpr h.rcode), outcome_bind_eq_done, Option.getD_some, h.count]
  constructor
  · rintro ⟨records, hloop, hlist⟩
    cases records with
    | none => cases hlist
    | some records =>
        refine ⟨records, hloop, ?_⟩
        rw [outcome_pure] at hlist
        rw [← h.queryRecord (some (q + 4))]
        simpa using (Prod.mk.inj (Outcome.done.inj hlist)).2
  · rintro ⟨records, hloop, rfl⟩
    refine ⟨some records, hloop, ?_⟩
    rw [outcome_pure, h.rcode, ← h.queryRecord (some (q + 4))]

theorem message_query_eq_iff (header : Header) :
    message.query strncpyOctets header = message.query id header ↔
      ∀ label ∈ message.question.labels, NulEnds label := by
  rw [← decoded_eq_iff]
  constructor
  · exact congrArg PdqRr.name
  · intro hname
    unfold Message.query
    rw [hname]

theorem supported_type_ne_any (x : PdqRr) (hx : x ∈ message.supported.map fun rr =>
    rr.2.decoded id rr.1) : x.type ≠ PDQ_TYPE_ANY := by
  obtain ⟨rr, -, rfl⟩ := List.mem_map.mp hx
  exact rr.2.type_ne_any

/-- A reply with one question that reports no error is decoded to the list of its message exactly
when the last record has data, no record has the type ANY, and no label that is copied has other
octets behind a NUL. -/
theorem replyParse_decodes_iff (packet : Packet) (message : Message) (h : Encodes packet message) :
    (pdqReplyParse packet).outcome =
        .done (PDQ_RCODE_OK, some (message.decoded id packet.header)) ↔ message.Decodable := by
  obtain ⟨p, hentries, hparse⟩ := h.parse
  rw [hparse]
  unfold Message.decoded
  have hmem : ∀ {entry}, entry ∈ message.entries ↔
      ∃ x ∈ message.sections, x.2 = entry := fun {entry} => by
    rw [← message.map_sections, List.mem_map]
  have hlastMem : message.entries.getLast? = message.sections.getLast?.map Prod.snd := by
    rw [← message.map_sections, List.getLast?_map]
  by_cases hany : ∃ entry ∈ message.sections, entry.2.type = PDQ_TYPE_ANY
  · refine iff_of_false ?_ ?_
    · rintro ⟨records, hloop, hlist⟩
      obtain ⟨x, hx, htype⟩ := replyLoop_any 0 hentries hany hloop
      have hsorted := (List.cons.inj hlist).2
      have hmem := List.mem_reverse.mpr hx
      rw [hsorted, (Lists.perm_sortRuns _ _ _).mem_iff] at hmem
      exact supported_type_ne_any x hmem htype
    · rintro ⟨-, hno, -, -⟩
      obtain ⟨entry, hentry, htype⟩ := hany
      exact hno entry.2 (hmem.mpr ⟨entry, hentry, rfl⟩) htype
  have hno : ∀ entry ∈ message.sections, entry.2.type ≠ PDQ_TYPE_ANY := fun entry hentry htype =>
    hany ⟨entry, hentry, htype⟩
  by_cases hlast : ∃ entry ∈ message.sections.getLast?, entry.2.NoData
  · rw [replyLoop_stops hentries h.sections hno hlast]
    refine iff_of_false (by simp) ?_
    rintro ⟨hdata, -, -, -⟩
    obtain ⟨entry, hentry, hnone⟩ := hlast
    refine hdata entry.2 ?_ hnone
    rw [hlastMem]
    exact Option.mem_map_of_mem Prod.snd hentry
  · have hloop := replyLoop_outcome hentries h.sections hno
      (fun entry hentry hdata => absurd ⟨entry, hentry, hdata⟩ hlast) 0 []
    rw [Nat.add_zero] at hloop
    rw [hloop, replyLoop, outcome_pure, insertEntries_nil]
    simp only [Outcome.done.injEq, Option.some.injEq, exists_eq_left', List.reverse_reverse,
      List.cons.injEq]
    rw [message_query_eq_iff]
    have hsort := sortRuns_decoded_eq_iff message.supported
    unfold Message.supported at hsort ⊢
    rw [hsort]
    constructor
    · rintro ⟨hquestion, hnames⟩
      refine ⟨fun entry hentry hdata => ?_, fun entry hentry => ?_, hquestion, hnames⟩
      · rw [hlastMem] at hentry
        obtain ⟨x, hx, rfl⟩ := Option.mem_map.mp hentry
        exact hlast ⟨x, hx, hdata⟩
      · obtain ⟨x, hx, rfl⟩ := hmem.mp hentry
        exact hno x hx
    · rintro ⟨-, -, hquestion, hnames⟩
      exact ⟨hquestion, hnames⟩

end

/-! ### Two messages -/

theorem length_root : ∀ label ∈ ([] : List (List Octet)), 0 < label.length ∧ label.length ≤ 63 := by
  simp

theorem textLength_root : textLength [] ≤ 255 := by decide

def rootName : DomainName :=
  { labels := [], label_length := length_root, text_length := textLength_root }

/-- The name `a.`. -/
def sampleName : DomainName :=
  { labels := [[ch 'a']], label_length := by decide, text_length := by decide }

/-- An MX record for `a.`, whose names are pointers to the question. -/
def mxReply : Packet :=
  { length := 35
    header := { id := 0, bits := 0x8000, qdcount := 1, ancount := 1, nscount := 0, arcount := 0 }
    octet := fun i =>
      [0, 0, 0x80, 0, 0, 1, 0, 1, 0, 0, 0, 0,
        1, ch 'a', 0, 0, 15, 0, 1,
        0xc0, 12, 0, 15, 0, 1, 0, 0, 0, 60, 0, 4, 0, 10, 0xc0, 12].getD i 0 }

def mxMessage : Message :=
  { question := sampleName
    type := PDQ_TYPE_MX
    rrClass := PDQ_CLASS_IN
    answers := [.record
      { name := sampleName, type := PDQ_TYPE_MX, rrClass := PDQ_CLASS_IN, ttl := 60
        data := .mx 10 sampleName, fits := rfl }]
    authority := []
    extra := [] }

theorem mxReply_name : NameAt mxReply 12 sampleName.labels 15 :=
  .label (by decide) (by decide) (by decide) rfl rfl (.root (by decide) rfl)

theorem mxReply_encodes : Encodes mxReply mxMessage where
  rcode := rfl
  qdcount := rfl
  ancount := rfl
  nscount := rfl
  arcount := rfl
  body := ⟨15, mxReply_name, rfl, rfl, by decide, 35,
    ⟨31, ⟨21, .pointer (by decide) rfl (by decide) (by decide) mxReply_name, rfl, rfl, rfl, rfl, rfl,
      by decide⟩, rfl, .pointer (by decide) rfl (by decide) (by decide) mxReply_name⟩, rfl⟩

theorem mxMessage_decodable : mxMessage.Decodable where
  last_data := by simp [mxMessage, Message.entries, Entry.NoData]
  no_any := by simp [mxMessage, Message.entries, Entry.type, PDQ_TYPE_MX, PDQ_TYPE_ANY]
  question := by
    simp only [← strncpyOctets_eq_iff]
    decide
  names := by
    simp only [← strncpyOctets_eq_iff]
    decide

theorem replyParse_decodes_iff_mx : (pdqReplyParse mxReply).outcome =
    .done (PDQ_RCODE_OK, some (mxMessage.decoded id mxReply.header)) :=
  (replyParse_decodes_iff mxReply mxMessage mxReply_encodes).mpr mxMessage_decodable

/-- A reply that ends in an OPT record without options. -/
def optReply : Packet :=
  { length := 28
    header := { id := 0, bits := 0x8000, qdcount := 1, ancount := 0, nscount := 0, arcount := 1 }
    octet := fun i =>
      [0, 0, 0x80, 0, 0, 1, 0, 0, 0, 0, 0, 1,
        0, 0, 1, 0, 1,
        0, 0, 41, 0x10, 0, 0, 0, 0, 0, 0, 0].getD i 0 }

def optMessage : Message :=
  { question := rootName
    type := PDQ_TYPE_A
    rrClass := PDQ_CLASS_IN
    answers := []
    authority := []
    extra := [.other
      { name := rootName, type := 41, rrClass := 4096, ttl := 0, data := []
        unsupported := by decide }] }

theorem optReply_encodes : Encodes optReply optMessage where
  rcode := rfl
  qdcount := rfl
  ancount := rfl
  nscount := rfl
  arcount := rfl
  body := ⟨13, .root (by decide) rfl, rfl, rfl, by decide, 28,
    ⟨28, ⟨18, .root (by decide) rfl, rfl, rfl, rfl, rfl, rfl, by decide⟩, rfl, rfl⟩, rfl⟩

theorem replyParse_rejects_opt : Encodes optReply optMessage ∧
    (pdqReplyParse optReply).outcome ≠
      .done (PDQ_RCODE_OK, some (optMessage.decoded id optReply.header)) := by
  refine ⟨optReply_encodes, ?_⟩
  have hparse : (pdqReplyParse optReply).outcome = .done (PDQ_RCODE_ERRNO, none) := by
    decide
  rw [hparse]
  simp

end Snert
