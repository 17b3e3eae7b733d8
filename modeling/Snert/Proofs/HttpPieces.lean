/-
Module: Snert.Proofs.HttpPieces
Purpose: What `httpRead` makes of one stream that arrives in different pieces. It takes the end of
  what has been read for the end of a line, so that a first piece of one octet and one of two octets
  already give different header lines, unless the stream begins with the empty line.
Trusted boundary: none
Main exports: httpRead_alike_iff
-/
import Snert.Net.HttpRead

namespace Snert

open CModel

/-! ### Streams and pieces -/

/-- A way to cut a stream into the pieces that reads return. -/
structure Cutting (stream : List Octet) where
  reads : List SocketRead
  whole : ∀ read ∈ reads, read.data ≠ []
  joined : (reads.map SocketRead.data).flatten = stream

/-- An empty line ends at the offset. -/
def BehindEmptyLine (stream : List Octet) (n : Nat) : Prop :=
  ∃ front line rest, stream = front ++ line ++ rest ∧
    (front = [] ∨ front.getLast? = some (ch '\n')) ∧
    (line = [ch '\n'] ∨ line = [ch '\r', ch '\n']) ∧ n = (front ++ line).length

/-- The offset just behind the first empty line. -/
def EndOfHeaders (stream : List Octet) (n : Nat) : Prop :=
  BehindEmptyLine stream n ∧ ∀ m < n, ¬ BehindEmptyLine stream m

/-- However the stream is cut, it is read to its end with the same code and the same header lines,
and the headers end at the offset. -/
def ParsesAlike (hooks : HttpHooks) (stream : List Octet) (n : Nat) : Prop :=
  ∀ c c' : Cutting stream, ∃ r r', (httpRead hooks c.reads).outcome = .done r ∧
    (httpRead hooks c'.reads).outcome = .done r' ∧ r.result = r'.result ∧
    r.headers = r'.headers ∧ r.eoh = some n ∧ r'.eoh = some n

/-- The stream begins with a bare LF that no blank follows. -/
def BeginsWithEmptyLine (stream : List Octet) : Prop :=
  ∃ rest, stream = ch '\n' :: rest ∧ isblank (peek rest) = false

/-! ### The first read -/

/-- The response when the first read has returned something. -/
def firstRead (os : List Octet) : HttpResponse :=
  ⟨os, HTTP_INTERNAL, none, [], []⟩

theorem http_read_octets {os : List Octet} (hne : os ≠ []) (hroom : os.length ≤ HTTP_LINE_SIZE)
    (hlt : os.length < HTTP_LINE_SIZE) (socket : List SocketRead) (response : HttpResponse) :
    (http_read (.octets os hne hroom :: socket) response).Yields
      (false, socket, { response with content := response.content ++ os }) := by
  have hfits : 0 + os.length + [(0 : Octet)].length ≤ HTTP_LINE_SIZE := by
    rw [List.length_singleton, Nat.zero_add]
    exact hlt
  rw [http_read]
  refine (Buffer.yields_write (Buffer.replicate HTTP_LINE_SIZE 0) os (i := 0)
    (Nat.le_trans (Nat.le_add_right _ _) hfits)).bind ?_
  refine (Buffer.yields_write _ [0] (Nat.succ_le_of_lt hlt)).bind ?_
  have htake : (((Buffer.replicate HTTP_LINE_SIZE 0).splice 0 os).splice os.length
      [0]).octets.take os.length = os := by
    have hsplice := Buffer.splice_splice (Buffer.replicate HTTP_LINE_SIZE 0) os [0] hfits
    rw [Nat.zero_add] at hsplice
    rw [hsplice, Buffer.octets_splice _ (by rwa [List.length_append, ← Nat.add_assoc])]
    simp
  simp only [htake]
  exact Run.yields_pure _

theorem http_read_full {os : List Octet} (hne : os ≠ []) (hroom : os.length ≤ HTTP_LINE_SIZE)
    (hfull : os.length = HTTP_LINE_SIZE) (socket : List SocketRead) (response : HttpResponse) :
    (http_read (.octets os hne hroom :: socket) response).outcome = .crash := by
  rw [http_read]
  have hfirst : ((Buffer.replicate HTTP_LINE_SIZE 0).write 0 os).Yields _ :=
    Buffer.yields_write _ os (i := 0) (by rw [Nat.zero_add]; exact hroom)
  rw [Run.outcome_bind_of_done hfirst.outcome]
  refine Run.outcome_bind_of_crash (Run.outcome_store_of_not_inBounds ?_ _) _
  simp [Access.InBounds, hfull]

theorem scanStatusLine_eq {octets : List Octet} (h : ¬ ascii "HTTP/" <+: octets) :
    scanStatusLine octets = (none, 0) := by
  rw [scanStatusLine]
  exact if_pos fun hhttp => h (hhttp.trans (List.takeWhile_prefix _))

theorem httpReadPt_first (hooks : HttpHooks) (rounds : Nat) {os : List Octet} (hne : os ≠ [])
    (hroom : os.length ≤ HTTP_LINE_SIZE) (hlt : os.length < HTTP_LINE_SIZE)
    (h : ¬ ascii "HTTP/" <+: os) (socket : List SocketRead) :
    (httpReadPt hooks rounds (.octets os hne hroom :: socket)).outcome =
      if hookGoes hooks.status [] then
        (Run.loop (headerStep hooks) rounds (socket, firstRead os, 0) >>=
          fun (socket, response, offset) =>
            match offset with
            | none => pure response
            | some offset => readBody hooks rounds socket response offset).outcome
      else .done (firstRead os) := by
  rw [httpReadPt, Run.outcome_bind_of_done (http_read_octets hne hroom hlt socket _).outcome]
  dsimp only [List.nil_append]
  rw [scanStatusLine_eq h]
  by_cases hstatus : hookGoes hooks.status []
  · simp only [List.take_zero, hstatus, not_true_eq_false, if_false, if_true]
    rfl
  · simp only [List.take_zero, hstatus, not_false_eq_true, if_true, if_false, Bool.false_eq_true]
    rfl

/-! ### The first header line -/

theorem headerStep_data (hooks : HttpHooks) (socket : List SocketRead) {os : List Octet}
    (hne : os ≠ []) {span width length : Nat} (hspan : headerSpan os = span)
    (hwidth : isCrlf os span = width) (hlength : addLF os span = length) :
    headerStep hooks (socket, firstRead os, 0) =
      if length = width then pure (.inr (socket, firstRead os, some length))
      else if hookGoes hooks.header (os.take length) then
        pure (.inl (socket, { firstRead os with headers := [os.take length] }, length))
      else pure (.inr (socket, { firstRead os with headers := [os.take length] }, none)) := by
  have hdata : ¬ os.length ≤ 0 := by simpa using hne
  have hread : readMore socket (firstRead os) 0 = pure (false, socket, firstRead os) :=
    if_neg hdata
  rw [headerStep, hread, Run.pure_bind]
  simp only [firstRead, if_neg hdata, List.drop_zero, hspan, hwidth, hlength, Nat.zero_add,
    Bool.false_eq_true, if_false, List.nil_append]

/-! ### What the loops keep -/

/-- The responses have the same code, header lines and end of the headers. -/
def SameHead (r r' : HttpResponse) : Prop :=
  r'.result = r.result ∧ r'.headers = r.headers ∧ r'.eoh = r.eoh

theorem http_read_head {socket socket' : List SocketRead} {response response' : HttpResponse}
    {failed : Bool}
    (h : (http_read socket response).outcome = .done (failed, socket', response')) :
    SameHead response response' := by
  unfold http_read at h
  split at h
  · cases h
    exact ⟨rfl, rfl, rfl⟩
  · cases h
    exact ⟨rfl, rfl, rfl⟩
  · obtain ⟨line, -, h⟩ := Run.outcome_bind_eq_done.mp h
    obtain ⟨line', -, h⟩ := Run.outcome_bind_eq_done.mp h
    cases h
    exact ⟨rfl, rfl, rfl⟩

theorem readMore_head {socket socket' : List SocketRead} {response response' : HttpResponse}
    {failed : Bool} {offset : Nat}
    (h : (readMore socket response offset).outcome = .done (failed, socket', response')) :
    SameHead response response' := by
  unfold readMore at h
  split at h
  · exact http_read_head h
  · cases h
    exact ⟨rfl, rfl, rfl⟩

theorem headerStep_headers {hooks : HttpHooks} {s : HttpState}
    {r : HttpState ⊕ List SocketRead × HttpResponse × Option Nat}
    (h : (headerStep hooks s).outcome = .done r) :
    Sum.elim (fun t : HttpState => s.2.1.headers <+: t.2.1.headers)
      (fun t => s.2.1.headers <+: t.2.1.headers) r := by
  obtain ⟨socket, response, offset⟩ := s
  rw [headerStep] at h
  obtain ⟨⟨failed, socket', response'⟩, hread, h⟩ := Run.outcome_bind_eq_done.mp h
  have hsame := (readMore_head hread).2.1
  dsimp only at h ⊢
  rw [← hsame]
  split at h
  · cases h
    exact List.prefix_refl _
  · split at h
    · cases h
      exact List.prefix_refl _
    · split at h
      · cases h
        exact List.prefix_refl _
      · split at h
        · cases h
          exact List.prefix_append _ _
        · cases h
          exact List.prefix_append _ _

theorem headerLoop_headers {hooks : HttpHooks} {rounds : Nat} {s : HttpState}
    {socket : List SocketRead} {response : HttpResponse} {offset : Option Nat}
    (h : (Run.loop (headerStep hooks) rounds s).outcome = .done (socket, response, offset)) :
    s.2.1.headers <+: response.headers := by
  refine Run.loop_done (I := fun t => s.2.1.headers <+: t.2.1.headers)
    (Q := fun t => s.2.1.headers <+: t.2.1.headers) ?_ (List.prefix_refl _) h
  rintro t (u | u) ht hu
  · exact ht.trans (headerStep_headers hu)
  · exact ht.trans (headerStep_headers hu)

theorem bodyStep_head {hooks : HttpHooks} {s : HttpState} {r : HttpState ⊕ HttpResponse}
    (h : (bodyStep hooks s).outcome = .done r) :
    Sum.elim (fun t : HttpState => SameHead s.2.1 t.2.1) (SameHead s.2.1) r := by
  obtain ⟨socket, response, offset⟩ := s
  rw [bodyStep] at h
  obtain ⟨⟨failed, socket', response'⟩, hread, h⟩ := Run.outcome_bind_eq_done.mp h
  have hsame := readMore_head hread
  dsimp only at h ⊢
  split at h
  · cases h
    exact hsame
  · split at h
    · cases h
      exact hsame
    · cases h
      exact hsame

theorem readBody_head {hooks : HttpHooks} {rounds : Nat} {socket : List SocketRead}
    {response r : HttpResponse} {offset : Nat}
    (h : (readBody hooks rounds socket response offset).outcome = .done r) :
    SameHead { response with eoh := some offset } r := by
  rw [readBody] at h
  dsimp only at h
  split at h
  · cases h
    exact ⟨rfl, rfl, rfl⟩
  · refine Run.loop_done (I := fun t => SameHead { response with eoh := some offset } t.2.1) ?_
      ⟨rfl, rfl, rfl⟩ h
    have htrans : ∀ {r r' r'' : HttpResponse}, SameHead r r' → SameHead r' r'' → SameHead r r'' :=
      fun h h' => ⟨h'.1.trans h.1, h'.2.1.trans h.2.1, h'.2.2.trans h.2.2⟩
    rintro t (u | u) ht hu
    · exact htrans ht (bodyStep_head hu)
    · exact htrans ht (bodyStep_head hu)

/-! ### The first line decides -/

section FirstLine

variable {hooks : HttpHooks} {rounds : Nat} {os : List Octet} {hne : os ≠ []}
  {hroom : os.length ≤ HTTP_LINE_SIZE} {socket : List SocketRead} {r : HttpResponse}
  {n span width length : Nat}

theorem headers_of_line (span width length : Nat) (hlt : os.length < HTTP_LINE_SIZE)
    (hstatus : ¬ ascii "HTTP/" <+: os) (hspan : headerSpan os = span) (hwidth : isCrlf os span = width)
    (hlength : addLF os span = length) (hline : length ≠ width)
    (h : (httpReadPt hooks (rounds + 1) (.octets os hne hroom :: socket)).outcome = .done r)
    (heoh : r.eoh = some n) : [os.take length] <+: r.headers := by
  rw [httpReadPt_first hooks _ hne hroom hlt hstatus] at h
  split at h
  · obtain ⟨⟨socket', response, offset⟩, hloop, h⟩ := Run.outcome_bind_eq_done.mp h
    have hheaders : [os.take length] <+: response.headers := by
      rw [Run.loop, headerStep_data hooks socket hne hspan hwidth hlength, if_neg hline] at hloop
      split at hloop
      · exact headerLoop_headers hloop
      · cases hloop
        exact List.prefix_refl _
    cases offset with
    | none =>
        cases h
        exact hheaders
    | some offset =>
        rw [(readBody_head h).2.1]
        exact hheaders
  · cases h
    cases heoh

theorem outcome_of_emptyLine (rounds : Nat) (socket : List SocketRead)
    (hlt : os.length < HTTP_LINE_SIZE) (hstatus : ¬ ascii "HTTP/" <+: os) (hspan : headerSpan os = span) (hwidth : isCrlf os span = width)
    (hlength : addLF os span = width) :
    (httpReadPt hooks (rounds + 1) (.octets os hne hroom :: socket)).outcome =
      if hookGoes hooks.status [] then
        (readBody hooks (rounds + 1) socket (firstRead os) width).outcome
      else .done (firstRead os) := by
  rw [httpReadPt_first hooks _ hne hroom hlt hstatus, Run.loop,
    headerStep_data hooks socket hne hspan hwidth hlength, if_pos rfl, Run.pure_bind,
    Run.pure_bind]

theorem headers_of_emptyLine (span width : Nat) (hlt : os.length < HTTP_LINE_SIZE)
    (hstatus : ¬ ascii "HTTP/" <+: os) (hspan : headerSpan os = span)
    (hwidth : isCrlf os span = width) (hlength : addLF os span = width)
    (h : (httpReadPt hooks (rounds + 1) (.octets os hne hroom :: socket)).outcome = .done r) :
    r.headers = [] := by
  rw [outcome_of_emptyLine _ _ hlt hstatus hspan hwidth hlength] at h
  split at h
  · exact (readBody_head h).2.1
  · cases h
    rfl

end FirstLine

theorem headerSpan_octet {c : Octet} (hlf : c ≠ ch '\n') (hnul : c ≠ 0) : headerSpan [c] = 1 := by
  rw [headerSpan]
  simp [lineSpan, hlf, hnul]

theorem headerSpan_two {c d : Octet} (hlf : c ≠ ch '\n') (hnul : c ≠ 0) (hnul' : d ≠ 0) :
    headerSpan [c, d] = if d = ch '\n' then 1 else 2 := by
  have hblank : isblank 0 = false := by decide
  rw [headerSpan]
  by_cases hd : d = ch '\n'
  · simp [lineSpan, hlf, hnul, hd, hblank]
  · simp [lineSpan, hlf, hnul, hnul', hd]

theorem headerSpan_lf {os : List Octet} (h : isblank (peek os) = false) :
    headerSpan (ch '\n' :: os) = 0 := by
  rw [headerSpan]
  have hpeek : os[0]?.getD 0 = peek os := by cases os <;> rfl
  simp [lineSpan, hpeek, h]

theorem headerSpan_folded {b : Octet} (h : isblank b) : headerSpan [ch '\n', b] = 2 := by
  have hne : b ≠ ch '\n' ∧ b ≠ 0 := by
    constructor
    · rintro rfl
      exact absurd h (by decide)
    · rintro rfl
      exact absurd h (by decide)
  rw [headerSpan]
  simp [lineSpan, h, headerSpan_octet hne.1 hne.2]

/-! ### The body is read to its end -/

/-- The octets that have not been looked at. -/
def unread (s : HttpState) : Nat :=
  (s.2.1.content.length - s.2.2) + (s.1.map fun read => read.data.length).sum

/-- No NUL has been read or is to be read, and every read leaves room for one. -/
def PlainReads (s : HttpState) : Prop :=
  0 ∉ s.2.1.content ∧ ∀ read ∈ s.1, 0 ∉ read.data ∧ read.data.length < HTTP_LINE_SIZE

theorem readMore_plain {socket : List SocketRead} {response : HttpResponse} {offset : Nat}
    (h : PlainReads (socket, response, offset)) :
    (readMore socket response offset).Ends fun t =>
      PlainReads (t.2.1, t.2.2, offset) ∧
        unread (t.2.1, t.2.2, offset) ≤ unread (socket, response, offset) := by
  unfold readMore
  split
  next hall =>
    match socket, h with
    | [], h => exact Run.ends_pure.mpr ⟨h, Nat.le_refl _⟩
    | .failure :: socket, h =>
        refine Run.ends_pure.mpr ⟨⟨h.1, fun read hread => h.2 read (.tail _ hread)⟩, ?_⟩
        simp [unread, SocketRead.data]
    | .octets os hne hroom :: socket, h =>
        have hfirst := h.2 _ List.mem_cons_self
        refine (http_read_octets hne hroom hfirst.2 socket response).ends_iff.mpr ⟨⟨?_, ?_⟩, ?_⟩
        · rw [List.mem_append, not_or]
          exact ⟨h.1, hfirst.1⟩
        · exact fun read hread => h.2 read (.tail _ hread)
        · simp only [unread, List.length_append, List.map_cons, List.sum_cons, SocketRead.data]
          omega
  next => exact Run.ends_pure.mpr ⟨h, Nat.le_refl _⟩

theorem addLF_pos (octets : List Octet) (hne : octets ≠ []) (hnul : 0 ∉ octets) :
    0 < addLF octets (lineSpan octets) := by
  obtain ⟨c, octets, rfl⟩ := List.exists_cons_of_ne_nil hne
  rw [List.mem_cons, not_or] at hnul
  by_cases hlf : c = ch '\n'
  · rw [addLF, if_pos]
    · exact Nat.succ_pos _
    · simp [lineSpan, hlf]
  · have hspan : 0 < lineSpan (c :: octets) := by simp [lineSpan, hlf, Ne.symm hnul.1]
    unfold addLF
    split <;> omega

theorem bodyStep_plain (hooks : HttpHooks) {s : HttpState} (h : PlainReads s) :
    (bodyStep hooks s).Ends (Run.Round PlainReads unread (fun _ => True) s) := by
  obtain ⟨socket, response, offset⟩ := s
  rw [bodyStep, Run.ends_bind]
  refine (readMore_plain h).mono ?_
  rintro ⟨failed, socket', response'⟩ ⟨hplain, hle⟩
  dsimp only at hplain hle ⊢
  split
  · exact Run.ends_pure.mpr trivial
  next hmore =>
    split
    · refine Run.ends_pure.mpr ⟨hplain, ?_⟩
      have hpos := addLF_pos (response'.content.drop offset)
        (by rw [ne_eq, List.drop_eq_nil_iff]; exact hmore)
        fun hmem => hplain.1 (List.mem_of_mem_drop hmem)
      refine Nat.lt_of_lt_of_le ?_ hle
      simp only [unread]
      omega
    · exact Run.ends_pure.mpr trivial

theorem readBody_plain (hooks : HttpHooks) {rounds : Nat} {socket : List SocketRead}
    {response : HttpResponse} {offset : Nat} (h : PlainReads (socket, response, offset))
    (hrounds : unread (socket, response, offset) < rounds) :
    ∃ r, (readBody hooks rounds socket response offset).outcome = .done r := by
  rw [readBody]
  dsimp only
  split
  · exact ⟨_, rfl⟩
  · obtain ⟨-, r, hr, -⟩ := Run.loop_ends unread (fun t ht => bodyStep_plain hooks ht)
      (s := (socket, { response with eoh := some offset }, offset)) h hrounds
    exact ⟨r, hr⟩

/-! ### Two ways to cut -/

/-- One octet a read. -/
def octetReads (stream : List Octet) : List SocketRead :=
  stream.map fun c => .octets [c] (List.cons_ne_nil c []) (Nat.le_of_ble_eq_true rfl)

/-- A first piece of the stream, and one octet a read from there on. -/
def cutBehind {stream : List Octet} (os rest : List Octet) (hne : os ≠ [])
    (hroom : os.length ≤ HTTP_LINE_SIZE) (hstream : stream = os ++ rest) : Cutting stream where
  reads := .octets os hne hroom :: octetReads rest
  whole := by
    intro read hread
    rcases List.mem_cons.mp hread with rfl | hread
    · exact hne
    · obtain ⟨c, -, rfl⟩ := List.mem_map.mp hread
      exact List.cons_ne_nil _ _
  joined := by
    have hrest : ((octetReads rest).map SocketRead.data).flatten = rest := by
      clear hstream
      induction rest with
      | nil => rfl
      | cons c rest ih => exact congrArg (c :: ·) ih
    rw [hstream]
    exact congrArg (os ++ ·) hrest

theorem not_statusLine_of_length {os : List Octet} (h : os.length < 5) :
    ¬ ascii "HTTP/" <+: os := by
  intro hprefix
  have hle : (5 : Nat) ≤ os.length := hprefix.length_le
  omega

theorem not_statusLine_of_lf (os : List Octet) : ¬ ascii "HTTP/" <+: ch '\n' :: os := by
  rintro ⟨rest, hrest⟩
  exact absurd (List.cons.inj hrest).1 (by decide)

theorem room_of_short {os : List Octet} (h : os.length < 5) : os.length < HTTP_LINE_SIZE :=
  Nat.lt_trans h (by decide)

section TwoWays

variable {hooks : HttpHooks} {stream : List Octet} {n : Nat}

theorem length_of_alike (h : ParsesAlike hooks stream n) : stream.length < HTTP_LINE_SIZE := by
  by_contra hlong
  have hlength : (stream.take HTTP_LINE_SIZE).length = HTTP_LINE_SIZE :=
    List.length_take_of_le (Nat.not_lt.mp hlong)
  have hne : stream.take HTTP_LINE_SIZE ≠ [] := by
    intro hnil
    rw [hnil] at hlength
    exact absurd hlength (by decide)
  let c := cutBehind _ _ hne (Nat.le_of_eq hlength) (List.take_append_drop _ _).symm
  obtain ⟨r, -, hr, -⟩ := h c c
  have hcrash : (httpRead hooks c.reads).outcome = .crash :=
    Run.outcome_bind_of_crash (http_read_full hne (Nat.le_of_eq hlength) hlength _ _) _
  rw [hcrash] at hr
  cases hr

theorem status_of_alike (h : ParsesAlike hooks stream n) {os rest : List Octet} (hne : os ≠ [])
    (hlength : os.length < 5) (hstream : stream = os ++ rest) : hookGoes hooks.status [] := by
  have hlt := room_of_short hlength
  let c := cutBehind os rest hne (Nat.le_of_lt hlt) hstream
  obtain ⟨r, -, hr, -, -, -, heoh, -⟩ := h c c
  by_contra hstatus
  have hfirst : (httpRead hooks c.reads).outcome = .done (firstRead os) :=
    (httpReadPt_first hooks _ hne _ hlt (not_statusLine_of_length hlength) _).trans (if_neg hstatus)
  rw [hfirst] at hr
  cases hr
  cases heoh

theorem beginsWithLF_of_alike (h : ParsesAlike hooks stream n) (hnul : 0 ∉ stream) {c d : Octet}
    {rest : List Octet} (hstream : stream = c :: d :: rest) : c = ch '\n' := by
  by_contra hlf
  rw [hstream, List.mem_cons, List.mem_cons, not_or, not_or] at hnul
  have hc : c ≠ 0 := Ne.symm hnul.1
  have hd : d ≠ 0 := Ne.symm hnul.2.1
  have hend : (0 : Octet) ≠ ch '\n' := by decide
  have hshort : [c].length < 5 ∧ [c, d].length < 5 := ⟨by simp, by simp⟩
  obtain ⟨r, r', hr, hr', -, hheaders, heoh, heoh'⟩ :=
    h (cutBehind [c] (d :: rest) (List.cons_ne_nil _ _)
        (Nat.le_of_lt (room_of_short hshort.1)) hstream)
      (cutBehind [c, d] rest (List.cons_ne_nil _ _)
        (Nat.le_of_lt (room_of_short hshort.2)) hstream)
  have hone : [[c]] <+: r.headers :=
    headers_of_line 1 0 1 (room_of_short hshort.1)
      (not_statusLine_of_length hshort.1) (headerSpan_octet hlf hc) (by simp [isCrlf, hend])
      (by simp [addLF, hend]) (by decide) hr heoh
  rw [hheaders] at hone
  have htwo : ¬ [[c, d]] <+: r'.headers := by
    intro htwo
    have heq := List.prefix_of_prefix_length_le htwo hone (Nat.le_refl _)
    have hlen : [[c, d]] = [[c]] := heq.eq_of_length rfl
    cases hlen
  have hspan := headerSpan_two hlf hc hd
  by_cases hlf' : d = ch '\n'
  · rw [if_pos hlf'] at hspan
    by_cases hcr : c = ch '\r'
    · -- The two octets are an empty line.
      have hnil := headers_of_emptyLine 1 2 (room_of_short hshort.2)
        (not_statusLine_of_length hshort.2) hspan (by simp [isCrlf, hlf', hcr])
        (by simp [addLF, hlf']) hr'
      rw [hnil] at hone
      exact absurd hone.length_le (by simp)
    · exact htwo (headers_of_line 1 1 2 (room_of_short hshort.2)
        (not_statusLine_of_length hshort.2) hspan (by simp [isCrlf, hlf', hcr])
        (by simp [addLF, hlf']) (by decide) hr' heoh')
  · rw [if_neg hlf'] at hspan
    exact htwo (headers_of_line 2 0 2 (room_of_short hshort.2)
      (not_statusLine_of_length hshort.2) hspan (by simp [isCrlf, hend])
      (by simp [addLF, hend]) (by decide) hr' heoh')

theorem not_folded_of_alike (h : ParsesAlike hooks stream n) {rest : List Octet}
    (hstream : stream = ch '\n' :: rest) : isblank (peek rest) = false := by
  rw [Bool.eq_false_iff]
  intro hblank
  match rest, hblank with
  | [], hblank => exact absurd hblank (by decide)
  | b :: rest, hblank =>
      have hshort : [ch '\n'].length < 5 ∧ [ch '\n', b].length < 5 := ⟨by simp, by simp⟩
      obtain ⟨r, r', hr, hr', -, hheaders, heoh, heoh'⟩ :=
        h (cutBehind [ch '\n'] (b :: rest) (List.cons_ne_nil _ _)
            (Nat.le_of_lt (room_of_short hshort.1)) hstream)
          (cutBehind [ch '\n', b] rest (List.cons_ne_nil _ _)
            (Nat.le_of_lt (room_of_short hshort.2)) hstream)
      have hnil : r.headers = [] :=
        headers_of_emptyLine 0 1 (room_of_short hshort.1)
          (not_statusLine_of_length hshort.1) (headerSpan_lf rfl) rfl rfl hr
      have hfolded : [[ch '\n', b]] <+: r'.headers :=
        headers_of_line 2 0 2 (room_of_short hshort.2)
          (not_statusLine_of_length hshort.2) (headerSpan_folded hblank) rfl rfl (by decide) hr'
          heoh'
      rw [← hheaders, hnil] at hfolded
      exact absurd hfolded.length_le (by simp)

theorem httpRead_emptyLine (hnul : 0 ∉ stream) (hlength : stream.length < HTTP_LINE_SIZE)
    (hbegins : BeginsWithEmptyLine stream) (hstatus : hookGoes hooks.status [])
    (c : Cutting stream) : ∃ r, (httpRead hooks c.reads).outcome = .done r ∧
      r.result = HTTP_INTERNAL ∧ r.headers = [] ∧ r.eoh = some 1 := by
  obtain ⟨reads, whole, joined⟩ := c
  obtain ⟨rest, hrest, hblank⟩ := hbegins
  have hplain : ∀ read ∈ reads, 0 ∉ read.data ∧ read.data.length < HTTP_LINE_SIZE := by
    intro read hread
    have hsub : read.data.Sublist stream := by
      rw [← joined]
      exact List.sublist_flatten_of_mem (List.mem_map_of_mem hread)
    exact ⟨fun hmem => hnul (hsub.subset hmem), Nat.lt_of_le_of_lt hsub.length_le hlength⟩
  match reads, whole, joined, hplain with
  | [], _, joined, _ =>
      rw [hrest] at joined
      exact nomatch joined
  | .failure :: _, whole, _, _ => exact absurd rfl (whole _ List.mem_cons_self)
  | .octets [] hne _ :: _, _, _, _ => exact absurd rfl hne
  | .octets (b :: os) hne hroom :: reads, _, joined, hplain =>
      obtain ⟨rfl, hos⟩ : b = ch '\n' ∧ os ++ (reads.map SocketRead.data).flatten = rest := by
        rw [hrest] at joined
        exact List.cons.inj joined
      have hpeek : isblank (peek os) = false := by
        cases os with
        | nil => rfl
        | cons d os =>
            rw [← hos] at hblank
            exact hblank
      have hfirst := hplain _ List.mem_cons_self
      have hrun : (httpReadPt hooks _ (.octets (ch '\n' :: os) hne hroom :: reads)).outcome = _ :=
        outcome_of_emptyLine ((SocketRead.octets _ hne hroom :: reads).map
          fun read => read.data.length).sum reads hfirst.2 (not_statusLine_of_lf os)
          (headerSpan_lf hpeek) rfl rfl
      rw [if_pos hstatus] at hrun
      obtain ⟨r, hr⟩ : ∃ r, (readBody hooks (((SocketRead.octets _ hne hroom :: reads).map
          fun read => read.data.length).sum + 1) reads (firstRead (ch '\n' :: os)) 1).outcome =
          .done r := readBody_plain hooks
        ⟨hfirst.1, fun read hread => hplain read (.tail _ hread)⟩ (by
          simp only [unread, firstRead, SocketRead.data, List.map_cons, List.sum_cons]
          omega)
      obtain ⟨hresult, hheaders, heoh⟩ := readBody_head hr
      exact ⟨r, hrun.trans hr, hresult, hheaders, heoh⟩

/-- A stream is read alike in any pieces, up to the right end of the headers, if and only if it
begins with the empty line, does not fill the array of one read, and the status hook goes on without
a response line. -/
theorem httpRead_alike_iff (hooks : HttpHooks) {stream : List Octet} {n : Nat} (hnul : 0 ∉ stream)
    (hend : EndOfHeaders stream n) : ParsesAlike hooks stream n ↔
      BeginsWithEmptyLine stream ∧ stream.length < HTTP_LINE_SIZE ∧ hookGoes hooks.status [] := by
  constructor
  · intro h
    have hbegins : BeginsWithEmptyLine stream := by
      obtain ⟨⟨front, line, rest, hsplit, -, hline, -⟩, -⟩ := hend
      have hmem : ch '\n' ∈ stream := by
        rw [hsplit]
        rcases hline with rfl | rfl <;> simp
      match stream, h, hnul, hmem with
      | [], _, _, hmem => exact nomatch hmem
      | [c], h, _, hmem =>
          have hstream : [c] = ch '\n' :: [] := by rw [List.mem_singleton.mp hmem]
          exact ⟨[], hstream, not_folded_of_alike h hstream⟩
      | c :: d :: rest, h, hnul, _ =>
          have hstream : c :: d :: rest = ch '\n' :: (d :: rest) := by
            rw [beginsWithLF_of_alike h hnul rfl]
          exact ⟨d :: rest, hstream, not_folded_of_alike h hstream⟩
    obtain ⟨rest, hrest, hblank⟩ := hbegins
    exact ⟨⟨rest, hrest, hblank⟩, length_of_alike h,
      status_of_alike h (List.cons_ne_nil (ch '\n') []) (by simp) hrest⟩
  · rintro ⟨hbegins, hlength, hstatus⟩ c c'
    have hone : n = 1 := by
      obtain ⟨rest, hrest, -⟩ := hbegins
      have hle : ¬ 1 < n := fun hlt =>
        hend.2 1 hlt ⟨[], [ch '\n'], rest, hrest, .inl rfl, .inl rfl, rfl⟩
      obtain ⟨⟨front, line, -, -, -, hline, hn⟩, -⟩ := hend
      have hpos : 0 < line.length := by rcases hline with rfl | rfl <;> simp
      rw [List.length_append] at hn
      omega
    subst hone
    obtain ⟨r, hr, hresult, hheaders, heoh⟩ :=
      httpRead_emptyLine hnul hlength hbegins hstatus c
    obtain ⟨r', hr', hresult', hheaders', heoh'⟩ :=
      httpRead_emptyLine hnul hlength hbegins hstatus c'
    exact ⟨r, r', hr, hr', hresult.trans hresult'.symm, hheaders.trans hheaders'.symm, heoh, heoh'⟩

end TwoWays

/-- The hooks of a response that has none. -/
def noHooks : HttpHooks :=
  ⟨none, none, none, none⟩

/-- A body behind nothing but the empty line. -/
theorem alike_emptyLine : ParsesAlike noHooks (ascii "\nbody") 1 :=
  (httpRead_alike_iff noHooks (by decide)
    ⟨⟨[], ascii "\n", ascii "body", rfl, .inl rfl, .inl rfl, rfl⟩, by
      rintro m (hm : m < 1) ⟨front, line, -, -, -, hline, hlength⟩
      have hpos : 0 < line.length := by rcases hline with rfl | rfl <;> simp
      rw [List.length_append] at hlength
      omega⟩).mpr
    ⟨⟨ascii "body", rfl, by decide⟩, by decide, rfl⟩

theorem BehindEmptyLine.take {stream : List Octet} {n : Nat} (h : BehindEmptyLine stream n) :
    ascii "\n\n" <:+ stream.take n ∨ ascii "\n\r\n" <:+ stream.take n ∨
      stream.take n = ascii "\n" ∨ stream.take n = ascii "\r\n" := by
  obtain ⟨front, line, rest, rfl, hfront, hline, rfl⟩ := h
  rw [List.take_left]
  rcases hfront with rfl | hlast
  · rcases hline with rfl | rfl
    · exact .inr (.inr (.inl rfl))
    · exact .inr (.inr (.inr rfl))
  · obtain ⟨front, rfl⟩ := List.getLast?_eq_some_iff.mp hlast
    rw [List.append_assoc]
    rcases hline with rfl | rfl
    · exact .inl (List.suffix_append _ _)
    · exact .inr (.inl (List.suffix_append _ _))

/-- A plain response, whose headers end behind 25 octets. -/
def plainResponse : List Octet :=
  ascii "HTTP/1.1 200 OK\r\nA: b\r\n\r\nx"

/-- It is not read alike in any pieces. -/
theorem not_alike_plainResponse :
    0 ∉ plainResponse ∧ EndOfHeaders plainResponse 25 ∧
      ¬ ParsesAlike noHooks plainResponse 25 := by
  have hnul : 0 ∉ plainResponse := by decide
  refine ⟨hnul, ⟨?_, ?_⟩, fun h => ?_⟩
  · exact ⟨ascii "HTTP/1.1 200 OK\r\nA: b\r\n", ascii "\r\n", ascii "x", by decide,
      .inr (by decide), .inr rfl, by decide⟩
  · have hnone : ∀ m < 25, ¬ (ascii "\n\n" <:+ plainResponse.take m ∨
        ascii "\n\r\n" <:+ plainResponse.take m ∨ plainResponse.take m = ascii "\n" ∨
        plainResponse.take m = ascii "\r\n") := by
      decide
    exact fun m hm hbehind => hnone m hm hbehind.take
  · have hlf := beginsWithLF_of_alike h hnul (c := ch 'H') (d := ch 'T')
      (show plainResponse = _ :: _ :: ascii "TP/1.1 200 OK\r\nA: b\r\n\r\nx" from rfl)
    exact absurd hlf (by decide)

end Snert
