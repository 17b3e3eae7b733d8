/-
Module: Snert.Proofs.FetchReplies
Purpose: What a socket map fetch makes of what a server sends. `kvm_recv` stays in its buffers and
  delivers the message that is framed at the start of the stream, if there is one. The fetch looks
  at the first octet of the message only: one that begins with an O is taken for a value, also when
  it is shorter than the prefix, and the size wraps.
Trusted boundary: the definition of a framed message
Main exports: kvmFetchSocket_exact_iff
-/
import Snert.Kvm.SocketMap
import Snert.Proofs.SocketMapTransparent

namespace Snert

open CModel CModel.Run

/-! ### The leading length -/

theorem readNumber_stopped_iff {i : Nat} {input number digits rest : List Octet} {c : Octet} :
    readNumber i number input = .stopped digits c rest ↔
      ∃ read, digits = number ++ read ∧ input = read ++ c :: rest ∧ (∀ d ∈ read, isDigit 10 d) ∧
        isDigit 10 c = false ∧ read.length < i := by
  constructor
  · intro h
    induction i generalizing input number with
    | zero => cases h
    | succ i ih =>
        cases input with
        | nil => cases h
        | cons d input =>
            rw [readNumber] at h
            by_cases hd : isDigit 10 d = true
            · rw [if_pos hd] at h
              obtain ⟨read, hdigits, hinput, hall, hc, hlt⟩ := ih h
              refine ⟨d :: read, ?_, ?_, List.forall_mem_cons.mpr ⟨hd, hall⟩, hc,
                Nat.succ_lt_succ hlt⟩
              · rw [hdigits, List.append_assoc, List.singleton_append]
              · rw [hinput, List.cons_append]
            · rw [if_neg hd] at h
              cases h
              exact ⟨[], (List.append_nil _).symm, rfl, by simp, Bool.eq_false_iff.mpr hd,
                Nat.succ_pos i⟩
  · rintro ⟨read, rfl, rfl, hall, hc, hlt⟩
    exact readNumber_digits hall hlt number hc rest

theorem readNumber_full_iff {i : Nat} {input number digits rest : List Octet} :
    readNumber i number input = .full digits rest ↔
      ∃ read, digits = number ++ read ∧ input = read ++ rest ∧ (∀ d ∈ read, isDigit 10 d) ∧
        read.length = i := by
  induction i generalizing input number with
  | zero =>
      constructor
      · intro h
        cases h
        exact ⟨[], (List.append_nil _).symm, rfl, by simp, rfl⟩
      · rintro ⟨read, rfl, rfl, -, hlength⟩
        rw [List.length_eq_zero_iff.mp hlength, List.append_nil, List.nil_append]
        rfl
  | succ i ih =>
      cases input with
      | nil =>
          refine ⟨by rintro ⟨⟩, ?_⟩
          rintro ⟨read, -, hinput, -, hlength⟩
          rw [(List.append_eq_nil_iff.mp hinput.symm).1] at hlength
          cases hlength
      | cons d input =>
          rw [readNumber]
          by_cases hd : isDigit 10 d = true
          · rw [if_pos hd, ih]
            constructor
            · rintro ⟨read, rfl, rfl, hall, rfl⟩
              exact ⟨d :: read, by simp, rfl, List.forall_mem_cons.mpr ⟨hd, hall⟩, rfl⟩
            · rintro ⟨read, rfl, hinput, hall, hlength⟩
              obtain ⟨e, read, rfl⟩ := List.exists_cons_of_length_eq_add_one hlength
              obtain ⟨rfl, rfl⟩ := List.cons.inj hinput
              exact ⟨read, by simp, rfl, fun c hc => hall c (List.mem_cons_of_mem _ hc),
                Nat.succ.inj hlength⟩
          · rw [if_neg hd]
            refine ⟨by simp, ?_⟩
            rintro ⟨read, -, hinput, hall, hlength⟩
            obtain ⟨e, read, rfl⟩ := List.exists_cons_of_length_eq_add_one hlength
            obtain ⟨rfl, rfl⟩ := List.cons.inj hinput
            exact absurd (hall d List.mem_cons_self) hd

theorem length_of_readNumber_noInput {i : Nat} {input number : List Octet}
    (h : readNumber i number input = .noInput) : input.length < i := by
  induction i generalizing input number with
  | zero => cases h
  | succ i ih =>
      cases input with
      | nil => exact Nat.succ_pos i
      | cons d input =>
          rw [readNumber] at h
          by_cases hd : isDigit 10 d = true
          · rw [if_pos hd] at h
            exact Nat.succ_lt_succ (ih h)
          · rw [if_neg hd] at h
            cases h

/-- What is read of the stream for the length of a message: digits and the octet behind them. If
there are as many digits as `number` has room for, then that octet is what is on the stack. -/
def NumberReads (stack : Octet) (input number : List Octet) (delimiter : Octet)
    (rest : List Octet) : Prop :=
  (∀ c ∈ number, isDigit 10 c) ∧
    (number.length < 18 ∧ isDigit 10 delimiter = false ∧ input = number ++ delimiter :: rest ∨
      number.length = 18 ∧ delimiter = stack ∧ input = number ++ rest)

theorem numberReads_iff {stack : Octet} {input number rest : List Octet} {delimiter : Octet} :
    NumberReads stack input number delimiter rest ↔
      readNumber 18 [] input = .stopped number delimiter rest ∨
        readNumber 18 [] input = .full number rest ∧ delimiter = stack := by
  simp only [readNumber_stopped_iff, readNumber_full_iff, List.nil_append]
  constructor
  · rintro ⟨hall, ⟨hlt, hc, rfl⟩ | ⟨hlength, rfl, rfl⟩⟩
    · exact .inl ⟨number, rfl, rfl, hall, hc, hlt⟩
    · exact .inr ⟨⟨number, rfl, rfl, hall, hlength⟩, rfl⟩
  · rintro (⟨_, rfl, rfl, hall, hc, hlt⟩ | ⟨⟨_, rfl, rfl, hall, hlength⟩, rfl⟩)
    · exact ⟨hall, .inl ⟨hlt, hc, rfl⟩⟩
    · exact ⟨hall, .inr ⟨hlength, rfl, rfl⟩⟩

theorem NumberReads.unique {stack c c' : Octet} {input number number' rest rest' : List Octet}
    (h : NumberReads stack input number c rest) (h' : NumberReads stack input number' c' rest') :
    number = number' ∧ c = c' ∧ rest = rest' := by
  rcases numberReads_iff.mp h with hread | ⟨hread, rfl⟩ <;>
    rcases numberReads_iff.mp h' with hread' | ⟨hread', rfl⟩ <;>
    rw [hread] at hread' <;> cases hread' <;> exact ⟨rfl, rfl, rfl⟩

theorem recvNumber_ends (stack : Octet) (input : List Octet) :
    (recvNumber stack input).Ends fun r => ∀ number delimiter rest,
      r = some (number, delimiter, rest) ↔ NumberReads stack input number delimiter rest := by
  simp only [numberReads_iff, recvNumber]
  cases hread : readNumber 18 [] input with
  | noInput =>
      have hlt := length_of_readNumber_noInput hread
      refine ends_store.mpr ⟨?_, fun _ _ _ => by simp⟩
      simp [Access.InBounds]
      omega
  | stopped digits c input' =>
      obtain ⟨_, rfl, -, -, -, hlt⟩ := readNumber_stopped_iff.mp hread
      refine ends_bind.mpr (ends_store.mpr ⟨?_, ends_bind.mpr (ends_store.mpr ⟨?_,
        ends_load.mpr ⟨?_, fun _ _ _ => by simp⟩⟩)⟩) <;>
      · simp [Access.InBounds]
        omega
  | full digits input' =>
      obtain ⟨_, rfl, -, -, hlength⟩ := readNumber_full_iff.mp hread
      refine ends_bind.mpr (ends_store.mpr ⟨?_, ends_bind.mpr (ends_store.mpr ⟨?_,
        ends_load.mpr ⟨?_, fun _ _ _ => by simp [and_comm, and_left_comm, eq_comm]⟩⟩)⟩) <;>
      · simp [Access.InBounds, hlength]

/-! ### Framed messages -/

/-- The stream begins with a message: digits for its length, a colon, its octets and a comma. They
have arrived when they are read, and there is memory for them. -/
structure Framed (env : FetchEnvironment) (s : Socket) (m : List Octet) : Prop where
  framed : ∃ digits rest, digits ≠ [] ∧ digitsValue 10 digits = m.length ∧
    NumberReads env.stack s.input digits (ch ':') (m ++ ch ',' :: rest)
  arrived : m.length ≤ env.arrived s.received
  memory : env.memory (m.length + 1) = true

theorem Framed.unique {env : FetchEnvironment} {s : Socket} {m m' : List Octet}
    (h : Framed env s m) (h' : Framed env s m') : m = m' := by
  obtain ⟨digits, rest, -, hvalue, hreads⟩ := h.framed
  obtain ⟨digits', rest', -, hvalue', hreads'⟩ := h'.framed
  obtain ⟨rfl, -, hinput⟩ := hreads.unique hreads'
  exact (List.append_inj hinput (hvalue.symm.trans hvalue')).1

theorem NumberReads.value_lt {stack c : Octet} {input number rest : List Octet}
    (h : NumberReads stack input number c rest) : digitsValue 10 number < 10 ^ 18 := by
  refine Nat.lt_of_lt_of_le (digitsValue_lt h.1) (Nat.pow_le_pow_right (by decide) ?_)
  rcases h.2 with ⟨hlt, -⟩ | ⟨hlength, -⟩
  · exact Nat.le_of_lt hlt
  · exact Nat.le_of_eq hlength

/-- `kvm_recv` stays in its buffers, and delivers the framed message. -/
theorem kvmRecvSocket_ends (env : FetchEnvironment) (s : Socket) :
    (kvmRecvSocket env s).Ends fun r =>
      (∃ m, r = (.ok, some m) ∧ Framed env s m) ∨ r.1 ≠ .ok ∧ ∀ m, ¬ Framed env s m := by
  have hnoInput : (if s.closed then KvmResult.eof else KvmResult.error) ≠ .ok := by
    split <;> decide
  refine ends_bind.mpr ((recvNumber_ends env.stack s.input).mono fun r hr => ?_)
  match r with
  | none =>
      refine ends_pure.mpr (.inr ⟨hnoInput, fun m hm => ?_⟩)
      obtain ⟨_, _, -, -, hreads⟩ := hm.framed
      cases (hr _ _ _).mpr hreads
  | some (number, delimiter, input) =>
      have hreads := (hr _ _ _).mp rfl
      dsimp only
      by_cases hformat : number = [] ∨ delimiter ≠ ch ':'
      · rw [if_pos hformat]
        refine ends_pure.mpr (.inr ⟨nofun, fun m hm => ?_⟩)
        obtain ⟨digits, rest, hne, -, hreads'⟩ := hm.framed
        obtain ⟨rfl, hcolon, -⟩ := hreads.unique hreads'
        exact hformat.elim hne fun h => h hcolon
      rw [if_neg hformat]
      obtain ⟨hne, hcolon⟩ := not_or.mp hformat
      obtain rfl := not_not.mp hcolon
      have hlt := hreads.value_lt
      have hsize : strtol (number ++ [ch ':']) 10 = ((digitsValue 10 number : Int), [ch ':']) := by
        rw [strtol_digits_delimiter (by decide) ⟨hne, hreads.1⟩ (by decide),
          clampLong_natCast (Nat.lt_trans hlt (by decide))]
      rw [hsize]
      dsimp only
      rw [if_neg (not_not.mpr rfl), Int.toNat_natCast]
      -- What stands in the buffer if a message is framed.
      have hbuf : ∀ m, Framed env s m → env.memory (digitsValue 10 number + 1) = true ∧
          input.take (min (digitsValue 10 number + 1) (env.arrived s.received + 1)) =
            m ++ [ch ','] ∧ m.length = digitsValue 10 number := fun m hm => by
        obtain ⟨digits, rest, -, hvalue, hreads'⟩ := hm.framed
        obtain ⟨rfl, -, rfl⟩ := hreads.unique hreads'
        have harrived := hm.arrived
        refine ⟨hvalue ▸ hm.memory, ?_, hvalue.symm⟩
        rw [hvalue, Nat.min_eq_left (by omega)]
        simp [List.take_append]
      generalize hn : digitsValue 10 number = n at *
      by_cases hmemory : env.memory (n + 1) = true
      case neg =>
        rw [if_pos hmemory]
        exact ends_pure.mpr (.inr ⟨nofun, fun m hm => hmemory (hbuf m hm).1⟩)
      rw [if_neg (not_not.mpr hmemory)]
      set buf := input.take (min (n + 1) (env.arrived s.received + 1)) with hbufdef
      have hle : buf.length ≤ n + 1 := by
        rw [hbufdef, List.length_take]
        omega
      refine ends_bind.mpr (ends_store.mpr ⟨Access.inBounds_iff_le.mpr (by simpa using hle), ?_⟩)
      by_cases hempty : buf = []
      · rw [if_pos hempty]
        exact ends_pure.mpr (.inr ⟨hnoInput, fun m hm => by simpa [hempty] using hbuf m hm⟩)
      rw [if_neg hempty]
      by_cases hshort : buf.length ≠ n + 1
      · rw [if_pos hshort]
        refine ends_pure.mpr (.inr ⟨nofun, fun m hm => hshort ?_⟩)
        obtain ⟨-, hbuf, hlength⟩ := hbuf m hm
        rw [hbuf, List.length_append, hlength]
        rfl
      have hlength := not_not.mp hshort
      rw [if_neg hshort]
      refine ends_bind.mpr (ends_load.mpr ⟨Access.inBounds_iff_le.mpr (Nat.le_refl _), ?_⟩)
      obtain ⟨m, c, hmc⟩ : ∃ m c, buf = m ++ [c] :=
        ⟨_, _, (List.dropLast_concat_getLast hempty).symm⟩
      rw [hmc, List.length_append] at hlength
      have hm : m.length = n := Nat.succ.inj hlength
      rw [hmc, List.getLast?_concat, Option.getD_some, List.dropLast_concat]
      by_cases hcomma : c ≠ ch ','
      · rw [if_pos hcomma]
        refine ends_pure.mpr (.inr ⟨nofun, fun m' hm' => hcomma ?_⟩)
        have hboth := (hbuf m' hm').2.1
        rw [hmc] at hboth
        exact List.singleton_inj.mp (List.append_inj' hboth rfl).2
      rw [if_neg hcomma]
      obtain rfl := not_not.mp hcomma
      refine ends_bind.mpr (ends_store.mpr ⟨Access.inBounds_iff_le.mpr (Nat.le_refl _),
        ends_pure.mpr (.inl ⟨m, rfl, ⟨number, input.drop buf.length, hne, hn.trans hm.symm, ?_⟩,
          ?_, hm ▸ hmemory⟩)⟩)
      · have hinput : buf ++ input.drop buf.length = input :=
          List.prefix_iff_eq_append.mp (List.take_prefix _ _)
        rw [← List.singleton_append, ← List.append_assoc, ← hmc, hinput]
        exact hreads
      · have htaken := congrArg List.length hbufdef
        rw [hmc, List.length_append, List.length_singleton, List.length_take] at htaken
        omega

/-! ### Answers -/

/-- An answer as it is to be: the size of a value is that of what follows the prefix, and a reply
that is shorter than the prefix is an error. -/
def FetchExact (env : FetchEnvironment) (s : Socket) (a : FetchAnswer) : Prop :=
  (a.rc = .ok → ∃ value, Framed env s (ascii "OK " ++ value) ∧ a.size = value.length) ∧
    ∀ m, Framed env s m → m.length < 3 → a.rc = .error

/-- The first octet of a reply says what it is: behind an O stands the rest of the prefix, and with
an N the reply is no shorter. -/
def ReplyHonest (m : List Octet) : Prop :=
  (m.head? = some (ch 'O') → ascii "OK " <+: m) ∧ (m.head? = some (ch 'N') → 3 ≤ m.length)

theorem fetchExact_error (env : FetchEnvironment) (s : Socket) :
    FetchExact env s ⟨.error, none, 0⟩ :=
  ⟨nofun, fun _ _ _ => rfl⟩

theorem peek_eq_iff {m : List Octet} {c : Octet} (hc : c ≠ 0) :
    peek m = c ↔ m.head? = some c := by
  cases m with
  | nil => exact ⟨fun h => absurd h.symm hc, nofun⟩
  | cons d m => exact Option.some_inj.symm

theorem fetchReply_ends_iff {env : FetchEnvironment} {s : Socket} {m : List Octet}
    (h : Framed env s m) : (fetchReply m).Ends (FetchExact env s) ↔ ReplyHonest m := by
  have hshorter : m.length < 10 ^ 18 := by
    obtain ⟨_, _, -, hvalue, hreads⟩ := h.framed
    exact hvalue ▸ hreads.value_lt
  have hpeek : Access.InBounds ⟨0, 1, (m.length + 1 : Nat)⟩ :=
    Access.inBounds_iff_le.mpr (Nat.le_add_left _ _)
  have hshort : ∀ rc : KvmResult, (∀ m', Framed env s m' → m'.length < 3 → rc = .error) ↔
      (m.length < 3 → rc = .error) := fun rc =>
    ⟨fun hall => hall m h, fun hm m' hm' => h.unique hm' ▸ hm⟩
  rw [fetchReply, ends_bind, ends_load, and_iff_right hpeek, ReplyHonest]
  by_cases hO : m.head? = some (ch 'O')
  · rw [if_pos ((peek_eq_iff (by decide)).mpr hO), hO, and_iff_left nofun]
    simp only [true_imp_iff]
    by_cases hlength : 3 ≤ m.length
    · have hsize : (m.length + (2 ^ 64 - 3)) % 2 ^ 64 = m.length - 3 := by omega
      rw [hsize]
      refine (ends_bind.trans ends_load).trans ?_
      rw [and_iff_right (by simp [Access.InBounds]; omega)]
      refine (ends_bind.trans ends_store).trans ?_
      rw [and_iff_right (by simp [Access.InBounds]; omega)]
      refine (ends_bind.trans ends_store).trans ?_
      rw [and_iff_right (by simp [Access.InBounds]), ends_pure, FetchExact, hshort,
        and_iff_left fun hlt => by omega]
      constructor
      · intro hvalue
        obtain ⟨value, hframed, -⟩ := hvalue rfl
        exact ⟨value, hframed.unique h⟩
      · rintro ⟨value, rfl⟩ -
        exact ⟨value, h, by rw [List.length_append]; exact Nat.add_sub_cancel_left _ _⟩
    · -- The size has wrapped, and no buffer is as long.
      have hsize : (m.length + (2 ^ 64 - 3)) % 2 ^ 64 = m.length + (2 ^ 64 - 3) := by omega
      rw [hsize]
      refine iff_of_false (fun hends => ?_) fun hprefix => hlength hprefix.length_le
      have hin := (ends_load.mp (ends_bind.mp hends)).1
      rw [Access.InBounds] at hin
      dsimp only at hin
      omega
  · rw [if_neg (mt (peek_eq_iff (by decide)).mp hO), and_iff_right fun hO' => absurd hO' hO,
      ends_bind, ends_store, and_iff_right (Access.inBounds_iff_le.mpr (Nat.le_refl _)), ends_pure,
      FetchExact, hshort, ← peek_eq_iff (by decide)]
    by_cases hN : peek m = ch 'N' <;> simp [hN]

/-- The query of a fetch is sent, and an answer is waited for. -/
def Queried (env : FetchEnvironment) (table key : List Octet) (size : Nat) : Prop :=
  let out_length := (10 + (table.length + 1 + size) + 2) % 2 ^ 32
  env.connected = true ∧ env.memory out_length = true ∧
    (fetchQuery table key size).length < out_length ∧ env.written = true

/-- A fetch stays in its buffers and its answer is exact if the first octet of the message that is
framed in what the server sends tells what the message is, or no query is sent, and only then. -/
theorem kvmFetchSocket_exact_iff (env : FetchEnvironment) (s : Socket) (table key : List Octet)
    (size : Nat) :
    (kvmFetchSocket env s table key size).Ends (FetchExact env s) ↔
      (Queried env table key size → ∀ m, Framed env s m → ReplyHonest m) := by
  have herror := fetchExact_error env s
  rw [kvmFetchSocket, Queried]
  generalize (10 + (table.length + 1 + size) + 2) % 2 ^ 32 = out_length
  by_cases hconnected : ¬ env.connected = true ∨ ¬ env.memory out_length = true
  · rw [if_pos hconnected]
    refine iff_of_true (ends_pure.mpr herror) fun h => ?_
    exact hconnected.elim (absurd h.1) (absurd h.2.1)
  rw [if_neg hconnected]
  rw [not_or, not_not, not_not] at hconnected
  rw [ends_bind, ends_store, and_iff_right (by simp [Access.InBounds]),
    and_iff_right hconnected.1, and_iff_right hconnected.2]
  by_cases hwritten : out_length ≤ (fetchQuery table key size).length ∨ ¬ env.written = true
  · rw [if_pos hwritten]
    refine iff_of_true (ends_pure.mpr herror) fun h => ?_
    exact hwritten.elim (absurd h.1 ∘ Nat.not_lt.mpr) (absurd h.2)
  rw [if_neg hwritten]
  rw [not_or, not_not, Nat.not_le] at hwritten
  rw [forall_prop_of_true hwritten, ends_bind]
  refine (kvmRecvSocket_ends env s).ends_iff fun r hr => ?_
  rcases hr with ⟨m, rfl, hm⟩ | ⟨hrc, hnone⟩
  · rw [fetchReply_ends_iff hm]
    exact ⟨fun h m' hm' => hm.unique hm' ▸ h, fun h => h m hm⟩
  · obtain ⟨rc, data⟩ := r
    refine iff_of_true ?_ fun m hm => absurd hm (hnone m)
    cases rc with
    | ok => exact absurd rfl hrc
    | _ => exact ends_pure.mpr herror

/-- An environment in which nothing fails. -/
def calmFetch : FetchEnvironment :=
  ⟨true, fun _ => true, true, fun _ => 2, 0⟩

/-- A reply of two octets, an O and a K. -/
theorem kvmFetchSocket_short :
    ¬ (kvmFetchSocket calmFetch ⟨ascii "2:OK,", 0, false⟩ (ascii "t") (ascii "k") 1).Ends
      (FetchExact calmFetch ⟨ascii "2:OK,", 0, false⟩) :=
  fun h => absurd h.1 (by decide)

end Snert
