/-
Module: Snert.Proofs.TextJoining
Purpose: What `TextJoin` makes of a vector, and `TextSplit` of what it makes. The length of the last
  delimiter is taken off also where there is none, and wraps. An octet that is -1 as a `char` is
  taken for a bracket that opens, so that no delimiter behind it is seen.
Trusted boundary: none
Main exports: textJoin_exact_iff
-/
import Snert.Util.TextJoin
import Snert.Util.TokenNext

namespace Snert

open CModel CModel.Run

/-! ### Joining -/

/-- A buffer with room for its octets and a NUL. -/
structure TextBuf.Roomy (a : TextBuf) : Prop where
  object : a.object = some a.size
  lt : a.octets.length < a.size

/-- There is memory for a text of `total` octets, and none for what no object is as large as. -/
structure Suffices (memory : Nat → Bool) (total : Nat) : Prop where
  grants : ∀ n, 0 < n → n ≤ total + BUF_GROWTH + 1 → memory n = true
  refuses : ∀ n, 2 ^ 63 ≤ n → memory n = false

section

variable {memory : Nat → Bool} {total : Nat}

theorem Suffices.lt (h : Suffices memory total) : total + BUF_GROWTH + 1 < 2 ^ 63 := by
  by_contra hge
  have hgrants := h.grants _ (Nat.succ_pos _) (Nat.le_refl _)
  rw [h.refuses _ (Nat.not_lt.mp hge)] at hgrants
  cases hgrants

theorem bufSetSize_ok (h : Suffices memory total) (a : TextBuf) (ha : a.object = some a.size)
    {length : Nat} (hlength : length ≤ total + 1) :
    ∃ size, length ≤ size ∧ bufSetSize memory a length = (true, ⟨size, some size, a.octets⟩) := by
  have htotal := h.lt
  have hgrowth : BUF_GROWTH = 512 := rfl
  unfold bufSetSize
  by_cases hsize : a.size < length
  · have hlt : length < (length / BUF_GROWTH + 1) * BUF_GROWTH := by
      rw [hgrowth]
      omega
    have hle : (length / BUF_GROWTH + 1) * BUF_GROWTH ≤ length + BUF_GROWTH := by
      rw [hgrowth]
      omega
    generalize (length / BUF_GROWTH + 1) * BUF_GROWTH = capacity at hlt hle ⊢
    rw [if_pos hsize, Nat.mod_eq_of_lt (by omega), if_neg (by omega),
      if_pos (h.grants _ (by omega) (by omega))]
    exact ⟨_, Nat.le_of_lt hlt, rfl⟩
  · rw [if_neg hsize]
    exact ⟨a.size, Nat.not_lt.mp hsize, by rw [← ha]⟩

theorem bufAddString_ends (h : Suffices memory total) {a : TextBuf} (ha : a.Roomy) (s : List Octet)
    (htotal : a.octets.length + s.length ≤ total) :
    (bufAddString memory a s).Ends fun b => b.Roomy ∧ b.octets = a.octets ++ s := by
  have hlt := h.lt
  unfold bufAddString
  by_cases hs : s = []
  · rw [if_pos hs]
    exact ends_pure.mpr ⟨ha, by rw [hs, List.append_nil]⟩
  · have hmod : (a.octets.length + s.length + 1) % 2 ^ 64 = a.octets.length + s.length + 1 :=
      Nat.mod_eq_of_lt (by omega)
    obtain ⟨size, hsize, hset⟩ := bufSetSize_ok h a ha.object (Nat.succ_le_succ htotal)
    have happend := @List.length_append _ a.octets s
    rw [if_neg hs, hmod, hset]
    dsimp only
    rw [if_neg Bool.noConfusion]
    refine ends_bind.mpr (ends_store.mpr ⟨Access.inBounds_iff_le.mpr (by simp; omega), ?_⟩)
    refine ends_bind.mpr (ends_store.mpr ⟨Access.inBounds_iff_le.mpr (by simp; omega), ?_⟩)
    exact ends_pure.mpr ⟨⟨rfl, by simp; omega⟩, rfl⟩

theorem joinLoop_ends (h : Suffices memory total) (delim : List Octet) (strings : List (List Octet))
    {a : TextBuf} (ha : a.Roomy)
    (htotal : a.octets.length + (strings.flatMap (· ++ delim)).length ≤ total) :
    (joinLoop memory delim strings a).Ends fun b =>
      b.Roomy ∧ b.octets = a.octets ++ strings.flatMap (· ++ delim) := by
  induction strings generalizing a with
  | nil => exact ends_pure.mpr ⟨ha, (List.append_nil _).symm⟩
  | cons s strings ih =>
      simp only [List.flatMap_cons, List.length_append] at htotal ⊢
      rw [joinLoop]
      refine ends_bind.mpr ((bufAddString_ends h ha s (by omega)).mono fun b hb => ?_)
      have hlength : b.octets.length = a.octets.length + s.length := by
        rw [hb.2, List.length_append]
      refine ends_bind.mpr ((bufAddString_ends h hb.1 delim (by omega)).mono fun c hc => ?_)
      have hc' : c.octets = a.octets ++ s ++ delim := by rw [hc.2, hb.2]
      refine (ih hc.1 (by rw [hc', List.length_append, List.length_append]; omega)).mono fun d hd =>
        ⟨hd.1, ?_⟩
      rw [hd.2, hc', List.append_assoc, List.append_assoc, List.append_assoc]

theorem flatMap_append_delim (delim : List Octet) {strings : List (List Octet)} (h : strings ≠ []) :
    strings.flatMap (· ++ delim) = delim.intercalate strings ++ delim := by
  induction strings with
  | nil => exact absurd rfl h
  | cons s strings ih =>
      by_cases hs : strings = []
      · rw [hs, List.flatMap_singleton, List.intercalate_singleton]
      · rw [List.flatMap_cons, ih hs, List.intercalate_cons_of_ne_nil hs, List.append_assoc,
          List.append_assoc, List.append_assoc]

theorem bufToString_destroy_ends (h : Suffices memory total) {a : TextBuf} {size : Nat}
    (ha : a.object = some size) (hle : a.octets.length ≤ size) (htotal : a.octets.length ≤ total)
    {Q : Option (List Octet) → Prop} :
    (bufToString memory a >>= fun s => bufDestroy a >>= fun _ => pure s).Ends Q ↔
      Q (some a.octets) := by
  rw [bufToString, if_pos (h.grants _ (Nat.succ_pos _) (by omega)), ends_bind, ends_load,
    and_iff_right (by rw [ha]; exact Access.inBounds_iff_le.mpr (by simpa using hle)),
    bufDestroy, ha]
  exact ends_pure

theorem bufSetLength_cuts (h : Suffices memory total) {a : TextBuf} (ha : a.Roomy)
    {text delim : List Octet} (hoctets : a.octets = text ++ delim)
    (htotal : text.length ≤ total) {Q : Option (List Octet) → Prop} :
    (bufSetLength memory a (sizeT ((a.octets.length : Int) - delim.length)) >>= fun a =>
      bufToString memory a >>= fun s => bufDestroy a >>= fun _ => pure s).Ends Q ↔
      Q (some text) := by
  have htotal' := h.lt
  have hlt := ha.lt
  have hlength : a.octets.length = text.length + delim.length := by
    rw [hoctets, List.length_append]
  have hsize : sizeT ((a.octets.length : Int) - delim.length) = text.length := by
    rw [sizeT_of_nonneg (by omega) (by omega)]
    omega
  rw [hsize, ends_bind, bufSetLength, bufSetSize, Nat.mod_eq_of_lt (by omega),
    if_neg (Nat.not_lt.mpr (by omega))]
  dsimp only
  rw [if_neg Bool.noConfusion, ends_bind, TextBuf.store, ends_store, ha.object,
    and_iff_right (Access.inBounds_iff_le.mpr (by simp; omega)), ends_pure, hoctets, List.take_left]
  exact bufToString_destroy_ends h rfl (by simp; omega) htotal

theorem bufSetLength_wraps (h : Suffices memory total) {k : Nat} (hpos : 0 < k) (hk : k < 2 ^ 63)
    {Q : Option (List Octet) → Prop} :
    (bufSetLength memory ⟨100, some 100, []⟩ (2 ^ 64 - k) >>= fun a =>
      bufToString memory a >>= fun s => bufDestroy a >>= fun _ => pure s).Ends Q ↔
      513 < k ∧ Q (some []) := by
  rw [ends_bind, bufSetLength, bufSetSize]
  by_cases hone : k = 1
  · rw [hone]
    refine iff_of_false (fun hends => ?_) fun h => absurd h.1 (by decide)
    have hin := (ends_store.mp (ends_bind.mp hends)).1
    exact absurd hin (by decide)
  · have hlength : (2 ^ 64 - k + 1) % 2 ^ 64 = 2 ^ 64 - k + 1 := Nat.mod_eq_of_lt (by omega)
    have hgrowth : BUF_GROWTH = 512 := rfl
    rw [hlength, if_pos (by change 100 < _; omega)]
    by_cases hzero : k ≤ 513
    · have hcapacity : ((2 ^ 64 - k + 1) / BUF_GROWTH + 1) * BUF_GROWTH % 2 ^ 64 = 0 := by
        rw [hgrowth]
        omega
      rw [hcapacity]
      refine iff_of_false (fun hends => ?_) fun h => absurd h.1 (Nat.not_lt.mpr hzero)
      rw [if_pos rfl] at hends
      dsimp only at hends
      rw [if_pos rfl, ends_pure, bufToString, if_pos (h.grants _ (Nat.succ_pos _) (by simp)),
        ends_bind, ends_load] at hends
      exact not_ends_overrun (ends_bind.mp hends.2)
    · have hcapacity : 0 < ((2 ^ 64 - k + 1) / BUF_GROWTH + 1) * BUF_GROWTH % 2 ^ 64 ∧
          2 ^ 63 ≤ ((2 ^ 64 - k + 1) / BUF_GROWTH + 1) * BUF_GROWTH % 2 ^ 64 := by
        rw [hgrowth]
        omega
      generalize ((2 ^ 64 - k + 1) / BUF_GROWTH + 1) * BUF_GROWTH % 2 ^ 64 = capacity at *
      dsimp only
      rw [if_neg (Nat.ne_of_gt hcapacity.1), h.refuses _ hcapacity.2, if_neg Bool.false_ne_true,
        if_pos rfl, ends_pure, and_iff_right (Nat.not_le.mp hzero)]
      exact bufToString_destroy_ends h rfl (Nat.zero_le _) (Nat.zero_le _)

theorem textJoin_ends_iff {delim : List Octet} {strings : List (List Octet)}
    (h : Suffices memory ((strings.flatMap (· ++ delim)).length + delim.length))
    {Q : Option (List Octet) → Prop} :
    (textJoin memory delim strings).Ends Q ↔
      (strings ≠ [] ∨ delim = [] ∨ 513 < delim.length) ∧ Q (some (delim.intercalate strings)) := by
  have hlt := h.lt
  rw [textJoin, ends_bind]
  by_cases hempty : strings = []
  · rw [hempty, joinLoop, ends_pure, or_iff_right (not_not.mpr rfl)]
    by_cases hdelim : delim = []
    · rw [and_iff_right (.inl hdelim), hdelim]
      exact bufSetLength_cuts h ⟨rfl, by decide⟩ rfl (Nat.zero_le _)
    · have hpos := List.length_pos_iff.mpr hdelim
      rw [or_iff_right hdelim]
      have hwrap : sizeT (((⟨100, some 100, []⟩ : TextBuf).octets.length : Int) - delim.length) =
          2 ^ 64 - delim.length := by
        unfold sizeT
        simp only [List.length_nil]
        omega
      rw [hwrap]
      exact bufSetLength_wraps h hpos (by omega)
  · rw [and_iff_right (.inl hempty)]
    have hflat := flatMap_append_delim delim hempty
    refine (joinLoop_ends h delim strings (a := ⟨100, some 100, []⟩) ⟨rfl, by decide⟩
      (by simp)).ends_iff fun b hb => ?_
    refine bufSetLength_cuts h hb.1 (hb.2.trans hflat) ?_
    rw [hflat, List.length_append]
    omega

end

/-! ### Splitting -/

/-- `TOKEN_KEEP_EMPTY`. -/
def keepEmptyTokens : TokenFlags :=
  ⟨true, false, false, false, false⟩

/-- A delimiter that `TokenNext` never looks for: a quote, a backslash, or the octet of `EOF`. -/
def Unseen (d : Octet) : Prop :=
  isQuote d = true ∨ d = ch '\\' ∨ d = 0xff

instance (d : Octet) : Decidable (Unseen d) :=
  inferInstanceAs (Decidable (_ ∨ _))

/-- An octet that is neither the delimiter nor has a meaning. -/
def PlainOctet (d c : Octet) : Prop :=
  c ≠ d ∧ isQuote c = false ∧ c ≠ ch '\\'

section

variable {d : Octet}

theorem switch_plainOctet {c : Octet} (hc : PlainOctet d c) (n : Int) :
    spanSwitch keepEmptyTokens ⟨0, false, n⟩ c = .looks ⟨0, false, n⟩ ∧
      copySwitch keepEmptyTokens ⟨0, false, n⟩ c = .looks ⟨0, false, n⟩ := by
  simp [spanSwitch, copySwitch, hc.2.1, hc.2.2]

theorem count_noPair (s : BracketScan) (c : Octet) : s.count (0xff, 0xff) c =
    if s.quote = 0 ∧ c = 0xff then { s with bcount := s.bcount + 1 } else s := by
  unfold BracketScan.count
  by_cases hquote : s.quote = 0 <;> by_cases hc : c = 0xff <;> simp [hquote, hc]

theorem endsAt_singleton (s : BracketScan) (c : Octet) :
    s.endsAt [d] c = true ↔ s.quote = 0 ∧ s.bcount = 0 ∧ c = d := by
  simp [BracketScan.endsAt, and_assoc]

theorem tokenSpanWith_plain {item : List Octet} (hplain : ∀ c ∈ item, PlainOctet d c)
    (rest : List Octet) (n : Int) :
    tokenSpanWith keepEmptyTokens (0xff, 0xff) [d] (item ++ rest) ⟨0, false, n⟩ =
      let r := tokenSpanWith keepEmptyTokens (0xff, 0xff) [d] rest ⟨0, false, n + item.count 0xff⟩
      (item.length + r.1, r.2) := by
  induction item generalizing n with
  | nil => simp
  | cons c item ih =>
      obtain ⟨hc, hrest⟩ := List.forall_mem_cons.mp hplain
      rw [List.cons_append, tokenSpanWith, (switch_plainOctet hc n).1]
      dsimp only
      rw [if_neg (mt (endsAt_singleton _ c).mp fun h => hc.1 h.2.2), count_noPair, List.count_cons]
      by_cases heof : c = 0xff
      · simp [heof, ih hrest, Nat.add_right_comm, Int.add_assoc, Int.add_comm]
      · simp [heof, ih hrest, Nat.add_right_comm]

theorem tokenCopyWith_plain {item : List Octet} (hplain : ∀ c ∈ item, PlainOctet d c) (n : Int) :
    tokenCopyWith keepEmptyTokens (0xff, 0xff) [d] item ⟨0, false, n⟩ = (item, 0) := by
  induction item generalizing n with
  | nil => rfl
  | cons c item ih =>
      obtain ⟨hc, hrest⟩ := List.forall_mem_cons.mp hplain
      rw [tokenCopyWith, (switch_plainOctet hc n).2]
      dsimp only
      rw [if_neg (mt (endsAt_singleton _ c).mp fun h => hc.1 h.2.2), count_noPair]
      split
      · rw [ih hrest, List.singleton_append]
      · rw [ih hrest, List.singleton_append]

/-- From here on no delimiter ends a token. -/
def RunsOn (d : Octet) (s : BracketScan) : Prop :=
  0 ≤ s.bcount ∧ (s.bcount = 0 → Unseen d)

theorem RunsOn.toggle {s : BracketScan} (h : RunsOn d s) (c : Octet) : RunsOn d (s.toggle c) := by
  unfold BracketScan.toggle
  split
  · exact h
  · split <;> exact h

theorem RunsOn.count {s : BracketScan} (h : RunsOn d s) (c : Octet) :
    RunsOn d (s.count (0xff, 0xff) c) := by
  obtain ⟨hle, hunseen⟩ := h
  rw [count_noPair]
  split
  · exact ⟨by dsimp only; omega, fun hzero => absurd hzero (by dsimp only; omega)⟩
  · exact ⟨hle, hunseen⟩

theorem RunsOn.not_endsAt {s : BracketScan} (h : RunsOn d s) {c : Octet}
    (hquote : isQuote c = true → s.quote ≠ 0) (hbackslash : c ≠ ch '\\') :
    ¬ (s.count (0xff, 0xff) c).endsAt [d] c = true := by
  obtain ⟨hle, hunseen⟩ := h
  rw [endsAt_singleton, count_noPair]
  rintro ⟨hzero, hcount, rfl⟩
  split at hcount
  · dsimp only at hcount
    omega
  next hnot =>
    rw [if_neg hnot] at hzero
    rcases hunseen hcount with hc | hc | hc
    · exact hquote hc hzero
    · exact hbackslash hc
    · exact hnot ⟨hzero, hc⟩

theorem tokenSpanWith_runsOn (string : List Octet) {s : BracketScan} (h : RunsOn d s) :
    ∃ s', RunsOn d s' ∧
      tokenSpanWith keepEmptyTokens (0xff, 0xff) [d] string s = (string.length, s') := by
  induction string generalizing s with
  | nil => exact ⟨s, h, rfl⟩
  | cons c string ih =>
      have hgo : ∀ {s' : BracketScan}, RunsOn d s' → ∃ s'', RunsOn d s'' ∧
          ((tokenSpanWith keepEmptyTokens (0xff, 0xff) [d] string s').1 + 1,
            (tokenSpanWith keepEmptyTokens (0xff, 0xff) [d] string s').2) =
              (string.length + 1, s'') := fun hs' => by
        obtain ⟨s'', hs'', heq⟩ := ih hs'
        exact ⟨s'', hs'', by rw [heq]⟩
      rw [tokenSpanWith, spanSwitch]
      by_cases hescape : s.escape = true
      · rw [if_pos hescape]
        exact hgo h
      by_cases hquote : isQuote c = true
      · rw [if_neg hescape, if_pos ⟨hquote, Bool.false_ne_true⟩, if_neg (by decide)]
        exact hgo (h.toggle c)
      rw [if_neg hescape, if_neg (fun hq => hquote hq.1)]
      by_cases hbackslash : c = ch '\\'
      · rw [if_pos hbackslash]
        exact hgo h
      · rw [if_neg hbackslash]
        dsimp only
        rw [if_neg (h.not_endsAt (absurd · hquote) hbackslash)]
        exact hgo (h.count c)

theorem tokenCopyWith_runsOn (string : List Octet) {s : BracketScan} (h : RunsOn d s) :
    (tokenCopyWith keepEmptyTokens (0xff, 0xff) [d] string s).2 = 0 := by
  induction string generalizing s with
  | nil => rfl
  | cons c string ih =>
      rw [tokenCopyWith, copySwitch]
      by_cases hescape : s.escape = true
      · rw [if_pos hescape]
        exact ih h
      rw [if_neg hescape]
      by_cases hquote : isQuote c = true
      · rw [if_pos ⟨hquote, Bool.false_ne_true⟩]
        by_cases hother : s.quote ≠ 0 ∧ c ≠ s.quote
        · rw [if_pos hother]
          dsimp only
          rw [if_neg (h.not_endsAt (fun _ => hother.1) fun hc => ?_)]
          · exact ih (h.count c)
          · rw [hc] at hquote
            exact absurd hquote (by decide)
        · rw [if_neg hother, if_neg (by decide)]
          exact ih (h.toggle c)
      rw [if_neg (fun hq => hquote hq.1)]
      by_cases hbackslash : c = ch '\\'
      · rw [if_pos hbackslash]
        exact ih h
      · rw [if_neg hbackslash]
        dsimp only
        rw [if_neg (h.not_endsAt (absurd · hquote) hbackslash)]
        exact ih (h.count c)

theorem tokenNextWith_copied {string token : List Octet} {n : Nat} {s : BracketScan}
    (hspan : tokenSpanWith keepEmptyTokens (0xff, 0xff) [d] string ⟨0, false, 0⟩ = (n, s))
    (hcopy : tokenCopyWith keepEmptyTokens (0xff, 0xff) [d] (string.take n) s = (token, 0)) :
    tokenNextWith keepEmptyTokens (some [d]) string =
      some (token, if string.drop n = [] then none else some (string.drop n).tail) := by
  have hdelims : tokenDelims (some [d]) = [d] :=
    if_neg fun h => by simpa using congrArg List.length h
  have hopening : tokenOpening keepEmptyTokens [d] string = string := if_pos rfl
  have hpair : tokenPair keepEmptyTokens [d] string = (0xff, 0xff) := if_neg (by decide)
  rw [tokenNextWith, hdelims, hopening, if_neg (fun h => h.2 rfl), tokenAtWith, hpair, hspan]
  dsimp only
  rw [hcopy, Nat.sub_zero]
  cases string.drop n with
  | nil => rfl
  | cons c stop => simp [keepEmptyTokens]

theorem tokenNextWith_seen {item : List Octet} (hplain : ∀ c ∈ item, PlainOctet d c)
    (hseen : ¬ Unseen d) (heof : 0xff ∉ item) (rest : List Octet) :
    tokenNextWith keepEmptyTokens (some [d]) (item ++ d :: rest) = some (item, some rest) := by
  have hspan : tokenSpanWith keepEmptyTokens (0xff, 0xff) [d] (item ++ d :: rest) ⟨0, false, 0⟩ =
      (item.length, ⟨0, false, 0⟩) := by
    obtain ⟨hquote, hbackslash, hd⟩ := not_or.mp hseen |>.imp id not_or.mp
    have hswitch : spanSwitch keepEmptyTokens ⟨0, false, 0⟩ d = .looks ⟨0, false, 0⟩ := by
      simp [spanSwitch, hquote, hbackslash]
    have hends : BracketScan.endsAt ⟨0, false, 0⟩ [d] d = true :=
      (endsAt_singleton _ d).mpr ⟨rfl, rfl, rfl⟩
    rw [tokenSpanWith_plain hplain, List.count_eq_zero_of_not_mem heof]
    simp [tokenSpanWith, hswitch, count_noPair, hd, hends]
  have hcopy : tokenCopyWith keepEmptyTokens (0xff, 0xff) [d]
      ((item ++ d :: rest).take item.length) ⟨0, false, 0⟩ = (item, 0) := by
    rw [List.take_left, tokenCopyWith_plain hplain]
  rw [tokenNextWith_copied hspan hcopy, List.drop_left, if_neg (List.cons_ne_nil _ _), List.tail_cons]

theorem tokenNextWith_unseen {item : List Octet} (hplain : ∀ c ∈ item, PlainOctet d c)
    (hunseen : Unseen d ∨ 0xff ∈ item) (rest : List Octet) :
    ∃ token, tokenNextWith keepEmptyTokens (some [d]) (item ++ d :: rest) = some (token, none) := by
  have hruns : RunsOn d ⟨0, false, 0 + item.count 0xff⟩ := by
    refine ⟨by simp, fun hzero => hunseen.resolve_right fun hmem => ?_⟩
    have hpos := List.count_pos_iff.mpr hmem
    simp only [Int.zero_add] at hzero
    omega
  obtain ⟨s, hs, hspan⟩ := tokenSpanWith_runsOn (d :: rest) hruns
  have hall := tokenSpanWith_plain hplain (d :: rest) 0
  rw [hspan] at hall
  dsimp only at hall
  rw [← List.length_append] at hall
  have hnext := tokenNextWith_copied hall (Prod.ext rfl (tokenCopyWith_runsOn _ hs))
  rw [List.drop_length, if_pos rfl] at hnext
  exact ⟨_, hnext⟩

theorem tokenNextWith_last {item : List Octet} (hplain : ∀ c ∈ item, PlainOctet d c) :
    tokenNextWith keepEmptyTokens (some [d]) item = some (item, none) := by
  have hspan := tokenSpanWith_plain hplain [] 0
  rw [List.append_nil] at hspan
  have hcopy : tokenCopyWith keepEmptyTokens (0xff, 0xff) [d] (item.take (item.length + 0))
      ⟨0, false, 0 + item.count 0xff⟩ = (item, 0) := by
    rw [List.take_of_length_le (Nat.le_add_right _ _), tokenCopyWith_plain hplain]
  rw [tokenNextWith_copied hspan hcopy, List.drop_of_length_le (Nat.le_add_right _ _), if_pos rfl]

/-! ### Back again -/

/-- What `TextSplit` makes of a string. -/
def SplitsInto (d : Octet) (string : Option (List Octet)) (tokens : List (List Octet)) : Prop :=
  ∃ calls, textSplitWith keepEmptyTokens (some [d]) calls string = some tokens

theorem splitsInto_none (tokens : List (List Octet)) : SplitsInto d none tokens ↔ tokens = [] := by
  constructor
  · rintro ⟨calls, h⟩
    cases calls with
    | zero => cases h
    | succ calls => exact (Option.some.inj h).symm
  · rintro rfl
    exact ⟨1, rfl⟩

theorem splitsInto_some {string token : List Octet} {stop : Option (List Octet)}
    (h : tokenNextWith keepEmptyTokens (some [d]) string = some (token, stop))
    (tokens : List (List Octet)) :
    SplitsInto d (some string) tokens ↔
      ∃ rest, tokens = token :: rest ∧ SplitsInto d stop rest := by
  constructor
  · rintro ⟨calls, hcalls⟩
    cases calls with
    | zero => cases hcalls
    | succ calls =>
        rw [textSplitWith, Option.bind_some, h] at hcalls
        obtain ⟨rest, hrest, rfl⟩ := Option.map_eq_some_iff.mp hcalls
        exact ⟨rest, rfl, calls, hrest⟩
  · rintro ⟨rest, rfl, calls, hcalls⟩
    exact ⟨calls + 1, by rw [textSplitWith, Option.bind_some, h]; simp [hcalls]⟩

/-- Every delimiter between the items is seen. -/
def DelimitersSeen (d : Octet) (strings : List (List Octet)) : Prop :=
  strings.length = 1 ∨ ¬ Unseen d ∧ ∀ s ∈ strings.dropLast, 0xff ∉ s

theorem splitsInto_joined_iff {strings : List (List Octet)} (hne : strings ≠ [])
    (hplain : ∀ s ∈ strings, ∀ c ∈ s, PlainOctet d c) :
    SplitsInto d (some ([d].intercalate strings)) strings ↔ DelimitersSeen d strings := by
  induction strings with
  | nil => exact absurd rfl hne
  | cons s strings ih =>
      obtain ⟨hs, hrest⟩ := List.forall_mem_cons.mp hplain
      cases strings with
      | nil =>
          rw [List.intercalate_singleton, splitsInto_some (tokenNextWith_last hs)]
          exact iff_of_true ⟨[], rfl, (splitsInto_none []).mpr rfl⟩ (.inl rfl)
      | cons t strings =>
          have hdelims : DelimitersSeen d (s :: t :: strings) ↔
              (¬ Unseen d ∧ 0xff ∉ s) ∧ DelimitersSeen d (t :: strings) := by
            unfold DelimitersSeen
            rw [or_iff_right (by simp), List.dropLast_cons_cons, List.forall_mem_cons]
            constructor
            · rintro ⟨hseen, hs, hall⟩
              exact ⟨⟨hseen, hs⟩, .inr ⟨hseen, hall⟩⟩
            · rintro ⟨⟨hseen, hs⟩, hone | ⟨-, hall⟩⟩
              · obtain rfl := List.length_eq_zero_iff.mp (Nat.succ.inj hone)
                exact ⟨hseen, hs, nofun⟩
              · exact ⟨hseen, hs, hall⟩
          rw [List.intercalate_cons_cons, List.append_assoc, List.singleton_append, hdelims]
          by_cases hseen : ¬ Unseen d ∧ 0xff ∉ s
          · rw [splitsInto_some (tokenNextWith_seen hs hseen.1 hseen.2 _), and_iff_right hseen,
              ← ih (List.cons_ne_nil _ _) hrest]
            simp
          · obtain ⟨token, htoken⟩ := tokenNextWith_unseen hs
              (by rwa [not_and_or, not_not, not_not] at hseen) ([d].intercalate (t :: strings))
            rw [splitsInto_some htoken]
            refine iff_of_false ?_ fun h => hseen h.1
            rintro ⟨rest, hrest, hnone⟩
            rw [(splitsInto_none rest).mp hnone] at hrest
            cases hrest

end

/-! ### Both ways -/

/-- What the strings of a vector are joined to is the text with the delimiter between them, and with
a delimiter of one octet plain strings come back from it. -/
structure JoinExact (delim : List Octet) (strings : List (List Octet))
    (joined : Option (List Octet)) : Prop where
  text : joined = some (delim.intercalate strings)
  split : ∀ d, delim = [d] → strings ≠ [] → (∀ s ∈ strings, ∀ c ∈ s, PlainOctet d c) →
    SplitsInto d joined strings

/-- `TextJoin` joins within its buffer and `TextSplit` inverts it, for every delimiter and vector, if
there is a string or no delimiter to take off, or memory is refused before it is, and if `TextSplit`
sees the delimiters, and only then. -/
theorem textJoin_exact_iff (memory : Nat → Bool) (delim : List Octet)
    (strings : List (List Octet))
    (h : Suffices memory ((strings.flatMap (· ++ delim)).length + delim.length)) :
    (textJoin memory delim strings).Ends (JoinExact delim strings) ↔
      (strings ≠ [] ∨ delim = [] ∨ 513 < delim.length) ∧
        ∀ d, delim = [d] → strings ≠ [] → (∀ s ∈ strings, ∀ c ∈ s, PlainOctet d c) →
          DelimitersSeen d strings := by
  rw [textJoin_ends_iff h]
  refine and_congr_right fun _ => ⟨fun hexact d hd hne hplain => ?_, fun hseen =>
    ⟨rfl, fun d hd hne hplain => ?_⟩⟩
  · exact (splitsInto_joined_iff hne hplain).mp (hd ▸ hexact.split d hd hne hplain)
  · exact hd ▸ (splitsInto_joined_iff hne hplain).mpr (hseen d hd hne hplain)

theorem suffices_short : Suffices (fun n => n ≤ 1000) 6 where
  grants := fun _ _ hn => decide_eq_true (Nat.le_trans hn (by decide))
  refuses := fun _ hn => decide_eq_false (by omega)

theorem textJoin_exact_plain :
    (textJoin (fun n => n ≤ 1000) (ascii ",") [ascii "a", [], ascii "b"]).Ends
      (JoinExact (ascii ",") [ascii "a", [], ascii "b"]) :=
  (textJoin_exact_iff (fun n => n ≤ 1000) (ascii ",") [ascii "a", [], ascii "b"] suffices_short).mpr
    ⟨.inl (List.cons_ne_nil _ _), fun d hd _ _ =>
      .inr (by obtain rfl := (List.cons.inj hd).1; decide)⟩

/-- The empty vector, and a delimiter of one octet. -/
theorem textJoin_empty :
    ¬ (textJoin (fun n => n ≤ 1000) (ascii ",") []).Ends (JoinExact (ascii ",") []) := by
  intro h
  exact absurd h.1 (by decide)

end Snert
