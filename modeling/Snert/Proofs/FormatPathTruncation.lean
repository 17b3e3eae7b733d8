/-
Module: Snert.Proofs.FormatPathTruncation
Purpose: What `formatPath` leaves in its buffer, compared with the expansion of the format that an
  unlimited buffer would hold. The index advances by the length of a copied string even when only
  part of it fits, so the buffer is right, and the last store inside it, exactly when no copied
  string crosses the end of the buffer.
Trusted boundary: none
Main exports: formatPath_truncates_iff
-/
import Snert.Mail.FormatPath

namespace Snert

open CModel CModel.Run

/-! ### The expansion of a format -/

/-- What a character behind a percent sign stands for. -/
def conversionText (p : ParsePath) (c : Octet) : List Octet :=
  let right := pathString p.localRight
  let route := pathString p.sourceRoute
  if c = ch '%' then [c]
  else if c = ch 'A' then pathString p.address
  else if c = ch 'D' then pathString p.domain
  else if c = ch 'L' then pathString p.localLeft
  else if c = ch 'P' then pathString p.localLeft ++ if right = [] then [] else ch '+' :: right
  else if c = ch 'R' then right
  else if c = ch 'S' then route
  else if c = ch 'T' then route ++ if route = [] then [] else [ch ':']
  else []

/-- The full expansion of a format. -/
def expansion (p : ParsePath) : List Octet → List Octet
  | [] => []
  | c :: fmt =>
      if c ≠ ch '%' then c :: expansion p fmt
      else
        match fmt with
        | [] => []
        | c :: fmt => conversionText p c ++ expansion p fmt

/-! ### When an expansion fits

The room is what is left of the buffer, its last octet included. -/

/-- The room behind a copied string that does not cross the end of the buffer. -/
def roomBehind (s : List Octet) (room : Nat) : Option Nat :=
  if s.length ≤ room then some (room - s.length) else none

/-- The room behind a conversion. A plus sign with what follows it, and a colon, are dropped when
they would take the last octet. -/
def conversionRoom (p : ParsePath) (c : Octet) (room : Nat) : Option Nat :=
  let right := pathString p.localRight
  let route := pathString p.sourceRoute
  if c = ch '%' then some (room - 1)
  else if c = ch 'A' then roomBehind (pathString p.address) room
  else if c = ch 'D' then roomBehind (pathString p.domain) room
  else if c = ch 'L' then roomBehind (pathString p.localLeft) room
  else if c = ch 'P' then
    (roomBehind (pathString p.localLeft) room).bind fun room =>
      if 1 < room ∧ right ≠ [] then roomBehind right (room - 1) else some room
  else if c = ch 'R' then roomBehind right room
  else if c = ch 'S' then roomBehind route room
  else if c = ch 'T' then
    (roomBehind route room).map fun room => if 1 < room ∧ route ≠ [] then room - 1 else room
  else some room

/-- No string copied for the format crosses the end of the buffer, and the buffer is full before a
percent sign that ends the format. -/
def fits (p : ParsePath) : Nat → List Octet → Bool
  | _, [] => true
  | room, c :: fmt =>
      room = 0 ||
        if c ≠ ch '%' then fits p (room - 1) fmt
        else
          match fmt with
          | [] => false
          | c :: fmt => (conversionRoom p c room).any fun rest => fits p rest fmt

/-! ### What the buffer holds -/

/-- The buffer holds, up to the index `i`, the start of the text put out so far. What was put out
beyond the octet kept for the NUL is forgotten. -/
structure Holds {n : Nat} (buffer : Buffer n) (i : Nat) (text : List Octet) : Prop where
  le : i ≤ n
  octets : buffer.octets.take (min i (n - 1)) = text.take (n - 1)
  whole : i = text.length ∨ n ≤ i + 1

namespace Holds

variable {n i : Nat} {buffer : Buffer n} {text : List Octet}

theorem initial (buffer : Buffer n) : Holds buffer 0 [] := by
  refine ⟨Nat.zero_le n, ?_, .inl rfl⟩
  simp

theorem splice (h : Holds buffer i text) (hlt : i < n) {os put junk : List Octet}
    (hput : put = os.take (n - i - 1) ++ junk) (hroom : i + put.length ≤ n)
    (hos : i + os.length ≤ n) :
    Holds (buffer.splice i put) (i + os.length) (text ++ os) := by
  have hn := buffer.length_octets
  have hmin : min i (n - 1) = i := by omega
  have hfront : buffer.octets.take i = text.take (n - 1) := by
    rw [← h.octets, hmin]
  have hlen : i = min (n - 1) text.length := by
    have := congrArg List.length hfront
    rw [List.length_take, List.length_take] at this
    omega
  refine ⟨hos, ?_, ?_⟩
  · -- The text before the NUL's octet is put whole.
    have hcount : min (i + os.length) (n - 1) = (text.take (n - 1) ++ os.take (n - i - 1)).length := by
      rw [List.length_append, List.length_take, List.length_take]
      omega
    have hrest : n - 1 - text.length = n - i - 1 := by omega
    rw [Buffer.octets_splice _ hroom, hfront, hput, hcount, ← List.append_assoc,
      List.append_assoc _ junk, List.take_left' rfl, List.take_append, hrest]
  · rcases h.whole with hwhole | hfull
    · left
      rw [List.length_append, ← hwhole]
    · right
      omega

theorem skip (h : Holds buffer i text) (hfull : n ≤ i + 1) (more : List Octet) :
    Holds buffer i (text ++ more) := by
  have hlen := congrArg List.length h.octets
  rw [List.length_take, List.length_take, buffer.length_octets] at hlen
  refine ⟨h.le, ?_, .inr hfull⟩
  rw [h.octets, List.take_append_of_le_length]
  have := h.le
  omega

theorem terminate (h : Holds buffer i text) (hpos : 0 < n) (htext : 0 ∉ text) :
    ∃ out : Buffer n, (formatTerminate buffer i).Yields (out, (i : Int)) ∧ out.Terminated ∧
      out.cstring = text.take (n - 1) := by
  have hle := h.le
  have hn := buffer.length_octets
  have hindex : ((i : Int) - if n ≤ i then 1 else 0) = (min i (n - 1) : Nat) := by
    split <;> omega
  have hroom : min i (n - 1) + ([0] : List Octet).length ≤ n := by
    rw [List.length_singleton]
    omega
  have hout : (buffer.splice (min i (n - 1)) [0]).octets =
      text.take (n - 1) ++ 0 :: buffer.octets.drop (min i (n - 1) + 1) := by
    rw [Buffer.octets_splice _ hroom, h.octets, List.append_assoc]
    rfl
  have hnul : 0 ∉ text.take (n - 1) := fun hmem => htext (List.mem_of_mem_take hmem)
  refine ⟨buffer.splice (min i (n - 1)) [0], ?_, Buffer.terminated_of_octets hout,
    Buffer.cstring_of_octets hout hnul⟩
  unfold formatTerminate
  rw [hindex]
  exact (buffer.yields_write [0] hroom).bind (yields_pure _)

end Holds

/-- The run puts out octets up to the text, leaving the room given, or ends with an index beyond the
buffer. -/
def Puts {n : Nat} (x : Run (Buffer n × Nat)) (text : List Octet) : Option Nat → Prop
  | some room => ∃ buffer, room ≤ n ∧ x.Yields (buffer, n - room) ∧ Holds buffer (n - room) text
  | none => ∃ buffer i, n < i ∧ x.Yields (buffer, i)

section

variable {n i : Nat} {buffer : Buffer n} {text : List Octet}

theorem puts_pure (h : Holds buffer i text) : Puts (pure (buffer, i)) text (some (n - i)) := by
  have hi : n - (n - i) = i := by
    have := h.le
    omega
  refine ⟨buffer, Nat.sub_le n i, ?_, ?_⟩
  · rw [hi]
    exact yields_pure _
  · rw [hi]
    exact h

theorem putOctet_puts (h : Holds buffer i text) (hlt : i < n) (c : Octet) :
    Puts (putOctet buffer i c) (text ++ [c]) (some (n - i - 1)) := by
  have hi : n - (n - i - 1) = i + [c].length := by
    rw [List.length_singleton]
    omega
  have hroom : i + [c].length ≤ n := by
    rw [List.length_singleton]
    omega
  refine ⟨buffer.splice i [c], by omega, ?_, ?_⟩
  · rw [hi]
    exact (buffer.yields_write [c] hroom).bind (yields_pure _)
  · rw [hi]
    rcases Nat.eq_zero_or_pos (n - i - 1) with hlast | hmore
    · exact h.splice hlt (by rw [hlast, List.take_zero, List.nil_append]) hroom hroom
    · have htake : [c].take (n - i - 1) = [c] := List.take_of_length_le hmore
      exact h.splice hlt (by rw [htake, List.append_nil]) hroom hroom

theorem putString_puts (h : Holds buffer i text) (hlt : i < n) (s : List Octet) :
    Puts (putString buffer i s) (text ++ s) (roomBehind s (n - i)) := by
  have hcopy : (putString buffer i s).Yields
      (buffer.splice i (s.take (n - i - 1) ++ [0]), i + s.length) :=
    (textCopy_yields buffer s (by omega) (by omega)).bind (yields_pure _)
  unfold roomBehind
  by_cases hfit : s.length ≤ n - i
  · rw [if_pos hfit]
    have hi : n - (n - i - s.length) = i + s.length := by omega
    have hput : i + (s.take (n - i - 1) ++ [0]).length ≤ n := by
      rw [List.length_append, List.length_take, List.length_singleton]
      omega
    refine ⟨buffer.splice i (s.take (n - i - 1) ++ [0]), by omega, ?_, ?_⟩
    · rw [hi]
      exact hcopy
    · rw [hi]
      exact h.splice hlt rfl hput (by omega)
  · rw [if_neg hfit]
    exact ⟨_, _, by omega, hcopy⟩

theorem Puts.bind_some {x : Run (Buffer n × Nat)} {f : Buffer n × Nat → Run (Buffer n × Nat)}
    {room : Nat} {more : List Octet} {next : Option Nat} (h : Puts x text (some room))
    (hnext : ∀ buffer, room ≤ n → Holds buffer (n - room) text →
      Puts (f (buffer, n - room)) more next) : Puts (x >>= f) more next := by
  rcases h with ⟨buffer, hroom, hx, hholds⟩
  have hf := hnext buffer hroom hholds
  cases next with
  | none =>
      rcases hf with ⟨out, i, hi, hy⟩
      exact ⟨out, i, hi, hx.bind hy⟩
  | some rest =>
      rcases hf with ⟨out, hle, hy, hout⟩
      exact ⟨out, hle, hx.bind hy, hout⟩

theorem Puts.bind {x : Run (Buffer n × Nat)} {f : Buffer n × Nat → Run (Buffer n × Nat)}
    {room : Option Nat} {more : List Octet} {next : Nat → Option Nat} (h : Puts x text room)
    (hbeyond : ∀ buffer i, n < i → f (buffer, i) = pure (buffer, i))
    (hnext : ∀ buffer room, room ≤ n → Holds buffer (n - room) text →
      Puts (f (buffer, n - room)) more (next room)) :
    Puts (x >>= f) more (room.bind next) := by
  cases room with
  | none =>
      rcases h with ⟨buffer, i, hi, hx⟩
      refine ⟨buffer, i, hi, hx.bind ?_⟩
      rw [hbeyond buffer i hi]
      exact yields_pure _
  | some room => exact h.bind_some fun buffer => hnext buffer room

/-! ### A conversion -/

theorem formatLocalPart_puts (p : ParsePath) (h : Holds buffer i text) (hlt : i < n) :
    Puts
      (putString buffer i (pathString p.localLeft) >>= fun put =>
        if ch 'P' = ch 'P' ∧ put.2 + 1 < n ∧ pathString p.localRight ≠ [] then
          formatPlus p put.1 put.2
        else pure put)
      (text ++ (pathString p.localLeft ++
        if pathString p.localRight = [] then [] else ch '+' :: pathString p.localRight))
      ((roomBehind (pathString p.localLeft) (n - i)).bind fun room =>
        if 1 < room ∧ pathString p.localRight ≠ [] then roomBehind (pathString p.localRight) (room - 1)
        else some room) := by
  rw [← List.append_assoc]
  refine (putString_puts h hlt _).bind (fun buffer i hi => if_neg (by omega)) ?_
  intro buffer room hroom hholds
  have hindex : n - room + 1 < n ↔ 1 < room := by omega
  have hback : n - (n - room) = room := by omega
  dsimp only
  by_cases hright : pathString p.localRight = []
  · rw [if_neg (by simp [hright]), if_pos hright, if_neg (by simp [hright]), List.append_nil]
    simpa [hback] using puts_pure hholds
  rw [if_neg hright]
  by_cases hone : 1 < room
  · rw [if_pos ⟨rfl, hindex.mpr hone, hright⟩, if_pos ⟨hone, hright⟩]
    refine (putOctet_puts hholds (by omega) (ch '+')).bind_some fun buffer hroom' hholds' => ?_
    rw [hback] at hroom' hholds' ⊢
    have hright' := putString_puts hholds' (by omega) (pathString p.localRight)
    rw [List.append_assoc, List.singleton_append] at hright'
    rwa [show n - (n - (room - 1)) = room - 1 by omega] at hright'
  · rw [if_neg fun hc => hone (hindex.mp hc.2.1), if_neg fun hc => hone hc.1]
    simpa [hback] using puts_pure (hholds.skip (by omega) _)

theorem formatRoute_puts (p : ParsePath) (h : Holds buffer i text) (hlt : i < n) :
    Puts
      (putString buffer i (pathString p.sourceRoute) >>= fun put =>
        if ch 'T' = ch 'T' ∧ put.2 + 1 < n ∧ pathString p.sourceRoute ≠ [] then
          putOctet put.1 put.2 (ch ':')
        else pure put)
      (text ++ (pathString p.sourceRoute ++
        if pathString p.sourceRoute = [] then [] else [ch ':']))
      ((roomBehind (pathString p.sourceRoute) (n - i)).bind fun room =>
        some (if 1 < room ∧ pathString p.sourceRoute ≠ [] then room - 1 else room)) := by
  rw [← List.append_assoc]
  refine (putString_puts h hlt _).bind (fun buffer i hi => if_neg (by omega)) ?_
  intro buffer room hroom hholds
  have hindex : n - room + 1 < n ↔ 1 < room := by omega
  have hback : n - (n - room) = room := by omega
  dsimp only
  by_cases hroute : pathString p.sourceRoute = []
  · rw [if_neg (by simp [hroute]), if_pos hroute, if_neg (by simp [hroute]), List.append_nil]
    simpa [hback] using puts_pure hholds
  rw [if_neg hroute]
  by_cases hone : 1 < room
  · rw [if_pos ⟨rfl, hindex.mpr hone, hroute⟩, if_pos ⟨hone, hroute⟩]
    simpa [hback] using putOctet_puts hholds (by omega) (ch ':')
  · rw [if_neg fun hc => hone (hindex.mp hc.2.1), if_neg fun hc => hone hc.1]
    simpa [hback] using puts_pure (hholds.skip (by omega) _)

theorem formatConversion_puts (p : ParsePath) (c : Octet) (h : Holds buffer i text) (hlt : i < n) :
    Puts (formatConversion p c buffer i) (text ++ conversionText p c)
      (conversionRoom p c (n - i)) := by
  unfold formatConversion conversionText conversionRoom
  dsimp only
  by_cases hpercent : c = ch '%'
  · rw [if_pos hpercent, if_pos hpercent, if_pos hpercent]
    exact putOctet_puts h hlt c
  rw [if_neg hpercent, if_neg hpercent, if_neg hpercent]
  by_cases hA : c = ch 'A'
  · rw [if_pos hA, if_pos hA, if_pos hA]
    exact putString_puts h hlt _
  rw [if_neg hA, if_neg hA, if_neg hA]
  by_cases hD : c = ch 'D'
  · rw [if_pos hD, if_pos hD, if_pos hD]
    exact putString_puts h hlt _
  rw [if_neg hD, if_neg hD, if_neg hD]
  by_cases hL : c = ch 'L'
  · subst hL
    rw [if_pos (.inl rfl), if_pos rfl, if_pos rfl]
    simp only [show ch 'L' ≠ ch 'P' by decide, false_and, if_false, bind_pure]
    exact putString_puts h hlt _
  rw [if_neg hL, if_neg hL]
  by_cases hP : c = ch 'P'
  · subst hP
    rw [if_pos (.inr rfl), if_pos rfl, if_pos rfl]
    exact formatLocalPart_puts p h hlt
  rw [if_neg (by simp [hL, hP]), if_neg hP, if_neg hP]
  by_cases hR : c = ch 'R'
  · rw [if_pos hR, if_pos hR, if_pos hR]
    exact putString_puts h hlt _
  rw [if_neg hR, if_neg hR, if_neg hR]
  by_cases hS : c = ch 'S'
  · subst hS
    rw [if_pos (.inl rfl), if_pos rfl, if_pos rfl]
    simp only [show ch 'S' ≠ ch 'T' by decide, false_and, if_false, bind_pure]
    exact putString_puts h hlt _
  rw [if_neg hS, if_neg hS]
  by_cases hT : c = ch 'T'
  · subst hT
    rw [if_pos (.inr rfl), if_pos rfl, if_pos rfl, Option.map_eq_bind]
    exact formatRoute_puts p h hlt
  rw [if_neg (by simp [hS, hT]), if_neg hT, if_neg hT, List.append_nil]
  exact puts_pure h

/-! ### The loop and the terminator -/

/-- The buffer is NUL-terminated, and its string is the text as far as there is room for it. -/
def Truncates (text : List Octet) (result : Buffer n × Int) : Prop :=
  result.1.Terminated ∧ result.1.cstring = text.take (n - 1)

theorem formatLoop_of_le (p : ParsePath) (fmt : List Octet) {i : Nat} (hi : n ≤ i)
    (buffer : Buffer n) : formatLoop p fmt buffer i = pure (buffer, i) := by
  cases fmt with
  | nil => rfl
  | cons c fmt =>
      rw [formatLoop.eq_def]
      exact if_pos (Nat.not_lt.mpr hi)

theorem not_formatTerminate_ends {i : Nat} (hi : n < i) (buffer : Buffer n)
    {Q : Buffer n × Int → Prop} : ¬ (formatTerminate buffer i).Ends Q := by
  unfold formatTerminate
  rw [if_pos (Nat.le_of_lt hi), ends_bind, Buffer.ends_write, List.length_singleton]
  rintro ⟨⟨-, hroom⟩, -⟩
  omega

theorem Holds.terminate_ends (h : Holds buffer i text) (hpos : 0 < n) (htext : 0 ∉ text) :
    (formatTerminate buffer i).Ends (Truncates text) := by
  obtain ⟨out, hout, hterminated, hcstring⟩ := h.terminate hpos htext
  exact hout.ends_iff.mpr ⟨hterminated, hcstring⟩

theorem pathString_noNul (string : Option CString) : 0 ∉ pathString string := by
  cases string with
  | none => exact List.not_mem_nil
  | some string => exact string.noNul

theorem not_mem_ite {P : Prop} [Decidable P] {s t : List Octet} (hs : 0 ∉ s) (ht : 0 ∉ t) :
    0 ∉ if P then s else t := by
  split
  · exact hs
  · exact ht

theorem conversionText_noNul (p : ParsePath) {c : Octet} (hc : c ≠ 0) :
    0 ∉ conversionText p c := by
  have hnul := pathString_noNul
  have hself : 0 ∉ [c] := by simpa using hc.symm
  have hplus : 0 ∉ ch '+' :: pathString p.localRight := by
    rw [List.mem_cons, not_or]
    exact ⟨by decide, hnul _⟩
  have hlocal := not_mem_ite (P := pathString p.localRight = []) List.not_mem_nil hplus
  have hroute := not_mem_ite (P := pathString p.sourceRoute = []) List.not_mem_nil
    (show 0 ∉ [ch ':'] by decide)
  have happend : ∀ {s t : List Octet}, 0 ∉ s → 0 ∉ t → 0 ∉ s ++ t := fun hs ht hmem =>
    (List.mem_append.mp hmem).elim hs ht
  exact not_mem_ite hself (not_mem_ite (hnul _) (not_mem_ite (hnul _) (not_mem_ite (hnul _)
    (not_mem_ite (happend (hnul _) hlocal) (not_mem_ite (hnul _) (not_mem_ite (hnul _)
      (not_mem_ite (happend (hnul _) hroute) List.not_mem_nil)))))))

theorem expansion_noNul (p : ParsePath) {fmt : List Octet} (h : 0 ∉ fmt) : 0 ∉ expansion p fmt := by
  fun_induction expansion p fmt with
  | case1 => exact h
  | case2 c fmt _ ih =>
      simp only [List.mem_cons, not_or] at h ⊢
      exact ⟨h.1, ih h.2⟩
  | case3 => exact List.not_mem_nil
  | case4 _ _ c fmt ih =>
      simp only [List.mem_cons, not_or] at h
      rw [List.mem_append, not_or]
      exact ⟨conversionText_noNul p (Ne.symm h.2.1), ih h.2.2⟩

theorem Puts.formatLoop_ends_iff {p : ParsePath} {fmt : List Octet} {x : Run (Buffer n × Nat)}
    {room : Option Nat} {Q : Buffer n × Int → Prop} (h : Puts x text room)
    (hrest : ∀ {buffer i}, Holds buffer i text →
      ((formatLoop p fmt buffer i >>= fun put => formatTerminate put.1 put.2).Ends Q ↔
        fits p (n - i) fmt)) :
    (((x >>= fun put => formatLoop p fmt put.1 put.2) >>= fun put =>
      formatTerminate put.1 put.2).Ends Q ↔ room.any fun rest => fits p rest fmt) := by
  cases room with
  | none =>
      rcases h with ⟨buffer, i, hi, hx⟩
      rw [ends_bind, hx.bind_ends_iff, formatLoop_of_le p fmt (Nat.le_of_lt hi), ends_pure]
      exact iff_of_false (not_formatTerminate_ends hi buffer) Bool.false_ne_true
  | some room =>
      rcases h with ⟨buffer, hroom, hx, hholds⟩
      rw [ends_bind, hx.bind_ends_iff, ← ends_bind, hrest hholds]
      rw [show n - (n - room) = room by omega, Option.any_some]

theorem fits_zero (p : ParsePath) (fmt : List Octet) : fits p 0 fmt := by
  cases fmt with
  | nil => trivial
  | cons c fmt =>
      rw [fits.eq_def]
      rfl

theorem Holds.formatLoop_full (h : Holds buffer i text) (hfull : n ≤ i) (p : ParsePath)
    (fmt more : List Octet) (hpos : 0 < n) (htext : 0 ∉ text ++ more) :
    (formatLoop p fmt buffer i >>= fun put => formatTerminate put.1 put.2).Ends
        (Truncates (text ++ more)) ↔ fits p (n - i) fmt := by
  rw [formatLoop_of_le p fmt hfull, Nat.sub_eq_zero_of_le hfull]
  exact iff_of_true ((h.skip (Nat.le_succ_of_le hfull) more).terminate_ends hpos htext)
    (fits_zero p fmt)

theorem formatLoop_ends_iff (p : ParsePath) (hpos : 0 < n) (fmt : List Octet) : ∀ {buffer : Buffer n}
    {i : Nat} {text : List Octet}, Holds buffer i text → 0 ∉ text → 0 ∉ fmt →
    ((formatLoop p fmt buffer i >>= fun put => formatTerminate put.1 put.2).Ends
        (Truncates (text ++ expansion p fmt)) ↔ fits p (n - i) fmt) := by
  intro buffer i text h htext hfmt
  by_cases hfull : n ≤ i
  · apply h.formatLoop_full hfull p fmt _ hpos
    simpa [htext] using expansion_noNul p hfmt
  rw [Nat.not_le] at hfull
  have hroom : n - i ≠ 0 := by omega
  cases fmt with
  | nil =>
      rw [expansion, List.append_nil]
      exact iff_of_true (h.terminate_ends hpos htext) rfl
  | cons c fmt =>
      rw [List.mem_cons, not_or] at hfmt
      unfold formatLoop expansion fits
      rw [if_neg (not_not_intro hfull), decide_eq_false hroom, Bool.false_or]
      by_cases hc : c = ch '%'
      · rw [if_neg (not_not_intro hc), if_neg (not_not_intro hc), if_neg (not_not_intro hc)]
        cases fmt with
        | nil =>
            rw [ends_bind]
            exact iff_of_false not_ends_overrun Bool.false_ne_true
        | cons c fmt =>
            rw [List.mem_cons, not_or] at hfmt
            dsimp only
            rw [← List.append_assoc]
            apply (formatConversion_puts p c h hfull).formatLoop_ends_iff
            intro buffer i hholds
            apply formatLoop_ends_iff p hpos fmt hholds ?_ hfmt.2.2
            simpa [htext] using conversionText_noNul p (Ne.symm hfmt.2.1)
      · rw [if_pos hc, if_pos hc, if_pos hc, List.append_cons]
        have hput := (putOctet_puts h hfull c).formatLoop_ends_iff (p := p)
          (Q := Truncates (text ++ [c] ++ expansion p fmt)) fun hholds =>
            formatLoop_ends_iff p hpos fmt hholds (by simpa [htext] using hfmt.1) hfmt.2
        rw [hput]
        simp

/-! ### The result -/

/-- `formatPath` stays in its buffer, terminates it, and leaves the expansion of the format in it,
cut off where the buffer ends, exactly when no string copied crosses that end. -/
theorem formatPath_truncates_iff (hpos : 0 < n) (buffer : Buffer n) (fmt : CString)
    (p : ParsePath) :
    (formatPath buffer fmt p).Ends (Truncates (expansion p fmt.octets)) ↔ fits p n fmt.octets := by
  unfold formatPath
  rw [if_neg (Nat.not_le.mpr hpos)]
  exact formatLoop_ends_iff p hpos fmt.octets (Holds.initial buffer) List.not_mem_nil fmt.noNul

theorem formatPath_truncates_iff_joe :
    (formatPath (Buffer.replicate 6 0) ⟨ascii "%L@%D", by decide⟩
        ⟨none, none, some ⟨ascii "joe", by decide⟩, none, some ⟨ascii "b", by decide⟩⟩).Ends
      (Truncates (ascii "joe@b")) :=
  (formatPath_truncates_iff (by decide) _ _ _).mpr (by decide)

/-- `%A` for an address of six octets, in a buffer of three: the NUL is stored at index 5. -/
theorem formatPath_overrun :
    ¬ (formatPath (Buffer.replicate 3 0) ⟨ascii "%A", by decide⟩
        ⟨some ⟨ascii "abcdef", by decide⟩, none, none, none, none⟩).Ends
      (Truncates (ascii "abcdef")) := by
  rintro ⟨hin, -⟩
  exact absurd hin (by decide)

end

/-! ### An unlimited buffer -/

/-- Every percent sign of the format has a character behind it. -/
def Complete : List Octet → Prop
  | [] => True
  | c :: fmt =>
      if c ≠ ch '%' then Complete fmt
      else
        match fmt with
        | [] => False
        | _ :: fmt => Complete fmt

theorem roomBehind_of_le {s : List Octet} {room : Nat} (h : s.length ≤ room) :
    roomBehind s room = some (room - s.length) :=
  if_pos h

theorem conversionRoom_of_lt (p : ParsePath) (c : Octet) {room : Nat}
    (h : (conversionText p c).length < room) :
    conversionRoom p c room = some (room - (conversionText p c).length) := by
  unfold conversionText at h ⊢
  unfold conversionRoom
  dsimp only at h ⊢
  by_cases hpercent : c = ch '%'
  · rw [if_pos hpercent, if_pos hpercent]
    rfl
  rw [if_neg hpercent] at h
  rw [if_neg hpercent, if_neg hpercent]
  by_cases hA : c = ch 'A'
  · rw [if_pos hA] at h
    rw [if_pos hA, if_pos hA]
    exact roomBehind_of_le (Nat.le_of_lt h)
  rw [if_neg hA] at h
  rw [if_neg hA, if_neg hA]
  by_cases hD : c = ch 'D'
  · rw [if_pos hD] at h
    rw [if_pos hD, if_pos hD]
    exact roomBehind_of_le (Nat.le_of_lt h)
  rw [if_neg hD] at h
  rw [if_neg hD, if_neg hD]
  by_cases hL : c = ch 'L'
  · rw [if_pos hL] at h
    rw [if_pos hL, if_pos hL]
    exact roomBehind_of_le (Nat.le_of_lt h)
  rw [if_neg hL] at h
  rw [if_neg hL, if_neg hL]
  by_cases hP : c = ch 'P'
  · rw [if_pos hP, List.length_append] at h
    rw [if_pos hP, if_pos hP, List.length_append, roomBehind_of_le (by omega), Option.bind_some]
    by_cases hright : pathString p.localRight = []
    · rw [if_neg fun hc => hc.2 hright, if_pos hright, List.length_nil, Nat.add_zero]
    · rw [if_neg hright, List.length_cons] at h
      rw [if_neg hright, List.length_cons, if_pos ⟨by omega, hright⟩, roomBehind_of_le (by omega)]
      congr 1
      omega
  rw [if_neg hP] at h
  rw [if_neg hP, if_neg hP]
  by_cases hR : c = ch 'R'
  · rw [if_pos hR] at h
    rw [if_pos hR, if_pos hR]
    exact roomBehind_of_le (Nat.le_of_lt h)
  rw [if_neg hR] at h
  rw [if_neg hR, if_neg hR]
  by_cases hS : c = ch 'S'
  · rw [if_pos hS] at h
    rw [if_pos hS, if_pos hS]
    exact roomBehind_of_le (Nat.le_of_lt h)
  rw [if_neg hS] at h
  rw [if_neg hS, if_neg hS]
  by_cases hT : c = ch 'T'
  · rw [if_pos hT, List.length_append] at h
    rw [if_pos hT, if_pos hT, List.length_append, roomBehind_of_le (by omega), Option.map_some]
    by_cases hroute : pathString p.sourceRoute = []
    · rw [if_neg fun hc => hc.2 hroute, if_pos hroute, List.length_nil, Nat.add_zero]
    · rw [if_neg hroute, List.length_singleton] at h
      rw [if_neg hroute, List.length_singleton, if_pos ⟨by omega, hroute⟩]
      congr 1
  · rw [if_neg hT, if_neg hT, List.length_nil, Nat.sub_zero]

end Snert
