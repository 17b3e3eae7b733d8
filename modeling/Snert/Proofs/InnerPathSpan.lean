/-
Module: Snert.Proofs.InnerPathSpan
Purpose: When the span that `findInnerPath` passes back is a span: `start` is set by the last open
  bracket and `stop` by the first closing bracket after it, but only the balance of the brackets is
  checked. The invariant of the scan relates both to the brackets seen so far.
Trusted boundary: none
Main exports: pathSpanOrdered_iff
-/
import Snert.Mail.ParsePath

namespace Snert

open CModel

/-! ### The brackets of a path -/

/-- The angle brackets of a path that count, in order: those outside quotes and not behind a
backslash. -/
def brackets : List Octet → Bool → List Octet
  | [], _ => []
  | [c], quote => if (c = ch '<' ∨ c = ch '>') ∧ quote = false then [c] else []
  | c :: d :: path, quote =>
      if c = ch '"' then brackets (d :: path) (!quote)
      else if c = ch '\\' then brackets path quote
      else if (c = ch '<' ∨ c = ch '>') ∧ quote = false then c :: brackets (d :: path) quote
      else brackets (d :: path) quote

/-- The same brackets, each with its index, in a path that stands at `pos`. -/
def placedBrackets : List Octet → Nat → Bool → List (Nat × Octet)
  | [], _, _ => []
  | [c], pos, quote => if (c = ch '<' ∨ c = ch '>') ∧ quote = false then [(pos, c)] else []
  | c :: d :: path, pos, quote =>
      if c = ch '"' then placedBrackets (d :: path) (pos + 1) (!quote)
      else if c = ch '\\' then placedBrackets path (pos + 2) quote
      else if (c = ch '<' ∨ c = ch '>') ∧ quote = false then
        (pos, c) :: placedBrackets (d :: path) (pos + 1) quote
      else placedBrackets (d :: path) (pos + 1) quote

theorem placedBrackets_brackets (path : List Octet) (pos : Nat) (quote : Bool) :
    (placedBrackets path pos quote).map Prod.snd = brackets path quote := by
  fun_induction placedBrackets path pos quote with
  | case1 => rfl
  | case2 c pos quote hc => rw [brackets, if_pos hc]; rfl
  | case3 c pos quote hc => rw [brackets, if_neg hc]; rfl
  | case4 d path pos quote ih => rw [brackets, if_pos rfl, ih]
  | case5 d path pos quote hq ih => rw [brackets, if_neg hq, if_pos rfl, ih]
  | case6 c d path pos quote hq hb hc ih =>
      rw [brackets, if_neg hq, if_neg hb, if_pos hc, List.map_cons, ih]
  | case7 c d path pos quote hq hb hc ih => rw [brackets, if_neg hq, if_neg hb, if_neg hc, ih]

/-- The brackets of the path are equal in number, and yet the last of them is an opening one. -/
def EndsOpen (path : List Octet) : Prop :=
  (brackets path false).count (ch '<') = (brackets path false).count (ch '>') ∧
    (brackets path false).getLast? = some (ch '<')

instance (path : List Octet) : Decidable (EndsOpen path) :=
  inferInstanceAs (Decidable (_ ∧ _))

theorem brackets_subset {path : List Octet} {quote : Bool} {c : Octet}
    (h : c ∈ brackets path quote) : c = ch '<' ∨ c = ch '>' := by
  fun_induction brackets path quote with
  | case1 => cases h
  | case2 d _ hd =>
      obtain rfl : c = d := by simpa using h
      exact hd.1
  | case3 => cases h
  | case4 _ _ _ ih => exact ih h
  | case5 _ _ _ _ ih => exact ih h
  | case6 _ _ _ _ _ _ hd ih =>
      rcases List.mem_cons.mp h with rfl | h
      · exact hd.1
      · exact ih h
  | case7 _ _ _ _ _ _ _ ih => exact ih h

theorem mem_brackets_of_head {path : List Octet} (h : path[0]? = some (ch '<')) :
    ch '<' ∈ brackets path false := by
  cases path with
  | nil => cases h
  | cons c path =>
      obtain rfl : c = ch '<' := by simpa using h
      cases path with
      | nil => decide
      | cons d path =>
          rw [brackets, if_neg (by decide), if_neg (by decide), if_pos (by decide)]
          exact List.mem_cons_self

/-! ### The invariant of the scan -/

/-- What the variables of the scan say about the brackets `seen` before index `pos`. -/
structure ScanInv (path seen : List Octet) (pos : Nat) (s : InnerScan) : Prop where
  /-- The depth is the balance of the brackets. -/
  depth : s.depth = seen.count (ch '<') - seen.count (ch '>')
  /-- `start` is at an opening bracket, once there is one. -/
  start_open : ch '<' ∈ seen → path[s.start]? = some (ch '<') ∧ s.start < pos
  start_first : ch '<' ∉ seen → s.start = 0
  /-- `stop` is behind a closing bracket, and there is one once a bracket has closed. -/
  stop_close : ∀ p, s.stop = some p → 0 < p ∧ p ≤ pos ∧ path[p - 1]? = some (ch '>')
  stop_null : ch '>' ∈ seen ↔ s.stop ≠ none
  /-- The last bracket decides which of the two lies ahead. -/
  last_close : seen.getLast? = some (ch '>') → ∀ p, s.stop = some p → s.start < p
  last_open : seen.getLast? = some (ch '<') → ∀ p, s.stop = some p → p ≤ s.start

theorem scanInv_initial (path : List Octet) :
    ScanInv path [] 0 { depth := 0, quote := false, start := 0, stop := none } := by
  constructor <;> simp

namespace ScanInv

variable {path seen : List Octet} {pos : Nat} {s : InnerScan}

theorem mono (h : ScanInv path seen pos s) {pos' : Nat} (hle : pos ≤ pos') :
    ScanInv path seen pos' s where
  depth := h.depth
  start_open hm := ⟨(h.start_open hm).1, Nat.lt_of_lt_of_le (h.start_open hm).2 hle⟩
  start_first := h.start_first
  stop_close p hp :=
    ⟨(h.stop_close p hp).1, Nat.le_trans (h.stop_close p hp).2.1 hle, (h.stop_close p hp).2.2⟩
  stop_null := h.stop_null
  last_close := h.last_close
  last_open := h.last_open

theorem setQuote (h : ScanInv path seen pos s) (quote : Bool) :
    ScanInv path seen pos { s with quote := quote } where
  depth := h.depth
  start_open := h.start_open
  start_first := h.start_first
  stop_close := h.stop_close
  stop_null := h.stop_null
  last_close := h.last_close
  last_open := h.last_open

theorem opening (h : ScanInv path seen pos s) (hc : path[pos]? = some (ch '<'))
    (hq : s.quote = false) : ScanInv path (seen ++ [ch '<']) (pos + 1) (s.opening pos) := by
  have hs : s.opening pos = { s with depth := s.depth + 1, start := pos } := by
    simp [InnerScan.opening, hq]
  rw [hs]
  constructor
  · have := h.depth
    simp only [List.count_append]
    rw [show List.count (ch '<') [ch '<'] = 1 by decide,
      show List.count (ch '>') [ch '<'] = 0 by decide]
    omega
  · intro _
    exact ⟨hc, Nat.lt_succ_self pos⟩
  · intro hn
    exact absurd (List.mem_append_right _ (List.mem_singleton_self _)) hn
  · intro p hp
    rcases h.stop_close p hp with ⟨hpos, hle, hat⟩
    exact ⟨hpos, Nat.le_succ_of_le hle, hat⟩
  · rw [← h.stop_null, List.mem_append]
    exact or_iff_left (by decide)
  · intro hl
    rw [List.getLast?_concat] at hl
    exact absurd hl (by decide)
  · intro _ p hp
    exact (h.stop_close p hp).2.1

theorem closing (h : ScanInv path seen pos s) (hc : path[pos]? = some (ch '>'))
    (hq : s.quote = false) : ScanInv path (seen ++ [ch '>']) (pos + 1) (s.closing pos) := by
  have hs : s.closing pos =
      { s with
        stop := if s.stopBehindStart then some (pos + 1) else s.stop
        depth := s.depth - 1 } := by
    simp [InnerScan.closing, hq]
  have hmem : ch '<' ∈ seen ++ [ch '>'] ↔ ch '<' ∈ seen := by
    rw [List.mem_append]
    exact or_iff_left (by decide)
  have hstart : s.start < pos + 1 := by
    by_cases hm : ch '<' ∈ seen
    · exact Nat.lt_succ_of_lt (h.start_open hm).2
    · rw [h.start_first hm]
      exact Nat.succ_pos pos
  rw [hs]
  constructor
  · have := h.depth
    simp only [List.count_append]
    rw [show List.count (ch '<') [ch '>'] = 0 by decide,
      show List.count (ch '>') [ch '>'] = 1 by decide]
    omega
  · intro hm
    rcases h.start_open (hmem.mp hm) with ⟨hat, hlt⟩
    exact ⟨hat, Nat.lt_succ_of_lt hlt⟩
  · intro hn
    exact h.start_first (hmem.not.mp hn)
  · intro p hp
    dsimp only at hp
    split at hp
    · obtain rfl : pos + 1 = p := by simpa using hp
      exact ⟨Nat.succ_pos pos, Nat.le_refl _, hc⟩
    · rcases h.stop_close p hp with ⟨hpos, hle, hat⟩
      exact ⟨hpos, Nat.le_succ_of_le hle, hat⟩
  · refine iff_of_true (List.mem_append_right _ (List.mem_singleton_self _)) ?_
    dsimp only
    split
    · simp
    · rename_i hb
      intro hnone
      simp [InnerScan.stopBehindStart, hnone] at hb
  · intro _ p hp
    dsimp only at hp ⊢
    split at hp
    · obtain rfl : pos + 1 = p := by simpa using hp
      exact hstart
    · rename_i hb
      simpa [InnerScan.stopBehindStart, hp] using hb
  · intro hl
    rw [List.getLast?_concat] at hl
    exact absurd hl (by decide)

end ScanInv

/-! ### The scan, octet by octet -/

/-- What one octet does to the scan, the backslash and the octet behind it apart. -/
def scanOctet (c : Octet) (pos : Nat) (s : InnerScan) : InnerScan :=
  if c = ch '"' then { s with quote := !s.quote }
  else if c = ch '<' then s.opening pos
  else if c = ch '>' then s.closing pos
  else s

/-- The bracket that one octet adds to those seen. -/
def bracketOf (c : Octet) (quote : Bool) : List Octet :=
  if (c = ch '<' ∨ c = ch '>') ∧ quote = false then [c] else []

theorem innerScan_cons {c : Octet} (hc : c ≠ ch '\\') (rest : List Octet) (pos : Nat)
    (s : InnerScan) : innerScan (c :: rest) pos s = innerScan rest (pos + 1) (scanOctet c pos s) := by
  cases rest with
  | nil =>
      rw [innerScan, innerScan, scanOctet, if_neg hc]
  | cons d rest =>
      rw [innerScan, scanOctet, if_neg hc]
      repeat' split
      all_goals rfl

theorem placedBrackets_cons {c : Octet} (hc : c ≠ ch '\\') (rest : List Octet) (pos : Nat)
    (quote : Bool) : placedBrackets (c :: rest) pos quote =
      (bracketOf c quote).map (pos, ·) ++
        placedBrackets rest (pos + 1) (if c = ch '"' then !quote else quote) := by
  have hbracket : (bracketOf c quote).map (pos, ·) =
      if (c = ch '<' ∨ c = ch '>') ∧ quote = false then [(pos, c)] else [] := by
    rw [bracketOf]
    split <;> rfl
  rw [hbracket]
  cases rest with
  | nil => rw [placedBrackets, placedBrackets, List.append_nil]
  | cons d rest =>
      rw [placedBrackets, if_neg hc]
      by_cases hq : c = ch '"'
      · subst hq
        rw [if_pos rfl, if_pos rfl, if_neg fun h => absurd h.1 (by decide), List.nil_append]
      · rw [if_neg hq, if_neg hq]
        split
        · rfl
        · rfl

theorem scanOctet_quote (c : Octet) (pos : Nat) (s : InnerScan) :
    (scanOctet c pos s).quote = if c = ch '"' then !s.quote else s.quote := by
  simp only [scanOctet, InnerScan.opening, InnerScan.closing]
  repeat' split
  all_goals rfl

theorem scanOctet_cases {P : List Octet → InnerScan → Prop} (c : Octet) (pos : Nat)
    (s : InnerScan) (hquote : P [] { s with quote := !s.quote })
    (hopen : c = ch '<' → s.quote = false → P [ch '<'] (s.opening pos))
    (hclose : c = ch '>' → s.quote = false → P [ch '>'] (s.closing pos)) (hskip : P [] s) :
    P (bracketOf c s.quote) (scanOctet c pos s) := by
  unfold bracketOf scanOctet
  by_cases hq : c = ch '"'
  · subst hq
    rw [if_neg fun h => absurd h.1 (by decide), if_pos rfl]
    exact hquote
  rw [if_neg hq]
  cases hquoted : s.quote with
  | false =>
      by_cases ho : c = ch '<'
      · subst ho
        rw [if_pos ⟨.inl rfl, rfl⟩, if_pos rfl]
        exact hopen rfl hquoted
      by_cases hc : c = ch '>'
      · subst hc
        rw [if_pos ⟨.inr rfl, rfl⟩, if_neg ho, if_pos rfl]
        exact hclose rfl hquoted
      rw [if_neg (by simp [ho, hc]), if_neg ho, if_neg hc]
      exact hskip
  | true =>
      -- Inside quotes a bracket changes nothing.
      have hsame : (if c = ch '<' then s.opening pos else if c = ch '>' then s.closing pos else s)
          = s := by
        simp [InnerScan.opening, InnerScan.closing, hquoted]
      rw [if_neg (by simp), hsame]
      exact hskip

theorem scanOctet_inv {path seen : List Octet} {pos : Nat} {s : InnerScan} {c : Octet}
    (h : ScanInv path seen pos s) (hc : path[pos]? = some c) :
    ScanInv path (seen ++ bracketOf c s.quote) (pos + 1) (scanOctet c pos s) := by
  have hskip := h.mono (Nat.le_succ pos)
  refine scanOctet_cases (P := fun b s' => ScanInv path (seen ++ b) (pos + 1) s') c pos s ?_
    (fun ho hq => h.opening (ho ▸ hc) hq) (fun hcl hq => h.closing (hcl ▸ hc) hq) ?_
  · rw [List.append_nil]
    exact hskip.setQuote _
  · rw [List.append_nil]
    exact hskip

theorem innerScan_run {path : List Octet} {Inv : List (Nat × Octet) → Nat → InnerScan → Prop}
    (hskip : ∀ {seen pos s}, Inv seen pos s → Inv seen (pos + 1) s)
    (hoctet : ∀ {seen pos s c}, path[pos]? = some c → Inv seen pos s →
      Inv (seen ++ (bracketOf c s.quote).map (pos, ·)) (pos + 1) (scanOctet c pos s)) :
    ∀ (rest front : List Octet) (seen : List (Nat × Octet)) (s : InnerScan),
      path = front ++ rest → Inv seen front.length s →
      Inv (seen ++ placedBrackets rest front.length s.quote) path.length
        (innerScan rest front.length s)
  | [], front, seen, s, hpath, h => by
      rw [placedBrackets, innerScan, List.append_nil, hpath, List.append_nil]
      exact h
  | c :: rest, front, seen, s, hpath, h => by
      have hfront (a : List Octet) : (front ++ a).length = front.length + a.length :=
        List.length_append
      by_cases hc : c = ch '\\'
      · subst hc
        cases rest with
        | nil =>
            rw [placedBrackets, if_neg fun hb => absurd hb.1 (by decide), List.append_nil, innerScan,
              if_neg (by decide), if_pos rfl, hpath, hfront]
            exact hskip h
        | cons d rest =>
            rw [placedBrackets, if_neg (by decide), if_pos rfl, innerScan, if_neg (by decide),
              if_pos rfl]
            have hrest := @innerScan_run path Inv hskip hoctet rest (front ++ [ch '\\', d]) seen s
              (by simp [hpath]) (by rw [hfront]; exact hskip (hskip h))
            rwa [hfront] at hrest
      · have hat : path[front.length]? = some c := by simp [hpath]
        have hnext := @innerScan_run path Inv hskip hoctet rest (front ++ [c]) _ _ (by simp [hpath])
          (by rw [hfront]; exact hoctet hat h)
        rwa [hfront, List.length_singleton, scanOctet_quote, List.append_assoc,
          ← placedBrackets_cons hc, ← innerScan_cons hc] at hnext

theorem findInnerPath_inv (path : List Octet) :
    ScanInv path (brackets path false) path.length
      (innerScan path 0 { depth := 0, quote := false, start := 0, stop := none }) := by
  have hbracket (c : Octet) (quote : Bool) (pos : Nat) :
      ((bracketOf c quote).map (pos, ·)).map Prod.snd = bracketOf c quote := by
    rw [List.map_map]
    exact List.map_id _
  have hinv := @innerScan_run path (fun seen => ScanInv path (seen.map Prod.snd))
    (fun h => h.mono (Nat.le_succ _))
    (fun hc h => by rw [List.map_append, hbracket]; exact scanOctet_inv h hc)
    path [] [] _ rfl (scanInv_initial path)
  rwa [List.nil_append, placedBrackets_brackets] at hinv

/-! ### The span -/

/-- What the callers of `findInnerPath` and the allocation in `parsePath` rely on: a span inside the
path, and a length that is not negative whatever the flags. -/
def PathSpanOrdered (path : List Octet) : Prop :=
  ((findInnerPath path).rc = 0 →
      (findInnerPath path).start ≤ (findInnerPath path).stop ∧
        (findInnerPath path).stop ≤ path.length) ∧
    ∀ flags start stop, parsePathSpan path flags = .ok (start, stop) → 0 ≤ stop - start

/-- What is known of the span when the brackets balance and the last of them closes, or when there
are none. Leaving out the brackets of such a span leaves a span. -/
structure BalancedSpan (path : List Octet) (start stop : Nat) : Prop where
  ordered : start ≤ stop
  inside : stop ≤ path.length
  /-- An opening bracket at `start` and a closing one before `stop` are two brackets. -/
  open_before : path.getD start 0 = ch '<' → start + 1 < stop

theorem balancedSpan_of_not_endsOpen {path : List Octet} (hrc : (findInnerPath path).rc = 0)
    (h : ¬ EndsOpen path) :
    BalancedSpan path (findInnerPath path).start (findInnerPath path).stop := by
  have inv := findInnerPath_inv path
  unfold findInnerPath at hrc ⊢
  dsimp only at hrc ⊢
  generalize innerScan path 0 _ = s at inv hrc ⊢
  have hdepth : s.depth = 0 := by
    by_contra hne
    simp [hne] at hrc
  have hcount : (brackets path false).count (ch '<') = (brackets path false).count (ch '>') := by
    have := inv.depth
    omega
  cases hlast : (brackets path false).getLast? with
  | none =>
      -- No bracket counts: the span is the whole path.
      have hnil : brackets path false = [] := List.getLast?_eq_none_iff.mp hlast
      have hstart : s.start = 0 := inv.start_first (by simp [hnil])
      have hstop : s.stop = none := by
        by_contra hne
        have hmem := inv.stop_null.mpr hne
        simp [hnil] at hmem
      rw [hstart, hstop]
      refine ⟨Nat.zero_le _, Nat.le_refl _, fun hopen => ?_⟩
      have hmem : ch '<' ∈ brackets path false := by
        apply mem_brackets_of_head
        cases path with
        | nil => exact absurd hopen (by decide)
        | cons c path => simpa using hopen
      simp [hnil] at hmem
  | some c =>
      rcases brackets_subset (List.mem_of_getLast? hlast) with rfl | rfl
      · exact absurd ⟨hcount, hlast⟩ h
      · have hclose : ch '>' ∈ brackets path false := List.mem_of_getLast? hlast
        have hopen : ch '<' ∈ brackets path false := by
          rw [← List.count_pos_iff, hcount, List.count_pos_iff]
          exact hclose
        obtain ⟨p, hp⟩ := Option.ne_none_iff_exists'.mp (inv.stop_null.mp hclose)
        have hlt := inv.last_close hlast p hp
        rcases inv.stop_close p hp with ⟨hpos, hle, hat⟩
        rw [hp]
        refine ⟨Nat.le_of_lt hlt, hle, fun _ => ?_⟩
        -- The octets at `start` and before `stop` differ.
        rcases Nat.lt_or_ge (s.start + 1) p with hsep | hadj
        · exact hsep
        · have hsame : p - 1 = s.start := by omega
          rw [hsame, (inv.start_open hopen).1] at hat
          exact absurd hat (by decide)

theorem trimSpace_ordered (path : List Octet) (start stop : Int) :
    (trimSpace path start stop).1 ≤ (trimSpace path start stop).2 := by
  simp [trimSpace]

theorem BalancedSpan.parsePathSpan_ordered {path : List Octet} {flags : Nat} {start stop : Int}
    (h : BalancedSpan path (findInnerPath path).start (findInnerPath path).stop)
    (hspan : parsePathSpan path flags = .ok (start, stop)) : start ≤ stop := by
  unfold parsePathSpan at hspan
  dsimp only at hspan
  split at hspan
  · cases hspan
  split at hspan
  · cases hspan
  split at hspan
  · -- With the octets of the span as they are, only the brackets are left out.
    have hordered := h.ordered
    have hopen := h.open_before
    simp only [Except.ok.injEq, Prod.mk.injEq] at hspan
    rcases hspan with ⟨rfl, rfl⟩
    have hclose : endsWithBracket path (findInnerPath path).start (findInnerPath path).stop = true →
        (findInnerPath path).start < (findInnerPath path).stop := by
      simp only [endsWithBracket, Bool.decide_and, Bool.and_eq_true, decide_eq_true_eq]
      exact fun hb => hb.1
    split <;> split <;> grind
  · simp only [Except.ok.injEq] at hspan
    have := trimSpace_ordered path
      ((findInnerPath path).start + if path.getD (findInnerPath path).start 0 = ch '<' then 1 else 0)
      ((findInnerPath path).stop -
        if endsWithBracket path (findInnerPath path).start (findInnerPath path).stop then 1 else 0)
    rw [hspan] at this
    exact this

theorem EndsOpen.parsePathSpan_negative {path : List Octet} (h : EndsOpen path) :
    ∃ start stop, parsePathSpan path STRICT_ADDR_SPEC = .ok (start, stop) ∧ stop < start := by
  have inv := findInnerPath_inv path
  rcases h with ⟨hcount, hlast⟩
  have hopen : ch '<' ∈ brackets path false := List.mem_of_getLast? hlast
  have hclose : ch '>' ∈ brackets path false := by
    rw [← List.count_pos_iff, ← hcount, List.count_pos_iff]
    exact hopen
  obtain ⟨p, hp⟩ := Option.ne_none_iff_exists'.mp (inv.stop_null.mp hclose)
  have hle := inv.last_open hlast p hp
  rcases inv.start_open hopen with ⟨hat, -⟩
  have hdepth := inv.depth
  rw [hcount, Int.sub_self] at hdepth
  unfold parsePathSpan findInnerPath
  dsimp only
  generalize innerScan path 0 _ = s at inv hp hle hat hdepth ⊢
  have hend : endsWithBracket path s.start p = false := by
    simp [endsWithBracket, Nat.not_lt.mpr hle]
  have hstrict : hasFlag STRICT_ADDR_SPEC STRICT_ANGLE_BRACKETS = false := by decide
  have hspec : hasFlag STRICT_ADDR_SPEC STRICT_ADDR_SPEC = true := by decide
  refine ⟨s.start + 1, p, ?_, by omega⟩
  simp [hp, hdepth, hat, hend, hstrict, hspec]

/-- The span is in order, and no length is negative, exactly when the brackets of the path do not
balance with an opening bracket last. -/
theorem pathSpanOrdered_iff (path : List Octet) : PathSpanOrdered path ↔ ¬ EndsOpen path := by
  constructor
  · rintro ⟨-, hlength⟩ hopen
    obtain ⟨start, stop, hspan, hlt⟩ := hopen.parsePathSpan_negative
    have := hlength _ _ _ hspan
    omega
  · intro h
    refine ⟨fun hrc => ?_, fun flags start stop hspan => ?_⟩
    · have span := balancedSpan_of_not_endsOpen hrc h
      exact ⟨span.ordered, span.inside⟩
    · have hrc : (findInnerPath path).rc = 0 := by
        by_contra hne
        simp [parsePathSpan, hne] at hspan
      have := (balancedSpan_of_not_endsOpen hrc h).parsePathSpan_ordered hspan
      omega

/-- `> <` balances. The closing bracket ends the span before the opening one starts it, and the
length is negative. -/
theorem pathSpan_behind_start : ¬ PathSpanOrdered (ascii "> <") := by
  rintro ⟨hspan, -⟩
  exact absurd (hspan (by decide)) (by decide)

end Snert
