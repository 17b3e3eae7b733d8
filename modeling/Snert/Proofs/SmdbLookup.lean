/-
Module: Snert.Proofs.SmdbLookup
Purpose: The keys that `singleKey` fetches. With a tag it stays in its block, whatever the key; when
  the map has none of the keys it fetches the whole mail address, the domain and each suffix of it
  at a label boundary, and the account.
Trusted boundary: none
Main exports: smdbAccess_fetches
-/
import Snert.Proofs.SmdbReduce
import Mathlib.Data.List.DropRight

namespace Snert

open CModel CModel.Run Lists

/-! ### The loop -/

section

variable {n : Nat} {tag account text rest : List Octet} {block : Buffer n} {key : KvmData}
variable {fetch : List Octet → FetchResult} {reduceKey : ReduceKey}

theorem call_reduced (h : Keyed tag text rest block key) (htag : tag ≠ []) (hnul : 0 ∉ tag)
    (haccount : reduceKey = .mail → IsAccount account) (htext : 0 ∉ text)
    (hrest : AccountBehind reduceKey tag account text rest) :
    (reduceKey.call tag.length block key).Ends (Reduced reduceKey tag account text key) := by
  cases reduceKey with
  | domain => exact reduceDomain_reduced h htext
  | mail => exact reduceMail_reduced h htag hnul (haccount rfl) htext hrest

/-- What holds before a round: the key stands in the block, and with those that have been fetched
the texts to come are all. -/
structure LookupInv (reduceKey : ReduceKey) (tag account : List Octet) (all : List (List Octet))
    (s : Buffer n × KvmData × List (List Octet)) (text rest : List Octet) : Prop where
  keyed : Keyed tag text rest s.1 s.2.1
  noNul : 0 ∉ text
  behind : AccountBehind reduceKey tag account text rest
  fetched : s.2.2 ++ (reduceKey.texts tag account text).map (tag ++ ·) = all

/-- If the map has none of the keys, all of them are fetched, in order. -/
def FetchesAll (fetch : List Octet → FetchResult) (all : List (List Octet)) (r : SingleKey) :
    Prop :=
  (∀ octets, fetch octets = .notFound) → r.rc = .notFound ∧ r.fetched = all

theorem singleKeyStep_ends {all : List (List Octet)} (htag : tag ≠ []) (hnul : 0 ∉ tag)
    {tag1 : List Octet} (hlength : tag1.length = tag.length)
    (haccount : reduceKey = .mail → IsAccount account)
    {s : Buffer n × KvmData × List (List Octet)}
    (h : LookupInv reduceKey tag account all s text rest) :
    (singleKeyStep fetch reduceKey tag1 s).Ends
      (Round (fun s => ∃ text rest, LookupInv reduceKey tag account all s text rest)
        (fun s => n - s.2.1.data) (FetchesAll fetch all) s) := by
  obtain ⟨block, key, fetched⟩ := s
  obtain ⟨⟨hsize, front, hfront, hoctets⟩, htext, hrest, hfetched⟩ := h
  dsimp only at hsize hfront hoctets hfetched
  have hn := block.length_octets
  rw [hoctets, List.length_append, List.length_append, List.length_append, List.length_cons] at hn
  have hwrite := write_ends
    (by rw [hoctets]; simp only [List.append_assoc, List.singleton_append] :
      block.octets = (front ++ tag ++ text) ++ ([0] ++ rest)) (rfl : [(0 : Octet)].length = _)
  have hindex : (((front ++ tag ++ text).length : Nat) : Int) = key.data + key.size := by
    rw [hsize, List.length_append, List.length_append]
    omega
  rw [hindex] at hwrite
  rw [singleKeyStep]
  refine ends_bind.mpr (hwrite.mono fun b hb => ?_)
  have hb' : b.octets = front ++ (tag ++ (text ++ 0 :: rest)) := by
    rw [hb]
    simp only [List.append_assoc, List.singleton_append]
  have hoctets' : (b.octets.drop key.data).take key.size.toNat = tag ++ text := by
    rw [hb', ← hfront, List.drop_left, hsize, Int.toNat_natCast, ← List.append_assoc]
    exact List.take_left' List.length_append
  rw [hoctets']
  have hload : (Run.load ⟨key.data, key.size.toNat, n⟩ (tag ++ text)).Yields (tag ++ text) := by
    refine ⟨(inBounds_load _ _).mpr (Access.inBounds_iff_le.mpr ?_), _, rfl, rfl⟩
    rw [hsize, Int.toNat_natCast]
    omega
  rw [hload.bind_ends_iff]
  dsimp only
  cases hfetch : fetch (tag ++ text) with
  | error => exact ends_pure.mpr fun hnone => nomatch hfetch.symm.trans (hnone _)
  | ok value => exact ends_pure.mpr fun hnone => nomatch hfetch.symm.trans (hnone _)
  | notFound =>
      dsimp only
      have hreduced := call_reduced ⟨hsize, front, hfront, hb'⟩ htag hnul haccount htext hrest
      rw [hlength]
      refine ends_bind.mpr (hreduced.mono ?_)
      rintro ⟨more, block', key'⟩ (⟨hmore, htexts⟩ | ⟨hmore, hdata, text', rest', hkeyed, htext',
        hrest', htexts⟩)
      · dsimp only at hmore
        dsimp only
        rw [hmore, if_neg Bool.false_ne_true]
        refine ends_pure.mpr fun _ => ⟨rfl, ?_⟩
        rw [htexts] at hfetched
        exact hfetched
      · dsimp only at hmore hdata hkeyed
        dsimp only
        rw [hmore, if_pos rfl]
        refine ends_pure.mpr ⟨⟨text', rest', hkeyed, htext', hrest', ?_⟩, ?_⟩
        · rw [htexts, List.map_cons] at hfetched
          rw [← hfetched, List.append_assoc]
          rfl
        · obtain ⟨front', hfront', hblock'⟩ := hkeyed.octets
          have hn' := block'.length_octets
          rw [hblock', List.length_append] at hn'
          have hle : key'.data ≤ n := by omega
          dsimp only
          omega

end

/-! ### The block before the loop -/

/-- How many octets of a mail address `singleKey` copies behind it. -/
def localOctets (key : List Octet) : Nat :=
  if 0 < (scanLocal key 0 0).2 then (scanLocal key 0 0).2 else (scanLocal key 0 0).1

/-- The account of a mail address, in lower case, with its at sign. -/
def accountOf (key : List Octet) : List Octet :=
  (key.take (localOctets key)).map tolower ++ [ch '@']

/-- The text that a lookup begins with. -/
def firstText (reduceKey : ReduceKey) (key : List Octet) : List Octet :=
  if reduceKey = .mail ∧ key ≠ [] ∧ ch '@' ∉ key then accountOf key else key.map tolower

theorem scanLocal_append {front : List Octet} (hfront : ch '@' ∉ front) (key : List Octet)
    (span plusSign : Nat) : scanLocal (front ++ key) span plusSign =
      scanLocal key (span + front.length) (scanLocal front span plusSign).2 := by
  induction front generalizing span plusSign with
  | nil => rfl
  | cons c front ih =>
      rw [List.mem_cons, not_or] at hfront
      rw [List.cons_append, scanLocal, if_neg (Ne.symm hfront.1), ih hfront.2, scanLocal,
        if_neg (Ne.symm hfront.1), List.length_cons]
      congr 1
      omega

theorem scanLocal_span (key : List Octet) (span plusSign : Nat) :
    (scanLocal key span plusSign).1 = span + (key.takeWhile (· ≠ ch '@')).length := by
  induction key generalizing span plusSign with
  | nil => rfl
  | cons c key ih =>
      rw [scanLocal, List.takeWhile_cons]
      by_cases hc : c = ch '@'
      · simp [hc]
      · rw [if_neg hc, ih, if_pos (decide_eq_true hc), List.length_cons]
        omega

theorem scanLocal_plus_le (key : List Octet) {span plusSign : Nat} (h : plusSign ≤ span) :
    (scanLocal key span plusSign).2 ≤ (scanLocal key span plusSign).1 := by
  induction key generalizing span plusSign with
  | nil => exact h
  | cons c key ih =>
      rw [scanLocal]
      split
      · exact h
      · refine ih ?_
        split <;> omega

theorem scanLocal_unqualified (key : List Octet) :
    (0 < key.length ∧ (scanLocal key 0 0).1 = key.length) ↔ key ≠ [] ∧ ch '@' ∉ key := by
  have hspan := scanLocal_span key 0 0
  have hall : (key.takeWhile (· ≠ ch '@')).length = key.length ↔ ch '@' ∉ key := by
    constructor
    · intro heq hmem
      have hself := List.takeWhile_eq_self_iff.mp ((List.takeWhile_prefix _).eq_of_length heq)
      exact absurd (hself _ hmem) (by decide)
    · intro hnot
      have hself : key.takeWhile (· ≠ ch '@') = key :=
        List.takeWhile_eq_self_iff.mpr fun c hc => decide_eq_true fun heq => hnot (heq ▸ hc)
      rw [hself]
  rw [← hall, hspan, Nat.zero_add, List.length_pos_iff]

theorem localOctets_le (key : List Octet) :
    localOctets key ≤ key.length ∧ (ch '@' ∈ key → localOctets key < key.length) := by
  have hspan := scanLocal_span key 0 0
  have hplus := scanLocal_plus_le key (Nat.le_refl 0)
  have hle : (key.takeWhile (· ≠ ch '@')).length ≤ key.length :=
    (List.takeWhile_prefix _).length_le
  have hmost : localOctets key ≤ (scanLocal key 0 0).1 := by
    rw [localOctets]
    split
    · exact hplus
    · exact Nat.le_refl _
  refine ⟨by omega, fun hmem => ?_⟩
  have hne : (scanLocal key 0 0).1 ≠ key.length := fun heq =>
    ((scanLocal_unqualified key).mp ⟨List.length_pos_of_mem hmem, heq⟩).2 hmem
  omega

theorem isAccount_accountOf {key : List Octet} (hkey : 0 ∉ key) : IsAccount (accountOf key) := by
  refine ⟨?_, List.getLast?_concat⟩
  rw [accountOf, List.mem_append, not_or]
  refine ⟨?_, by decide⟩
  intro hmem
  obtain ⟨c, hc, hzero⟩ := List.mem_map.mp hmem
  rw [tolower_eq_zero_iff] at hzero
  exact hkey (List.mem_of_mem_take (hzero ▸ hc))

section

variable {n : Nat} {block : Buffer n} {tag key rest : List Octet}

theorem writeAt_ends {front tail : List Octet} (h : block.octets = front ++ tail)
    (htail : 2 ≤ tail.length) {i : Nat} (hfront : front.length = i) {β : Type}
    {f : Buffer n → Run β} {Q : β → Prop}
    (hf : ∀ b : Buffer n, (∃ behind, b.octets = front ++ (ch '@' :: 0 :: behind)) → (f b).Ends Q) :
    ((block.write (i : Int) [ch '@']).bind fun b =>
      (b.write ((i + 1 : Nat) : Int) [0]).bind f).Ends Q := by
  obtain ⟨c, d, behind, rfl⟩ : ∃ c d behind, tail = c :: d :: behind := by
    match tail, htail with
    | c :: d :: behind, _ => exact ⟨c, d, behind, rfl⟩
  subst hfront
  rw [← List.singleton_append] at h
  have hwrite := write_ends h (rfl : [ch '@'].length = [c].length)
  refine ends_bind.mpr (hwrite.mono fun b hb => ?_)
  have hoctets : b.octets = (front ++ [ch '@']) ++ ([d] ++ behind) := by
    rw [hb]
    simp only [List.append_assoc, List.singleton_append]
  have hwrite' := write_ends hoctets (rfl : [(0 : Octet)].length = _)
  rw [List.length_append] at hwrite'
  refine ends_bind.mpr (hwrite'.mono fun b' hb' => hf b' ⟨behind, ?_⟩)
  rw [hb']
  simp only [List.append_assoc, List.singleton_append]

theorem unqualifiedKey_ends (h : block.octets = tag ++ (key.map tolower ++ 0 :: rest))
    (hrest : rest ≠ []) {β : Type} {f : Buffer n → Run β} {Q : β → Prop}
    (hf : ∀ b : Buffer n,
      (∃ behind, b.octets = tag ++ (accountOf key ++ 0 :: behind)) → (f b).Ends Q) :
    ((block.write ((tag.length + localOctets key : Nat) : Int) [ch '@']).bind fun b =>
      (b.write ((tag.length + localOctets key + 1 : Nat) : Int) [0]).bind f).Ends Q := by
  have hle := (localOctets_le key).1
  have htake : (tag ++ (key.take (localOctets key)).map tolower).length =
      tag.length + localOctets key := by
    rw [List.length_append, List.length_map, List.length_take, Nat.min_eq_left hle]
  have htail : 2 ≤ ((key.drop (localOctets key)).map tolower ++ 0 :: rest).length := by
    have hpos := List.length_pos_iff.mpr hrest
    rw [List.length_append, List.length_cons]
    omega
  have hoctets : block.octets = (tag ++ (key.take (localOctets key)).map tolower) ++
      ((key.drop (localOctets key)).map tolower ++ 0 :: rest) := by
    rw [h, List.append_assoc, ← List.append_assoc (List.map _ _), ← List.map_append,
      List.take_append_drop]
  refine writeAt_ends hoctets htail htake fun b ⟨behind, hb⟩ => hf b ⟨behind, ?_⟩
  rw [hb, accountOf]
  simp only [List.append_assoc, List.singleton_append]

theorem copyAccount_ends {front : List Octet} (h : block.octets = front ++ rest)
    (hkey : 0 ∉ key) (hroom : localOctets key + 2 ≤ rest.length) {strLen : Nat}
    (hfront : front.length = strLen + 1) {β : Type} {f : Buffer n → Run β} {Q : β → Prop}
    (hf : ∀ b : Buffer n,
      (∃ behind, b.octets = front ++ (accountOf key ++ 0 :: behind)) → (f b).Ends Q) :
    ((block.write ((strLen + localOctets key + 1 : Nat) : Int) [ch '@']).bind fun b =>
      (b.write ((strLen + localOctets key + 2 : Nat) : Int) [0]).bind fun b =>
      (b.write ((strLen + 1 : Nat) : Int) (key.take (localOctets key))).bind fun b =>
      (lowerText b (strLen + 1) (localOctets key)).bind f).Ends Q := by
  have hle := (localOctets_le key).1
  have htake : (rest.take (localOctets key)).length = localOctets key := by
    rw [List.length_take]
    omega
  have hcopied : (key.take (localOctets key)).length = localOctets key := by
    rw [List.length_take]
    omega
  have htail : 2 ≤ (rest.drop (localOctets key)).length := by
    rw [List.length_drop]
    omega
  have hoctets : block.octets =
      (front ++ rest.take (localOctets key)) ++ rest.drop (localOctets key) := by
    rw [h, List.append_assoc, List.take_append_drop]
  have hindex : (front ++ rest.take (localOctets key)).length = strLen + localOctets key + 1 := by
    rw [List.length_append, htake]
    omega
  refine writeAt_ends hoctets htail hindex fun b' ⟨behind, hb'⟩ => ?_
  rw [List.append_assoc] at hb'
  have hwrite := write_ends hb' (hcopied.trans htake.symm)
  rw [hfront] at hwrite
  refine ends_bind.mpr (hwrite.mono fun b'' hb'' => ?_)
  have hlower := lowerText_ends hb'' fun hmem => hkey (List.mem_of_mem_take hmem)
  rw [hcopied, hfront] at hlower
  refine ends_bind.mpr (hlower.mono fun b₃ hb₃ => hf b₃ ⟨behind, ?_⟩)
  rw [hb₃, accountOf]
  simp only [List.append_assoc, List.singleton_append]

end

theorem joinText_ends {n : Nat} {tag key : List Octet} (hnul : 0 ∉ tag) (hkey : 0 ∉ key)
    (memory : Buffer n) (hn : n = blockOctets tag key) {β : Type}
    {f : Buffer n → Run β} {Q : β → Prop}
    (hf : ∀ b : Buffer n, (∃ rest : List Octet, rest.length = tag.length + key.length + 1 ∧
      b.octets = tag.map tolower ++ (key.map tolower ++ 0 :: rest)) → (f b).Ends Q) :
    ((textCopy memory 0 (tag.length + 1) tag).bind fun r =>
      (textCopy r.1 (tag.length : Nat) (key.length + 1) key).bind fun r =>
      (lowerText r.1 0 (tag.length + key.length)).bind f).Ends Q := by
  have hlength := memory.length_octets.trans hn
  unfold blockOctets at hlength
  have hsplit : memory.octets = [] ++ (memory.octets.take (tag.length + 1) ++
      memory.octets.drop (tag.length + 1)) := by
    rw [List.nil_append, List.take_append_drop]
  refine ends_bind.mpr ((textCopy_ends hsplit tag
    (by rw [List.length_take]; omega)).mono ?_)
  rintro ⟨b, copied⟩ hb
  dsimp only at hb ⊢
  have hfree : (memory.octets.drop (tag.length + 1)).length = tag.length + 2 * key.length + 1 := by
    rw [List.length_drop]
    omega
  generalize memory.octets.drop (tag.length + 1) = free at hb hfree
  have hb' : b.octets = tag ++ (0 :: free.take key.length ++ free.drop key.length) := by
    rw [hb, List.nil_append, List.cons_append, List.take_append_drop]
  refine ends_bind.mpr ((textCopy_ends hb' key
    (by rw [List.length_cons, List.length_take]; omega)).mono ?_)
  rintro ⟨b₁, copied₁⟩ hb₁
  dsimp only at hb₁ ⊢
  have hstring : 0 ∉ tag ++ key := by
    rw [List.mem_append, not_or]
    exact ⟨hnul, hkey⟩
  have hlower := lowerText_ends (by rw [hb₁, List.nil_append, List.append_assoc] :
    b₁.octets = [] ++ ((tag ++ key) ++ 0 :: free.drop key.length)) hstring
  rw [List.length_append] at hlower
  refine ends_bind.mpr (hlower.mono fun b₂ hb₂ => hf b₂ ⟨free.drop key.length, ?_, ?_⟩)
  · rw [List.length_drop]
    omega
  · rw [hb₂, List.nil_append, List.map_append, List.append_assoc]

theorem joinKey_ends {n : Nat} {reduceKey : ReduceKey} {tag key : List Octet} (htag : tag ≠ [])
    (hnul : 0 ∉ tag) (hkey : 0 ∉ key) (memory : Buffer n) (hn : n = blockOctets tag key) :
    (joinKey reduceKey memory tag key).Ends fun r => ∃ rest,
      Keyed (tag.map tolower) (firstText reduceKey key) rest r.1 r.2 ∧
        AccountBehind reduceKey (tag.map tolower) (accountOf key) (firstText reduceKey key)
          rest := by
  have hpos : 0 < tag.length := List.length_pos_iff.mpr htag
  have hlower : (tag.map tolower).length = tag.length := List.length_map _
  refine joinText_ends hnul hkey memory hn ?_
  rintro b ⟨rest, hrest, hb⟩
  have hwhole : ∀ b : Buffer n, ∀ rest : List Octet,
      b.octets = tag.map tolower ++ (key.map tolower ++ 0 :: rest) →
      Keyed (tag.map tolower) (key.map tolower) rest b
        ⟨0, ((tag.length + key.length : Nat) : Int)⟩ :=
    fun b rest hb => ⟨by rw [List.length_map, List.length_map], [], rfl, hb⟩
  cases reduceKey with
  | domain =>
      refine ends_pure.mpr ⟨rest, ?_, nofun⟩
      rw [firstText, if_neg fun h => nomatch h.1]
      exact hwhole b rest hb
  | mail =>
      dsimp only
      by_cases hqualified : key ≠ [] ∧ ch '@' ∉ key
      · have htext : firstText .mail key = accountOf key := if_pos ⟨rfl, hqualified⟩
        rw [if_pos ((scanLocal_unqualified key).mpr hqualified), ← localOctets, ← hlower]
        refine unqualifiedKey_ends hb (List.ne_nil_of_length_pos (by omega)) ?_
        rintro b' ⟨behind, hb'⟩
        refine ends_pure.mpr ⟨behind, ?_, ?_⟩
        · rw [htext]
          refine ⟨?_, [], rfl, hb'⟩
          dsimp only
          rw [accountOf, List.length_append, List.length_map, List.length_map, List.length_take,
            Nat.min_eq_left (localOctets_le key).1, List.length_singleton]
          omega
        · intro _
          rw [htext]
          refine .inl ?_
          rw [EndsAt, List.getLast?_append, (isAccount_accountOf hkey).endsAt]
          rfl
      · have htext : firstText .mail key = key.map tolower := if_neg fun h => hqualified h.2
        have hroom : localOctets key + 2 ≤ rest.length := by
          have hle := localOctets_le key
          by_cases hat : ch '@' ∈ key
          · have hlt := hle.2 hat
            omega
          · have hnil : key = [] := by
              by_contra hne
              exact hqualified ⟨hne, hat⟩
            have hzero := hle.1
            rw [hnil, List.length_nil] at hzero
            rw [hnil]
            omega
        rw [if_neg fun h => hqualified ((scanLocal_unqualified key).mp h), ← localOctets]
        refine copyAccount_ends
          (by rw [hb]; simp only [List.append_assoc, List.singleton_append] :
            b.octets = (tag.map tolower ++ (key.map tolower ++ [0])) ++ rest) hkey hroom
          (by simp only [List.length_append, List.length_map, List.length_singleton]; omega) ?_
        rintro b' ⟨behind, hb'⟩
        refine ends_pure.mpr ⟨accountOf key ++ 0 :: behind, ?_, fun _ => .inr (.inr ⟨behind, rfl⟩)⟩
        rw [htext]
        refine hwhole b' _ ?_
        rw [hb']
        simp only [List.append_assoc, List.singleton_append]

/-! ### The lookup -/

/-- The keys that a lookup fetches when the map has none of them. -/
def lookupKeys (reduceKey : ReduceKey) (tag key : List Octet) : List (List Octet) :=
  (reduceKey.texts (tag.map tolower) (accountOf key) (firstText reduceKey key)).map
    (tag.map tolower ++ ·)

theorem singleKey_ends {reduceKey : ReduceKey} {tag key : CString} (htag : tag.octets ≠ [])
    (fetch : List Octet → FetchResult) (memory : Buffer (blockOctets tag.octets key.octets)) :
    (singleKey fetch reduceKey tag key memory).Ends
      (FetchesAll fetch (lookupKeys reduceKey tag.octets key.octets)) := by
  have hnul : 0 ∉ tag.octets.map tolower := by
    intro hmem
    obtain ⟨c, hc, hzero⟩ := List.mem_map.mp hmem
    rw [tolower_eq_zero_iff] at hzero
    exact tag.noNul (hzero ▸ hc)
  have hkey : 0 ∉ key.octets.map tolower := by
    intro hmem
    obtain ⟨c, hc, hzero⟩ := List.mem_map.mp hmem
    rw [tolower_eq_zero_iff] at hzero
    exact key.noNul (hzero ▸ hc)
  have haccount := isAccount_accountOf key.noNul
  have hfirst : 0 ∉ firstText reduceKey key.octets := by
    rw [firstText]
    split
    · exact haccount.noNul
    · exact hkey
  rw [singleKey]
  refine ends_bind.mpr ((joinKey_ends htag tag.noNul key.noNul memory rfl).mono ?_)
  rintro ⟨b, k⟩ ⟨rest, hkeyed, hbehind⟩
  refine loop_ends (I := fun s => ∃ text rest, LookupInv reduceKey (tag.octets.map tolower)
      (accountOf key.octets) (lookupKeys reduceKey tag.octets key.octets) s text rest)
    (fun s => blockOctets tag.octets key.octets - s.2.1.data) ?_
    ⟨_, rest, hkeyed, hfirst, hbehind, rfl⟩ (by dsimp only; omega)
  rintro s ⟨text, rest, hinv⟩
  exact singleKeyStep_ends (fun hnil => htag (List.map_eq_nil_iff.mp hnil)) hnul
    (List.length_map _).symm (fun _ => haccount) hinv

/-! ### Mail addresses and domains -/

/-- The text of a domain. -/
def dottedLabels (labels : List (List Octet)) : List Octet :=
  List.intercalate [ch '.'] labels

/-- The domain and each shorter suffix of it at a label boundary. -/
def domainSuffixes : List (List Octet) → List (List Octet)
  | [] => []
  | label :: labels => dottedLabels (label :: labels) :: domainSuffixes labels

/-- A label of a domain: no dot is in it, and it does not begin with the bracket of an address. -/
structure IsLabel (label : List Octet) : Prop where
  nonempty : label ≠ []
  noDot : ch '.' ∉ label
  noBracket : label.head? ≠ some (ch '[')

/-- The local part up to its last plus sign that is not in first place, or the whole. -/
def account (localPart : List Octet) : List Octet :=
  if ch '+' ∈ localPart.tail then (localPart.rdropWhile (· ≠ ch '+')).dropLast else localPart

theorem dottedLabels_cons (label : List Octet) {labels : List (List Octet)} (h : labels ≠ []) :
    dottedLabels (label :: labels) = label ++ ch '.' :: dottedLabels labels := by
  obtain ⟨next, labels, rfl⟩ := List.exists_cons_of_ne_nil h
  rw [dottedLabels, List.intercalate_cons_cons, List.append_assoc]
  rfl

theorem IsLabel.map_tolower {label : List Octet} (h : IsLabel label) :
    IsLabel (label.map tolower) := by
  have hother : ∀ c : Octet,
      (tolower c = ch '.' → c = ch '.') ∧ (tolower c = ch '[' → c = ch '[') :=
    forall_octet (by decide +kernel)
  refine ⟨fun hnil => h.nonempty (List.map_eq_nil_iff.mp hnil), ?_, ?_⟩
  · intro hmem
    obtain ⟨c, hc, hdot⟩ := List.mem_map.mp hmem
    exact h.noDot ((hother c).1 hdot ▸ hc)
  · rw [List.head?_map]
    intro hhead
    obtain ⟨c, hc, hbracket⟩ := Option.map_eq_some_iff.mp hhead
    exact h.noBracket ((hother c).2 hbracket ▸ hc)

theorem dottedLabels_ne_nil {label : List Octet} (h : label ≠ []) (labels : List (List Octet)) :
    dottedLabels (label :: labels) ≠ [] := by
  cases labels with
  | nil => simpa [dottedLabels] using h
  | cons next labels =>
      rw [dottedLabels_cons label (List.cons_ne_nil _ _)]
      simp

theorem afterLabel_dotted {label : List Octet} (h : IsLabel label) (labels : List (List Octet)) :
    afterLabel (dottedLabels (label :: labels)) = dottedLabels labels := by
  have hall : ∀ c ∈ label, decide (c ∉ [ch '.']) = true := fun c hc =>
    decide_eq_true fun hmem => h.noDot (List.mem_singleton.mp hmem ▸ hc)
  have hstop : labelStop (dottedLabels (label :: labels)) = [ch '.'] := by
    refine if_neg fun hpeek => h.noBracket ?_
    obtain ⟨c, s, rfl⟩ := List.exists_cons_of_ne_nil h.nonempty
    cases labels with
    | nil =>
        rw [dottedLabels, List.intercalate_singleton, peek_cons] at hpeek
        rw [hpeek]
        rfl
    | cons next labels =>
        rw [dottedLabels_cons _ (List.cons_ne_nil _ _), List.cons_append, peek_cons] at hpeek
        rw [hpeek]
        rfl
  rw [afterLabel, hstop]
  cases labels with
  | nil =>
      rw [dottedLabels, List.intercalate_singleton, List.takeWhile_eq_self_iff.mpr hall,
        List.drop_of_length_le (Nat.le_succ _)]
      rfl
  | cons next labels =>
      have htake : (label ++ ch '.' :: dottedLabels (next :: labels)).takeWhile (· ∉ [ch '.']) =
          label := by
        rw [List.takeWhile_append_of_pos hall, List.takeWhile_cons_of_neg (by decide),
          List.append_nil]
      rw [dottedLabels_cons _ (List.cons_ne_nil _ _), htake, ← List.singleton_append,
        ← List.append_assoc, List.drop_left' (by simp)]

theorem domainTexts_dotted {labels : List (List Octet)} (hne : labels ≠ [])
    (h : ∀ label ∈ labels, IsLabel label) :
    domainTexts (dottedLabels labels) = domainSuffixes labels := by
  induction labels with
  | nil => exact absurd rfl hne
  | cons label labels ih =>
      rw [List.forall_mem_cons] at h
      rw [domainTexts, domainSuffixes]
      cases labels with
      | nil =>
          have hlast : afterLabel (dottedLabels [label]) = [] := afterLabel_dotted h.1 []
          rw [dif_pos hlast, domainSuffixes]
      | cons next labels =>
          have hnext := dottedLabels_ne_nil (h.2 next List.mem_cons_self).nonempty labels
          rw [dif_neg (by rw [afterLabel_dotted h.1]; exact hnext), afterLabel_dotted h.1,
            ih (List.cons_ne_nil _ _) h.2]

theorem at_mem_dottedLabels {labels : List (List Octet)} (h : ∀ label ∈ labels, ch '@' ∉ label) :
    ch '@' ∉ dottedLabels labels := by
  induction labels with
  | nil => exact List.not_mem_nil
  | cons label labels ih =>
      rw [List.forall_mem_cons] at h
      cases labels with
      | nil =>
          rw [dottedLabels, List.intercalate_singleton]
          exact h.1
      | cons next labels =>
          rw [dottedLabels_cons _ (List.cons_ne_nil _ _), List.mem_append, List.mem_cons, not_or,
            not_or]
          exact ⟨h.1, by decide, ih h.2⟩

theorem not_endsAt {tag text : List Octet} (hne : text ≠ []) (hat : ch '@' ∉ text) :
    ¬ EndsAt tag text := by
  intro hends
  rw [EndsAt, List.getLast?_append_of_ne_nil _ hne] at hends
  exact hat (List.mem_of_getLast? hends)

theorem mailTexts_dotted (tag account : List Octet) {labels : List (List Octet)} (hne : labels ≠ [])
    (h : ∀ label ∈ labels, IsLabel label) (hat : ∀ label ∈ labels, ch '@' ∉ label) :
    mailTexts tag account (dottedLabels labels) = domainSuffixes labels ++ [account] := by
  induction labels with
  | nil => exact absurd rfl hne
  | cons label labels ih =>
      have hnot := at_mem_dottedLabels hat
      rw [List.forall_mem_cons] at h hat
      have hsome := dottedLabels_ne_nil h.1.nonempty labels
      rw [mailTexts, domainSuffixes, if_neg (not_endsAt hsome hnot), dif_neg hnot]
      cases labels with
      | nil =>
          have hlast : afterLabel (dottedLabels [label]) = [] := afterLabel_dotted h.1 []
          rw [dif_pos hlast, if_neg hsome, domainSuffixes]
          rfl
      | cons next labels =>
          have hnext := dottedLabels_ne_nil (h.2 next List.mem_cons_self).nonempty labels
          rw [dif_neg (by rw [afterLabel_dotted h.1]; exact hnext), afterLabel_dotted h.1,
            ih (List.cons_ne_nil _ _) h.2 hat.2]
          rfl

theorem mailTexts_address {tag account localPart : List Octet} (hlocal : ch '@' ∉ localPart)
    {labels : List (List Octet)} (hne : labels ≠ []) (h : ∀ label ∈ labels, IsLabel label)
    (hat : ∀ label ∈ labels, ch '@' ∉ label) :
    mailTexts tag account (localPart ++ ch '@' :: dottedLabels labels) =
      (localPart ++ ch '@' :: dottedLabels labels) :: (domainSuffixes labels ++ [account]) := by
  have hnot := at_mem_dottedLabels hat
  have hsome : dottedLabels labels ≠ [] := by
    obtain ⟨label, labels, rfl⟩ := List.exists_cons_of_ne_nil hne
    exact dottedLabels_ne_nil (h label List.mem_cons_self).nonempty labels
  have hends : ¬ EndsAt tag (localPart ++ ch '@' :: dottedLabels labels) := by
    have hrest : ¬ EndsAt (tag ++ localPart ++ [ch '@']) (dottedLabels labels) :=
      not_endsAt hsome hnot
    rw [EndsAt] at hrest ⊢
    simpa only [List.append_assoc, List.singleton_append] using hrest
  have hmem : ch '@' ∈ localPart ++ ch '@' :: dottedLabels labels := by simp
  have hall : ∀ c ∈ localPart, decide (c ∉ [ch '@']) = true := fun c hc =>
    decide_eq_true fun hmem => hlocal (List.mem_singleton.mp hmem ▸ hc)
  have hbehind : afterAt (localPart ++ ch '@' :: dottedLabels labels) = dottedLabels labels := by
    have htake : (localPart ++ ch '@' :: dottedLabels labels).takeWhile (· ∉ [ch '@']) =
        localPart := by
      rw [List.takeWhile_append_of_pos hall, List.takeWhile_cons_of_neg (by decide),
        List.append_nil]
    rw [afterAt, htake, ← List.singleton_append, ← List.append_assoc, List.drop_left' (by simp)]
  rw [mailTexts, if_neg hends, dif_pos hmem, hbehind, mailTexts_dotted tag account hne h hat]

/-! ### The account -/

theorem scanLocal_concat {front : List Octet} (hfront : ch '@' ∉ front) {c : Octet}
    (hc : c ≠ ch '@') : (scanLocal (front ++ [c]) 0 0).2 =
      if c = ch '+' then front.length else (scanLocal front 0 0).2 := by
  rw [scanLocal_append hfront, scanLocal, if_neg hc, scanLocal, Nat.zero_add]

theorem scanLocal_plusSign {localPart : List Octet} (hlocal : ch '@' ∉ localPart) :
    (0 < (scanLocal localPart 0 0).2 ↔ ch '+' ∈ localPart.tail) ∧
      (0 < (scanLocal localPart 0 0).2 → localPart.take (scanLocal localPart 0 0).2 =
        (localPart.rdropWhile (· ≠ ch '+')).dropLast) := by
  induction localPart using List.reverseRecOn with
  | nil => exact ⟨by decide, nofun⟩
  | append_singleton front c ih =>
      rw [List.mem_append, not_or, List.mem_singleton] at hlocal
      obtain ⟨hpositive, htake⟩ := ih hlocal.1
      rw [scanLocal_concat hlocal.1 (Ne.symm hlocal.2)]
      by_cases hplus : c = ch '+'
      · subst hplus
        rw [if_pos rfl, List.rdropWhile_concat_neg _ _ _ (by decide), List.dropLast_concat,
          List.take_left]
        refine ⟨?_, fun _ => rfl⟩
        cases front with
        | nil => decide
        | cons d front => simp
      · have htail : ch '+' ∈ (front ++ [c]).tail ↔ ch '+' ∈ front.tail := by
          cases front with
          | nil => simp
          | cons d front =>
              rw [List.cons_append, List.tail_cons, List.tail_cons, List.mem_append,
                List.mem_singleton]
              exact ⟨fun h => h.resolve_right (Ne.symm hplus), .inl⟩
        have hle : (scanLocal front 0 0).2 ≤ front.length := by
          have hplusLe := scanLocal_plus_le front (Nat.le_refl 0)
          have hspan := scanLocal_span front 0 0
          have hlength : (front.takeWhile (· ≠ ch '@')).length ≤ front.length :=
            (List.takeWhile_prefix _).length_le
          omega
        rw [if_neg hplus, htail, List.take_append_of_le_length hle,
          List.rdropWhile_concat_pos (fun c => decide (c ≠ ch '+')) front c (decide_eq_true hplus)]
        exact ⟨hpositive, htake⟩

theorem accountOf_address {localPart : List Octet} (hlocal : ch '@' ∉ localPart)
    (domain : List Octet) : accountOf (localPart ++ ch '@' :: domain) =
      (account localPart).map tolower ++ [ch '@'] := by
  obtain ⟨hpositive, htake⟩ := scanLocal_plusSign hlocal
  have hscan : scanLocal (localPart ++ ch '@' :: domain) 0 0 =
      (localPart.length, (scanLocal localPart 0 0).2) := by
    rw [scanLocal_append hlocal, scanLocal, if_pos rfl, Nat.zero_add]
  rw [accountOf, localOctets, hscan, account]
  dsimp only
  by_cases hplus : 0 < (scanLocal localPart 0 0).2
  · have hle : (scanLocal localPart 0 0).2 ≤ localPart.length := by
      have hplusLe := scanLocal_plus_le localPart (Nat.le_refl 0)
      have hspan := scanLocal_span localPart 0 0
      have hlength : (localPart.takeWhile (· ≠ ch '@')).length ≤ localPart.length :=
        (List.takeWhile_prefix _).length_le
      omega
    rw [if_pos hplus, if_pos (hpositive.mp hplus), List.take_append_of_le_length hle, htake hplus]
  · rw [if_neg hplus, if_neg fun h => hplus (hpositive.mpr h), List.take_left]

/-! ### The order of the lookups -/

theorem dottedLabels_map (labels : List (List Octet)) :
    (dottedLabels labels).map tolower = dottedLabels (labels.map (List.map tolower)) := by
  induction labels with
  | nil => rfl
  | cons label labels ih =>
      cases labels with
      | nil => simp [dottedLabels]
      | cons next labels =>
          have hnext : (next :: labels).map (List.map tolower) ≠ [] := List.cons_ne_nil _ _
          rw [dottedLabels_cons _ (List.cons_ne_nil _ _), List.map_append, List.map_cons, ih,
            List.map_cons (a := label), dottedLabels_cons _ hnext]
          rfl

theorem domainSuffixes_map (labels : List (List Octet)) :
    (domainSuffixes labels).map (List.map tolower) =
      domainSuffixes (labels.map (List.map tolower)) := by
  induction labels with
  | nil => rfl
  | cons label labels ih =>
      rw [domainSuffixes, List.map_cons, dottedLabels_map, ih, List.map_cons, domainSuffixes]

theorem at_mem_map_tolower {text : List Octet} (h : ch '@' ∉ text) :
    ch '@' ∉ text.map tolower := by
  have hother : ∀ c : Octet, tolower c = ch '@' → c = ch '@' := forall_octet (by decide +kernel)
  intro hmem
  obtain ⟨c, hc, hat⟩ := List.mem_map.mp hmem
  exact h (hother c hat ▸ hc)

/-- A key, as it is fetched: the tag and a text, in lower case. -/
def lowerKey (tag text : List Octet) : List Octet :=
  (tag ++ text).map tolower

theorem map_lowerKey (tag : List Octet) (texts : List (List Octet)) :
    (texts.map (List.map tolower)).map (tag.map tolower ++ ·) = texts.map (lowerKey tag) := by
  rw [List.map_map]
  exact List.map_congr_left fun text _ => (List.map_append ..).symm

theorem lookupKeys_mail (tag : List Octet) {localPart : List Octet} (hlocal : ch '@' ∉ localPart)
    {labels : List (List Octet)} (hne : labels ≠ []) (h : ∀ label ∈ labels, IsLabel label)
    (hat : ∀ label ∈ labels, ch '@' ∉ label) :
    lookupKeys .mail tag (localPart ++ ch '@' :: dottedLabels labels) =
      ((localPart ++ ch '@' :: dottedLabels labels) ::
        (domainSuffixes labels ++ [account localPart ++ [ch '@']])).map (lowerKey tag) := by
  have hfirst : firstText .mail (localPart ++ ch '@' :: dottedLabels labels) =
      localPart.map tolower ++ ch '@' :: dottedLabels (labels.map (List.map tolower)) := by
    rw [firstText, if_neg fun hnot => hnot.2.2 (by simp), List.map_append, List.map_cons,
      dottedLabels_map]
    rfl
  rw [lookupKeys, hfirst, ReduceKey.texts]
  rw [mailTexts_address (at_mem_map_tolower hlocal) (fun hnil => hne (List.map_eq_nil_iff.mp hnil))
    (List.forall_mem_map.mpr fun label hlabel => (h label hlabel).map_tolower)
    (List.forall_mem_map.mpr fun label hlabel => at_mem_map_tolower (hat label hlabel)),
    accountOf_address hlocal, ← domainSuffixes_map, ← dottedLabels_map, ← map_lowerKey]
  simp only [List.map_cons, List.map_append, List.map_nil]
  rfl

theorem lookupKeys_domain (tag : List Octet) {labels : List (List Octet)} (hne : labels ≠ [])
    (h : ∀ label ∈ labels, IsLabel label) :
    lookupKeys .domain tag (dottedLabels labels) = (domainSuffixes labels).map (lowerKey tag) := by
  have hfirst : firstText .domain (dottedLabels labels) =
      dottedLabels (labels.map (List.map tolower)) := by
    rw [firstText, if_neg (fun hnot => nomatch hnot.1), dottedLabels_map]
  rw [lookupKeys, hfirst, ReduceKey.texts]
  rw [domainTexts_dotted (fun hnil => hne (List.map_eq_nil_iff.mp hnil))
    (List.forall_mem_map.mpr fun label hlabel => (h label hlabel).map_tolower),
    ← domainSuffixes_map, map_lowerKey]

/-- The order in which the keys of a mail address and of a domain are looked up, when no label
begins with a bracket or has an at sign in it; and every lookup stays in its block. -/
theorem smdbAccess_fetches {tag : CString} (htag : tag.octets ≠ []) :
    (∀ (localPart : List Octet) (labels : List (List Octet)) (key : CString)
        (memory : Buffer (blockOctets tag.octets key.octets)),
      ch '@' ∉ localPart → labels ≠ [] → (∀ label ∈ labels, IsLabel label ∧ ch '@' ∉ label) →
      key.octets = localPart ++ ch '@' :: dottedLabels labels →
      (smdbAccessMail (fun _ => .notFound) tag key memory).Ends fun r => r.fetched =
        (key.octets :: (domainSuffixes labels ++ [account localPart ++ [ch '@']])).map
          (lowerKey tag.octets)) ∧
    (∀ (labels : List (List Octet)) (key : CString)
        (memory : Buffer (blockOctets tag.octets key.octets)),
      labels ≠ [] → (∀ label ∈ labels, IsLabel label) → key.octets = dottedLabels labels →
      (smdbAccessDomain (fun _ => .notFound) tag key memory).Ends fun r => r.fetched =
        (domainSuffixes labels).map (lowerKey tag.octets)) ∧
    ∀ (fetch : List Octet → FetchResult) (reduceKey : ReduceKey) (key : CString)
      (memory : Buffer (blockOctets tag.octets key.octets)),
      (singleKey fetch reduceKey tag key memory).InBounds := by
  refine ⟨?_, ?_, ?_⟩
  · intro localPart labels key memory hlocal hne hlabels hkey
    refine (singleKey_ends htag (fun _ => .notFound) memory).mono fun r hr => ?_
    rw [(hr fun _ => rfl).2, hkey]
    exact lookupKeys_mail tag.octets hlocal hne (fun label hlabel => (hlabels label hlabel).1)
      fun label hlabel => (hlabels label hlabel).2
  · intro labels key memory hne hlabels hkey
    refine (singleKey_ends htag (fun _ => .notFound) memory).mono fun r hr => ?_
    rw [(hr fun _ => rfl).2, hkey]
    exact lookupKeys_domain tag.octets hne hlabels
  · intro fetch reduceKey key memory
    exact (singleKey_ends htag fetch memory).1

/-- The tag of an access map. -/
def fromTag : CString :=
  ⟨ascii "From:", by decide⟩

theorem smdbAccessMail_plus :
    (smdbAccessMail (fun _ => .notFound) fromTag ⟨ascii "Ann+x@mail.Net", by decide⟩
      (Buffer.replicate _ 0)).Ends fun r => r.fetched =
        [ascii "from:ann+x@mail.net", ascii "from:mail.net", ascii "from:net",
          ascii "from:ann@"] := by
  have hlabels : ∀ label ∈ [ascii "mail", ascii "Net"], IsLabel label ∧ ch '@' ∉ label := by
    intro label hlabel
    rcases List.mem_pair.mp hlabel with rfl | rfl
    · exact ⟨⟨by decide, by decide, by decide⟩, by decide⟩
    · exact ⟨⟨by decide, by decide, by decide⟩, by decide⟩
  have htag : fromTag.octets ≠ [] := by decide
  refine ((smdbAccess_fetches htag).1 (ascii "Ann+x")
    [ascii "mail", ascii "Net"] _ _ (by decide) (List.cons_ne_nil _ _) hlabels
    (by decide)).mono fun r hr => ?_
  rw [hr]
  decide

/-- A label that begins with a bracket takes the rest of the domain with it. -/
theorem smdbAccessMail_bracket :
    ¬ (smdbAccessMail (fun _ => .notFound) fromTag ⟨ascii "ann@[mail.net", by decide⟩
      (Buffer.replicate _ 0)).Ends fun r => r.fetched =
        (ascii "ann@[mail.net" :: (domainSuffixes [ascii "[mail", ascii "net"] ++
          [account (ascii "ann") ++ [ch '@']])).map (lowerKey fromTag.octets) := by
  rintro ⟨-, r, hr, hfetched⟩
  have hresult : (smdbAccessMail (fun _ => .notFound) fromTag
      ⟨ascii "ann@[mail.net", by decide⟩ (Buffer.replicate _ 0)).result.map
      SingleKey.fetched =
      some [ascii "from:ann@[mail.net", ascii "from:[mail.net", ascii "from:ann@"] := by
    decide
  rw [result_eq_some.mpr hr, Option.map_some, hfetched] at hresult
  exact absurd hresult (by decide)

end Snert
