/-
Module: Snert.Proofs.NameCopied
Purpose: `pdq_name_copy` keeps to its buffer, and returns the dotted name with its length, unless the
  labels fill the buffer just as the packet ends, or a label that it copies has a NUL in it. The walk
  through a name, with the labels that it passes, is followed round by round.
Trusted boundary: none
Main exports: nameCopy_keeps_iff
-/
import Snert.Proofs.RecordDecode

namespace Snert

open CModel CModel.Run Relation

/-! ### The labels of a walk -/

/-- The walk passes labels on its way from `x`, each an offset with the room left there. -/
inductive Spells (packet : Packet) (x : Nat × Nat) : List (List Octet) → Nat × Nat → Prop
  | start : Spells packet x [] x
  | pointer {labels : List (List Octet)} {p q room : Nat} :
      Spells packet x labels (p, room) → PointsTo packet p q → Spells packet x labels (q, room)
  | label {labels : List (List Octet)} {p c room : Nat} :
      Spells packet x labels (p, room) → LabelAt packet p c → c < room →
      Spells packet x (labels ++ [packet.octets (p + 1) c]) (p + (c + 1), room - (c + 1))

/-- The name at `p` has the given labels: with a buffer of `size` octets the walk passes them on its
way to a root label inside the packet. -/
def IsName (packet : Packet) (p size : Nat) (labels : List (List Octet)) (room : Nat) : Prop :=
  ∃ q, Spells packet (p, size) labels (q, room) ∧ q < packet.length ∧ packet.octet q = 0

/-- What `pdq_name_copy` should do with a buffer: store in it only, and put the dotted name, with a
NUL behind it, where it returns the length of the name. -/
structure KeepsToBuffer {size : Nat} (packet : Packet) (p : Nat) (copied : Run (Int × Buffer size)) :
    Prop where
  /-- A store outside the buffer is a crash. -/
  stores : copied.outcome ≠ .crash
  named : ∀ r, copied.outcome = .done r → r.1 ≠ -1 →
    ∃ labels room, IsName packet p size labels room ∧ r.2.Terminated ∧
      r.2.cstring = nameText labels ∧ r.1 = r.2.cstring.length

/-- The names that are copied so. -/
structure NameFits (packet : Packet) (p size : Nat) : Prop where
  /-- Where the walk leaves the packet, there is room for a NUL. -/
  behind : ∀ q room, NameWalk packet p size q room → packet.length ≤ q → 0 < room
  /-- A name that fits has no NUL in its labels. -/
  noNul : ∀ labels room, IsName packet p size labels room → 0 < room → ∀ label ∈ labels, 0 ∉ label

section

variable {packet : Packet} {p size : Nat} {labels : List (List Octet)}

/-! ### The text of the labels -/

theorem copiedText_append (labels labels' : List (List Octet)) :
    copiedText (labels ++ labels') = copiedText labels ++ copiedText labels' := by
  unfold copiedText
  rw [List.map_append, List.flatMap_append]

theorem copiedText_singleton (label : List Octet) :
    copiedText [label] = strncpyOctets label ++ [ch '.'] := by
  simp [copiedText]

theorem textLength_append (labels labels' : List (List Octet)) :
    textLength (labels ++ labels') = textLength labels + textLength labels' := by
  unfold textLength
  rw [List.map_append, List.sum_append]

theorem textLength_singleton (label : List Octet) : textLength [label] = label.length + 1 := by
  simp [textLength]

theorem map_strncpyOctets (h : ∀ label ∈ labels, 0 ∉ label) :
    labels.map strncpyOctets = labels := by
  rw [List.map_congr_left fun label hlabel => strncpyOctets_of_noNul (h label hlabel), List.map_id']

theorem mem_strncpyOctets {label : List Octet} (h : 0 ∈ label) : 0 ∈ strncpyOctets label := by
  have hlt : (label.takeWhile (· ≠ 0)).length < label.length := by
    refine Nat.lt_of_le_of_ne (List.takeWhile_prefix _).length_le fun heq => ?_
    have hall := List.takeWhile_eq_self_iff.mp ((List.takeWhile_prefix _).eq_of_length heq) 0 h
    exact of_decide_eq_true hall rfl
  refine List.mem_append_right _ (List.mem_replicate.mpr ⟨?_, rfl⟩)
  omega

theorem mem_nameText {label : List Octet} (hlabel : label ∈ labels) (h : 0 ∈ label) :
    0 ∈ nameText (labels.map strncpyOctets) := by
  rw [nameText_of_ne_nil (List.ne_nil_of_mem hlabel), copiedText, List.mem_flatMap]
  exact ⟨_, List.mem_map_of_mem hlabel, List.mem_append_left _ (mem_strncpyOctets h)⟩

theorem noNul_nameText (h : ∀ label ∈ labels, 0 ∉ label) : 0 ∉ nameText labels := by
  unfold nameText
  split
  · decide
  · rw [List.mem_flatMap]
    rintro ⟨label, hlabel, hmem⟩
    rcases List.mem_append.mp hmem with hmem | hmem
    · exact h label hlabel hmem
    · exact absurd hmem (by decide)

/-! ### The loop spells the name -/

/-- The buffer begins with the text of the labels, and the room for them is taken. -/
structure Spelled (value : Buffer size) (labels : List (List Octet)) (t : NameScan size) : Prop where
  value : t.value = value.splice 0 (copiedText labels)
  room : t.remaining + textLength labels = size

variable {value : Buffer size} {s t : NameScan size}

theorem Spelled.initial (p : Nat) (value : Buffer size) :
    Spelled value [] (NameScan.initial p value) :=
  ⟨(value.splice_nil 0).symm, rfl⟩

theorem Spelled.label {c : Nat} (h : Spelled value labels s) (hinv : NameInv s)
    (hroom : c < s.remaining) :
    Spelled value (labels ++ [packet.octets (s.ptr + 1) c]) (behindLabel packet s c) := by
  have hlabel : (packet.octets (s.ptr + 1) c).length = c := by simp
  have hlength := length_copiedText labels
  have htaken := h.room
  unfold NameInv at hinv
  have hbuf : s.buf = 0 + (copiedText labels).length := by omega
  have htext : (copiedText labels ++ strncpyOctets (packet.octets (s.ptr + 1) c)).length =
      (copiedText labels).length + c := by
    rw [List.length_append, length_strncpyOctets, hlabel]
  constructor
  · dsimp only [behindLabel]
    rw [h.value, hbuf, Buffer.splice_splice _ _ _ (by rw [length_strncpyOctets, hlabel]; omega),
      Nat.add_assoc, ← htext, Buffer.splice_splice _ _ _ (by
        rw [htext, List.length_singleton]
        omega),
      copiedText_append, copiedText_singleton, List.append_assoc]
  · dsimp only [behindLabel]
    rw [textLength_append, textLength_singleton, hlabel]
    omega

theorem spells_of_reaches (h : Reaches (nameCopyStep packet) (NameScan.initial p value) t) :
    ∃ labels, Spells packet (p, size) labels (t.ptr, t.remaining) ∧ Spelled value labels t := by
  have hinit := nameInv_initial p value
  induction h with
  | refl => exact ⟨[], .start, .initial p value⟩
  | tail hreach hnext ih =>
      obtain ⟨labels, hspells, hspelled⟩ := ih
      have hinv := nameInv_reaches hinit hreach
      rcases (next_iff hinv).mp hnext with ⟨q, hp, rfl⟩ | ⟨c, hl, hc, rfl⟩
      · exact ⟨labels, .pointer hspells hp, hspelled.value, hspelled.room⟩
      · exact ⟨_, .label hspells hl hc, hspelled.label hinv hc⟩

theorem reaches_of_spells {y : Nat × Nat} (value : Buffer size)
    (h : Spells packet (p, size) labels y) :
    ∃ t, Reaches (nameCopyStep packet) (NameScan.initial p value) t ∧ (t.ptr, t.remaining) = y ∧
      Spelled value labels t := by
  have hinit := nameInv_initial p value
  induction h with
  | start => exact ⟨_, .refl, rfl, .initial p value⟩
  | pointer hspells hp ih =>
      obtain ⟨t, ht, hview, hspelled⟩ := ih
      obtain ⟨rfl, rfl⟩ := Prod.mk.inj hview
      have hnext := (next_iff (nameInv_reaches hinit ht)).mpr (.inl ⟨_, hp, rfl⟩)
      exact ⟨_, .tail ht hnext, rfl, hspelled.value, hspelled.room⟩
  | label hspells hl hc ih =>
      obtain ⟨t, ht, hview, hspelled⟩ := ih
      obtain ⟨rfl, rfl⟩ := Prod.mk.inj hview
      have hinv := nameInv_reaches hinit ht
      have hnext := (next_iff hinv).mpr (.inr ⟨_, hl, hc, rfl⟩)
      exact ⟨_, .tail ht hnext, rfl, hspelled.label hinv hc⟩

/-! ### Stores -/

theorem nameCopyStep_not_crash (hinv : NameInv s) : (nameCopyStep packet s).outcome ≠ .crash := by
  unfold nameCopyStep Packet.getOctet Packet.netGetShort
  split
  · nofun
  · rw [outcome_load_bind]
    split
    · nofun
    · split
      · nofun
      · split
        · nofun
        · rename_i hroom
          rw [outcome_bind_of_done (copyLabel_outcome hinv (Nat.not_le.mp hroom))]
          nofun

theorem finishName_behind (hinv : NameInv t) (hend : packet.length ≤ t.ptr) :
    (finishName packet t).outcome =
      if 0 < t.remaining then .done (-1, t.value.splice t.buf [0]) else .crash := by
  unfold NameInv at hinv
  unfold finishName
  rw [if_pos hend]
  by_cases hroom : 0 < t.remaining
  · rw [if_pos hroom, outcome_bind_of_done
      (t.value.yields_write [0] (by rw [List.length_singleton]; omega)).outcome]
    rfl
  · rw [if_neg hroom]
    refine outcome_bind_of_crash (outcome_store_of_not_inBounds ?_ _) _
    rw [Access.inBounds_iff_le, List.length_singleton]
    omega

theorem finishName_full (hinv : NameInv t) (hspelled : Spelled value labels t)
    (hsize : 0 < size) (hlt : t.ptr < packet.length)
    (hfull : size ≤ (nameText (labels.map strncpyOctets)).length) :
    ∃ buf, (finishName packet t).outcome = .done (-1, buf) := by
  have htaken := hspelled.room
  unfold NameInv at hinv
  unfold finishName
  rw [if_neg (Nat.not_le.mpr hlt)]
  unfold copyRoot
  by_cases hroot : labels = []
  · subst hroot
    have hone : size ≤ 1 := hfull
    have hempty : t.remaining = size := htaken
    have hdot := t.value.yields_write (i := t.buf) [ch '.'] (by rw [List.length_singleton]; omega)
    rw [if_pos hempty, outcome_bind_of_done (outcome_bind_of_done hdot.outcome _)]
    dsimp only
    rw [if_pos (by omega)]
    exact ⟨_, rfl⟩
  · have hne := mt textLength_eq_zero_iff.mp hroot
    rw [nameText_of_ne_nil hroot, length_copiedText] at hfull
    rw [if_neg (by omega), Run.pure_bind, if_pos (by omega)]
    exact ⟨_, rfl⟩

theorem nameCopy_named {room : Nat} (value : Buffer size) (hname : IsName packet p size labels room)
    (hfits : (nameText (labels.map strncpyOctets)).length < size) :
    (pdqNameCopy packet p value).outcome = .done
      (((nameText (labels.map strncpyOctets)).length : Int),
        value.splice 0 (nameText (labels.map strncpyOctets) ++ [0])) := by
  obtain ⟨q, hspells, hlt, hroot⟩ := hname
  obtain ⟨t, ht, hview, hspelled⟩ := reaches_of_spells value hspells
  obtain ⟨rfl, -⟩ := Prod.mk.inj hview
  have hinv := nameInv_reaches (nameInv_initial p value) ht
  have hloop := (nameCopy_enoughRounds packet p value).outcome_eq_done.mpr
    ⟨t, ht, (nameCopyStep_stops hinv).mpr ⟨rfl, .inr hroot⟩⟩
  unfold pdqNameCopy
  rw [outcome_bind_of_done hloop]
  exact finishName_outcome hinv hlt hfits hspelled.value hspelled.room

theorem finishName_not_crash (hinv : NameInv t) (hspelled : Spelled value labels t)
    (hsize : 0 < size) (hroom : packet.length ≤ t.ptr → 0 < t.remaining) :
    (finishName packet t).outcome ≠ .crash := by
  by_cases hend : packet.length ≤ t.ptr
  · rw [finishName_behind hinv hend, if_pos (hroom hend)]
    nofun
  · have hlt := Nat.not_le.mp hend
    by_cases hfits : (nameText (labels.map strncpyOctets)).length < size
    · rw [finishName_outcome hinv hlt hfits hspelled.value hspelled.room]
      nofun
    · obtain ⟨buf, hfull⟩ := finishName_full hinv hspelled hsize hlt (Nat.not_lt.mp hfits)
      rw [hfull]
      nofun

theorem nameCopy_stores_iff (value : Buffer size) (hsize : 0 < size) :
    (pdqNameCopy packet p value).outcome ≠ .crash ↔
      ∀ q room, NameWalk packet p size q room → packet.length ≤ q → 0 < room := by
  have hinit := nameInv_initial p value
  have enough := nameCopy_enoughRounds packet p value
  unfold pdqNameCopy
  constructor
  · intro hstores q room hwalk hend
    obtain ⟨t, ht, rfl, rfl⟩ := reaches_of_nameWalk hinit hwalk
    have hinv := nameInv_reaches hinit ht
    have hloop := enough.outcome_eq_done.mpr
      ⟨t, ht, (nameCopyStep_stops hinv).mpr ⟨rfl, .inl hend⟩⟩
    rw [outcome_bind_of_done hloop] at hstores
    dsimp only at hstores
    rw [finishName_behind hinv hend] at hstores
    by_contra hfull
    exact hstores (if_neg hfull)
  · intro hroom
    have hloop :
        (loop (nameCopyStep packet) (nameCopyRounds p size) (NameScan.initial p value)).outcome ≠
          .crash :=
      loop_not_crash (fun t => nameCopyStep_not_crash) (fun t u => nameInv_next) _ hinit
    cases h : (loop (nameCopyStep packet) (nameCopyRounds p size) (NameScan.initial p value)).outcome
      with
    | crash => exact absurd h hloop
    | diverge =>
        rw [outcome_bind_of_diverge h]
        nofun
    | done r =>
        rw [outcome_bind_of_done h]
        cases r with
        | error buf => nofun
        | ok t =>
            obtain ⟨u, hu, hstop⟩ := enough.outcome_eq_done.mp h
            have hinv := nameInv_reaches hinit hu
            obtain ⟨rfl, -⟩ := (nameCopyStep_stops hinv).mp hstop
            obtain ⟨labels, -, hspelled⟩ := spells_of_reaches hu
            exact finishName_not_crash hinv hspelled hsize
              (hroom _ _ (nameWalk_of_reaches hinit hu))

theorem isName_of_done {r : Int × Buffer size} (hsize : 0 < size)
    (h : (pdqNameCopy packet p value).outcome = .done r) (hr : r.1 ≠ -1) :
    ∃ labels room, IsName packet p size labels room ∧ 0 < room ∧
      (nameText (labels.map strncpyOctets)).length < size := by
  have hinit := nameInv_initial p value
  obtain ⟨loop, hloop, h⟩ := outcome_bind_eq_done.mp h
  cases loop with
  | error buf =>
      cases h
      exact absurd rfl hr
  | ok t =>
      obtain ⟨u, hu, hstop⟩ := (nameCopy_enoughRounds packet p value).outcome_eq_done.mp hloop
      have hinv := nameInv_reaches hinit hu
      obtain ⟨rfl, hends⟩ := (nameCopyStep_stops hinv).mp hstop
      obtain ⟨labels, hspells, hspelled⟩ := spells_of_reaches hu
      dsimp only at h
      by_cases hend : packet.length ≤ t.ptr
      · rw [finishName_behind hinv hend] at h
        split at h
        · cases h
          exact absurd rfl hr
        · cases h
      · have hlt := Nat.not_le.mp hend
        by_cases hfits : (nameText (labels.map strncpyOctets)).length < size
        · refine ⟨labels, _, ⟨_, hspells, hlt, hends.resolve_left hend⟩, ?_, hfits⟩
          have htaken := hspelled.room
          by_cases hroot : labels = []
          · subst hroot
            rw [show textLength [] = 0 from rfl] at htaken
            omega
          · rw [nameText_of_ne_nil hroot, length_copiedText] at hfits
            omega
        · obtain ⟨buf, hfull⟩ := finishName_full hinv hspelled hsize hlt (Nat.not_lt.mp hfits)
          rw [hfull] at h
          cases h
          exact absurd rfl hr

/-- `pdq_name_copy` keeps to its buffer and returns the name exactly when the name fits. -/
theorem nameCopy_keeps_iff (packet : Packet) (p size : Nat) (value : Buffer size)
    (hsize : 0 < size) :
    KeepsToBuffer packet p (pdqNameCopy packet p value) ↔ NameFits packet p size := by
  constructor
  · intro hkeeps
    refine ⟨(nameCopy_stores_iff value hsize).mp hkeeps.stores, ?_⟩
    intro labels room hname hroom label hlabel hnul
    have hne := List.ne_nil_of_mem hlabel
    have hfits : (nameText (labels.map strncpyOctets)).length < size := by
      obtain ⟨q, hspells, -⟩ := hname
      obtain ⟨t, -, hview, hspelled⟩ := reaches_of_spells value hspells
      obtain ⟨-, rfl⟩ := Prod.mk.inj hview
      have htaken := hspelled.room
      rw [nameText_of_ne_nil hne, length_copiedText]
      omega
    obtain ⟨-, -, -, -, -, hlength⟩ := hkeeps.named _ (nameCopy_named value hname hfits)
      (by dsimp only; omega)
    exact value.noNul_of_length_cstring hfits (Int.ofNat.inj hlength).symm
      (mem_nameText hlabel hnul)
  · intro hfits
    refine ⟨(nameCopy_stores_iff value hsize).mpr hfits.behind, fun r hr hne => ?_⟩
    obtain ⟨labels, room, hname, hroom, hlength⟩ := isName_of_done hsize hr hne
    have hnul := hfits.noNul labels room hname hroom
    have hnamed := nameCopy_named value hname hlength
    rw [map_strncpyOctets hnul] at hnamed hlength
    rw [hnamed] at hr
    cases hr
    have hcstring := value.cstring_splice_zero hlength (noNul_nameText hnul)
    exact ⟨labels, room, hname, Buffer.terminated_of_octets (value.octets_splice_zero hlength),
      hcstring, by rw [hcstring]⟩

/-- Four labels of 63 octets, and there the packet ends. -/
def fullName : Packet :=
  { length := 268
    header := { id := 0, bits := 0x8000, qdcount := 1, ancount := 0, nscount := 0, arcount := 0 }
    octet := fun i => if i < 12 then 0 else if (i - 12) % 64 = 0 then 63 else ch 'a' }

theorem nameCopy_keeps_iff_full :
    KeepsToBuffer fullName 12 (pdqNameCopy fullName 12 (Buffer.replicate DOMAIN_SIZE 0)) ↔
      NameFits fullName 12 DOMAIN_SIZE :=
  nameCopy_keeps_iff fullName 12 DOMAIN_SIZE _ (by decide)

theorem nameCopy_overrun :
    ¬ KeepsToBuffer fullName 12 (pdqNameCopy fullName 12 (Buffer.replicate DOMAIN_SIZE 0)) := by
  have hcrash :
      (pdqNameCopy fullName 12 (Buffer.replicate DOMAIN_SIZE 0)).outcome = .crash := by
    decide +kernel
  exact fun hkeeps => hkeeps.stores hcrash

end

end Snert
