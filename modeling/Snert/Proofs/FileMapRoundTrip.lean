/-
Module: Snert.Proofs.FileMapRoundTrip
Purpose: A file map that is written and opened again. Every key and value is read back as it was
  written, whatever octets are in it; the entries are put into an empty map one after the other,
  but for those whose key looks like a comment.
Trusted boundary: none
Main exports: kvmFile_reopens_iff
-/
import Snert.Kvm.FileMap
import Snert.Proofs.HashFiniteMap

namespace Snert

open CModel Lists

/-! ### One key or value -/

theorem upperHex_reads (c : Octet) :
    IsDigits 16 (upperHex c) ∧ UInt8.ofNat (digitsValue 16 (upperHex c)) = c :=
  forall_octet (P := fun c => IsDigits 16 (upperHex c) ∧
    UInt8.ofNat (digitsValue 16 (upperHex c)) = c) (by decide +kernel) c

theorem kvmReadLoop_octet (n : Nat) (c : Octet) (r : List Octet) :
    kvmReadLoop (n + 1) ⟨writeOctet c ++ r, false⟩ =
      ((kvmReadLoop n ⟨r, false⟩).1.map (c :: ·), (kvmReadLoop n ⟨r, false⟩).2) := by
  rw [writeOctet]
  split
  next h =>
    rw [List.singleton_append, kvmReadLoop, fgetc]
    dsimp only
    rw [if_neg h.1]
  next =>
    obtain ⟨hdigits, hvalue⟩ := upperHex_reads c
    have hscan : fscanfUnsigned 16 2 ⟨upperHex c ++ r, false⟩ =
        (some (digitsValue 16 (upperHex c)), ⟨r, false⟩) :=
      fscanfUnsigned_digits (le_refl 16) (List.forall_mem_nil (isspace · = true)) hdigits
        (le_refl 2) (.inl rfl) false
    rw [List.cons_append, kvmReadLoop, fgetc]
    dsimp only
    rw [if_pos rfl, hscan]
    dsimp only
    rw [hvalue]

theorem kvmReadLoop_data (data r : List Octet) :
    kvmReadLoop (data.length + 1) ⟨data.flatMap writeOctet ++ ch ',' :: r, false⟩ =
      (some (data ++ [ch ',']), ⟨r, false⟩) := by
  induction data with
  | nil => rfl
  | cons c data ih =>
      rw [List.flatMap_cons, List.append_assoc, List.length_cons, kvmReadLoop_octet, ih]
      rfl

theorem numeral_length_le {n k : Nat} (h : n < 10 ^ k) (hk : 0 < k) :
    (numeral 10 n).length ≤ k := by
  rw [numeral, List.length_map]
  exact (Nat.length_toDigits_le_iff (by omega) hk).mpr h

theorem kvmRead_write {spaces data : List Octet} (hspaces : ∀ c ∈ spaces, isspace c)
    (hlength : data.length < 10 ^ 9) (r : List Octet) :
    kvmRead ⟨spaces ++ (kvmWrite data ++ r), false⟩ = (some data, ⟨r, false⟩) := by
  obtain ⟨hdigits, hvalue⟩ := numeral_reads 10 (by decide) (by decide) data.length
  have hcolon : isDigit 10 (ch ':') = false := by decide
  have hscan : fscanfUnsigned 10 9 ⟨spaces ++ (kvmWrite data ++ r), false⟩ =
      (some data.length, ⟨ch ':' :: (data.flatMap writeOctet ++ ch ',' :: r), false⟩) := by
    have h := fscanfUnsigned_digits (r := ch ':' :: (data.flatMap writeOctet ++ ch ',' :: r))
      (by decide) hspaces hdigits (numeral_length_le hlength (by decide : 0 < 9))
      (.inr ⟨by decide, _, _, rfl, hcolon⟩) false
    rw [hvalue] at h
    rw [← h, kvmWrite]
    simp only [List.append_assoc, List.cons_append, List.nil_append]
  rw [kvmRead, hscan]
  dsimp only
  rw [fgetc]
  dsimp only
  rw [if_neg (not_not.mpr rfl), kvmReadLoop_data]
  dsimp only
  rw [List.getElem?_concat_length, if_neg (not_not.mpr rfl), List.take_left' rfl]

theorem kvmRead_end {spaces : List Octet} (hspaces : ∀ c ∈ spaces, isspace c) :
    kvmRead ⟨spaces, false⟩ = (none, ⟨[], true⟩) := by
  have hrest : spaces.dropWhile isspace = [] := List.dropWhile_eq_nil_iff.mpr hspaces
  have hscan : fscanfUnsigned 10 9 ⟨spaces, false⟩ = (none, ⟨[], true⟩) := by
    rw [fscanfUnsigned, scanSpaces]
    dsimp only
    rw [hrest]
    rfl
  rw [kvmRead, hscan]

/-! ### All entries -/

/-- What is written for some entries. -/
def entriesText (entries : List KvmHash) : List Octet :=
  entries.flatMap fun entry => kvmWrite entry.key ++ kvmWrite entry.value ++ [ch '\n']

/-- The key is the first octet of a comment. -/
def LooksLikeComment (key : List Octet) : Prop :=
  key.head? = some (ch '#')

instance (key : List Octet) : Decidable (LooksLikeComment key) :=
  inferInstanceAs (Decidable (_ = _))

/-- The entries put into a map one after the other. -/
def putAll (map : KvmHashTable) (entries : List KvmHash) : KvmHashTable :=
  entries.foldl (fun map entry =>
    if LooksLikeComment entry.key then map else (kvmPutHash map entry.key entry.value).2) map

/-- No key and no value is longer than the reader takes. -/
def Sized (entries : List KvmHash) : Prop :=
  ∀ entry ∈ entries, entry.key.length < 10 ^ 9 ∧ entry.value.length < 10 ^ 9

theorem openLoop_written {entries : List KvmHash} (hsized : Sized entries) {rounds : Nat}
    (hrounds : entries.length < rounds) {spaces : List Octet} (hspaces : ∀ c ∈ spaces, isspace c)
    (hash : KvmHashTable) :
    openLoop kvmRead kvmRead rounds ⟨spaces ++ entriesText entries, false⟩ hash =
      some (putAll hash entries) := by
  induction entries generalizing rounds spaces hash with
  | nil =>
      obtain ⟨rounds, rfl⟩ := Nat.exists_eq_add_one.mpr hrounds
      rw [openLoop, entriesText, List.flatMap_nil, List.append_nil, if_neg Bool.false_ne_true,
        kvmRead_end hspaces]
      rfl
  | cons entry entries ih =>
      obtain ⟨rounds, rfl⟩ := Nat.exists_eq_add_one.mpr (Nat.zero_lt_of_lt hrounds)
      rw [Sized, List.forall_mem_cons] at hsized
      obtain ⟨⟨hkey, hvalue⟩, hsized⟩ := hsized
      have htext : spaces ++ entriesText (entry :: entries) =
          spaces ++ (kvmWrite entry.key ++ ([] ++ (kvmWrite entry.value ++
            ([ch '\n'] ++ entriesText entries)))) := by
        rw [entriesText, List.flatMap_cons, entriesText]
        simp only [List.append_assoc, List.nil_append]
      have hnewline : ∀ c ∈ [ch '\n'], isspace c := by decide
      rw [openLoop, if_neg Bool.false_ne_true, htext, kvmRead_write hspaces hkey]
      dsimp only
      rw [kvmRead_write (List.forall_mem_nil _) hvalue]
      dsimp only
      rw [ih hsized (Nat.lt_of_succ_lt_succ hrounds) hnewline]
      rfl

theorem length_le_entriesText (entries : List KvmHash) :
    entries.length ≤ (entriesText entries).length := by
  induction entries with
  | nil => exact Nat.zero_le _
  | cons entry entries ih =>
      rw [entriesText] at ih ⊢
      simp only [List.flatMap_cons, List.length_append, List.length_cons, List.length_nil]
      omega

theorem kvmRead_entriesText {entries : List KvmHash} (hsized : Sized entries) :
    ¬ ((kvmRead ⟨entriesText entries, false⟩).1 = none ∧
      (kvmRead ⟨entriesText entries, false⟩).2.eof = false) := by
  cases entries with
  | nil =>
      rw [entriesText, List.flatMap_nil, kvmRead_end (List.forall_mem_nil _)]
      exact fun h => nomatch h.2
  | cons entry entries =>
      rw [Sized, List.forall_mem_cons] at hsized
      have hread := kvmRead_write (List.forall_mem_nil (isspace · = true)) hsized.1.1
        (kvmWrite entry.value ++ [ch '\n'] ++ entriesText entries)
      have htext : entriesText (entry :: entries) =
          [] ++ (kvmWrite entry.key ++
            (kvmWrite entry.value ++ [ch '\n'] ++ entriesText entries)) := by
        rw [entriesText, List.flatMap_cons, entriesText]
        simp only [List.append_assoc, List.nil_append]
      rw [htext, hread]
      exact fun h => nomatch h.1

theorem kvmOpenFile_entriesText {entries : List KvmHash} (hsized : Sized entries) :
    kvmOpenFile false (some (entriesText entries)) = some ⟨putAll .empty entries, false⟩ := by
  have hloop := openLoop_written hsized (Nat.lt_succ_of_le (length_le_entriesText entries))
    (List.forall_mem_nil (isspace · = true)) .empty
  rw [List.nil_append] at hloop
  rw [kvmOpenFile, if_neg (kvmRead_entriesText hsized), hloop]
  rfl

/-! ### What they come to -/

theorem kvmPutHash_content (map : KvmHashTable) (key value : List Octet) :
    (kvmPutHash map key value).2.content = Function.update map.content key (some value) :=
  (call_refines map (.put key value)).2

theorem putAll_content {entries : List KvmHash} (hnodup : (entries.map KvmHash.key).Nodup)
    (map : KvmHashTable) (key : List Octet) :
    (putAll map entries).content key =
      if LooksLikeComment key then map.content key
      else (chainFetch key entries).or (map.content key) := by
  induction entries generalizing map with
  | nil => simp [putAll, chainFetch]
  | cons entry entries ih =>
      rw [List.map_cons, List.nodup_cons] at hnodup
      have hrest := ih hnodup.2 (if LooksLikeComment entry.key then map
        else (kvmPutHash map entry.key entry.value).2)
      rw [putAll, List.foldl_cons, ← putAll, hrest, chainFetch]
      by_cases hkey : key = entry.key
      · have hnone : chainFetch key entries = none :=
          chainFetch_eq_none_iff.mpr (hkey ▸ hnodup.1)
        rw [if_pos hkey, hnone, ← hkey]
        by_cases hcomment : LooksLikeComment key
        · rw [if_pos hcomment, if_pos hcomment, if_pos hcomment]
        · rw [if_neg hcomment, if_neg hcomment, if_neg hcomment, kvmPutHash_content,
            Function.update_self]
          rfl
      · have hother : (if LooksLikeComment entry.key then map
            else (kvmPutHash map entry.key entry.value).2).content key = map.content key := by
          split
          · rfl
          · rw [kvmPutHash_content, Function.update_of_ne hkey]
        rw [if_neg hkey, hother]

theorem KvmHashTable.Placed.chainFetch_entries {map : KvmHashTable} (hplaced : map.Placed)
    (key : List Octet) : chainFetch key map.entries = map.content key := by
  refine Option.ext fun value => ?_
  rw [chainFetch_eq_some_iff hplaced.nodup_entries, hplaced.content_eq_some_iff]

/-- Written and opened again, the map yields the same keys and values. -/
def KvmFile.Reopens (file : KvmFile) (text : Option (List Octet)) : Prop :=
  ∃ file', kvmOpenFile false (kvmSyncFile file text) = some file' ∧
    file'.hash.content = file.hash.content

theorem kvmOpenFile_fileText {hash : KvmHashTable} (hplaced : hash.Placed)
    (hsized : Sized hash.entries) (text : Option (List Octet)) :
    ∃ file', kvmOpenFile false (kvmSyncFile ⟨hash, false⟩ text) = some file' ∧
      ∀ key, file'.hash.content key = if LooksLikeComment key then none else hash.content key := by
  have htext : kvmSyncFile ⟨hash, false⟩ text = some (entriesText hash.entries) := by
    rw [kvmSyncFile, if_neg Bool.false_ne_true, fileText, entriesText, KvmHashTable.entries]
  rw [htext]
  refine ⟨_, kvmOpenFile_entriesText hsized, fun key => ?_⟩
  dsimp only
  rw [putAll_content hplaced.nodup_entries, hplaced.chainFetch_entries]
  exact if_congr Iff.rfl rfl (Option.or_none)

theorem reopens_iff {hash : KvmHashTable} (hplaced : hash.Placed) (hsized : Sized hash.entries)
    (text : Option (List Octet)) :
    KvmFile.Reopens ⟨hash, false⟩ text ↔
      ∀ key, hash.content key ≠ none → ¬ LooksLikeComment key := by
  obtain ⟨file', hopen, hcontent⟩ := kvmOpenFile_fileText hplaced hsized text
  constructor
  · rintro ⟨file'', hopen', heq⟩ key hheld hcomment
    rw [hopen, Option.some_inj] at hopen'
    subst hopen'
    refine hheld ?_
    rw [← heq, hcontent, if_pos hcomment]
  · refine fun h => ⟨file', hopen, funext fun key => ?_⟩
    rw [hcontent]
    split
    next hcomment =>
      by_contra hheld
      exact h key (Ne.symm hheld) hcomment
    next => rfl

/-! ### Sessions -/

theorem placed_openLoop {getKey getValue : File → Option (List Octet) × File} {rounds : Nat}
    {fp : File} {hash hash' : KvmHashTable} (hplaced : hash.Placed)
    (h : openLoop getKey getValue rounds fp hash = some hash') : hash'.Placed := by
  induction rounds generalizing fp hash with
  | zero => exact nomatch h
  | succ rounds ih =>
      rw [openLoop] at h
      split at h
      · cases h
        exact hplaced
      split at h
      · split at h
        · cases h
          exact hplaced
        · exact nomatch h
      split at h
      · split at h
        · cases h
          exact hplaced
        · exact nomatch h
      · refine ih ?_ h
        split
        · exact hplaced
        · exact hplaced.put _ _

theorem placed_kvmOpenFile {text : Option (List Octet)} {file : KvmFile}
    (h : kvmOpenFile false text = some file) : file.hash.Placed := by
  cases text with
  | none =>
      cases h
      exact placed_empty
  | some text =>
      rw [kvmOpenFile] at h
      split at h
      · obtain ⟨hash, hloop, rfl⟩ := Option.map_eq_some_iff.mp h
        exact placed_openLoop placed_empty hloop
      · obtain ⟨hash, hloop, rfl⟩ := Option.map_eq_some_iff.mp h
        exact placed_openLoop placed_empty hloop

theorem KvmHashTable.Placed.session {map : KvmHashTable} (hplaced : map.Placed)
    (calls : List KvmCall) : (map.session calls).2.Placed := by
  induction calls generalizing map with
  | nil => exact hplaced
  | cons call calls ih =>
      have hcall : (map.call call).2.Placed := by
        cases call with
        | put key value => exact hplaced.put key value
        | get key => exact hplaced
        | remove key => exact hplaced.remove key
      exact ih hcall

/-- What a map has behind a session on a file that is open for writing is there again when the
file has been written and is opened, if and only if no key that the map holds then looks like a
comment. The lengths are those that the reader takes. -/
theorem kvmFile_reopens_iff {text : Option (List Octet)} {file : KvmFile}
    (hopen : kvmOpenFile false text = some file) (hwrite : file.readOnly = false)
    (calls : List KvmCall)
    (hlengths : ∀ key value, (file.session calls).hash.content key = some value →
      key.length < 10 ^ 9 ∧ value.length < 10 ^ 9) :
    (file.session calls).Reopens text ↔
      ∀ key, (file.session calls).hash.content key ≠ none → ¬ LooksLikeComment key := by
  have hplaced : (file.session calls).hash.Placed := (placed_kvmOpenFile hopen).session calls
  have hsized : Sized (file.session calls).hash.entries := fun entry hentry =>
    hlengths entry.key entry.value (hplaced.content_eq_some_iff.mpr hentry)
  have hmode : file.session calls = ⟨(file.session calls).hash, false⟩ := by
    rw [← hwrite]
    rfl
  rw [hmode] at hplaced hsized ⊢
  exact reopens_iff hplaced hsized text

theorem content_onePut (key value : List Octet) :
    (KvmFile.session ⟨.empty, false⟩ [.put key value]).hash.content =
      Function.update (fun _ => none) key (some value) :=
  kvmPutHash_content .empty key value

theorem kvmFile_reopens_key :
    (KvmFile.session ⟨.empty, false⟩ [.put (ascii "key") (ascii "=\n")]).Reopens none := by
  have hheld : ∀ key value, (KvmFile.session ⟨.empty, false⟩
      [.put (ascii "key") (ascii "=\n")]).hash.content key = some value →
      key = ascii "key" ∧ value = ascii "=\n" := by
    intro key value h
    rw [content_onePut, Function.update_apply] at h
    split at h
    next hkey => exact ⟨hkey, (Option.some_inj.mp h).symm⟩
    next => exact nomatch h
  have hopen : kvmOpenFile false none = some ⟨.empty, false⟩ := rfl
  refine (kvmFile_reopens_iff hopen rfl _ ?_).mpr ?_
  · intro key value h
    obtain ⟨rfl, rfl⟩ := hheld key value h
    decide
  · intro key h
    obtain ⟨value, hvalue⟩ := Option.ne_none_iff_exists'.mp h
    obtain ⟨rfl, -⟩ := hheld key value hvalue
    decide

/-- An entry whose key begins like a comment is written, and is left out when it is read. -/
theorem reopens_comment :
    ¬ (KvmFile.session ⟨.empty, false⟩ [.put (ascii "#key") (ascii "value")]).Reopens none := by
  intro hreopens
  have hcontent := content_onePut (ascii "#key") (ascii "value")
  have hplaced : (KvmFile.session ⟨.empty, false⟩
      [.put (ascii "#key") (ascii "value")]).hash.Placed := placed_empty.put _ _
  have hsized : Sized (KvmFile.session ⟨.empty, false⟩
      [.put (ascii "#key") (ascii "value")]).hash.entries := by
    intro entry hentry
    have hheld := hplaced.content_eq_some_iff.mpr hentry
    rw [hcontent, Function.update_apply] at hheld
    split at hheld
    next hkey =>
      rw [hkey, ← Option.some_inj.mp hheld]
      decide
    next => exact nomatch hheld
  refine (reopens_iff hplaced hsized none).mp hreopens (ascii "#key") ?_ (by decide)
  rw [hcontent, Function.update_self]
  exact nofun

end Snert
