/-
Module: Snert.Proofs.PropertiesSurvive
Purpose: What the properties of util/Properties.c are after they have been saved and loaded. The
  writer writes one line for every entry, of strings that hold neither a NUL nor a newline. The
  reader finds the end of a key that is encoded, or that holds no delimiter; the value of a line
  comes back exactly if it is encoded, since the reader keeps the end of the line in any other.
Trusted boundary: none
Main exports: properties_survive_iff
-/
import Snert.Proofs.Base64Object
import Snert.Proofs.HashFiniteMap
import Snert.Util.Properties

namespace Snert

open CModel CModel.Run Lists

variable {hashcode : List Octet → Nat}

/-! ### The hash table -/

theorem HashGet_create (key : List Octet) :
    HashGet (HashCreate : Hash hashcode) key = none :=
  rfl

theorem HashGet_put (self : Hash hashcode) (key value key' : List Octet) :
    HashGet (HashPut self key value) key' = if key' = key then some value
      else HashGet self key' := by
  by_cases hplace : hashPlace hashcode key' = hashPlace hashcode key
  · have hchain : (HashPut self key value).base (hashPlace hashcode key') =
        chainPut key value (self.base (hashPlace hashcode key')) := by
      simp only [HashPut, hplace, if_true]
    rw [HashGet, hchain, chainFetch_put, HashGet]
  · have hchain : (HashPut self key value).base (hashPlace hashcode key') =
        self.base (hashPlace hashcode key') := by
      simp only [HashPut, hplace, if_false]
    have hne : key' ≠ key := fun heq => hplace (by rw [heq])
    rw [HashGet, hchain, if_neg hne, HashGet]

theorem HashGet_eq_some_iff {self : Hash hashcode} {key value : List Octet} :
    HashGet self key = some value ↔ ⟨key, value⟩ ∈ self.entries := by
  rw [HashGet, chainFetch_eq_some_iff (self.nodup _), Hash.entries, List.mem_flatMap]
  constructor
  · exact fun h => ⟨_, List.mem_finRange _, h⟩
  · rintro ⟨hash, -, h⟩
    rwa [self.placed hash key (List.mem_map_of_mem (f := KvmHash.key) h)]

theorem Hash.nodup_entries (self : Hash hashcode) : (self.entries.map KvmHash.key).Nodup := by
  rw [Hash.entries, List.map_flatMap, List.nodup_flatMap]
  refine ⟨fun hash _ => self.nodup hash, (List.nodup_finRange _).imp ?_⟩
  intro hash hash' hne key hkey hkey'
  exact hne ((self.placed hash key hkey).symm.trans (self.placed hash' key hkey'))

/-- Put entries into a table, one after the other. -/
def HashPutAll (self : Hash hashcode) (entries : List KvmHash) : Hash hashcode :=
  entries.foldl (fun self entry => HashPut self entry.key entry.value) self

theorem HashGet_putAll_of_notMem {key : List Octet} (entries : List KvmHash) :
    ∀ (self : Hash hashcode), key ∉ entries.map KvmHash.key →
      HashGet (HashPutAll self entries) key = HashGet self key := by
  induction entries with
  | nil => exact fun _ _ => rfl
  | cons entry entries ih =>
      intro self hkey
      rw [List.map_cons, List.mem_cons, not_or] at hkey
      rw [HashPutAll, List.foldl_cons, ← HashPutAll, ih _ hkey.2, HashGet_put, if_neg hkey.1]

theorem HashGet_putAll_of_mem {entry : KvmHash} {entries : List KvmHash} (self : Hash hashcode)
    (hnodup : (entries.map KvmHash.key).Nodup) (hentry : entry ∈ entries) :
    HashGet (HashPutAll self entries) entry.key = some entry.value := by
  induction entries generalizing self with
  | nil => cases hentry
  | cons first entries ih =>
      rw [List.map_cons, List.nodup_cons] at hnodup
      rw [HashPutAll, List.foldl_cons, ← HashPutAll]
      rcases List.mem_cons.mp hentry with rfl | hentry
      · rw [HashGet_putAll_of_notMem entries _ hnodup.1, HashGet_put, if_pos rfl]
      · exact ih _ hnodup.2 hentry

/-! ### The properties that are set -/

/-- A string as data, with its NUL. -/
def stringData (s : CString) : List Octet :=
  s.octets ++ [0]

theorem takeWhile_string (s : CString) : s.octets.takeWhile (· ≠ 0) = s.octets :=
  List.takeWhile_eq_self_iff.mpr fun c hc => by
    simpa using fun (h : c = 0) => s.noNul (h ▸ hc)

theorem takeWhile_stringData (s : CString) : (stringData s).takeWhile (· ≠ 0) = s.octets := by
  rw [stringData, takeWhile_append_delimiter (by simp), takeWhile_string s]

theorem stringData_inj {s t : CString} : stringData s = stringData t ↔ s = t := by
  constructor
  · intro h
    rw [CString.mk.injEq, ← takeWhile_stringData s, h, takeWhile_stringData t]
  · rintro rfl
    rfl

/-- The object after calls of `PropertiesSetProperty`. -/
def propertiesOf (hashcode : List Octet → Nat) (sets : List (CString × CString)) : Hash hashcode :=
  sets.foldl (fun self set => PropertiesSetProperty self set.1 set.2) HashCreate

/-- The value that has been set last for a key. -/
def lastValue (sets : List (CString × CString)) (key : CString) : Option CString :=
  (sets.reverse.find? fun set => set.1 = key).map Prod.snd

theorem propertiesOf_append (sets : List (CString × CString)) (set : CString × CString) :
    propertiesOf hashcode (sets ++ [set]) =
      PropertiesSetProperty (propertiesOf hashcode sets) set.1 set.2 := by
  rw [propertiesOf, List.foldl_append]
  rfl

theorem lastValue_append (sets : List (CString × CString)) (set : CString × CString)
    (key : CString) :
    lastValue (sets ++ [set]) key = if key = set.1 then some set.2 else lastValue sets key := by
  rw [lastValue, List.reverse_append, List.reverse_singleton, List.singleton_append,
    List.find?_cons]
  by_cases heq : key = set.1
  · rw [if_pos heq]
    simp [heq]
  · rw [if_neg heq]
    simp [Ne.symm heq, lastValue]

theorem HashGet_propertiesOf (sets : List (CString × CString)) (key : CString) :
    HashGet (propertiesOf hashcode sets) (stringData key) =
      (lastValue sets key).map stringData := by
  induction sets using List.reverseRecOn with
  | nil => rfl
  | append_singleton sets set ih =>
      rw [propertiesOf_append, lastValue_append, PropertiesSetProperty, HashGet_put, ← stringData,
        ← stringData]
      by_cases heq : key = set.1
      · rw [if_pos (by rw [heq]), if_pos heq, Option.map_some]
      · rw [if_neg (fun h => heq (stringData_inj.mp h)), if_neg heq, ih]

/-- The entry of a key and a value. -/
def propertyEntry (set : CString × CString) : KvmHash :=
  ⟨stringData set.1, stringData set.2⟩

theorem mem_entries_propertiesOf (sets : List (CString × CString)) :
    ∀ entry ∈ (propertiesOf hashcode sets).entries, entry ∈ Set.range propertyEntry := by
  induction sets using List.reverseRecOn with
  | nil =>
      intro entry hentry
      exact nomatch HashGet_eq_some_iff.mpr hentry
  | append_singleton sets set ih =>
      intro entry hentry
      rw [propertiesOf_append] at hentry
      have hget := HashGet_eq_some_iff.mpr hentry
      rw [PropertiesSetProperty, HashGet_put] at hget
      split at hget
      · rename_i hkey
        refine ⟨set, ?_⟩
        rw [propertyEntry, KvmHash.mk.injEq]
        exact ⟨hkey.symm, Option.some.inj hget⟩
      · exact ih entry (HashGet_eq_some_iff.mp hget)

theorem entries_propertiesOf (sets : List (CString × CString)) : ∃ pairs : List (CString × CString),
    (propertiesOf hashcode sets).entries = pairs.map propertyEntry ∧
      ((pairs.map propertyEntry).map KvmHash.key).Nodup ∧
      ∀ pair, pair ∈ pairs ↔ lastValue sets pair.1 = some pair.2 := by
  have hrange : (propertiesOf hashcode sets).entries ∈ Set.range (List.map propertyEntry) := by
    rw [Set.range_list_map]
    exact mem_entries_propertiesOf sets
  obtain ⟨pairs, hpairs⟩ := hrange
  have hinj : Function.Injective propertyEntry := by
    intro set set' h
    rw [propertyEntry, propertyEntry, KvmHash.mk.injEq, stringData_inj, stringData_inj] at h
    exact Prod.ext h.1 h.2
  refine ⟨pairs, hpairs.symm, hpairs ▸ Hash.nodup_entries _, fun pair => ?_⟩
  rw [← List.mem_map_of_injective hinj, hpairs, propertyEntry, ← HashGet_eq_some_iff,
    HashGet_propertiesOf, Option.map_eq_some_iff]
  constructor
  · rintro ⟨value, hvalue, hdata⟩
    rw [hvalue, stringData_inj.mp hdata]
  · exact fun h => ⟨pair.2, h, rfl⟩

/-! ### Saving -/

/-- A string as it is written. -/
def savedString (s : CString) : List Octet :=
  if propertyIsPrintable (stringData s) then s.octets
  else ascii "*?" ++ paddedText PROPERTIES_PAD (stringData s)

/-- The line of a key and a value. -/
def lineText (set : CString × CString) : List Octet :=
  savedString set.1 ++ ch '\t' :: (savedString set.2 ++ ascii "\r\n")

theorem propertyIsPrintable_stringData (s : CString) :
    propertyIsPrintable (stringData s) = true ↔
      ¬ ascii "*?" <+: s.octets ∧ ∀ c ∈ s.octets, isprint c = true := by
  have hmark : ascii "*?" <+: stringData s ↔ ascii "*?" <+: s.octets := by
    refine ⟨fun h => ?_, fun h => h.trans (List.prefix_append _ _)⟩
    rcases List.prefix_concat_iff.mp h with h | h
    · have hnul : 0 ∈ ascii "*?" := h ▸ List.mem_append_right _ (List.mem_singleton.mpr rfl)
      exact absurd hnul (by decide)
    · exact h
  have hlast : (stringData s).getLast? = some 0 := List.getLast?_concat
  have hdrop : (stringData s).dropLast = s.octets := List.dropLast_concat
  rw [propertyIsPrintable, hlast, if_neg (show ¬ (some 0 = some (ch '\t')) by decide), if_pos rfl,
    hdrop, ← hmark]
  split
  · rename_i h
    exact ⟨nofun, fun h' => absurd h h'.1⟩
  · rename_i h
    rw [List.all_eq_true]
    exact ⟨fun h' => ⟨h, h'⟩, fun h' => h'.2⟩

theorem savedString_of_printable {s : CString} (h : propertyIsPrintable (stringData s) = true) :
    savedString s = s.octets :=
  if_pos h

theorem savedString_of_not_printable {s : CString}
    (h : ¬ propertyIsPrintable (stringData s) = true) :
    savedString s = ascii "*?" ++ paddedText PROPERTIES_PAD (stringData s) :=
  if_neg h

theorem mem_paddedText {pad c : Octet} {octets : List Octet} (h : c ∈ paddedText pad octets) :
    c ∈ encodeSet ∨ c = pad := by
  rcases List.mem_append.mp h with h | h
  · obtain ⟨v, hv, rfl⟩ := List.mem_map.mp h
    exact .inl (encodeChar_mem (sextets_lt octets v hv))
  · exact .inr (List.mem_replicate.mp h).2

theorem isprint_savedString {s : CString} {c : Octet} (h : c ∈ savedString s) :
    isprint c = true := by
  by_cases hprint : propertyIsPrintable (stringData s) = true
  · rw [savedString_of_printable hprint] at h
    exact ((propertyIsPrintable_stringData s).mp hprint).2 c h
  · have hset : ∀ c ∈ encodeSet, isprint c = true := by decide
    have hmark : ∀ c ∈ ascii "*?", isprint c = true := by decide
    rw [savedString_of_not_printable hprint] at h
    rcases List.mem_append.mp h with h | h
    · exact hmark c h
    · rcases mem_paddedText h with h | rfl
      · exact hset c h
      · decide

/-- The encoder as the writer uses it: it holds no bits, and pads with `PAD`. -/
def SavingEncoder (encoder : Base64) : Prop :=
  HoldsBits encoder.coder .none ∧ encoder.pad = PROPERTIES_PAD

theorem savingEncoder_propertiesBase64 : SavingEncoder propertiesBase64 :=
  ⟨.inl (by decide), by decide⟩

theorem saveData_yields {encoder : Base64} (hencoder : SavingEncoder encoder)
    (fresh : (n : Nat) → Buffer n) (s : CString) : ∃ encoder', SavingEncoder encoder' ∧
      (saveData encoder fresh (stringData s)).Yields (encoder', savedString s) := by
  by_cases hprint : propertyIsPrintable (stringData s) = true
  · refine ⟨encoder, hencoder, ?_⟩
    rw [saveData, if_pos hprint, savedString_of_printable hprint, takeWhile_stringData]
    exact yields_pure _
  · obtain ⟨encoder', hholds, hpad, hends⟩ :=
      Base64EncodeBuffer_eof_ends_iff hencoder.1 (stringData s) (fresh _)
    refine ⟨encoder', ⟨hholds, hpad.trans hencoder.2⟩, ?_⟩
    have hfits := (last_fits_iff encoder.pad .none (stringData s)).mpr (by
      rw [LastOverflows, Held.taken]
      omega)
    rw [saveData, if_neg hprint, savedString_of_not_printable hprint, paddedText_eq, Yields,
      ends_bind,
      ← hencoder.2]
    simp only [ends_pure]
    exact (hends fun encoder text => (encoder, ascii "*?" ++ text) = _).mpr ⟨hfits, rfl⟩

theorem saveKeyValue_yields {encoder : Base64} (hencoder : SavingEncoder encoder)
    (fresh : (n : Nat) → Buffer n) (set : CString × CString) : ∃ encoder', SavingEncoder encoder' ∧
      (saveKeyValue encoder fresh (propertyEntry set)).Yields (encoder', lineText set) := by
  obtain ⟨encoder₁, hencoder₁, hkey⟩ := saveData_yields hencoder fresh set.1
  obtain ⟨encoder₂, hencoder₂, hvalue⟩ := saveData_yields hencoder₁ fresh set.2
  refine ⟨encoder₂, hencoder₂, ?_⟩
  rw [saveKeyValue]
  have hline : savedString set.1 ++ ascii "\t" ++ savedString set.2 ++ ascii "\r\n" =
      lineText set := by
    rw [List.append_assoc, List.append_assoc]
    rfl
  refine hkey.bind (hvalue.bind ?_)
  rw [← hline]
  exact yields_pure _

theorem saveEntries_yields (fresh : (n : Nat) → Buffer n) (sets : List (CString × CString)) :
    ∀ {encoder : Base64}, SavingEncoder encoder →
      (saveEntries encoder fresh (sets.map propertyEntry)).Yields (sets.flatMap lineText) := by
  induction sets with
  | nil => exact fun _ => yields_pure _
  | cons set sets ih =>
      intro encoder hencoder
      obtain ⟨encoder', hencoder', hline⟩ := saveKeyValue_yields hencoder fresh set
      rw [List.map_cons, saveEntries, List.flatMap_cons]
      exact hline.bind ((ih hencoder').bind (yields_pure _))

/-! ### Lines -/

theorem inputLines_line {line : List Octet} (hline : ch '\n' ∉ line) (input : List Octet) :
    inputLines (line ++ ch '\n' :: input) = (line ++ [ch '\n']) :: inputLines input := by
  induction line with
  | nil => rw [List.nil_append, inputLines, if_pos rfl, List.nil_append]
  | cons c line ih =>
      rw [List.mem_cons, not_or] at hline
      rw [List.cons_append, inputLines, if_neg (Ne.symm hline.1), ih hline.2, List.cons_append]

theorem newline_notMem_savedString (s : CString) : ch '\n' ∉ savedString s := fun h =>
  absurd (isprint_savedString h) (by decide)

theorem inputLines_flatMap (sets : List (CString × CString)) :
    inputLines (sets.flatMap lineText) = sets.map lineText := by
  induction sets with
  | nil => rfl
  | cons set sets ih =>
      have hline : ch '\n' ∉ savedString set.1 ++ ch '\t' :: (savedString set.2 ++ [ch '\r']) := by
        rw [List.mem_append, List.mem_cons, List.mem_append]
        simp only [newline_notMem_savedString, false_or]
        decide
      have hsplit : lineText set =
          (savedString set.1 ++ ch '\t' :: (savedString set.2 ++ [ch '\r'])) ++
          [ch '\n'] := by
        rw [List.append_assoc, List.cons_append, List.append_assoc]
        rfl
      rw [List.flatMap_cons, List.map_cons, ← ih, hsplit, List.append_assoc, List.singleton_append,
        inputLines_line hline]

/-! ### Keys -/

/-- Is the line of a key taken for a comment? -/
def KeySkipped (key : CString) : Prop :=
  (savedString key).head? = some (ch '#')

/-- The part of a key as it is written in which the reader sees the key. -/
def keyText (key : CString) : List Octet :=
  (savedString key).takeWhile (· ∉ propertyDelims)

/-- The key that the reader sees. -/
def loadedKey (key : CString) : List Octet :=
  if propertyIsPrintable (stringData key) then keyText key ++ [0] else stringData key

/-- A key that is not encoded has no delimiter, and does not look like a comment. -/
def KeyKept (key : CString) : Prop :=
  propertyIsPrintable (stringData key) = true →
    (∀ c ∈ key.octets, c ∉ propertyDelims) ∧ key.octets.head? ≠ some (ch '#')

theorem drop_length_takeWhile (p : Octet → Bool) (l : List Octet) :
    l.drop (l.takeWhile p).length = l.dropWhile p := by
  have h : (l.takeWhile p ++ l.dropWhile p).drop (l.takeWhile p).length = l.dropWhile p :=
    List.drop_left
  rwa [List.takeWhile_append_dropWhile] at h

theorem notMem_delims_of_encoded {s : CString} (h : ¬ propertyIsPrintable (stringData s) = true) :
    ∀ c ∈ savedString s, c ∉ propertyDelims := by
  have hset : ∀ c ∈ encodeSet, c ∉ propertyDelims := by decide
  have hmark : ∀ c ∈ ascii "*?", c ∉ propertyDelims := by decide
  intro c hc
  rw [savedString_of_not_printable h] at hc
  rcases List.mem_append.mp hc with hc | hc
  · exact hmark c hc
  · rcases mem_paddedText hc with hc | rfl
    · exact hset c hc
    · decide

theorem keyText_of_encoded {key : CString} (h : ¬ propertyIsPrintable (stringData key) = true) :
    keyText key = savedString key :=
  List.takeWhile_eq_self_iff.mpr fun c hc => by simpa using notMem_delims_of_encoded h c hc

theorem lineText_key (set : CString × CString) :
    (lineText set).takeWhile (· ∉ propertyDelims) = keyText set.1 :=
  takeWhile_append_delimiter (by decide) _ _

theorem takeWhile_lineText (set : CString × CString) :
    (lineText set).takeWhile (· ≠ 0) = lineText set := by
  refine List.takeWhile_eq_self_iff.mpr fun c hc => ?_
  have hnul : ∀ s : CString, c ∈ savedString s → c ≠ 0 := by
    rintro s hs rfl
    exact absurd (isprint_savedString hs) (by decide)
  have hend : ∀ d ∈ ascii "\r\n", d ≠ 0 := by decide
  rw [lineText, List.mem_append, List.mem_cons, List.mem_append] at hc
  rw [decide_eq_true_eq]
  rcases hc with hc | rfl | hc | hc
  · exact hnul _ hc
  · decide
  · exact hnul _ hc
  · exact hend c hc

theorem strcspn_lineText (set : CString × CString) :
    strcspn ((lineText set).takeWhile (· ≠ 0)) propertyDelims = (keyText set.1).length := by
  rw [takeWhile_lineText, strcspn, lineText_key]

theorem take_lineText (set : CString × CString) :
    (lineText set).take (keyText set.1).length = keyText set.1 := by
  have hprefix := List.takeWhile_prefix (l := lineText set) (fun c => decide (c ∉ propertyDelims))
  rw [lineText_key] at hprefix
  exact (List.prefix_iff_eq_take.mp hprefix).symm

theorem length_keyText_lt (set : CString × CString) :
    (keyText set.1).length < (lineText set).length := by
  have hle : (keyText set.1).length ≤ (savedString set.1).length :=
    (List.takeWhile_prefix _).length_le
  rw [lineText, List.length_append, List.length_cons]
  omega

theorem peek_lineText (set : CString × CString) :
    peek (lineText set) = ch '#' ↔ KeySkipped set.1 := by
  rw [lineText, KeySkipped]
  cases savedString set.1 with
  | nil =>
      rw [List.nil_append, peek_cons]
      exact iff_of_false (by decide) nofun
  | cons c s => rw [List.cons_append, peek_cons, List.head?_cons, Option.some_inj]

/-! ### Strings that have been encoded -/

theorem values_append (self : Base64) (s t : List Octet) :
    self.values (s ++ t) = self.values s ++ self.values t :=
  List.filterMap_append

theorem loadBinary_ends (decoder : Base64) (fresh : (n : Nat) → Buffer n) (s : CString)
    {eol : List Octet} (heol : ∀ c ∈ eol, c ∉ encodeSet) :
    (loadBinary decoder fresh (paddedText PROPERTIES_PAD (stringData s) ++ eol)).Ends fun r =>
      r.2 = stringData s := by
  have hpos : 1 ≤ (stringData s).length := by simp [stringData]
  have hlength := length_paddedText PROPERTIES_PAD (stringData s)
  obtain ⟨k, hvalues⟩ := values_paddedText (Base64Reset decoder)
    (show PROPERTIES_PAD ∉ encodeSet by decide) (stringData s)
  obtain ⟨k', hvalues'⟩ : ∃ k', (Base64Reset decoder).values eol = List.replicate k' 64 := by
    refine ⟨_, List.eq_replicate_of_mem fun v hv => ?_⟩
    obtain ⟨c, hc, hvalue⟩ := List.mem_filterMap.mp hv
    exact value_pad _ (heol c hc) v hvalue
  have hall : (Base64Reset decoder).values (paddedText PROPERTIES_PAD (stringData s) ++ eol) =
      sextets (stringData s) ++ List.replicate (k + k') 64 := by
    rw [values_append, hvalues, hvalues', List.append_assoc, List.replicate_append_replicate]
  have hsize : (stringData s).length + 1 ≤
      Base64DecodeSize (paddedText PROPERTIES_PAD (stringData s) ++ eol).length := by
    rw [Base64DecodeSize, List.length_append]
    omega
  rw [loadBinary, ends_bind]
  refine (Base64DecodeBuffer_ends_of_values decoder (by rw [List.length_append]; omega) hsize hall
    _).mono ?_
  rintro r ⟨hok, htext⟩
  rw [if_neg hok, ends_pure]
  exact htext

theorem length_le_of_loadBinary {decoder : Base64} {fresh : (n : Nat) → Buffer n}
    {text : List Octet}
    {Q : Base64 × List Octet → Prop} (h : (loadBinary decoder fresh text).Ends Q) :
    4 ≤ text.length ∧ ∃ r, r.2.length ≤ Base64DecodeSize text.length ∧ Q r := by
  have hlength : 4 ≤ text.length := by
    by_contra hshort
    rw [loadBinary, ends_bind, Base64DecodeBuffer, if_pos (by omega), ends_pure, if_pos rfl] at h
    exact not_ends_overrun h
  refine ⟨hlength, ?_⟩
  rw [loadBinary, ends_bind] at h
  obtain ⟨-, r, -, hr⟩ := h
  split at hr
  · exact absurd hr not_ends_overrun
  · refine ⟨_, ?_, ends_pure.mp hr⟩
    exact (List.length_take_le' _ _).trans_eq (Buffer.length_octets _)

theorem loadKey_ends (decoder : Base64) (fresh : (n : Nat) → Buffer n) (set : CString × CString) :
    (loadKey decoder fresh (lineText set) (keyText set.1).length).Ends fun r =>
      r.2 = loadedKey set.1 := by
  by_cases hprint : propertyIsPrintable (stringData set.1) = true
  · have hmark : ¬ (1 < (keyText set.1).length ∧ ascii "*?" <+: lineText set) := by
      rintro ⟨hlength, hmark⟩
      have hkey : ascii "*?" <+: keyText set.1 := by
        rw [← take_lineText]
        exact List.prefix_take_iff.mpr ⟨hmark, hlength⟩
      rw [keyText, savedString_of_printable hprint] at hkey
      exact ((propertyIsPrintable_stringData set.1).mp hprint).1
        (hkey.trans (List.takeWhile_prefix _))
    rw [loadKey, if_neg hmark, ends_pure, loadedKey, if_pos hprint, take_lineText]
  · have htext := keyText_of_encoded hprint
    have hsaved := savedString_of_not_printable hprint
    have hmark : 1 < (keyText set.1).length ∧ ascii "*?" <+: lineText set := by
      rw [htext, hsaved, lineText, hsaved, List.append_assoc]
      exact ⟨by rw [List.length_append]; exact Nat.lt_add_right _ (by decide),
        List.prefix_append _ _⟩
    have hencoded : ((lineText set).drop 2).take ((keyText set.1).length - 2) =
        paddedText PROPERTIES_PAD (stringData set.1) := by
      rw [← List.drop_take, take_lineText, htext, hsaved]
      rfl
    have hloads : (loadBinary decoder fresh
        (paddedText PROPERTIES_PAD (stringData set.1) ++ [])).Ends fun r =>
          r.2 = stringData set.1 :=
      loadBinary_ends decoder fresh set.1 (List.forall_mem_nil _)
    rw [List.append_nil] at hloads
    rw [loadKey, if_pos hmark, hencoded, loadedKey, if_neg hprint]
    exact hloads

/-! ### Values -/

theorem drop_lineText {set : CString × CString} (hkept : keyText set.1 = savedString set.1) :
    (lineText set).drop ((keyText set.1).length +
        strspn ((lineText set).drop (keyText set.1).length) propertyDelims) =
      (savedString set.2).dropWhile (· ∈ propertyDelims) ++ ascii "\r\n" := by
  have hrest : (lineText set).drop (keyText set.1).length =
      ch '\t' :: (savedString set.2 ++ ascii "\r\n") := by
    rw [hkept]
    exact List.drop_left
  rw [← List.drop_drop, hrest, strspn, drop_length_takeWhile, List.dropWhile_cons,
    if_pos (by decide)]
  exact dropWhile_append_delimiter (by decide) _ _

theorem loadValue_ends_of_encoded (decoder : Base64) (fresh : (n : Nat) → Buffer n)
    {value : CString}
    (h : ¬ propertyIsPrintable (stringData value) = true) :
    (loadValue decoder fresh ((savedString value).dropWhile (· ∈ propertyDelims) ++
      ascii "\r\n")).Ends fun r => r.2 = stringData value := by
  have hsaved := savedString_of_not_printable h
  have hdrop : (savedString value).dropWhile (· ∈ propertyDelims) = savedString value := by
    rw [hsaved]
    exact List.dropWhile_cons_of_neg (by decide)
  rw [loadValue, hdrop, hsaved, List.append_assoc, if_pos ⟨by
    rw [List.length_append]
    exact Nat.lt_add_right _ (by decide), List.prefix_append _ _⟩]
  exact loadBinary_ends decoder fresh value (by decide)

theorem ne_of_loadValue {decoder : Base64} {fresh : (n : Nat) → Buffer n} {value : CString}
    (h : propertyIsPrintable (stringData value) = true) {Q : Base64 × List Octet → Prop}
    (hends : (loadValue decoder fresh ((savedString value).dropWhile (· ∈ propertyDelims) ++
      ascii "\r\n")).Ends Q) : ∃ r, r.2.takeWhile (· ≠ 0) ≠ value.octets ∧ Q r := by
  obtain ⟨hmark, hprint⟩ := (propertyIsPrintable_stringData value).mp h
  rw [savedString_of_printable h] at hends
  set rest := value.octets.dropWhile (· ∈ propertyDelims) ++ ascii "\r\n" with hrest
  have hsuffix : value.octets.dropWhile (· ∈ propertyDelims) <:+ value.octets :=
    List.dropWhile_suffix _
  by_cases hbinary : 1 < rest.length ∧ ascii "*?" <+: rest
  · rw [loadValue, if_pos hbinary] at hends
    obtain ⟨hlength, r, hsize, hQ⟩ := length_le_of_loadBinary hends
    refine ⟨r, fun heq => ?_, hQ⟩
    have hshort : (value.octets.dropWhile (· ∈ propertyDelims)).length < value.octets.length := by
      refine lt_of_le_of_ne hsuffix.length_le fun hfull => hmark ?_
      have hall := hsuffix.eq_of_length hfull
      rw [← hall]
      refine List.prefix_of_prefix_length_le hbinary.2 (List.prefix_append _ _) ?_
      rw [List.length_drop, hrest, List.length_append] at hlength
      have : (ascii "\r\n").length = 2 := rfl
      have : (ascii "*?").length = 2 := rfl
      omega
    have hle : value.octets.length ≤ r.2.length := by
      rw [← heq]
      exact (List.takeWhile_prefix _).length_le
    rw [List.length_drop, hrest, List.length_append] at hlength hsize
    rw [Base64DecodeSize] at hsize
    have : (ascii "\r\n").length = 2 := rfl
    omega
  · rw [loadValue, if_neg hbinary, ends_store] at hends
    refine ⟨_, fun heq => ?_, hends.2⟩
    have hnewline : ch '\n' ∈ value.octets := by
      have hnonzero : rest.takeWhile (· ≠ 0) = rest := by
        refine List.takeWhile_eq_self_iff.mpr fun c hc => ?_
        have heol : ∀ d ∈ ascii "\r\n", d ≠ 0 := by decide
        rw [decide_eq_true_eq]
        rcases List.mem_append.mp hc with hc | hc
        · exact fun hzero => value.noNul (hzero ▸ hsuffix.subset hc)
        · exact heol c hc
      rw [hnonzero, takeWhile_append_delimiter (by decide), hnonzero] at heq
      rw [← heq, hrest]
      exact List.mem_append_right _ (by decide)
    exact absurd (hprint _ hnewline) (by decide)

/-! ### The line buffer -/

theorem foldl_addByte_of_fits (line : List Octet) : ∀ (b : Buf),
    b.bytes.length + line.length + 1 ≤ b.size →
      line.foldl Buf.addByte b = ⟨b.bytes ++ line, b.size⟩ := by
  induction line with
  | nil => exact fun b _ => by rw [List.foldl_nil, List.append_nil]
  | cons c line ih =>
      intro b hfits
      rw [List.length_cons] at hfits
      have hadd : b.addByte c = ⟨b.bytes ++ [c], b.size⟩ := by
        rw [Buf.addByte, Buf.setSize, if_neg (by omega)]
      rw [List.foldl_cons, hadd, ih _ (by simp; omega), List.append_assoc, List.singleton_append]

theorem size_le_setSize (b : Buf) (length : Nat) : b.size ≤ (b.setSize length).size := by
  rw [Buf.setSize]
  split
  · change b.size ≤ (length / 512 + 1) * 512
    omega
  · exact Nat.le_refl _

theorem size_le_foldl_addByte (line : List Octet) : ∀ (b : Buf),
    b.size ≤ (line.foldl Buf.addByte b).size := by
  induction line with
  | nil => exact fun _ => Nat.le_refl _
  | cons c line ih => exact fun b =>
      (size_le_setSize b (b.bytes.length + 2)).trans (ih (b.addByte c))

theorem size_lt_foldl_addByte (line : List Octet) : ∀ (b : Buf), line ≠ [] →
    b.size < b.bytes.length + line.length + 1 → b.size < (line.foldl Buf.addByte b).size := by
  induction line with
  | nil => exact fun _ hne => absurd rfl hne
  | cons c line ih =>
      intro b _ hlong
      rw [List.length_cons] at hlong
      rw [List.foldl_cons]
      have hle : b.size ≤ (b.addByte c).size := size_le_setSize b _
      rcases hle.lt_or_eq with hlt | heq
      · exact hlt.trans_le (size_le_foldl_addByte line _)
      · have hroom : b.bytes.length + 2 ≤ b.size := by
          by_contra hshort
          have hadd : (b.addByte c).size = ((b.bytes.length + 2) / 512 + 1) * 512 := by
            rw [Buf.addByte, Buf.setSize, if_pos (by omega)]
          rw [hadd] at heq
          omega
        have hbytes : (b.addByte c).bytes = b.bytes ++ [c] := rfl
        rw [heq]
        refine ih _ (fun hnil => ?_) ?_
        · rw [hnil, List.length_nil] at hlong
          omega
        · rw [hbytes, List.length_append, List.length_singleton]
          omega

theorem loadLines_cons_ends_iff (bufsiz : Nat) (fresh : (n : Nat) → Buffer n) (decoder : Base64)
    (self : Hash hashcode) (set : CString × CString) (lines : List (List Octet))
    {Q : Int × Hash hashcode → Prop} :
    (loadLines bufsiz fresh decoder ⟨[], bufsiz⟩ self (lineText set :: lines)).Ends Q ↔
      (lineText set).length + 1 ≤ bufsiz ∧
        ((KeySkipped set.1 ∧ (loadLines bufsiz fresh decoder ⟨[], bufsiz⟩ self lines).Ends Q) ∨
          (¬ KeySkipped set.1 ∧
            (loadKey decoder fresh (lineText set) (keyText set.1).length).Ends fun key =>
              (loadValue key.1 fresh ((lineText set).drop ((keyText set.1).length +
                strspn ((lineText set).drop (keyText set.1).length) propertyDelims))).Ends
                fun value =>
                  (loadLines bufsiz fresh value.1 ⟨[], bufsiz⟩ (HashPut self key.2 value.2)
                    lines).Ends Q)) := by
  by_cases hfits : (lineText set).length + 1 ≤ bufsiz
  · have hbuf := foldl_addByte_of_fits (lineText set) ⟨[], bufsiz⟩ (by
      rw [List.length_nil, Nat.zero_add]
      exact hfits)
    have hreset : Buf.setLength ⟨lineText set, bufsiz⟩ 0 = ⟨[], bufsiz⟩ := by
      rw [Buf.setLength, Buf.setSize, if_neg (show ¬ bufsiz < 0 + 1 by omega), List.take_zero]
    rw [List.nil_append] at hbuf
    rw [loadLines, hbuf, and_iff_right hfits]
    simp only [ne_eq, not_true_eq_false, if_false, strcspn_lineText, hreset]
    by_cases hskip : KeySkipped set.1
    · rw [if_pos ((peek_lineText set).mpr hskip), or_iff_left (fun h => h.1 hskip),
        and_iff_right hskip]
    · rw [if_neg (mt (peek_lineText set).mp hskip), if_neg (length_keyText_lt set).ne, ends_bind,
        or_iff_right (fun h => hskip h.1), and_iff_right hskip]
      simp only [ends_bind]
  · have hne : lineText set ≠ [] := List.append_ne_nil_of_right_ne_nil _ (List.cons_ne_nil _ _)
    have hsize := size_lt_foldl_addByte (lineText set) ⟨[], bufsiz⟩ hne (by
      rw [List.length_nil, Nat.zero_add]
      exact Nat.lt_of_not_le hfits)
    rw [loadLines, if_pos hsize.ne', iff_false_right (fun h => hfits h.1)]
    exact not_ends_overrun

/-! ### Whole files -/

theorem KeyKept.keyText_eq {key : CString} (h : KeyKept key) : keyText key = savedString key := by
  by_cases hprint : propertyIsPrintable (stringData key) = true
  · rw [keyText, savedString_of_printable hprint]
    exact List.takeWhile_eq_self_iff.mpr fun c hc => by simpa using (h hprint).1 c hc
  · exact keyText_of_encoded hprint

theorem KeyKept.not_skipped {key : CString} (h : KeyKept key) : ¬ KeySkipped key := by
  by_cases hprint : propertyIsPrintable (stringData key) = true
  · rw [KeySkipped, savedString_of_printable hprint]
    exact (h hprint).2
  · rw [KeySkipped, savedString_of_not_printable hprint]
    exact show ¬ some (ch '*') = some (ch '#') by decide

theorem KeyKept.loadedKey_eq {key : CString} (h : KeyKept key) :
    loadedKey key = stringData key := by
  rw [loadedKey]
  split
  · rename_i hprint
    rw [h.keyText_eq, savedString_of_printable hprint, stringData]
  · rfl

theorem exists_kept_loadedKey {key : CString} (h : ¬ KeySkipped key) :
    ∃ key', KeyKept key' ∧ loadedKey key = stringData key' := by
  by_cases hprint : propertyIsPrintable (stringData key) = true
  · have htext : keyText key = key.octets.takeWhile (· ∉ propertyDelims) := by
      rw [keyText, savedString_of_printable hprint]
    have hsub : keyText key ⊆ key.octets := by
      rw [htext]
      exact (List.takeWhile_prefix _).subset
    refine ⟨⟨keyText key, fun hnul => key.noNul (hsub hnul)⟩, fun _ => ⟨fun c hc => ?_, ?_⟩, ?_⟩
    · change c ∈ keyText key at hc
      rw [htext] at hc
      simpa using List.mem_takeWhile_imp hc
    · change (keyText key).head? ≠ _
      rw [KeySkipped, savedString_of_printable hprint] at h
      rw [htext, List.head?_takeWhile]
      exact fun hhead => h (Option.eq_some_of_filter_eq_some hhead)
    · rw [loadedKey, if_pos hprint]
      rfl
  · exact ⟨key, fun hprint' => absurd hprint' hprint, if_neg hprint⟩

/-- What the reader makes of the value of a kept key. -/
def ValueLoaded (value : CString) (loaded : List Octet) : Prop :=
  if propertyIsPrintable (stringData value) then loaded.takeWhile (· ≠ 0) ≠ value.octets
  else loaded = stringData value

/-- The entries that the reader makes of lines. -/
inductive LoadedFrom : List (CString × CString) → List KvmHash → Prop
  | nil : LoadedFrom [] []
  | skipped {set : CString × CString} {sets : List (CString × CString)} {entries : List KvmHash} :
      KeySkipped set.1 → LoadedFrom sets entries → LoadedFrom (set :: sets) entries
  | line {set : CString × CString} {sets : List (CString × CString)} {entries : List KvmHash}
      {value : List Octet} : ¬ KeySkipped set.1 → (KeyKept set.1 → ValueLoaded set.2 value) →
      LoadedFrom sets entries → LoadedFrom (set :: sets) (⟨loadedKey set.1, value⟩ :: entries)

theorem loadLines_loaded (bufsiz : Nat) (fresh : (n : Nat) → Buffer n)
    (sets : List (CString × CString)) : ∀ (decoder : Base64) (self : Hash hashcode)
    {Q : Int × Hash hashcode → Prop},
    (loadLines bufsiz fresh decoder ⟨[], bufsiz⟩ self (sets.map lineText)).Ends Q →
      (∀ set ∈ sets, (lineText set).length + 1 ≤ bufsiz) ∧
        ∃ entries, LoadedFrom sets entries ∧ Q (0, HashPutAll self entries) := by
  induction sets with
  | nil =>
      intro decoder self Q h
      rw [List.map_nil, loadLines, ends_pure] at h
      exact ⟨List.forall_mem_nil _, [], .nil, h⟩
  | cons set sets ih =>
      intro decoder self Q h
      rw [List.map_cons, loadLines_cons_ends_iff] at h
      obtain ⟨hfits, ⟨hskip, h⟩ | ⟨hskip, h⟩⟩ := h
      · obtain ⟨hrest, entries, hloaded, hQ⟩ := ih _ _ h
        exact ⟨List.forall_mem_cons.mpr ⟨hfits, hrest⟩, entries, .skipped hskip hloaded, hQ⟩
      · obtain ⟨key, hkey, h⟩ := (loadKey_ends decoder fresh set).both h
        obtain ⟨value, hvalue, h⟩ : ∃ value : Base64 × List Octet,
            (KeyKept set.1 → ValueLoaded set.2 value.2) ∧
              (loadLines bufsiz fresh value.1 ⟨[], bufsiz⟩
              (HashPut self key.2 value.2) (sets.map lineText)).Ends Q := by
          by_cases hkept : KeyKept set.1
          · rw [drop_lineText hkept.keyText_eq] at h
            by_cases hprint : propertyIsPrintable (stringData set.2) = true
            · obtain ⟨value, hne, h⟩ := ne_of_loadValue hprint h
              exact ⟨value, fun _ => by rwa [ValueLoaded, if_pos hprint], h⟩
            · obtain ⟨value, heq, h⟩ := (loadValue_ends_of_encoded _ fresh hprint).both h
              exact ⟨value, fun _ => by rwa [ValueLoaded, if_neg hprint], h⟩
          · obtain ⟨-, value, -, h⟩ := h
            exact ⟨value, fun hkept' => absurd hkept' hkept, h⟩
        obtain ⟨hrest, entries, hloaded, hQ⟩ := ih _ _ h
        rw [hkey] at hQ
        exact ⟨List.forall_mem_cons.mpr ⟨hfits, hrest⟩, _, .line hskip hvalue hloaded, hQ⟩

theorem LoadedFrom.kept {sets : List (CString × CString)} {entries : List KvmHash}
    (h : LoadedFrom sets entries) : ∀ key ∈ entries.map KvmHash.key,
      ∃ key', KeyKept key' ∧ key = stringData key' := by
  induction h with
  | nil => exact List.forall_mem_nil _
  | skipped _ _ ih => exact ih
  | line hskip _ _ ih => exact List.forall_mem_cons.mpr ⟨exists_kept_loadedKey hskip, ih⟩

theorem LoadedFrom.keys {sets : List (CString × CString)} {entries : List KvmHash}
    (h : LoadedFrom sets entries) (hkept : ∀ set ∈ sets, KeyKept set.1) :
    entries.map KvmHash.key = (sets.map propertyEntry).map KvmHash.key := by
  induction h with
  | nil => rfl
  | skipped hskip _ _ => exact absurd hskip (List.forall_mem_cons.mp hkept).1.not_skipped
  | line _ _ _ ih =>
      obtain ⟨hfirst, hrest⟩ := List.forall_mem_cons.mp hkept
      rw [List.map_cons, List.map_cons, List.map_cons, ih hrest, propertyEntry, hfirst.loadedKey_eq]

theorem LoadedFrom.value {sets : List (CString × CString)} {entries : List KvmHash}
    (h : LoadedFrom sets entries) (hkept : ∀ set ∈ sets, KeyKept set.1) : ∀ set ∈ sets,
      ∃ value, ValueLoaded set.2 value ∧ ⟨stringData set.1, value⟩ ∈ entries := by
  induction h with
  | nil => exact List.forall_mem_nil _
  | skipped hskip _ _ => exact absurd hskip (List.forall_mem_cons.mp hkept).1.not_skipped
  | line _ hvalue _ ih =>
      obtain ⟨hfirst, hrest⟩ := List.forall_mem_cons.mp hkept
      refine List.forall_mem_cons.mpr ⟨⟨_, hvalue hfirst, ?_⟩, fun set hset => ?_⟩
      · rw [hfirst.loadedKey_eq]
        exact List.mem_cons_self
      · obtain ⟨value, hloaded, hmem⟩ := ih hrest set hset
        exact ⟨value, hloaded, List.mem_cons_of_mem _ hmem⟩

/-- The number of characters that a string is written with. -/
def propertySize (s : CString) : Nat :=
  if propertyIsPrintable (stringData s) then s.octets.length else 2 + (s.octets.length + 3) / 3 * 4

/-- A property whose value is encoded, whose key is encoded or has no delimiter and does not look
like a comment, and whose line fits into the buffer of the reader. -/
def PropertyComesBack (bufsiz : Nat) (key value : CString) : Prop :=
  ¬ propertyIsPrintable (stringData value) = true ∧ KeyKept key ∧
    propertySize key + propertySize value + 4 ≤ bufsiz

theorem length_lineText (set : CString × CString) :
    (lineText set).length = propertySize set.1 + propertySize set.2 + 3 := by
  have hlength : ∀ s : CString, (savedString s).length = propertySize s := by
    intro s
    rw [savedString, propertySize]
    split
    · rfl
    · rw [List.length_append, length_paddedText, stringData, List.length_append]
      rfl
  rw [lineText, List.length_append, List.length_cons, List.length_append, hlength, hlength,
    show (ascii "\r\n").length = 2 from rfl]
  omega

theorem loadLines_comesBack (bufsiz : Nat) (fresh : (n : Nat) → Buffer n)
    (sets : List (CString × CString)) (hsets : ∀ set ∈ sets, PropertyComesBack bufsiz set.1 set.2) :
    ∀ (decoder : Base64) (self : Hash hashcode),
      (loadLines bufsiz fresh decoder ⟨[], bufsiz⟩ self (sets.map lineText)).Ends fun r =>
        r = (0, HashPutAll self (sets.map propertyEntry)) := by
  induction sets with
  | nil => exact fun _ _ => ends_pure.mpr rfl
  | cons set sets ih =>
      intro decoder self
      obtain ⟨⟨hvalue, hkept, hsize⟩, hrest⟩ := List.forall_mem_cons.mp hsets
      rw [List.map_cons, loadLines_cons_ends_iff, length_lineText]
      refine ⟨by omega, .inr ⟨hkept.not_skipped, ?_⟩⟩
      refine (loadKey_ends decoder fresh set).mono fun key hkey => ?_
      rw [drop_lineText hkept.keyText_eq]
      refine (loadValue_ends_of_encoded _ fresh hvalue).mono fun value hloaded => ?_
      rw [hkey, hkept.loadedKey_eq, hloaded]
      exact ih hrest _ _

theorem PropertiesSave_ends (fresh : (n : Nat) → Buffer n) {self : Hash hashcode}
    {sets : List (CString × CString)} (h : self.entries = sets.map propertyEntry) :
    (PropertiesSave self fresh).Yields (sets.flatMap lineText) := by
  rw [PropertiesSave, h]
  exact saveEntries_yields fresh sets savingEncoder_propertiesBase64

/-! ### Properties that survive -/

/-- The properties that have been set are saved, and loaded into a new object. Loading succeeds, and
the object has the last value set for every key, and no other key. -/
def PropertiesSurvive (hashcode : List Octet → Nat) (bufsiz : Nat) (fresh : (n : Nat) → Buffer n)
    (sets : List (CString × CString)) : Prop :=
  (PropertiesSave (propertiesOf hashcode sets) fresh).Ends fun file =>
    (PropertiesLoad bufsiz fresh (HashCreate : Hash hashcode) file).Ends fun r =>
      r.1 = 0 ∧ ∀ key, PropertiesGetProperty r.2 key = (lastValue sets key).map CString.octets

theorem survive_iff_comesBack (hashcode : List Octet → Nat) (bufsiz : Nat)
    (fresh : (n : Nat) → Buffer n) (sets : List (CString × CString)) :
    PropertiesSurvive hashcode bufsiz fresh sets ↔
      ∀ key value, lastValue sets key = some value → PropertyComesBack bufsiz key value := by
  obtain ⟨pairs, hentries, hnodup, hmem⟩ := @entries_propertiesOf hashcode sets
  rw [PropertiesSurvive, (PropertiesSave_ends fresh hentries).ends_iff, PropertiesLoad,
    inputLines_flatMap]
  constructor
  · intro h
    obtain ⟨hfits, entries, hloaded, -, hget⟩ := loadLines_loaded bufsiz fresh pairs _ _ h
    have hkept : ∀ pair ∈ pairs, KeyKept pair.1 := by
      intro pair hpair
      have hfound := hget pair.1
      rw [(hmem pair).mp hpair, PropertiesGetProperty, ← stringData, Option.map_some] at hfound
      have hkey : stringData pair.1 ∈ entries.map KvmHash.key := by
        by_contra hnot
        rw [HashGet_putAll_of_notMem entries _ hnot, HashGet_create] at hfound
        cases hfound
      obtain ⟨key, hkept, heq⟩ := hloaded.kept _ hkey
      rwa [stringData_inj.mp heq]
    have hkeys := hloaded.keys hkept
    intro key value hvalue
    have hpair := (hmem (key, value)).mpr hvalue
    have hfit := hfits _ hpair
    rw [length_lineText] at hfit
    refine ⟨fun hprint => ?_, hkept _ hpair, by omega⟩
    obtain ⟨loaded, hchanged, hentry⟩ := hloaded.value hkept _ hpair
    have hfound := hget key
    rw [hvalue, PropertiesGetProperty, ← stringData,
      HashGet_putAll_of_mem HashCreate (hkeys ▸ hnodup) hentry, Option.map_some, Option.map_some,
      Option.some_inj] at hfound
    rw [ValueLoaded, if_pos hprint] at hchanged
    exact hchanged hfound
  · intro h
    have hsets : ∀ pair ∈ pairs, PropertyComesBack bufsiz pair.1 pair.2 := fun pair hpair =>
      h _ _ ((hmem pair).mp hpair)
    refine (loadLines_comesBack bufsiz fresh pairs hsets propertiesBase64 HashCreate).mono ?_
    rintro r rfl
    refine ⟨rfl, fun key => ?_⟩
    rw [PropertiesGetProperty, ← stringData]
    cases hlast : lastValue sets key with
    | none =>
        have hnot : stringData key ∉ (pairs.map propertyEntry).map KvmHash.key := by
          rw [← hentries]
          intro hkey
          obtain ⟨entry, hentry, heq⟩ := List.mem_map.mp hkey
          have hfound := HashGet_eq_some_iff.mpr hentry
          rw [heq, HashGet_propertiesOf, hlast] at hfound
          cases hfound
        rw [HashGet_putAll_of_notMem _ _ hnot, HashGet_create]
        rfl
    | some value =>
        have hpair : propertyEntry (key, value) ∈ pairs.map propertyEntry :=
          List.mem_map_of_mem ((hmem (key, value)).mpr hlast)
        have hfound := HashGet_putAll_of_mem (HashCreate : Hash hashcode) hnodup hpair
        rw [propertyEntry] at hfound
        rw [hfound, Option.map_some, takeWhile_stringData, Option.map_some]

/-- Properties survive exactly if every value is encoded, every key is encoded or free of delimiters
and not one of a comment, and every line fits into the buffer of the reader. -/
theorem properties_survive_iff (hashcode : List Octet → Nat) (bufsiz : Nat)
    (fresh : (n : Nat) → Buffer n) (sets : List (CString × CString)) :
    PropertiesSurvive hashcode bufsiz fresh sets ↔
      ∀ key value, lastValue sets key = some value →
        ¬ propertyIsPrintable (stringData value) = true ∧
          (propertyIsPrintable (stringData key) = true →
            (∀ c ∈ key.octets, c ∉ propertyDelims) ∧ key.octets.head? ≠ some (ch '#')) ∧
          propertySize key + propertySize value + 4 ≤ bufsiz :=
  survive_iff_comesBack hashcode bufsiz fresh sets

/-- The value `b` of the key `a` does not survive: it is read with the end of its line. -/
theorem properties_not_survive : ascii "a" ≠ [] ∧ ∀ (hashcode : List Octet → Nat)
    (fresh : (n : Nat) → Buffer n), ¬ PropertiesSurvive hashcode 8192 fresh
      [(⟨ascii "a", by decide⟩, ⟨ascii "b", by decide⟩)] := by
  refine ⟨by decide, fun hashcode fresh h => ?_⟩
  have hback := (survive_iff_comesBack _ _ _ _).mp h ⟨ascii "a", by decide⟩ ⟨ascii "b", by decide⟩
    (by decide)
  exact hback.1 (by decide)

end Snert
