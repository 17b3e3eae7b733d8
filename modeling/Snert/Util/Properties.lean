/-
Module: Snert.Util.Properties
Purpose: The properties of util/Properties.c, a hash table (type/Hash.c) from octet strings to octet
  strings (type/Data.c), and the text file that they are saved to and loaded from. Locks, and files
  and allocations that fail, are left out. What a pointer into the line buffer points to is
  undefined once the buffer has been enlarged.
Trusted boundary: human-reviewed spec
Main exports: Hash, HashGet, HashPut, Hash.entries
-/
import Snert.Kvm.FileMap
import Snert.Util.Base64Object
import Snert.Util.CgiRead

namespace Snert

open CModel

/-! ### The hash table -/

/-- `TABLE_SIZE` of type/Hash.c. -/
abbrev HASH_TABLE_SIZE : Nat := 4093

/-- The place of a key in the table. -/
def hashPlace (hashcode : List Octet → Nat) (key : List Octet) : Fin HASH_TABLE_SIZE :=
  Fin.ofNat HASH_TABLE_SIZE (hashcode key)

/-- `Hash`: the table of chains of entries. A key is in the chain of its place, and once at most. -/
structure Hash (hashcode : List Octet → Nat) where
  base : Fin HASH_TABLE_SIZE → List KvmHash
  nodup : ∀ hash, ((base hash).map KvmHash.key).Nodup
  placed : ∀ hash, ∀ key ∈ (base hash).map KvmHash.key, hashPlace hashcode key = hash

variable {hashcode : List Octet → Nat}

/-- `HashCreate ()`. -/
def HashCreate : Hash hashcode :=
  ⟨fun _ => [], fun _ => List.nodup_nil, fun _ _ hkey => nomatch hkey⟩

/-- `HashGet (self, key)`: a chain is searched as that of a kvm hash is. -/
def HashGet (self : Hash hashcode) (key : List Octet) : Option (List Octet) :=
  chainFetch key (self.base (hashPlace hashcode key))

/-- `HashPut (self, key, value)`: so is one where an entry is replaced or put at the end. -/
def HashPut (self : Hash hashcode) (key value : List Octet) : Hash hashcode where
  base := fun hash =>
    if hash = hashPlace hashcode key then chainPut key value (self.base hash) else self.base hash
  nodup := fun hash => by
    split
    · exact nodup_chainPut value (self.nodup hash)
    · exact self.nodup hash
  placed := fun hash key' hkey' => by
    split at hkey'
    · rename_i hhash
      rcases mem_keys_chainPut.mp hkey' with rfl | hkey'
      · exact hhash.symm
      · exact self.placed hash key' hkey'
    · exact self.placed hash key' hkey'

/-- The entries in the order that `HashWalk` visits them. -/
def Hash.entries (self : Hash hashcode) : List KvmHash :=
  (List.finRange HASH_TABLE_SIZE).flatMap self.base

/-! ### Properties -/

/-- `PropertiesSetProperty (self, key, value)`: strings are kept with their NUL. -/
def PropertiesSetProperty (self : Hash hashcode) (key value : CString) : Hash hashcode :=
  HashPut self (key.octets ++ [0]) (value.octets ++ [0])

/-- `PropertiesGetProperty (self, key)`: the string at the start of the value. -/
def PropertiesGetProperty (self : Hash hashcode) (key : CString) : Option (List Octet) :=
  (HashGet self (key.octets ++ [0])).map (·.takeWhile (· ≠ 0))

/-! ### Saving -/

/-- `isPrintable (obj)`. The octets are not empty. -/
def propertyIsPrintable (obj : List Octet) : Bool :=
  if ascii "*?" <+: obj then false
  else if obj.getLast? = some (ch '\t') then false
  -- Does it look like the null byte of a C string?
  else (if obj.getLast? = some 0 then obj.dropLast else obj).all isprint

/-- `PAD`. -/
abbrev PROPERTIES_PAD : Octet := ch '-'

/-- An octet string as it is written: as a string, or marked and encoded. The buffer that the text
    is encoded to is fresh. -/
def saveData (encoder : Base64) (fresh : (n : Nat) → Buffer n) (obj : List Octet) :
    Run (Base64 × List Octet) :=
  if propertyIsPrintable obj then pure (encoder, obj.takeWhile (· ≠ 0))
  else do
    let r ← Base64EncodeBuffer encoder (some obj) true (fresh _)
    -- A NUL ends the text.
    pure (r.1, ascii "*?" ++ r.2.1.octets.take r.2.2.1)

/-- `saveKeyValue (k, v, data)`: the encoder, and what is written. -/
def saveKeyValue (encoder : Base64) (fresh : (n : Nat) → Buffer n) (entry : KvmHash) :
    Run (Base64 × List Octet) := do
  let (encoder, key) ← saveData encoder fresh entry.key
  let (encoder, value) ← saveData encoder fresh entry.value
  pure (encoder, key ++ ascii "\t" ++ value ++ ascii "\r\n")

/-- The walk over the entries. -/
def saveEntries (encoder : Base64) (fresh : (n : Nat) → Buffer n) :
    List KvmHash → Run (List Octet)
  | [] => pure []
  | entry :: entries => do
      let (encoder, line) ← saveKeyValue encoder fresh entry
      let lines ← saveEntries encoder fresh entries
      pure (line ++ lines)

/-- A Base64 object with `PAD` for its padding. -/
def propertiesBase64 : Base64 :=
  (Base64SetPadding Base64Create PROPERTIES_PAD).getD Base64Create

/-- `PropertiesSave (self, file)`: what is in the file then. -/
def PropertiesSave (self : Hash hashcode) (fresh : (n : Nat) → Buffer n) : Run (List Octet) :=
  saveEntries propertiesBase64 fresh self.entries

/-! ### Loading -/

/-- The lines that `BufAddInputLine (b, input, -1)` gives one after the other, with their
    newlines. -/
def inputLines : List Octet → List (List Octet)
  | [] => []
  | c :: input =>
      if c = ch '\n' then [c] :: inputLines input
      else
        match inputLines input with
        | [] => [[c]]
        | line :: lines => (c :: line) :: lines

/-- The delimiters of a key and a value. -/
def propertyDelims : List Octet :=
  ascii " \t:="

/-- A string that has been encoded. Where the decoder refuses it, `buffer` is not set. -/
def loadBinary (decoder : Base64) (fresh : (n : Nat) → Buffer n) (text : List Octet) :
    Run (Base64 × List Octet) := do
  let r ← Base64DecodeBuffer (Base64Reset decoder) text (fresh _)
  if r.2.2.2 = .error then Run.overrun ⟨0, 1, 0⟩
  else pure (r.1, r.2.1.octets.take r.2.2.1)

/-- The key of a line, which is `offset` octets long. -/
def loadKey (decoder : Base64) (fresh : (n : Nat) → Buffer n) (line : List Octet) (offset : Nat) :
    Run (Base64 × List Octet) :=
  if 1 < offset ∧ ascii "*?" <+: line then
    loadBinary decoder fresh ((line.drop 2).take (offset - 2))
  else pure (decoder, line.take offset ++ [0])

/-- The value of a line, which takes the rest of it. -/
def loadValue (decoder : Base64) (fresh : (n : Nat) → Buffer n) (rest : List Octet) :
    Run (Base64 × List Octet) :=
  if 1 < rest.length ∧ ascii "*?" <+: rest then loadBinary decoder fresh (rest.drop 2)
  else
    let value := rest.takeWhile (· ≠ 0) ++ [0]
    Run.store ⟨rest.length, 1, value.length⟩ (decoder, value)

/-- The loop of `PropertiesLoad` over the lines, with the line buffer `b` whose memory `base` points
    to as long as the buffer has the size `bufsiz` that it was made with. -/
def loadLines (bufsiz : Nat) (fresh : (n : Nat) → Buffer n) :
    Base64 → Buf → Hash hashcode → List (List Octet) → Run (Int × Hash hashcode)
  | _, _, self, [] => pure (0, self)
  | decoder, b, self, line :: lines =>
      let b := line.foldl Buf.addByte b
      if b.size ≠ bufsiz then Run.overrun ⟨0, 1, 0⟩
      else if peek line = ch '#' then
        loadLines bufsiz fresh decoder (b.setLength 0) self lines
      else
        let offset := strcspn (line.takeWhile (· ≠ 0)) propertyDelims
        if offset = line.length then pure (-1, self)
        else do
          let n := strspn (line.drop offset) propertyDelims
          let (decoder, key) ← loadKey decoder fresh line offset
          let (decoder, value) ← loadValue decoder fresh (line.drop (offset + n))
          loadLines bufsiz fresh decoder (b.setLength 0) (HashPut self key value) lines

/-- `PropertiesLoad (self, file)`: what is returned, and the properties then. -/
def PropertiesLoad (bufsiz : Nat) (fresh : (n : Nat) → Buffer n) (self : Hash hashcode)
    (file : List Octet) : Run (Int × Hash hashcode) :=
  loadLines bufsiz fresh propertiesBase64 ⟨[], bufsiz⟩ self (inputLines file)

end Snert
