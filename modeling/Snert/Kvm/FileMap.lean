/-
Module: Snert.Kvm.FileMap
Purpose: The flat text file of type/kvm.c: a hash map that is read from a file and written back to
  it. A file is the octets in it, `none` when there is none. Left out are the lock, the log,
  allocations and writes that fail, and what `malloc` hands out before it is written to: a length
  that promises more octets than there are is an error.
Trusted boundary: human-reviewed spec
Main exports: kvmWrite, kvmRead, kvmReadKey, kvmReadValue
-/
import Snert.CModel.File
import Snert.Kvm.HashMap

namespace Snert

open CModel

/-! ### The files that are written -/

/-- `isprint (c)`, in the C locale. -/
def isprint (c : Octet) : Bool :=
  32 ≤ c && c ≤ 126

/-- The conversion `%02X`. -/
def upperHex (c : Octet) : List Octet :=
  let digit (d : Nat) := if d < 10 then UInt8.ofNat (48 + d) else UInt8.ofNat (55 + d)
  [digit (c.toNat / 16), digit (c.toNat % 16)]

/-- How `kvm_write` writes an octet. -/
def writeOctet (c : Octet) : List Octet :=
  if c ≠ ch '=' ∧ isprint c then [c] else ch '=' :: upperHex c

/-- `kvm_write (fp, data, length)`. -/
def kvmWrite (data : List Octet) : List Octet :=
  numeral 10 data.length ++ [ch ':'] ++ data.flatMap writeOctet ++ [ch ',']

/-- The loop of `kvm_read`: the octets put into `buf`, or `none` where it gives up. -/
def kvmReadLoop : Nat → File → Option (List Octet) × File
  | 0, fp => (some [], fp)
  | n + 1, fp =>
      match fgetc fp with
      | (none, fp) => (some [], fp)
      | (some c, fp) =>
          if c = ch '=' then
            match fscanfUnsigned 16 2 fp with
            | (none, fp) => (none, fp)
            | (some code, fp) =>
                let (buf, fp) := kvmReadLoop n fp
                (buf.map (UInt8.ofNat code :: ·), fp)
          else
            let (buf, fp) := kvmReadLoop n fp
            (buf.map (c :: ·), fp)

/-- `kvm_read (fp, data, length)`: the data, or `none` for -1. -/
def kvmRead (fp : File) : Option (List Octet) × File :=
  match fscanfUnsigned 10 9 fp with
  | (none, fp) => (none, fp)
  | (some size, fp) =>
      match fgetc fp with
      | (none, fp) => (none, fp)
      | (some c, fp) =>
          if c ≠ ch ':' then (none, fp)
          else
            match kvmReadLoop (size + 1) fp with
            | (none, fp) => (none, fp)
            | (some buf, fp) =>
                if buf[size]? ≠ some (ch ',') then (none, fp) else (some (buf.take size), fp)

/-! ### The files that people make -/

/-- `kvm_read_token (fp, data, length, delims)`. -/
def kvmReadToken (delims : List Octet) (fp : File) : List Octet × File :=
  let token := fp.rest.takeWhile fun c => !strchr delims c
  -- Having been sought back the file is not at its end, until the delimiters are skipped.
  let rest := (fp.rest.drop token.length).dropWhile (strchr delims)
  (token, ⟨rest, rest.isEmpty⟩)

/-- A line feed or a carriage return. -/
def isNewline (c : Octet) : Bool :=
  c = ch '\n' || c = ch '\r'

/-- Eat comment line, behind its `#`. An empty one has nothing for the first conversion, so that the
    second is not tried. -/
def eatComment (fp : File) : File :=
  let rest := fp.rest.dropWhile fun c => !isNewline c
  let rest := if rest.length = fp.rest.length then rest else rest.dropWhile isNewline
  ⟨rest, fp.eof || rest.isEmpty⟩

/-- Ignore comment and empty lines. Every round reads an octet. -/
def ignoreLines : Nat → File → File
  | 0, fp => fp
  | rounds + 1, fp =>
      match fp.rest with
      | [] => { fp with eof := true }
      | c :: rest =>
          if c = ch '#' then ignoreLines rounds (eatComment { fp with rest := rest })
          else if isNewline c then ignoreLines rounds { fp with rest := rest }
          else { fp with eof := false }

/-- `kvm_read_key (fp, data, length)`. -/
def kvmReadKey (fp : File) : Option (List Octet) × File :=
  let (token, fp) := kvmReadToken [ch '\t', ch ' '] (ignoreLines (fp.rest.length + 1) fp)
  (some token, fp)

/-- `kvm_read_value (fp, data, length)`. -/
def kvmReadValue (fp : File) : Option (List Octet) × File :=
  let (token, fp) := kvmReadToken [ch '\n', ch '\r'] fp
  (some token, fp)

/-! ### The map -/

/-- `kvm_file`, and the mode of the map. -/
structure KvmFile where
  hash : KvmHashTable
  readOnly : Bool

/-- What `kvm_sync_file` writes: the entries of one chain after the other. -/
def fileText (hash : KvmHashTable) : List Octet :=
  ((List.finRange TABLE_SIZE).flatMap hash.table).flatMap fun entry =>
    kvmWrite entry.key ++ kvmWrite entry.value ++ [ch '\n']

/-- `kvm_sync_file (self)`: what is in the file then. -/
def kvmSyncFile (self : KvmFile) (text : Option (List Octet)) : Option (List Octet) :=
  if self.readOnly then text else some (fileText self.hash)

/-- The loop of `kvm_open_file`. Every round that goes on has read an octet. -/
def openLoop (getKey getValue : File → Option (List Octet) × File) :
    Nat → File → KvmHashTable → Option KvmHashTable
  | 0, _, _ => none
  | rounds + 1, fp, hash =>
      if fp.eof then some hash
      else
        match getKey fp with
        | (none, fp) => if fp.eof then some hash else none
        | (some k, fp) =>
            match getValue fp with
            | (none, fp) => if fp.eof then some hash else none
            | (some v, fp) =>
                openLoop getKey getValue rounds fp
                  (if k.head? = some (ch '#') then hash else (kvmPutHash hash k v).2)

/-- `kvm_open_file (self, location, mode)`, or `none` for `KVM_ERROR`. -/
def kvmOpenFile (readOnly : Bool) : Option (List Octet) → Option KvmFile
  | none => if readOnly then none else some ⟨.empty, readOnly⟩
  | some text =>
      let fp : File := ⟨text, false⟩
      let first := kvmRead fp
      if first.1 = none ∧ first.2.eof = false then
        -- File looks like a human made key-value file.
        (openLoop kvmReadKey kvmReadValue (text.length + 1) fp .empty).map (⟨·, true⟩)
      else
        -- File looks like a kvm file.
        (openLoop kvmRead kvmRead (text.length + 1) fp .empty).map (⟨·, readOnly⟩)

/-- The calls of a session on a map that can be written: it hands them on to its hash map. -/
def KvmFile.session (self : KvmFile) (calls : List KvmCall) : KvmFile :=
  { self with hash := (self.hash.session calls).2 }

end Snert
