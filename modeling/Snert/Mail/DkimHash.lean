/-
Module: Snert.Mail.DkimHash
Purpose: The canonicalisations of mail/dkim-hash.c, and the loop of `dkim_hash` that gives them the
  octets of a file. A hash context is the list of the octets that have been put into it, so that a
  copy of a context is the list at that time. `EOF` is `none`. What the file still holds behind the
  octet that is handled is part of the state. The digests, the options and the messages are left
  out.
Trusted boundary: human-reviewed spec
Main exports: DkimState, CanonState, canonIdentity, canonHeaderRelaxed
-/
import Snert.Mail.Ascii

namespace Snert

open CModel

/-- The array `crlf`. -/
def crlf : List Octet :=
  [ASCII_CR, ASCII_LF]

/-- `DKIM_STATE`. -/
inductive DkimState where
  | start
  | finish
  | error
  | text
  | wsp
  | cr
  | lf
  | hdr
  | hdrWsp
  | colon
  | eohCr
deriving DecidableEq, Repr

/-- The `CanonState`. -/
structure CanonState where
  state : DkimState
  hasHeader : Bool
  ctxCrlf : List Octet
  ctx : List Octet
  /-- What is left of the file. -/
  fp : List Octet
deriving DecidableEq, Repr

/-- The type `CanonFn`. -/
abbrev CanonFn := CanonState → Option Octet → CanonState

/-- `canon_create (fp, hash, canon)`. The contexts are not initialised. -/
def canonCreate (fp ctxCrlf ctx : List Octet) : CanonState :=
  ⟨.start, false, ctxCrlf, ctx, fp⟩

namespace CanonState

/-- `(*cs->hash->update)(cs->ctx, octets, size)`. -/
def update (cs : CanonState) (octets : List Octet) : CanonState :=
  { cs with ctx := cs.ctx ++ octets }

/-- `cs->state = state`. -/
def goTo (cs : CanonState) (state : DkimState) : CanonState :=
  { cs with state := state }

/-- `memcpy (cs->ctx_crlf, cs->ctx, cs->hash->sizeof_ctx)`. -/
def save (cs : CanonState) : CanonState :=
  { cs with ctxCrlf := cs.ctx }

/-- `memcpy (cs->ctx, cs->ctx_crlf, cs->hash->sizeof_ctx)`. -/
def restore (cs : CanonState) : CanonState :=
  { cs with ctx := cs.ctxCrlf }

end CanonState

/-- `octet == ASCII_SPACE || octet == ASCII_TAB`. -/
def isWsp (c : Octet) : Bool :=
  c = ASCII_SPACE || c = ASCII_TAB

/-- `isgraph (octet) && octet < ASCII_DEL`. -/
def isPrintable (c : Octet) : Bool :=
  ASCII_SPACE < c && c < ASCII_DEL

/-! ### The canonicalisations -/

/-- `canon_identity (cs, octet)`. -/
def canonIdentity : CanonFn := fun cs octet =>
  match octet with
  | none => cs
  | some octet => cs.update [octet]

/-- `canon_is_crlf (cs, octet)`, which leaves the file as it is. -/
def canonIsCrlf (cs : CanonState) (octet : Octet) : Bool :=
  octet = ASCII_CR && cs.fp.head? = some ASCII_LF

/-- The cases `STATE_HDR` and `STATE_START` of `canon_header_relaxed`. -/
def canonHeaderName (cs : CanonState) (octet : Octet) : CanonState :=
  if octet = ch ':' then ({ cs with hasHeader := true }.goTo .colon).update [octet]
  else if isPrintable octet then (cs.goTo .hdr).update [tolower octet]
  -- Strip whitespace between name and colon.
  else if isWsp octet then cs.goTo .hdrWsp
  else cs.goTo .error

/-- `canon_header_relaxed (cs, octet)`. -/
def canonHeaderRelaxed : CanonFn := fun cs octet =>
  match octet with
  | none =>
      match cs.state with
      | .start | .lf | .finish => cs.goTo .finish
      | _ => cs.goTo .error
  | some octet =>
      match cs.state with
      | .start =>
          -- Message without headers starts with CRLF?
          if octet = ASCII_CR then cs.goTo .eohCr
          else canonHeaderName cs octet
      | .hdr => canonHeaderName cs octet
      | .hdrWsp =>
          -- End of header name.
          if octet = ch ':' then ({ cs with hasHeader := true }.goTo .colon).update [octet]
          else if isWsp octet then cs.goTo .hdrWsp
          else cs.goTo .error
      | .colon =>
          if isPrintable octet then (cs.goTo .text).update [octet]
          -- Strip whitespace between colon and value.
          else if isWsp octet then cs.goTo .colon
          else if octet = ASCII_CR then cs.goTo .cr
          else cs.goTo .error
      | .text =>
          if isPrintable octet then (cs.goTo .text).update [octet]
          -- Compress horizontal whitespace.
          else if isWsp octet then cs.goTo .wsp
          else if octet = ASCII_CR then cs.goTo .cr
          else cs.goTo .error
      | .wsp =>
          if isWsp octet then cs.goTo .wsp
          else if octet = ASCII_CR then cs.goTo .cr
          -- Hash a single space before octet.
          else ((cs.update [ASCII_SPACE]).goTo .text).update [octet]
      | .cr =>
          -- Delay hashing CRLF incase of folded header.
          if octet = ASCII_LF then cs.goTo .lf else cs.goTo .error
      | .lf =>
          -- Not a folded header line, hash the previous CRLF.
          if isPrintable octet then ((cs.goTo .hdr).update crlf).update [octet]
          -- Folded header line, strip CRLF.
          else if isWsp octet then cs.goTo .wsp
          else if octet = ASCII_CR then cs.goTo .eohCr
          else cs.goTo .error
      | .eohCr =>
          -- Do not hash EOH.
          if octet = ASCII_LF then cs.goTo .finish else cs.goTo .error
      | .error | .finish => cs

/-- `canon_body_simple (cs, octet)`. -/
def canonBodySimple : CanonFn := fun cs octet =>
  match octet with
  | none =>
      -- At end-of-file, restore the context before first trailing CRLF and add a single CRLF.
      ((if cs.state = .lf then cs.restore else cs).update crlf).goTo .finish
  | some octet =>
      let cs := match cs.state with
        | .start | .text =>
            -- Save the context before the first CRLF.
            if octet = ASCII_CR then cs.save.goTo .cr else cs
        | .cr =>
            if octet = ASCII_LF then cs.goTo .lf
            else if octet ≠ ASCII_CR then cs.goTo .start
            else cs
        | .lf => if octet = ASCII_CR then cs.goTo .cr else cs.goTo .start
        | _ => cs
      cs.update [octet]

/-- `canon_body_relaxed (cs, octet)`. -/
def canonBodyRelaxed : CanonFn := fun cs octet =>
  match octet with
  | none =>
      -- At end-of-file, restore the context before the first trailing CRLF.
      let ended := if cs.state = .lf then cs.restore else cs
      -- Ensure a non-empty body ends with a single CRLF.
      (if cs.state ≠ .start then ended.update crlf else ended).goTo .finish
  | some octet =>
      match cs.state with
      | .start | .text =>
          -- Compress horizontal whitespace.
          if isWsp octet then cs.goTo .wsp
          -- Save the context before the first CRLF.
          else if octet = ASCII_CR then (cs.save.goTo .cr).update [octet]
          else (cs.goTo .text).update [octet]
      | .wsp =>
          if isWsp octet then cs.goTo .wsp
          -- We've ignored all trailing horizontal whitespace before CRLF.
          else if canonIsCrlf cs octet then (cs.save.goTo .cr).update [octet]
          -- Hash a single space before octet.
          else ((cs.update [ASCII_SPACE]).goTo .text).update [octet]
      | .cr =>
          if isWsp octet then cs.goTo .wsp
          else if octet = ASCII_LF then (cs.goTo .lf).update [octet]
          else if octet ≠ ASCII_CR then (cs.goTo .text).update [octet]
          else cs.update [octet]
      | .lf =>
          if isWsp octet then cs.goTo .wsp
          else if octet = ASCII_CR then (cs.goTo .cr).update [octet]
          else (cs.goTo .text).update [octet]
      | _ => cs.update [octet]

/-! ### `dkim_hash` -/

abbrev FLAG_PARSE_HDR : Nat := 0x0001
abbrev FLAG_PARSE_BODY : Nat := 0x0002

/-- Where `dkim_hash` starts. -/
def dkimBegin (cs : CanonState) (flags : Nat) : CanonState :=
  -- An email message with both headers and body.
  if flags &&& FLAG_PARSE_HDR ≠ 0 ∨ cs.hasHeader then { cs with state := .start, ctx := [] }
  -- Transitioning from failure to parse headers, handle as body only.
  else if flags &&& FLAG_PARSE_BODY ≠ 0 then { cs with state := .text }
  else cs

/-- The loop of `dkim_hash` over the file. In an error the octet is put back. -/
def dkimLoop (fn : CanonFn) : List Octet → CanonState → CanonState
  | [], cs => fn { cs with fp := [] } none
  | octet :: file, cs =>
      let next := fn { cs with fp := file } (some octet)
      if next.state = .error then { next with fp := octet :: file }
      else if next.state = .finish then next
      else dkimLoop fn file next

/-- What `dkim_hash (file, cs, fn, flags)` leaves. -/
def dkimHash (cs : CanonState) (fn : CanonFn) (flags : Nat) : CanonState :=
  dkimLoop fn cs.fp (dkimBegin cs flags)

end Snert
