/-
Module: Snert.Mail.Spf
Purpose: `spfCheck` and `spfCheckHeloMailTxt` of mail/spf.c: the record of a domain is found, and its
  terms are evaluated in turn, with those of the records that they name. What the DNS answers is part
  of the environment. Memory is never short and the DNS can be opened; arrays that are not initialised
  are taken to hold zeros. The arguments but `helo` and `txt`, and the texts of records, are never NULL
  here. `DOWNGRADE_PASS_ALL` is not defined, and the log is left out.
Trusted boundary: human-reviewed spec
Main exports: SpfEnv, SpfState, SpfKind, spfKind
-/
import Snert.Mail.ParsePath
import Snert.Mail.SpfCheck
import Snert.Util.TextSplit

namespace Snert

open CModel

/-! ### The environment, and what a check keeps -/

/-- What is asked of the DNS: `pdqGet` for a type, `pdqGet5A` or `pdqGetMX`. -/
inductive SpfLookup where
  | txt
  | spf
  | a
  | a5
  | mx
  | ptr
deriving DecidableEq, Repr

/-- The DNS, and the option `spfTempErrorDns`. -/
structure SpfEnv where
  /-- The list for a name; NULL is `none`. -/
  get : SpfLookup → List Octet → Option (List PdqRr)
  /-- `errno` behind it. -/
  errno : SpfLookup → List Octet → Nat
  tempErrorDns : Bool

/-- The branches of the chain of comparisons in `spfCheck`. -/
inductive SpfKind where
  | all
  | a
  | mx
  | ptr
  | ip
  | includes
  | existing
  | redirect
  | exp
  | skipped
deriving DecidableEq, Repr

/-- What `spfCheck` changes in its context. -/
structure SpfState where
  ptrCount : Nat
  mechanismCount : Nat
  tempError : Bool
  circular : List (List Octet)
  /-- No variable of the source: the terms met so far that ask the DNS for what they name, and what
      `mechanism_count` was then. -/
  met : List (SpfKind × Nat)
deriving DecidableEq, Repr

/-- A term that asks the DNS is met. -/
def SpfState.meet (s : SpfState) (kind : SpfKind) : SpfState :=
  { s with met := s.met ++ [(kind, s.mechanismCount)] }

/-- What a check comes to: the error returned, `ctx->result`, and the context. -/
structure SpfReturn where
  err : Option SpfError
  result : SpfResult
  state : SpfState
deriving DecidableEq, Repr

/-- The C string in an array. -/
def CString.upTo (s : List Octet) : CString :=
  ⟨s.takeWhile (· ≠ 0), fun h => by simpa using List.mem_takeWhile_imp h⟩

/-- `spfIsCircularReference (ctx, domain)`, which otherwise adds the name. -/
def spfIsCircularReference (circular : List (List Octet)) (domain : List Octet) : Bool :=
  circular.any fun name => strcasecmp name domain = 0

/-- `spfMacro (ctx, domain, fmt)`. -/
def spfTarget (ctx : SpfContext) (domain : CString) (fmt : List Octet) (s : SpfState) :
    Run (Option (List Octet) × SpfState) := do
  let expanded ← spfMacro { ctx with ptrCount := s.ptrCount } domain (CString.upTo fmt)
    (Buffer.replicate 256 0)
  pure (expanded.1, { s with ptrCount := expanded.2 })

/-! ### Names of terms -/

/-- `TextInsensitiveCompareN (term, name, STRLEN (name)) == 0`. -/
def termBegins (term : List Octet) (name : String) : Bool :=
  strncasecmp term (ascii name) (ascii name).length = 0

/-- The branch that a term goes to. -/
def spfKind (term : List Octet) : SpfKind :=
  if termBegins term "all" then .all
  else if termBegins term "a" then .a
  else if termBegins term "mx" then .mx
  else if termBegins term "ptr" then .ptr
  else if termBegins term "ip4:" ∨ termBegins term "ip6:" then .ip
  else if termBegins term "include:" then .includes
  else if termBegins term "exists:" then .existing
  else if termBegins term "redirect=" then .redirect
  else if termBegins term "exp=" then .exp
  else .skipped

/-- The qualifier of a term, and the term behind it. -/
def spfQualifier : List Octet → SpfResult × List Octet
  | [] => (.pass, [])
  | c :: term =>
      if c = ch '+' then (.pass, term)
      else if c = ch '-' then (.fail, term)
      else if c = ch '~' then (.softFail, term)
      else if c = ch '?' then (.neutral, term)
      else (.pass, c :: term)

/-! ### The mechanisms `ptr`, `ip4` and `ip6`, and `exists` -/

/-- A term that is counted: what `ask` makes of its target, and `ctx->mechanism_count`. -/
def spfCountedTerm (mechanismCount : Nat) (target : Option (List Octet))
    (ask : List Octet → SpfTerm) : SpfTerm × Nat :=
  match target with
  | none => (.error .permError .invalidSyntax, mechanismCount)
  | some target =>
      if MAX_DNS_MECHANISMS ≤ mechanismCount then
        (.error .permError .dnsLimit, mechanismCount + 1)
      else (ask target, mechanismCount + 1)

/-- The host of a PTR record when its trailing root dot has been removed. A host has a name. -/
def rootlessHost (host : PdqName) : List Octet :=
  if host.value.get (host.length - 1) = ch '.' then host.string.take (host.length - 1)
  else host.string

/-- The loop over the PTR records of an answer: does one match? A NULL from `pdqGet5A` breaks it. -/
def spfMatchPtr (get : List Octet → Option (List PdqRr)) (ipv6 : Ipv6) (target : List Octet) :
    List PdqRr → Bool
  | [] => false
  | rr :: list =>
      if rr.isQuery ∨ rr.type ≠ PDQ_TYPE_PTR then spfMatchPtr get ipv6 target list
      else
        match get rr.host.string with
        | none => false
        | some alist =>
            if spfMatchIp ipv6 alist IPV6_BIT_LENGTH ∧
                0 ≤ textInsensitiveEndsWith (rootlessHost rr.host) target then true
            else spfMatchPtr get ipv6 target list

/-- The mechanism `ptr`, where the names of the client are asked for. -/
def spfTermPtr (env : SpfEnv) (ip : List Octet) (ipv6 : Ipv6) (mechanismCount : Nat)
    (target : Option (List Octet)) : SpfTerm × Nat :=
  spfCountedTerm mechanismCount target fun target =>
    match env.get .ptr ip with
    | none => .error .tempError .internal
    | some list =>
        if answerRcode list ≠ PDQ_RCODE_OK then spfRcodeTerm env.tempErrorDns (answerRcode list)
        else if spfMatchPtr (env.get .a5) ipv6 target list then .done
        else .next false

/-- The mechanism `exists`, where `pdqGet` is asked for A records. -/
def spfTermExists (env : SpfEnv) (mechanismCount : Nat) (target : Option (List Octet)) :
    SpfTerm × Nat :=
  spfCountedTerm mechanismCount target fun target =>
    match env.get .a target with
    | none => .next false
    | some list =>
        if answerRcode list ≠ PDQ_RCODE_OK then spfRcodeTerm env.tempErrorDns (answerRcode list)
        else .done

/-- The number behind the slash of `ip4` and `ip6`. -/
def spfIpCidr (term cidr : List Octet) : Nat :=
  let number := sizeT (strtol cidr 10).1
  if term.getD 2 0 = ch '4' then sizeT (IPV6_BIT_LENGTH - 32 + number : Nat) else number

/-- The end of the mechanisms `ip4` and `ip6`. -/
def spfMatchNet (net : Ipv6) (cidr : Nat) (ipv6 : Ipv6) : SpfTerm :=
  if IPV6_BIT_LENGTH < cidr then .error .permError .invalidSyntax
  else if networkContainsIPv6 net cidr ipv6 then .done
  else .next false

/-- The mechanisms `ip4` and `ip6`. -/
def spfTermIp (ipv6 : Ipv6) (term : List Octet) : Run SpfTerm := do
  let parsed ← parseIPv6 (term.drop 4) (Buffer.replicate 16 0)
  if parsed.1 = 0 then pure (.error .permError .ipParse)
  else
    match term.drop (4 + parsed.1) with
    | [] => pure (spfMatchNet parsed.2 IPV6_BIT_LENGTH ipv6)
    | c :: cidr =>
        if c ≠ ch '/' then pure (.error .permError .invalidSyntax)
        else pure (spfMatchNet parsed.2 (spfIpCidr term cidr) ipv6)

/-! ### The loop over the terms -/

/-- The variables of the loop. -/
structure SpfLoop where
  qualifier : SpfResult
  err : Option SpfError
  redirect : Option (List Octet)
  explain : Option (List Octet)
  state : SpfState
deriving DecidableEq, Repr

/-- How a term leaves the loop: to the next term, behind it, or with a `goto done` or
    `goto error5`. -/
inductive SpfFlow where
  | next
  | leave
  | done
deriving DecidableEq, Repr

/-- An error is the result. -/
def SpfLoop.fail (v : SpfLoop) (qualifier : SpfResult) (err : SpfError) : SpfLoop × SpfFlow :=
  ({ v with qualifier := qualifier, err := some err }, .done)

/-- What a mechanism comes to, for the loop. -/
def SpfLoop.follow (v : SpfLoop) (term : SpfTerm) : SpfLoop × SpfFlow :=
  match term with
  | .done => (v, .done)
  | .next tempError =>
      ({ v with state := { v.state with tempError := v.state.tempError || tempError } }, .next)
  | .error qualifier err => v.fail qualifier err

/-- The mechanism `all`. -/
def SpfLoop.all (v : SpfLoop) : SpfLoop × SpfFlow :=
  ({ v with
      qualifier := if v.state.tempError then .tempError else v.qualifier
      redirect := none }, .leave)

/-- The modifier `redirect`. -/
def SpfLoop.setRedirect (v : SpfLoop) (redirect : List Octet) : SpfLoop × SpfFlow :=
  if v.redirect ≠ none then v.fail .permError .invalidSyntax
  else ({ v with redirect := some redirect }, .next)

/-- The modifier `exp`. -/
def SpfLoop.setExplain (v : SpfLoop) (explain : List Octet) : SpfLoop × SpfFlow :=
  if v.explain ≠ none then v.fail .permError .invalidSyntax
  else ({ v with explain := some explain }, .next)

/-- What an `include` makes of the check of the domain that it names. A None result from there throws
    PermError; a Pass returns the qualifier specified for the include. -/
def SpfLoop.included (v : SpfLoop) (nested : SpfReturn) : SpfLoop × SpfFlow :=
  let v := { v with err := nested.err, state := nested.state }
  match nested.result with
  | .none => ({ v with qualifier := .permError }, .done)
  | .pass => (v, .done)
  | .tempError => ({ v with qualifier := .tempError }, .done)
  | .permError => ({ v with qualifier := .permError }, .done)
  | .fail | .neutral | .softFail => (v, .next)

section Check

variable (env : SpfEnv) (ctx : SpfContext) (nested : SpfState → CString → Run SpfReturn)
  (domain : CString)

/-- A mechanism that is counted: its format, and what becomes of its target. -/
def spfCounted (kind : SpfKind) (fmt : List Octet)
    (mechanism : Nat → Option (List Octet) → SpfTerm × Nat) (v : SpfLoop) :
    Run (SpfLoop × SpfFlow) := do
  let target ← spfTarget ctx domain fmt v.state
  let term := mechanism target.2.mechanismCount target.1
  let met := if target.1 = none then target.2 else target.2.meet kind
  pure ({ v with state := { met with mechanismCount := term.2 } }.follow term.1)

/-- The mechanism `include`. -/
def spfTermInclude (fmt : List Octet) (v : SpfLoop) : Run (SpfLoop × SpfFlow) := do
  let target ← spfTarget ctx domain fmt v.state
  match target.1 with
  | none => pure ({ v with state := target.2 }.fail .permError .invalidSyntax)
  | some name => do
      let checked ← nested (target.2.meet .includes) (CString.upTo name)
      pure (v.included checked)

/-- A round of the loop, behind the qualifier of its term. -/
def spfMechanism (term : List Octet) (v : SpfLoop) : Run (SpfLoop × SpfFlow) :=
  match spfKind term with
  | .all => pure v.all
  | .a => spfCounted ctx domain .a (term.drop 1) (fun count target =>
      spfTermA ctx.ipv6 env.tempErrorDns count target term (env.get .a5)) v
  | .mx => spfCounted ctx domain .mx (term.drop 2) (fun count target =>
      spfTermMx (env.errno .mx (target.getD [])) ctx.ipv6 env.tempErrorDns count target term
        (env.get .mx)) v
  | .ptr => spfCounted ctx domain .ptr (term.drop 3) (spfTermPtr env ctx.ip.octets ctx.ipv6) v
  | .ip => do
      let matched ← spfTermIp ctx.ipv6 term
      pure (v.follow matched)
  | .includes => spfTermInclude ctx nested domain (term.drop 8) v
  | .existing => spfCounted ctx domain .existing (term.drop 7) (spfTermExists env) v
  | .redirect => pure (v.setRedirect (term.drop 9))
  | .exp => pure (v.setExplain (term.drop 4))
  -- Unsupported terms are simply skipped.
  | .skipped => pure (v, .next)

/-- A round of the loop. -/
def spfRound (term : List Octet) (v : SpfLoop) : Run (SpfLoop × SpfFlow) :=
  let qualified := spfQualifier term
  spfMechanism env ctx nested domain qualified.2 { v with qualifier := qualified.1 }

/-- What follows the loop: the `redirect`. -/
def spfRedirect (v : SpfLoop) : Run SpfReturn :=
  match v.redirect with
  | none => pure ⟨v.err, v.qualifier, v.state⟩
  | some redirect => do
      let target ← spfTarget ctx domain redirect v.state
      match target.1 with
      | none => pure ⟨some .invalidSyntax, .permError, target.2⟩
      | some name => nested (target.2.meet .redirect) (CString.upTo name)

/-- The loop, and what follows it. -/
def spfTerms : List (List Octet) → SpfLoop → Run SpfReturn
  | [], v => spfRedirect ctx nested domain v
  | term :: terms, v => do
      let round ← spfRound env ctx nested domain term v
      match round.2 with
      | .next => spfTerms terms { round.1 with qualifier := .neutral }
      | .leave => spfRedirect ctx nested domain round.1
      | .done => pure ⟨round.1.err, round.1.qualifier, round.1.state⟩

end Check

/-! ### The record of a domain -/

/-- The text of a TXT record, which a NUL ends. -/
def textOf (rr : PdqRr) : List Octet :=
  match rr.data with
  | .text value => value.takeWhile (· ≠ 0)
  | _ => []

/-- Is it a TXT record that begins with `v=spf1` and a blank? -/
def isSpfRecord (rr : PdqRr) : Bool :=
  !rr.isQuery && rr.type = PDQ_TYPE_TXT && (textOf rr).take 7 = ascii "v=spf1 "

/-- What an answer says of itself: the qualifier to go on with, or how the check ends. -/
def spfAnswered (list : List PdqRr) : Except (SpfResult × Option SpfError) SpfResult :=
  match list.head? with
  | none => .ok .none
  | some rr =>
      if ¬ rr.isQuery then .ok .none
      -- With a TXT record, up the default to neutral (?all).
      else if rr.rcode = PDQ_RCODE_OK then .ok .neutral
      else if rr.rcode = PDQ_RCODE_SERVER ∨ rr.rcode = PDQ_RCODE_UNDEFINED then
        .error (.neutral, some (.rcode rr.rcode))
      else if rr.rcode = PDQ_RCODE_ERRNO ∨ rr.rcode = PDQ_RCODE_NOT_IMPLEMENTED then
        .error (.none, some (.rcode rr.rcode))
      else .error (.tempError, some (.rcode rr.rcode))

/-- The record in an answer: the qualifier to go on with and the text, or how the check ends. -/
def spfFound (list : List PdqRr) : Except (SpfResult × Option SpfError) (SpfResult × List Octet) := do
  let qualifier ← spfAnswered list
  match list.filter isSpfRecord with
  -- Zero entries or no matching ones found?
  | [] => .error (qualifier, none)
  | [rr] => .ok (qualifier, textOf rr)
  | _ => .error (.permError, some .tooMany)

/-- The record of a domain, unless it is given. -/
def spfRecord (env : SpfEnv) (domain : List Octet) (altTxt : Option CString) :
    Except (SpfResult × Option SpfError) (SpfResult × List Octet) :=
  match altTxt with
  -- With a TXT record given, up the default to neutral (?all).
  | some txt => .ok (.neutral, txt.octets)
  | none =>
      match (env.get .txt domain).or (env.get .spf domain) with
      | none => .error (if env.errno .spf domain ≠ 0 then .tempError else .none, none)
      | some list => spfFound list

/-! ### `spfCheck` -/

/-- `spfCheck (ctx, domain, alt_txt)`, with `depth` calls of it that may be open at a time. -/
def spfCheck (env : SpfEnv) (ctx : SpfContext) :
    Nat → SpfState → CString → Option CString → Run SpfReturn
  | 0, _, _, _ => ⟨[], .diverge⟩
  | depth + 1, s, domain, altTxt =>
      if ctx.ip.octets = [] ∨ domain.octets = [] then pure ⟨none, .none, s⟩
      else if peek domain.octets = ch '[' then pure ⟨some .ipLiteral, .none, s⟩
      -- Ignore already visited entries.
      else if spfIsCircularReference s.circular domain.octets then pure ⟨none, .neutral, s⟩
      else
        let s := { s with circular := s.circular ++ [domain.octets] }
        match spfRecord env domain.octets altTxt with
        | .error ended => pure ⟨ended.2, ended.1, s⟩
        | .ok found =>
            -- Start after the version specifier.
            spfTerms env ctx (fun s target => spfCheck env ctx depth s target none) domain
              (textSplit found.2 [ch ' ']).tail ⟨found.1, none, none, none, s⟩

/-! ### `spfCheckHeloMailTxt` -/

/-- `"postmaster@%s"` in the array `postmaster`. -/
def postmaster (s : List Octet) : CString :=
  CString.upTo ((ascii "postmaster@" ++ s).take 255)

/-- The sender that is checked: `ctx.mail`, or `none` for an error of `parsePath`. The empty path is
    `some none`. -/
def spfMail (helo mail : CString) : Run (Option (Option ParsedPath)) := do
  match ← parsePath mail STRICT_LITERAL_PLUS 0 with
  | .error _ => pure none
  -- If `mail' is the null address, then use "postmaster" combined with the `helo'.
  | .ok none => do
      let parsed ← parsePath (postmaster helo.octets) 0 0
      pure parsed.toOption
  | .ok (some path) =>
      -- If `mail' has no localpart, then use "postmaster" combined with the `mail' domain.
      if path.domain.length = 0 then do
        let parsed ← parsePath (postmaster mail.octets) 0 0
        pure parsed.toOption
      else pure (some (some path))

/-- A string of the sender. -/
def mailString (mail : Option ParsedPath) (part : ParsedPath → PathPart) : CString :=
  match mail with
  | none => CString.upTo []
  | some path => path.string (part path)

/-- The context of a check. What `%{p}` finds and the array of `reverseSegments` are given, as in
    `SpfContext`. -/
def spfContext (clientAddr helo : CString) (mail : Option ParsedPath) (ipv6 : Ipv6)
    (pointers : Nat → Option (List PtrAnswer)) (scratch : Nat → Ipv6) : SpfContext :=
  { ip := clientAddr
    helo := helo
    localLeft := mailString mail ParsedPath.localLeft
    domain := mailString mail ParsedPath.domain
    address := mailString mail ParsedPath.address
    ipv6 := ipv6
    ptrCount := 0
    pointers := pointers
    scratch := scratch }

/-- The context in which a check begins. -/
def SpfState.initial : SpfState :=
  ⟨0, 0, false, [], []⟩

/-- `spfCheckHeloMailTxt (client_addr, helo, mail, txt, result)`: the error returned, `*result`, and
    the context behind it. -/
def spfCheckHeloMailTxt (env : SpfEnv) (pointers : Nat → Option (List PtrAnswer))
    (scratch : Nat → Ipv6) (depth : Nat) (clientAddr : CString) (helo : Option CString)
    (mail : CString) (txt : Option CString) : Run SpfReturn := do
  let helo := helo.getD (CString.upTo unknown)
  let parsed ← parseIPv6 clientAddr.octets (Buffer.replicate 16 0)
  if parsed.1 = 0 then pure ⟨some .ipParse, .permError, .initial⟩
  else
    match ← spfMail helo mail with
    | none => pure ⟨some .invalidSyntax, .permError, .initial⟩
    | some path =>
        let ctx := spfContext clientAddr helo path parsed.2 pointers scratch
        spfCheck env ctx depth .initial ctx.domain txt

end Snert
