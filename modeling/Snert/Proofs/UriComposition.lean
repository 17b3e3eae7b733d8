/-
Module: Snert.Proofs.UriComposition
Purpose: What `uriParse2` makes of a URI that has been composed of its parts. Each step of the
  parser takes one part off the memory behind it and puts a NUL in the place of its separator. The
  span of the host is measured where the user information starts, so it is that of the host without
  one only; with one it decides where the port and the brackets of the host are looked for.
Trusted boundary: none
Main exports: uriParse_composed_iff
-/
import Snert.Proofs.HostSpans
import Snert.Util.UriParse

namespace Snert

open CModel CModel.Run

/-! ### Memory -/

/-- Memory that starts with a NUL. -/
def Ended (r : List Octet) : Prop :=
  ∃ w, r = 0 :: w

/-- A part with an octet before it, if it is there. -/
def piece (c : Octet) : Option (List Octet) → List Octet
  | some s => c :: s
  | none => []

theorem ended_nul : Ended [0] :=
  ⟨[], rfl⟩

theorem ended_piece {r : List Octet} (hr : Ended r) (o : Option (List Octet)) :
    Ended (piece 0 o ++ r) := by
  cases o with
  | none => exact hr
  | some s => exact ⟨s ++ r, rfl⟩

theorem memText_append {s r : List Octet} (X : List Octet) (hs : 0 ∉ s) (hr : Ended r) :
    memText (X ++ (s ++ r)) X.length = s := by
  obtain ⟨w, rfl⟩ := hr
  have hself : s.takeWhile (· ≠ 0) = s :=
    List.takeWhile_eq_self_iff.mpr fun c hc => by simpa using fun (h : c = 0) => hs (h ▸ hc)
  rw [memText, List.drop_left, takeWhile_append_delimiter (by decide), hself]

theorem memText_piece {o : Option (List Octet)} {r : List Octet} (X : List Octet)
    (ho : ∀ s ∈ o, 0 ∉ s) (hr : Ended r) :
    (o.map fun _ => X.length + 1).map (memText (X ++ (piece 0 o ++ r))) = o := by
  cases o with
  | none => rfl
  | some s =>
      have hread := memText_append (X ++ [0]) (ho s rfl) hr
      rw [List.length_append, List.append_assoc] at hread
      rw [Option.map_some, Option.map_some]
      exact congrArg some hread

theorem memChr_of_notMem {c : Octet} {s r : List Octet} (X : List Octet) (hs : 0 ∉ s) (hr : Ended r)
    (hc : c ∉ s) : memChr (X ++ (s ++ r)) X.length c = none := by
  rw [memChr, memText_append X hs hr]
  exact if_neg hc

theorem memChr_append {c : Octet} {a b r : List Octet} (X : List Octet) (hs : 0 ∉ a ++ c :: b)
    (hr : Ended r) (hc : c ∉ a) :
    memChr (X ++ (a ++ c :: b ++ r)) X.length c = some (X.length + a.length) := by
  rw [memChr, memText_append X hs hr, if_pos (List.mem_append_right _ List.mem_cons_self),
    List.idxOf_append_of_notMem hc, List.idxOf_cons_self, Nat.add_zero]

theorem set_append {c : Octet} (X a Y : List Octet) :
    (X ++ (a ++ c :: Y)).set (X.length + a.length) 0 = X ++ (a ++ 0 :: Y) := by
  rw [List.set_append_right _ _ (Nat.le_add_right _ _), Nat.add_sub_cancel_left,
    List.set_append_right _ _ (Nat.le_refl _), Nat.sub_self, List.set_cons_zero]

theorem cut_piece {c : Octet} {s r : List Octet} {o : Option (List Octet)} (X : List Octet)
    (hc : c ≠ 0) (hs : 0 ∉ s) (ho : ∀ t ∈ o, 0 ∉ t) (hr : Ended r) (hcs : c ∉ s) :
    memChr (X ++ (s ++ (piece c o ++ r))) X.length c = o.map (fun _ => X.length + s.length) ∧
      memCut (X ++ (s ++ (piece c o ++ r))) (o.map fun _ => X.length + s.length) =
        X ++ (s ++ (piece 0 o ++ r)) := by
  cases o with
  | none => exact ⟨memChr_of_notMem X hs hr hcs, rfl⟩
  | some t =>
      have hnul : 0 ∉ s ++ c :: t := by
        rw [List.mem_append, List.mem_cons]
        rintro (h | h | h)
        · exact hs h
        · exact hc h.symm
        · exact ho t rfl h
      refine ⟨?_, set_append X s (t ++ r)⟩
      have hfound := memChr_append X hnul hr hcs
      rw [List.append_assoc] at hfound
      exact hfound

/-- Octets that a decoder leaves as they are. -/
def PlainUri (s : List Octet) : Prop :=
  ∀ c ∈ s, c ≠ 0 ∧ c ≠ ch '%' ∧ c ≠ ch '+'

theorem PlainUri.noNul {s : List Octet} (h : PlainUri s) : 0 ∉ s := fun hmem => (h 0 hmem).1 rfl

theorem uriDecodeSelf_plain {s : List Octet} (h : PlainUri s) : uriDecodeSelf s = s := by
  induction s with
  | nil => rw [uriDecodeSelf]
  | cons c s ih =>
      obtain ⟨⟨-, hpercent, hplus⟩, hrest⟩ := List.forall_mem_cons.mp h
      rw [uriDecodeSelf.eq_def]
      dsimp only
      rw [if_neg hplus, if_neg hpercent, ih hrest]

theorem memDecode_plain {s r : List Octet} (X : List Octet) (hs : PlainUri s) (hr : Ended r) :
    memDecode (X ++ (s ++ r)) X.length = X ++ (s ++ r) := by
  rw [memDecode, memText_append X hs.noNul hr]
  obtain ⟨w, rfl⟩ := hr
  rw [uriDecodeSelf_plain hs, List.take_left, List.length_append, List.length_singleton]
  have hdrop : (X ++ (s ++ 0 :: w)).drop (X.length + (s.length + 1)) = w := by
    rw [← List.drop_drop, List.drop_left, ← List.drop_drop, List.drop_left]
    rfl
  rw [hdrop, List.append_assoc, List.append_assoc, List.singleton_append]

theorem octets_copy (fresh : (n : Nat) → Buffer n) (s : List Octet) :
    ((fresh (s.length + 1)).splice 0 (s ++ [0])).octets = s ++ [0] := by
  have hlength : (s ++ [0]).length = s.length + 1 := List.length_append
  rw [Buffer.octets_splice _ (by rw [hlength, Nat.zero_add]), hlength, Nat.zero_add, List.take_zero,
    List.nil_append, List.drop_eq_nil_of_le (Buffer.length_octets _).le, List.append_nil]

/-! ### The parts of a URI -/

/-- The parts that a URI is composed of. A path has its slash. -/
structure UriParts where
  scheme : List Octet
  userInfo : Option (List Octet)
  host : List Octet
  port : Option (List Octet)
  path : Option (List Octet)
  query : Option (List Octet)
  fragment : Option (List Octet)

namespace UriParts

variable (p : UriParts)

/-- The user information and its `@`. -/
def userText : List Octet :=
  match p.userInfo with
  | some u => u ++ [ch '@']
  | none => []

/-- `[userinfo "@"] host [":" port]`. -/
def authority : List Octet :=
  p.userText ++ (p.host ++ piece (ch ':') p.port)

/-- The path, if there is one. -/
def pathText : List Octet :=
  p.path.getD []

/-- `scheme "://" [userinfo "@"] host [":" port] path ["?" query] ["#" fragment]`. -/
def text : List Octet :=
  p.scheme ++ ascii "://" ++ (p.authority ++ (p.pathText ++
    (piece (ch '?') p.query ++ piece (ch '#') p.fragment)))

/-- The URI that has these parts. -/
def uri : Uri where
  uri := p.text
  uriDecoded := p.text
  scheme := some p.scheme
  schemeInfo := some (p.text.drop (p.scheme.length + 1))
  userInfo := p.userInfo
  host := some p.host
  port := p.port
  path := p.path
  query := p.query
  fragment := p.fragment

/-- A scheme of the table that has a port, a host that is accepted in full, a decimal port, and a
path with a slash, each without `%`, `+` and the separators of the parts behind it; the URI does not
end in a dot. -/
structure Composable : Prop where
  scheme : ∃ t ∈ schemeTable, 0 < t.value ∧ p.scheme = t.name
  plain : PlainUri p.text
  noDot : p.text.getLast? ≠ some (ch '.')
  userInfo : ∀ u ∈ p.userInfo, ∀ c ∈ u, c ∉ ascii "@:/?#"
  host_ne : p.host ≠ []
  host_full : spanHost p.host 0 = p.host.length
  host : ∀ c ∈ p.host, c ∉ ascii ":/?#"
  port : ∀ q ∈ p.port, IsDigits 10 q
  path : ∀ s ∈ p.path, s.head? = some (ch '/') ∧ ∀ c ∈ s, c ∉ ascii "?#"
  query : ∀ q ∈ p.query, ch '#' ∉ q

/-- What is behind the authority in memory, once the path, the query and the fragment are
strings. -/
def behind : List Octet :=
  piece 0 p.path ++ (piece 0 p.query ++ (piece 0 p.fragment ++ [0]))

/-- The memory from the host on, before the port is looked for. -/
def memory : List Octet :=
  p.host ++ (piece (ch ':') p.port ++ p.behind)

/-- The span of the host, which is measured at the start of the authority. -/
def span : Nat :=
  spanHost (p.authority ++ p.pathText) 0

end UriParts

variable {p : UriParts}

theorem mem_piece {c d : Octet} {o : Option (List Octet)} :
    d ∈ piece c o ↔ ∃ s ∈ o, d = c ∨ d ∈ s := by
  cases o with
  | none => simp [piece]
  | some s => simp [piece]

namespace UriParts.Composable

variable (h : p.Composable)

include h

theorem plain_hier : PlainUri (p.authority ++ p.pathText) := fun c hc => by
  refine h.plain c (List.mem_append_right _ ?_)
  rw [← List.append_assoc]
  exact List.mem_append_left _ hc

theorem plain_query : ∀ q ∈ p.query, PlainUri q := fun q hq c hc =>
  h.plain c (List.mem_append_right _ (List.mem_append_right _ (List.mem_append_right _
    (List.mem_append_left _ (mem_piece.mpr ⟨q, hq, .inr hc⟩)))))

theorem plain_fragment : ∀ q ∈ p.fragment, PlainUri q := fun q hq c hc =>
  h.plain c (List.mem_append_right _ (List.mem_append_right _ (List.mem_append_right _
    (List.mem_append_right _ (mem_piece.mpr ⟨q, hq, .inr hc⟩)))))

theorem plain_path : ∀ s ∈ p.path, PlainUri s := fun s hs c hc =>
  h.plain_hier c (List.mem_append_right _ (by rw [UriParts.pathText, hs]; exact hc))

theorem plain_user : ∀ u ∈ p.userInfo, PlainUri u := fun u hu c hc =>
  h.plain_hier c (List.mem_append_left _ (List.mem_append_left _ (by
    rw [UriParts.userText, hu]
    exact List.mem_append_left _ hc)))

theorem plain_host : PlainUri p.host := fun c hc =>
  h.plain_hier c (List.mem_append_left _ (List.mem_append_right _ (List.mem_append_left _ hc)))

theorem plain_port : ∀ q ∈ p.port, PlainUri q := fun q hq c hc =>
  h.plain_hier c (List.mem_append_left _ (List.mem_append_right _ (List.mem_append_right _
    (mem_piece.mpr ⟨q, hq, .inr hc⟩))))

theorem notMem_authority {d : Octet} (hd : d ∈ ascii "/?#") : d ∉ p.authority := by
  have hdigits : ∀ d ∈ ascii "/?#", isDigit 10 d = false := by decide
  have huser : ∀ d ∈ ascii "/?#", d ∈ ascii "@:/?#" ∧ d ∈ ascii ":/?#" ∧
      d ≠ ch '@' ∧ d ≠ ch ':' := by
    decide
  obtain ⟨hmem, hmem', hat, hcolon⟩ := huser d hd
  rw [UriParts.authority, List.mem_append, List.mem_append, mem_piece]
  rintro (hc | hc | ⟨q, hq, hc | hc⟩)
  · rw [UriParts.userText] at hc
    split at hc
    · rename_i u hu
      rcases List.mem_append.mp hc with hc | hc
      · exact h.userInfo u hu d hc hmem
      · exact hat (List.mem_singleton.mp hc)
    · cases hc
  · exact h.host d hc hmem'
  · exact hcolon hc
  · exact Bool.false_ne_true ((hdigits d hd).symm.trans ((h.port q hq).2 d hc))

theorem notMem_hier {d : Octet} (hd : d ∈ ascii "?#") : d ∉ p.authority ++ p.pathText := by
  have hsub : ∀ d ∈ ascii "?#", d ∈ ascii "/?#" := by decide
  rw [List.mem_append]
  rintro (hc | hc)
  · exact h.notMem_authority (hsub d hd) hc
  · cases hpath : p.path with
    | none =>
        rw [UriParts.pathText, hpath] at hc
        cases hc
    | some s =>
        rw [UriParts.pathText, hpath] at hc
        exact (h.path s hpath).2 d hc hd

end UriParts.Composable

/-! ### The scheme -/

/-- What a scheme with a port is like: letters and digits, no start of an address, and not
`file`. -/
def SchemeName (s : List Octet) : Prop :=
  s ≠ [] ∧ spanScheme s = s.length ∧ (strtol s 16).2 ≠ [] ∧ ¬ QuadStart s ∧ ch ':' ∉ s ∧
    ¬ strcasecmp s (ascii "file") = 0 ∧ 0 < uriGetSchemePort none (some s) none

theorem schemeName_of_port : ∀ t ∈ schemeTable, 0 < t.value → SchemeName t.name := by
  unfold SchemeName
  decide

theorem UriParts.Composable.schemeName (h : p.Composable) : SchemeName p.scheme := by
  obtain ⟨t, ht, hvalue, hname⟩ := h.scheme
  exact hname ▸ schemeName_of_port t ht hvalue

theorem spanScheme_append {s : List Octet} (hs : SchemeName s) (r : List Octet) :
    spanScheme (s ++ ch ':' :: r) = s.length := by
  obtain ⟨hne, hspan, -⟩ := hs
  cases s with
  | nil => exact absurd rfl hne
  | cons c s =>
      rw [← hspan, spanScheme, spanScheme, List.cons_append, peek_cons, peek_cons, List.tail_cons,
        List.tail_cons, takeWhile_append_delimiter (by decide)]

theorem spanIPv6_scheme {s : List Octet} (hs : SchemeName s) (r : List Octet) :
    spanIPv6 (s ++ ch ':' :: r) = 0 := by
  obtain ⟨-, -, hrest, hquad, hcolon, -⟩ := hs
  have hread := strtol_append_delimiter (c := ch ':') (by decide) 16 s r
  have hpeek : peek ((strtol s 16).2 ++ ch ':' :: r) = peek (strtol s 16).2 := by
    cases hstop : (strtol s 16).2 with
    | nil => exact absurd hstop hrest
    | cons c stop => rfl
  have hne : peek (strtol (s ++ ch ':' :: r) 16).2 ≠ ch ':' := by
    rw [hread, hpeek]
    exact peek_strtol_ne_colon hcolon
  have hquad' : ¬ QuadStart (s ++ ch ':' :: r) := by
    rw [QuadStart, hread]
    dsimp only
    rw [hpeek]
    exact hquad
  rw [spanIPv6_of_stop hne, if_neg hquad']

/-! ### Up to the authority -/

/-- The URI behind its scheme and the two slashes. -/
def UriParts.rest (p : UriParts) : List Octet :=
  p.authority ++ (p.pathText ++ (piece (ch '?') p.query ++ piece (ch '#') p.fragment))

theorem UriParts.text_eq (p : UriParts) :
    p.text = p.scheme ++ ch ':' :: (ascii "//" ++ p.rest) := by
  rw [UriParts.text, UriParts.rest, List.append_assoc]
  rfl

theorem uriLength_text (h : p.Composable) : (uriLength p.text (-1)).Yields p.text.length := by
  have hpos : 0 < p.text.length := by
    rw [UriParts.text_eq, List.length_append, List.length_cons]
    omega
  have hlast : peek (p.text.drop (p.text.length - 1)) ≠ ch '.' := by
    intro hdot
    refine h.noDot ?_
    have hne : p.text ≠ [] := List.ne_nil_of_length_pos hpos
    rw [List.drop_length_sub_one hne, peek_cons] at hdot
    rw [List.getLast?_eq_some_getLast hne, hdot]
  have hnegative : (if (-1 : Int) < 0 then p.text.length else (-1 : Int).toNat) = p.text.length :=
    if_pos (by decide)
  rw [uriLength, hnegative, if_neg hpos.ne']
  refine (yields_load ?_ _).bind ?_
  · rw [Access.InBounds]
    dsimp only
    omega
  · rw [if_neg hlast]
    exact yields_pure _

theorem memDecode_text (h : p.Composable) (fresh : (n : Nat) → Buffer n) :
    memDecode ((fresh (p.text.length + 1)).splice 0 (p.text ++ [0])).octets 0 = p.text ++ [0] := by
  rw [octets_copy]
  exact memDecode_plain [] h.plain ended_nul

theorem uriScheme_text (h : p.Composable) (length : Nat) :
    uriScheme (p.text ++ [0]) (p.text ++ [0]) length =
      ⟨p.text ++ [0], [0] ++ ((ascii "//" ++ p.rest) ++ [0]), 0, some (p.scheme.length + 1),
        some p.scheme,
        none, none, none, none, none, none⟩ := by
  have htext : memText (p.text ++ [0]) 0 = p.text := memText_append [] h.plain.noNul ended_nul
  have hspan : spanScheme p.text = p.scheme.length := by
    rw [UriParts.text_eq, spanScheme_append h.schemeName]
  have hpos : 0 < p.scheme.length := List.length_pos_of_ne_nil h.schemeName.1
  have hcolon : peek (p.text.drop p.scheme.length) = ch ':' := by
    rw [UriParts.text_eq, List.drop_left]
    rfl
  have haddress : spanIPv6 p.text = 0 := by
    rw [UriParts.text_eq, spanIPv6_scheme h.schemeName]
  have htake : p.text.take p.scheme.length = p.scheme := by
    rw [UriParts.text_eq, List.take_left]
  have hdrop : (p.text ++ [0]).drop (p.scheme.length + 1) = (ascii "//" ++ p.rest) ++ [0] := by
    rw [UriParts.text_eq, List.append_assoc, ← List.drop_drop, List.drop_left]
    rfl
  rw [uriScheme, htext, hspan]
  dsimp only
  rw [if_pos ⟨hpos, hcolon, haddress⟩, htake, hdrop]
  rfl

theorem uriTrim_scheme {self : UriScan} (hscheme : self.scheme = some p.scheme) :
    uriTrim self p.text = self := by
  have hinfix : p.scheme <:+: p.text := by
    rw [UriParts.text_eq]
    exact (List.prefix_append _ _).isInfix
  rw [uriTrim, hscheme]
  exact if_neg (by simpa using hinfix)

/-- The parsed URI but for its authority and its path: `mem` is the memory, and the other arguments
are the offsets found so far. -/
def UriParts.scan (p : UriParts) (mem : List Octet) (userInfo : Option Nat) (host : Option UriHost)
    (port path : Option Nat) : UriScan where
  decoded := p.text ++ [0]
  mem := mem
  uriDecoded := 0
  schemeInfo := some (p.scheme.length + 1)
  scheme := some p.scheme
  userInfo := userInfo
  host := host
  port := port
  path := path
  query := p.query.map fun _ => 3 + (p.authority ++ p.pathText).length + 1
  fragment := p.fragment.map fun _ =>
    3 + (p.authority ++ p.pathText).length + (piece 0 p.query).length + 1

theorem UriParts.scan_mem (p : UriParts) (mem : List Octet) (userInfo : Option Nat)
    (host : Option UriHost) (port path : Option Nat) :
    (p.scan mem userInfo host port path).mem = mem :=
  rfl

theorem uriCut_text (h : p.Composable) :
    uriCut ⟨p.text ++ [0], [0] ++ ((ascii "//" ++ p.rest) ++ [0]), 0, some (p.scheme.length + 1),
        some p.scheme, none, none, none, none, none, none⟩ =
      p.scan (0 :: ascii "//" ++ ((p.authority ++ p.pathText) ++
        (piece 0 p.query ++ (piece 0 p.fragment ++ [0])))) none none none none := by
  set hier := ascii "//" ++ (p.authority ++ p.pathText) with hhier
  have hslashes : 0 ∉ ascii "//" ∧ ch '?' ∉ ascii "//" ∧ ch '#' ∉ ascii "//" := by decide
  have hnul : 0 ∉ hier := fun hmem => (List.mem_append.mp hmem).elim hslashes.1 h.plain_hier.noNul
  have hquestion : ch '?' ∉ hier := fun hmem =>
    (List.mem_append.mp hmem).elim hslashes.2.1 (h.notMem_hier (by decide))
  have hhash : ch '#' ∉ hier ++ piece (ch '?') p.query := by
    rw [List.mem_append, mem_piece]
    rintro (hmem | ⟨q, hq, hmem | hmem⟩)
    · exact (List.mem_append.mp hmem).elim hslashes.2.2 (h.notMem_hier (by decide))
    · exact absurd hmem (by decide)
    · exact h.query q hq hmem
  have hnul' : 0 ∉ hier ++ piece (ch '?') p.query := by
    rw [List.mem_append, mem_piece]
    rintro (hmem | ⟨q, hq, hmem | hmem⟩)
    · exact hnul hmem
    · exact absurd hmem (by decide)
    · exact (h.plain_query q hq).noNul hmem
  have hmem : [0] ++ ((ascii "//" ++ p.rest) ++ [0]) =
      [0] ++ ((hier ++ piece (ch '?') p.query) ++ (piece (ch '#') p.fragment ++ [0])) := by
    simp only [UriParts.rest, hhier, List.append_assoc]
  obtain ⟨hfragment, hcut⟩ := cut_piece [0] (c := ch '#') (by decide) hnul'
    (fun t ht => (h.plain_fragment t ht).noNul) ended_nul hhash
  obtain ⟨hquery, hcut'⟩ := cut_piece [0] (c := ch '?') (by decide) hnul
    (fun t ht => (h.plain_query t ht).noNul) (ended_piece ended_nul p.fragment) hquestion
  rw [List.length_singleton] at hfragment hcut hquery hcut'
  rw [uriCut, hmem]
  dsimp only
  rw [hfragment, hcut, List.append_assoc, hquery, hcut']
  have hlength : (piece (ch '?') p.query).length = (piece 0 p.query).length := by
    cases p.query <;> rfl
  have hhierLength : 1 + hier.length = 3 + (p.authority ++ p.pathText).length := by
    rw [hhier, List.length_append, show (ascii "//").length = 2 from rfl]
    omega
  have hbehind : 1 + (hier ++ piece (ch '?') p.query).length =
      3 + (p.authority ++ p.pathText).length + (piece 0 p.query).length := by
    rw [List.length_append, hlength]
    omega
  rw [UriParts.scan, Option.map_map, Option.map_map, hhierLength, hbehind, hhier]
  rfl

/-! ### The authority -/

/-- What is before the authority in memory: it is shifted where there is a path. -/
def UriParts.front (p : UriParts) : List Octet :=
  match p.path with
  | some _ => ascii "//"
  | none => 0 :: ascii "//"

/-- The user information as a string of its own. -/
def UriParts.userPart (p : UriParts) : List Octet :=
  match p.userInfo with
  | some u => u ++ [0]
  | none => []

/-- What is before the host in memory. -/
def UriParts.hostFront (p : UriParts) : List Octet :=
  p.front ++ p.userPart

theorem UriParts.behind_ended (p : UriParts) : Ended p.behind :=
  ended_piece (ended_piece (ended_piece ended_nul _) _) _

theorem UriParts.Composable.at_notMem (h : p.Composable) :
    ch '@' ∉ p.host ++ piece (ch ':') p.port := by
  have hcolon : ch ':' ∉ p.host := fun hmem => h.host _ hmem (by decide)
  rw [List.mem_append, mem_piece]
  rintro (hc | ⟨q, hq, hc | hc⟩)
  · exact at_notMem_host hcolon h.host_full hc
  · exact absurd hc (by decide)
  · exact absurd ((h.port q hq).2 _ hc) (by decide)

theorem UriParts.Composable.host_stop (h : p.Composable) :
    piece (ch ':') p.port ++ p.pathText = [] ∨
      ∃ c r, piece (ch ':') p.port ++ p.pathText = c :: r ∧ StopAt c r := by
  have hpath : p.pathText = [] ∨ ∃ r, p.pathText = ch '/' :: r := by
    cases hpath : p.path with
    | none => exact .inl (by rw [UriParts.pathText, hpath]; rfl)
    | some s =>
        obtain ⟨r, hr⟩ := List.head?_eq_some_iff.mp (h.path s hpath).1
        exact .inr ⟨r, by rw [UriParts.pathText, hpath]; exact hr⟩
  have hdigits : ∀ q ∈ p.port, ∀ r, peek r ≠ ch ':' → peek r ≠ ch '.' →
      peek ((strtol q 16).2 ++ r) ≠ ch ':' ∧ peek ((strtol q 16).2 ++ r) ≠ ch '.' := by
    intro q hq r hcolon hdot
    cases hstop : (strtol q 16).2 with
    | nil => exact ⟨hcolon, hdot⟩
    | cons c stop =>
        have hdigit := (h.port q hq).2 c ((strtol_suffix q 16).subset (hstop ▸ List.mem_cons_self))
        rw [List.cons_append, peek_cons]
        constructor
        all_goals
          rintro rfl
          exact absurd hdigit (by decide)
  cases hport : p.port with
  | none =>
      rcases hpath with hpath | ⟨r, hpath⟩
      · exact .inl hpath
      · exact .inr ⟨ch '/', r, hpath, by decide, fun heq => absurd heq (by decide)⟩
  | some q =>
      refine .inr ⟨ch ':', q ++ p.pathText, rfl, by decide, fun _ => ?_⟩
      rcases hpath with hpath | ⟨r, hpath⟩
      · have hread := hdigits q hport [] (by decide) (by decide)
        rw [List.append_nil] at hread
        rwa [hpath, List.append_nil]
      · rw [hpath, strtol_append_delimiter (by decide)]
        exact hdigits q hport _ (by rw [peek_cons]; decide) (by rw [peek_cons]; decide)

theorem UriParts.Composable.span_of_no_user (h : p.Composable) (huser : p.userInfo = none) :
    p.span = p.host.length := by
  have htext : p.authority ++ p.pathText = p.host ++ (piece (ch ':') p.port ++ p.pathText) := by
    rw [UriParts.authority, UriParts.userText, huser, List.nil_append, List.append_assoc]
  rw [UriParts.span, htext]
  rcases h.host_stop with hnone | ⟨c, r, hrest, hstop⟩
  · rw [hnone, List.append_nil]
    exact h.host_full
  · rw [hrest]
    exact spanHost_append hstop (fun hmem => h.host _ hmem (by decide)) h.host_ne h.host_full

theorem UriParts.Composable.span_le (h : p.Composable) : p.span ≤ p.authority.length := by
  cases huser : p.userInfo with
  | none =>
      rw [h.span_of_no_user huser, UriParts.authority, List.length_append, List.length_append]
      omega
  | some u =>
      have htext : p.authority ++ p.pathText =
          u ++ ch '@' :: (p.host ++ piece (ch ':') p.port ++ p.pathText) := by
        rw [UriParts.authority, UriParts.userText, huser, List.append_assoc, List.append_assoc]
        rfl
      have hlength : u.length ≤ p.authority.length := by
        rw [UriParts.authority, UriParts.userText, huser, List.length_append, List.length_append]
        omega
      rw [UriParts.span, htext]
      exact (spanHost_append_le (stopAt_at _)
        (fun hmem => h.userInfo u huser _ hmem (by decide))).trans hlength

/-- The memory that the authority is looked for in. -/
def UriParts.cutMemory (p : UriParts) : List Octet :=
  0 :: ascii "//" ++ ((p.authority ++ p.pathText) ++
    (piece 0 p.query ++ (piece 0 p.fragment ++ [0])))

theorem memChr_path (h : p.Composable) :
    memChr p.cutMemory (3 + p.span) (ch '/') = p.path.map fun _ => 3 + p.authority.length := by
  set before := 0 :: ascii "//" ++ p.authority.take p.span with hbefore
  have hlength : before.length = 3 + p.span := by
    rw [hbefore, List.length_append, List.length_take, min_eq_left h.span_le]
    rfl
  have hmem : p.cutMemory = before ++ ((p.authority.drop p.span ++ p.pathText) ++
      (piece 0 p.query ++ (piece 0 p.fragment ++ [0]))) := by
    rw [UriParts.cutMemory, hbefore]
    conv_lhs => rw [← List.take_append_drop p.span p.authority]
    simp only [List.append_assoc]
  have hslash : ch '/' ∉ p.authority.drop p.span := fun hc =>
    h.notMem_authority (by decide) (List.drop_subset _ _ hc)
  have hnul : 0 ∉ p.authority.drop p.span ++ p.pathText := fun hc =>
    h.plain_hier.noNul ((List.mem_append.mp hc).elim
      (fun hc => List.mem_append_left _ (List.drop_subset _ _ hc)) (List.mem_append_right _))
  have hended : Ended (piece 0 p.query ++ (piece 0 p.fragment ++ [0])) :=
    ended_piece (ended_piece ended_nul _) _
  rw [hmem, ← hlength]
  cases hpath : p.path with
  | none =>
      have htext : p.pathText = [] := by rw [UriParts.pathText, hpath]; rfl
      rw [htext, List.append_nil] at hnul ⊢
      exact memChr_of_notMem before hnul hended hslash
  | some s =>
      obtain ⟨r, rfl⟩ := List.head?_eq_some_iff.mp (h.path s hpath).1
      have htext : p.pathText = ch '/' :: r := by rw [UriParts.pathText, hpath]; rfl
      have hplace : before.length + (p.authority.drop p.span).length = 3 + p.authority.length := by
        have hle := h.span_le
        rw [hlength, List.length_drop]
        omega
      rw [htext] at hnul ⊢
      rw [memChr_append before hnul hended hslash, hplace]
      rfl

theorem uriPath_parts (h : p.Composable) :
    uriPath (p.scan p.cutMemory none none none none) 3 p.span =
      (p.scan (p.front ++ (p.authority ++ p.behind)) none none none
        (p.path.map fun _ => 3 + p.authority.length), p.front.length) := by
  have hfound : memChr (p.scan p.cutMemory none none none none).mem (3 + p.span) (ch '/') =
      p.path.map fun _ => 3 + p.authority.length := memChr_path h
  rw [uriPath, hfound]
  cases hpath : p.path with
  | none =>
      have hmem : p.cutMemory = p.front ++ (p.authority ++ p.behind) := by
        rw [UriParts.cutMemory, UriParts.front, UriParts.behind, UriParts.pathText, hpath]
        simp only [piece, Option.getD_none, List.append_nil, List.nil_append]
      rw [Option.map_none, hmem, UriParts.front, hpath]
      rfl
  | some s =>
      have hmem : memShift p.cutMemory (3 + p.authority.length) =
          p.front ++ (p.authority ++ p.behind) := by
        have hauthority : 3 + p.authority.length = (0 :: ascii "//" ++ p.authority).length := by
          rw [List.length_append]
          rfl
        rw [UriParts.cutMemory, List.append_assoc p.authority,
          ← List.append_assoc (0 :: ascii "//"),
          memShift, hauthority, List.take_left, List.drop_left, UriParts.front, UriParts.behind,
          UriParts.pathText, hpath]
        simp only [piece, Option.getD_some, List.cons_append, List.tail_cons, List.append_assoc]
      rw [Option.map_some]
      dsimp only
      rw [p.scan_mem, hmem, UriParts.front, hpath]
      rfl

theorem uriUserInfo_parts (h : p.Composable) (path : Option Nat) :
    uriUserInfo (p.scan (p.front ++ (p.authority ++ p.behind)) none none none path) p.front.length =
      (p.scan (p.hostFront ++ p.memory) (p.userInfo.map fun _ => p.front.length) none none path,
        p.hostFront.length) := by
  have hnul : 0 ∉ p.authority := fun hc => h.plain_hier.noNul (List.mem_append_left _ hc)
  cases huser : p.userInfo with
  | none =>
      have hauthority : p.authority = p.host ++ piece (ch ':') p.port := by
        rw [UriParts.authority, UriParts.userText, huser, List.nil_append]
      have hfound : memChr (p.front ++ (p.authority ++ p.behind)) p.front.length (ch '@') = none :=
        memChr_of_notMem p.front hnul p.behind_ended (hauthority ▸ h.at_notMem)
      have hmem : p.front ++ (p.authority ++ p.behind) = p.hostFront ++ p.memory := by
        rw [UriParts.hostFront, UriParts.userPart, UriParts.memory, huser, hauthority,
          List.append_nil,
          List.append_assoc]
      have hlength : p.front.length = p.hostFront.length := by
        rw [UriParts.hostFront, UriParts.userPart, huser, List.append_nil]
      rw [hmem, hlength] at hfound ⊢
      rw [uriUserInfo, p.scan_mem, hfound]
      rfl
  | some u =>
      have hauthority : p.authority = u ++ ch '@' :: (p.host ++ piece (ch ':') p.port) := by
        rw [UriParts.authority, UriParts.userText, huser, List.append_assoc]
        rfl
      have hat : ch '@' ∉ u := fun hc => h.userInfo u huser _ hc (by decide)
      have hfound : memChr (p.front ++ (p.authority ++ p.behind)) p.front.length (ch '@') =
          some (p.front.length + u.length) := by
        rw [hauthority] at hnul ⊢
        exact memChr_append p.front hnul p.behind_ended hat
      have hset : (p.front ++ (p.authority ++ p.behind)).set (p.front.length + u.length) 0 =
          p.hostFront ++ p.memory := by
        rw [hauthority, List.append_assoc, List.cons_append, set_append, UriParts.hostFront,
          UriParts.userPart, huser, UriParts.memory]
        simp only [List.append_assoc, List.cons_append, List.nil_append]
      have hlength : p.front.length + u.length + 1 = p.hostFront.length := by
        rw [UriParts.hostFront, UriParts.userPart, huser, List.length_append, List.length_append]
        rfl
      rw [uriUserInfo, p.scan_mem, hfound]
      dsimp only
      rw [hset, hlength]
      rfl

/-! ### The host and the port -/

theorem length_memText_le {mem : List Octet} {offset k : Nat} (h : mem[offset + k]? = some 0) :
    (memText mem offset).length ≤ k := by
  by_contra hlong
  have hget : (memText mem offset)[k]? = (mem.drop offset)[k]? := by
    obtain ⟨t, ht⟩ : memText mem offset <+: mem.drop offset := List.takeWhile_prefix _
    rw [← ht, List.getElem?_append_left (Nat.not_le.mp hlong)]
  rw [List.getElem?_drop, h] at hget
  have hmem := List.mem_takeWhile_imp (List.mem_of_getElem? hget)
  exact absurd hmem (by decide)

theorem mem_memText {c : Octet} {s : List Octet} (X Y : List Octet) (hs : 0 ∉ s) (hc : c ≠ 0) :
    c ∈ memText (X ++ (s ++ c :: Y)) X.length := by
  have hall : ∀ x ∈ s ++ [c], decide (x ≠ 0) = true := by
    intro x hx
    rw [decide_eq_true_eq]
    rintro rfl
    rcases List.mem_append.mp hx with hx | hx
    · exact hs hx
    · exact hc (List.mem_singleton.mp hx).symm
  have hsplit : s ++ c :: Y = (s ++ [c]) ++ Y := by rw [List.append_assoc, List.singleton_append]
  rw [memText, List.drop_left, hsplit, List.takeWhile_append_of_pos hall]
  exact List.mem_append_left _ (List.mem_append_right _ (List.mem_singleton.mpr rfl))

theorem colon_mem_brackets {self : UriScan} {host X Y : List Octet} {span : Nat} (hne : host ≠ [])
    (hnul : 0 ∉ host) (hmem : self.mem = X ++ (host ++ ch ':' :: Y)) (hspan : host.length < span) :
    ∃ t, (uriBrackets self X.length span).hostText = some t ∧ ch ':' ∈ t := by
  rw [uriBrackets, hmem]
  by_cases hbracket : peek ((X ++ (host ++ ch ':' :: Y)).drop X.length) = ch '[' ∧
      peek ((X ++ (host ++ ch ':' :: Y)).drop (X.length + span - 1)) = ch ']'
  · rw [if_pos hbracket]
    obtain ⟨x, host, rfl⟩ := List.exists_cons_of_ne_nil hne
    have hplace : X.length + span - 1 =
        (X ++ (x :: host)).length + (span - 1 - (x :: host).length) := by
      rw [List.length_append]
      omega
    cases hgap : span - 1 - (x :: host).length with
    | zero =>
        rw [hplace, hgap, Nat.add_zero, ← List.append_assoc, List.drop_left] at hbracket
        exact absurd hbracket.2 (by rw [peek_cons]; decide)
    | succ gap =>
        have hset : (X ++ (x :: host ++ ch ':' :: Y)).set (X.length + span - 1) 0 =
            (X ++ [x]) ++ (host ++ ch ':' :: Y.set gap 0) := by
          rw [hplace, hgap, ← List.append_assoc, List.set_append_right _ _ (Nat.le_add_right _ _),
            Nat.add_sub_cancel_left, List.set_cons_succ, List.append_assoc, List.append_assoc]
          rfl
        refine ⟨_, rfl, ?_⟩
        have hcolon := mem_memText (X ++ [x]) (Y.set gap 0)
          (fun hmem => hnul (List.mem_cons_of_mem _ hmem)) (show ch ':' ≠ 0 by decide)
        rw [List.length_append] at hcolon
        rw [hset]
        exact hcolon
  · rw [if_neg hbracket]
    exact ⟨_, rfl, mem_memText X Y hnul (by decide)⟩

theorem length_brackets_lt {self : UriScan} {host X r : List Octet} {span : Nat} (hne : host ≠ [])
    (hended : Ended r) (hmem : self.mem = X ++ (host ++ r))
    (hbracket : peek (self.mem.drop X.length) = ch '[' ∧
      peek (self.mem.drop (X.length + span - 1)) = ch ']') :
    ∃ t, (uriBrackets self X.length span).hostText = some t ∧ t.length < host.length := by
  rw [uriBrackets, if_pos hbracket]
  refine ⟨_, rfl, ?_⟩
  obtain ⟨w, rfl⟩ := hended
  have hpos := List.length_pos_of_ne_nil hne
  have hend : (self.mem.set (X.length + span - 1) 0)[X.length + 1 + (host.length - 1)]? =
      some 0 := by
    have hplace : X.length + 1 + (host.length - 1) = X.length + host.length := by omega
    have hnul : self.mem[X.length + host.length]? = some 0 := by
      rw [hmem, List.getElem?_append_right (Nat.le_add_right _ _), Nat.add_sub_cancel_left,
        List.getElem?_append_right (le_refl _), Nat.sub_self, List.getElem?_cons_zero]
    rw [hplace, List.getElem?_set]
    split
    · rename_i heq
      rw [heq, if_pos (List.getElem?_eq_some_iff.mp hnul).1]
    · exact hnul
  exact (length_memText_le hend).trans_lt (by omega)

/-- The state in which all parts are found. -/
def UriParts.found (p : UriParts) : UriScan :=
  p.scan (p.hostFront ++ (p.host ++ (piece 0 p.port ++ p.behind)))
    (p.userInfo.map fun _ => p.front.length) (some (.place p.hostFront.length))
    (p.port.map fun _ => p.hostFront.length + p.host.length + 1)
    (p.path.map fun _ => 3 + p.authority.length)

theorem UriParts.length_before_query (p : UriParts) :
    (p.hostFront ++ p.host ++ piece 0 p.port ++ piece 0 p.path).length =
      3 + (p.authority ++ p.pathText).length := by
  have huser : p.userPart.length = p.userText.length := by
    rw [UriParts.userPart, UriParts.userText]
    cases p.userInfo <;> simp
  have hport : (piece 0 p.port).length = (piece (ch ':') p.port).length := by
    cases p.port <;> rfl
  have hpath : p.front.length + (piece 0 p.path).length = 3 + p.pathText.length := by
    rw [UriParts.front, UriParts.pathText]
    cases p.path with
    | none => rfl
    | some s =>
        change 2 + (s.length + 1) = 3 + s.length
        omega
  simp only [UriParts.hostFront, UriParts.authority, List.length_append, huser, hport]
  omega

theorem UriParts.length_before_path (p : UriParts) {s : List Octet} (hpath : p.path = some s) :
    (p.hostFront ++ p.host ++ piece 0 p.port).length + 1 = 3 + p.authority.length := by
  have hquery := p.length_before_query
  have htext : p.pathText = s := by rw [UriParts.pathText, hpath, Option.getD_some]
  have hpiece : (piece 0 p.path).length = s.length + 1 := by rw [hpath, piece, List.length_cons]
  have hsum : (p.authority ++ s).length = p.authority.length + s.length := List.length_append
  rw [htext, List.length_append, hpiece, hsum] at hquery
  omega

theorem finish_found (h : p.Composable) : p.found.finish p.text = p.uri := by
  have hbehind := p.behind_ended
  have hended : Ended (piece 0 p.query ++ (piece 0 p.fragment ++ [0])) :=
    ended_piece (ended_piece ended_nul _) _
  have hmem : p.found.mem = p.hostFront ++ (p.host ++ (piece 0 p.port ++ p.behind)) := rfl
  have hdecoded : memText (p.text ++ [0]) 0 = p.text := memText_append [] h.plain.noNul ended_nul
  have hinfo : memText (p.text ++ [0]) (p.scheme.length + 1) =
      p.text.drop (p.scheme.length + 1) := by
    have hsplit : p.text = p.scheme ++ [ch ':'] ++ (ascii "//" ++ p.rest) := by
      rw [UriParts.text_eq, List.append_assoc]
      rfl
    have hlength : p.scheme.length + 1 = (p.scheme ++ [ch ':']).length := by
      rw [List.length_append]
      rfl
    have hnul : 0 ∉ ascii "//" ++ p.rest := fun hc =>
      h.plain.noNul (hsplit ▸ List.mem_append_right _ hc)
    rw [hlength, hsplit, List.drop_left, List.append_assoc (p.scheme ++ [ch ':'])]
    exact memText_append _ hnul ended_nul
  have huser : (p.userInfo.map fun _ => p.front.length).map (memText p.found.mem) = p.userInfo := by
    cases hu : p.userInfo with
    | none => rfl
    | some u =>
        have hfront : p.found.mem =
            p.front ++ (u ++ (0 :: (p.host ++ (piece 0 p.port ++ p.behind)))) := by
          rw [hmem, UriParts.hostFront, UriParts.userPart, hu]
          simp only [List.append_assoc, List.cons_append, List.nil_append]
        rw [hfront, Option.map_some, Option.map_some,
          memText_append _ (h.plain_user u hu).noNul ⟨_, rfl⟩]
  have hhost : memText p.found.mem p.hostFront.length = p.host :=
    memText_append _ h.plain_host.noNul (ended_piece hbehind _)
  have hport : (p.port.map fun _ => p.hostFront.length + p.host.length + 1).map
      (memText p.found.mem) = p.port := by
    have hread := memText_piece (p.hostFront ++ p.host)
      (fun q hq => (h.plain_port q hq).noNul) hbehind
    rw [List.length_append, List.append_assoc] at hread
    exact hread
  have hpath : (p.path.map fun _ => 3 + p.authority.length).map (memText p.found.mem) = p.path := by
    have hread := memText_piece (p.hostFront ++ p.host ++ piece 0 p.port)
      (fun s hs => (h.plain_path s hs).noNul) hended
    have hoffset : (p.path.map fun _ => 3 + p.authority.length) =
        p.path.map fun _ => (p.hostFront ++ p.host ++ piece 0 p.port).length + 1 :=
      Option.map_congr fun s hs => (p.length_before_path hs).symm
    rw [← UriParts.behind, List.append_assoc, List.append_assoc] at hread
    rw [hoffset]
    exact hread
  have hquery : (p.query.map fun _ => 3 + (p.authority ++ p.pathText).length + 1).map
      (memText p.found.mem) = p.query := by
    have hread := memText_piece (p.hostFront ++ p.host ++ piece 0 p.port ++ piece 0 p.path)
      (fun q hq => (h.plain_query q hq).noNul) (ended_piece ended_nul p.fragment)
    rw [p.length_before_query, List.append_assoc, List.append_assoc, List.append_assoc,
      ← UriParts.behind] at hread
    exact hread
  have hfragment : (p.fragment.map fun _ =>
      3 + (p.authority ++ p.pathText).length + (piece 0 p.query).length + 1).map
        (memText p.found.mem) = p.fragment := by
    have hread := memText_piece
      (p.hostFront ++ p.host ++ piece 0 p.port ++ piece 0 p.path ++ piece 0 p.query)
      (fun q hq => (h.plain_fragment q hq).noNul) ended_nul
    rw [List.length_append, p.length_before_query, List.append_assoc, List.append_assoc,
      List.append_assoc, List.append_assoc, ← UriParts.behind] at hread
    exact hread
  rw [UriScan.finish, UriParts.uri, Uri.mk.injEq]
  exact ⟨rfl, hdecoded, rfl, congrArg some hinfo, huser, congrArg some hhost, hport, hpath, hquery,
    hfragment⟩

/-- A port that the parser accepts: a positive number that is not negative as an `int`. -/
def UriParts.PortAccepted (p : UriParts) : Prop :=
  ∀ q ∈ p.port, 0 ≤ uriGetSchemePort (some q) none none

/-- The host is looked at between brackets where the span puts their ends. -/
def UriParts.Bracketed (p : UriParts) : Prop :=
  peek p.host = ch '[' ∧ peek (p.memory.drop (p.span - 1)) = ch ']'

/-- The span is that of the host where a port follows. Where none does, it ends in the memory, and
not at a colon. -/
def UriParts.SpanFits (p : UriParts) : Prop :=
  match p.port with
  | some _ => p.span = p.host.length
  | none => p.span < p.memory.length ∧ peek (p.memory.drop p.span) ≠ ch ':'

/-- The end of the parser. -/
def UriParts.result (p : UriParts) (parsed : Option UriScan) : Option Uri :=
  parsed.bind fun self => if self.complete then some (self.finish p.text) else none

theorem hostText_of_result {parsed : Option UriScan} (hresult : p.result parsed = some p.uri) :
    ∃ self, parsed = some self ∧ self.hostText = some p.host ∧
      self.port.map (memText self.mem) = p.port := by
  cases parsed with
  | none => cases hresult
  | some self =>
      refine ⟨self, rfl, ?_⟩
      rw [UriParts.result, Option.bind_some] at hresult
      split at hresult
      · have huri := Option.some.inj hresult
        exact ⟨congrArg Uri.host huri, congrArg Uri.port huri⟩
      · cases hresult

theorem schemePort_found (h : p.Composable) :
    p.found.schemePort = uriGetSchemePort p.port (some p.scheme) (some p.host) := by
  have huri := finish_found h
  have hport : p.found.port.map (memText p.found.mem) = p.port := congrArg Uri.port huri
  have hhost : p.found.hostText = some p.host := congrArg Uri.host huri
  rw [UriScan.schemePort, hport, hhost]
  rfl

theorem result_found_iff (h : p.Composable) :
    p.result (some p.found) = some p.uri ↔ p.PortAccepted := by
  have hcomplete : p.found.complete = true ↔ p.PortAccepted := by
    rw [UriScan.complete, schemePort_found h, UriParts.PortAccepted]
    cases hport : p.port with
    | none =>
        have hpos : 0 < uriGetSchemePort none (some p.scheme) (some p.host) :=
            h.schemeName.2.2.2.2.2.2
        refine iff_of_true ?_ (fun q hq => nomatch hq)
        rw [decide_eq_true hpos, decide_eq_false hpos.ne']
        rfl
    | some q =>
        have hvalue : uriGetSchemePort (some q) (some p.scheme) (some p.host) =
            uriGetSchemePort (some q) none none := rfl
        have hscheme : p.found.scheme.isSome = true := rfl
        have hhost : p.found.host.isSome = true := rfl
        rw [hvalue, hscheme, hhost, Bool.true_and, Bool.and_true, Bool.or_eq_true,
          decide_eq_true_eq,
          decide_eq_true_eq]
        constructor
        · rintro hv r ⟨⟩
          omega
        · intro hv
          have := hv q rfl
          omega
  rw [UriParts.result, Option.bind_some]
  by_cases hdone : p.found.complete = true
  · rw [if_pos hdone, finish_found h]
    exact iff_of_true rfl (hcomplete.mp hdone)
  · rw [if_neg hdone]
    exact iff_of_false nofun (mt hcomplete.mpr hdone)

theorem result_brackets_iff (h : p.Composable)
    {self : UriScan} (hself : { self with host := some (.place p.hostFront.length) } = p.found)
    (hspan : (peek (self.mem.drop p.hostFront.length) = ch '[' ∧
      peek (self.mem.drop (p.hostFront.length + p.span - 1)) = ch ']') ↔ p.Bracketed) :
    p.result (some (uriBrackets self p.hostFront.length p.span)) = some p.uri ↔
      p.PortAccepted ∧ ¬ p.Bracketed := by
  have hmem : self.mem = p.hostFront ++ (p.host ++ (piece 0 p.port ++ p.behind)) :=
    congrArg UriScan.mem hself
  by_cases hbracket : p.Bracketed
  · refine iff_of_false (fun hresult => ?_) (fun hand => hand.2 hbracket)
    obtain ⟨t, ht, hlt⟩ := length_brackets_lt h.host_ne (ended_piece p.behind_ended p.port) hmem
      (hspan.mpr hbracket)
    obtain ⟨self', heq, hhost, -⟩ := hostText_of_result hresult
    rw [← Option.some.inj heq, ht] at hhost
    rw [Option.some.inj hhost] at hlt
    exact Nat.lt_irrefl _ hlt
  · rw [and_iff_left hbracket, uriBrackets, if_neg (mt hspan.mp hbracket), hself]
    exact result_found_iff h

/-- The state in which the host is looked at. -/
def UriParts.opened (p : UriParts) : UriScan :=
  p.scan (p.hostFront ++ p.memory) (p.userInfo.map fun _ => p.front.length) none none
    (p.path.map fun _ => 3 + p.authority.length)

theorem drop_hostFront (p : UriParts) (r : List Octet) (k : Nat) :
    (p.hostFront ++ r).drop (p.hostFront.length + k) = r.drop k := by
  rw [← List.drop_drop, List.drop_left]

theorem drop_before_host (p : UriParts) (r : List Octet) (hpos : 0 < p.span) :
    (p.hostFront ++ r).drop (p.hostFront.length + p.span - 1) = r.drop (p.span - 1) := by
  rw [Nat.add_sub_assoc hpos, drop_hostFront]

/-- The state in which a colon has been found at the end of the span. -/
def UriParts.cutPort (p : UriParts) : UriScan :=
  { p.opened with
    mem := (p.hostFront ++ p.memory).set (p.hostFront.length + p.span) 0
    port := some (p.hostFront.length + p.span + 1) }

theorem uriHostPort_ends_iff (p : UriParts) {Q : Option UriScan → Prop} :
    (uriHostPort p.opened p.hostFront.length p.span).Ends Q ↔
      p.span < p.memory.length ∧
        if peek (p.memory.drop p.span) = ch ':' then
          Q (if p.cutPort.schemePort = -1 then none
            else some (uriBrackets p.cutPort p.hostFront.length p.span))
        else Q (some (uriBrackets p.opened p.hostFront.length p.span)) := by
  have hmem : p.opened.mem = p.hostFront ++ p.memory := rfl
  rw [uriHostPort, hmem, drop_hostFront]
  by_cases hin : p.span < p.memory.length
  · have hload : (⟨(p.hostFront.length : Int) + p.span, 1, (p.hostFront ++ p.memory).length⟩ :
        Access).InBounds := by
      rw [Access.InBounds, List.length_append]
      dsimp only
      omega
    rw [(yields_load hload _).bind_ends_iff, and_iff_right hin]
    by_cases hcolon : peek (p.memory.drop p.span) = ch ':'
    · rw [if_pos hcolon, if_pos hcolon, ← UriParts.cutPort]
      by_cases hvalue : p.cutPort.schemePort = -1
      · rw [if_pos hvalue, if_pos hvalue, ends_pure]
      · rw [if_neg hvalue, if_neg hvalue, ends_pure]
    · rw [if_neg hcolon, if_neg hcolon, ends_pure]
  · refine iff_of_false (fun hends => ?_) (fun hand => hin hand.1)
    rw [ends_bind] at hends
    have hload := (inBounds_load _ _).mp hends.1
    rw [Access.InBounds, List.length_append] at hload
    dsimp only at hload
    omega

theorem bracketed_iff (h : p.Composable) (hpos : 0 < p.span) {r : List Octet}
    (hr : p.host ++ r = p.memory ∨ p.span = p.host.length) :
    (peek ((p.hostFront ++ (p.host ++ r)).drop p.hostFront.length) = ch '[' ∧
      peek ((p.hostFront ++ (p.host ++ r)).drop (p.hostFront.length + p.span - 1)) = ch ']') ↔
        p.Bracketed := by
  have hpeek : ∀ r, peek (p.host ++ r) = peek p.host := by
    intro r
    obtain ⟨x, host, hhost⟩ := List.exists_cons_of_ne_nil h.host_ne
    rw [hhost]
    rfl
  have hlast : ∀ r, p.span = p.host.length →
      peek ((p.host ++ r).drop (p.span - 1)) = peek (p.host.drop (p.span - 1)) := by
    intro r hspan
    obtain ⟨x, last, hlast⟩ : ∃ x last, p.host.drop (p.span - 1) = x :: last :=
      List.exists_cons_of_length_pos (by rw [List.length_drop]; omega)
    rw [List.drop_append_of_le_length (by omega), hlast]
    rfl
  rw [drop_before_host p _ hpos, List.drop_left, hpeek, UriParts.Bracketed]
  rcases hr with hr | hspan
  · rw [hr]
  · rw [hlast r hspan, UriParts.memory, hlast _ hspan]

theorem hostPort_none_iff (h : p.Composable) (hpos : 0 < p.span) (hport : p.port = none) :
    (uriHostPort p.opened p.hostFront.length p.span).Ends (fun r => p.result r = some p.uri) ↔
      p.SpanFits ∧ p.PortAccepted ∧ ¬ p.Bracketed := by
  have hmemory : p.host ++ (piece 0 p.port ++ p.behind) = p.memory := by
    rw [UriParts.memory, hport]
    rfl
  rw [uriHostPort_ends_iff, UriParts.SpanFits, hport, and_assoc]
  refine and_congr_right fun _ => ?_
  by_cases hcolon : peek (p.memory.drop p.span) = ch ':'
  · rw [if_pos hcolon]
    refine iff_of_false (fun hresult => ?_) (fun hand => hand.1 hcolon)
    obtain ⟨self, hself, -, htext⟩ := hostText_of_result hresult
    split at hself
    · cases hself
    · rw [hport, Option.map_eq_none_iff, ← Option.some.inj hself, uriBrackets] at htext
      split at htext <;> cases htext
  · rw [if_neg hcolon, and_iff_right hcolon]
    refine result_brackets_iff h ?_ ?_
    · rw [UriParts.found, hmemory, hport, Option.map_none, UriParts.opened]
      rfl
    · exact bracketed_iff h hpos (.inl rfl)

/-- A host that a port follows. -/
theorem hostPort_some_iff (h : p.Composable) (hpos : 0 < p.span) {q : List Octet}
    (hport : p.port = some q) :
    (uriHostPort p.opened p.hostFront.length p.span).Ends (fun r => p.result r = some p.uri) ↔
      p.SpanFits ∧ p.PortAccepted ∧ ¬ p.Bracketed := by
  have hmemory : p.memory = p.host ++ ch ':' :: (q ++ p.behind) := by
    rw [UriParts.memory, hport]
    rfl
  have hcolonHost : ch ':' ∉ p.host := fun hmem => h.host _ hmem (by decide)
  have hfits : p.SpanFits ↔ p.span = p.host.length := by rw [UriParts.SpanFits, hport]
  rw [uriHostPort_ends_iff, hfits]
  by_cases hspan : p.span = p.host.length
  · have hcolon : peek (p.memory.drop p.span) = ch ':' := by
      rw [hmemory, hspan, List.drop_left, peek_cons]
    have hin : p.span < p.memory.length := by
      rw [hmemory, hspan, List.length_append, List.length_cons]
      omega
    have hcut : p.cutPort.mem = p.hostFront ++ (p.host ++ (piece 0 p.port ++ p.behind)) := by
      rw [UriParts.cutPort, hmemory, hspan, hport]
      exact set_append p.hostFront p.host (q ++ p.behind)
    have hfound : { p.cutPort with host := some (.place p.hostFront.length) } = p.found := by
      rw [UriParts.found, hport, Option.map_some, ← hport, ← hcut, ← hspan]
      rfl
    have hvalue : p.cutPort.schemePort = uriGetSchemePort (some q) none none := by
      have hport' : p.cutPort.port.map (memText p.cutPort.mem) = some q := by
        have huri := finish_found h
        have hfoundPort : p.found.port.map (memText p.found.mem) = p.port := congrArg Uri.port huri
        rw [← hfound, hport] at hfoundPort
        exact hfoundPort
      rw [UriScan.schemePort, hport']
      rfl
    rw [and_iff_right hin, if_pos hcolon, and_iff_right hspan, hvalue]
    by_cases hminus : uriGetSchemePort (some q) none none = -1
    · rw [if_pos hminus]
      refine iff_of_false nofun fun hand => ?_
      have haccepted := hand.1 q hport
      omega
    · rw [if_neg hminus]
      refine result_brackets_iff h hfound ?_
      rw [hcut]
      exact bracketed_iff h hpos (.inr hspan)
  · refine iff_of_false (fun hand => ?_) (fun hand => hspan hand.1)
    obtain ⟨-, hresult⟩ := hand
    split at hresult
    · rename_i hcolon
      obtain ⟨self, hself, hhost, -⟩ := hostText_of_result hresult
      split at hself
      · cases hself
      · have hlt : p.host.length < p.span := by
          refine lt_of_le_of_ne (Nat.not_lt.mp fun hshort => hcolonHost ?_) (Ne.symm hspan)
          rw [hmemory, List.drop_append_of_le_length hshort.le] at hcolon
          obtain ⟨x, rest, hrest⟩ : ∃ x rest, p.host.drop p.span = x :: rest :=
            List.exists_cons_of_length_pos (by rw [List.length_drop]; omega)
          rw [hrest, List.cons_append, peek_cons] at hcolon
          have hmem : ch ':' ∈ p.host.drop p.span := by
            rw [hrest, hcolon]
            exact List.mem_cons_self
          exact List.drop_subset _ _ hmem
        have hcut : p.cutPort.mem = p.hostFront ++
            (p.host ++ ch ':' :: (q ++ p.behind).set (p.span - p.host.length - 1) 0) := by
          rw [UriParts.cutPort, hmemory]
          dsimp only
          rw [List.set_append_right _ _ (Nat.le_add_right _ _), Nat.add_sub_cancel_left,
            List.set_append_right _ _ hlt.le,
            show p.span - p.host.length = p.span - p.host.length - 1 + 1 by omega,
              List.set_cons_succ]
          rfl
        obtain ⟨t, ht, hmem⟩ := colon_mem_brackets h.host_ne h.plain_host.noNul hcut hlt
        rw [← Option.some.inj hself, ht] at hhost
        exact hcolonHost (Option.some.inj hhost ▸ hmem)
    · obtain ⟨self, hself, -, htext⟩ := hostText_of_result hresult
      rw [hport, ← Option.some.inj hself, uriBrackets] at htext
      split at htext <;> cases htext

/-! ### Whole URIs -/

theorem uriAuthority_parts (h : p.Composable) :
    (uriAuthority (p.scan p.cutMemory none none none none) 3).Ends
        (fun r => p.result r = some p.uri) ↔
      0 < p.span ∧ p.SpanFits ∧ p.PortAccepted ∧ ¬ p.Bracketed := by
  have hended : Ended (piece 0 p.query ++ (piece 0 p.fragment ++ [0])) :=
    ended_piece (ended_piece ended_nul _) _
  have hdecode : memDecode p.cutMemory 3 = p.cutMemory :=
    memDecode_plain (0 :: ascii "//") h.plain_hier hended
  have htext : memText p.cutMemory 3 = p.authority ++ p.pathText :=
    memText_append (0 :: ascii "//") h.plain_hier.noNul hended
  have hself : ({ p.scan p.cutMemory none none none none with mem := p.cutMemory } : UriScan) =
      p.scan p.cutMemory none none none none := rfl
  rw [uriAuthority, p.scan_mem, hdecode, hself, p.scan_mem, htext, ← UriParts.span]
  by_cases hpos : 0 < p.span
  · rw [if_pos hpos, uriPath_parts h]
    dsimp only
    rw [uriUserInfo_parts h, ← UriParts.opened, and_iff_right hpos]
    cases hport : p.port with
    | none => exact hostPort_none_iff h hpos hport
    | some q => exact hostPort_some_iff h hpos hport
  · rw [if_neg hpos]
    refine iff_of_false (fun hends => ?_) (fun hand => hpos hand.1)
    have hfile : (p.scan p.cutMemory none none none none).isFile = false := by
      rw [UriScan.isFile, UriParts.scan]
      exact decide_eq_false h.schemeName.2.2.2.2.2.1
    rw [hfile, if_neg Bool.false_ne_true, ends_pure] at hends
    obtain ⟨self, hself', hhost, -⟩ := hostText_of_result hends
    rw [← Option.some.inj hself'] at hhost
    cases hhost

theorem uriParts_text (h : p.Composable) (nthTld : Nat → List (List Octet)) (length : Nat)
    (minDots : Int) :
    uriParts nthTld (p.scan p.cutMemory none none none none) length minDots =
      uriAuthority (p.scan p.cutMemory none none none none) 3 := by
  have hended : Ended (piece 0 p.query ++ (piece 0 p.fragment ++ [0])) :=
    ended_piece (ended_piece ended_nul _) _
  have hnul : 0 ∉ ascii "//" ++ (p.authority ++ p.pathText) := by
    rw [List.mem_append, not_or]
    exact ⟨by decide, h.plain_hier.noNul⟩
  have htext : memText p.cutMemory 1 = ascii "//" ++ (p.authority ++ p.pathText) := by
    have hread := memText_append [0] hnul hended
    rw [List.append_assoc (ascii "//")] at hread
    exact hread
  have hslash : peek (ascii "//" ++ (p.authority ++ p.pathText)).tail = ch '/' := rfl
  rw [uriParts, p.scan_mem, htext, if_pos ⟨rfl, .inl hslash⟩, if_pos hslash]

theorem uriParse_parts (h : p.Composable) (nthTld : Nat → List (List Octet))
    (fresh : (n : Nat) → Buffer n) :
    (uriParse nthTld fresh p.text (-1)).Yields (some p.uri) ↔
      0 < p.span ∧ p.SpanFits ∧ p.PortAccepted ∧ ¬ p.Bracketed := by
  have hne : p.text.length ≠ 0 := by
    rw [UriParts.text_eq, List.length_append, List.length_cons]
    omega
  have htext : memText (p.text ++ [0]) 0 = p.text := memText_append [] h.plain.noNul ended_nul
  rw [Yields, uriParse, uriParse2, (uriLength_text h).bind_ends_iff, if_neg hne, List.take_length]
  dsimp only
  rw [memDecode_text h fresh, htext, octets_copy, uriScheme_text h,
    uriTrim_scheme rfl, uriCut_text h,
    ← UriParts.cutMemory, uriParts_text h, ends_bind]
  simp only [ends_pure]
  exact uriAuthority_parts h

/-- A URI that has been composed of its parts is parsed into these parts exactly if its port is
accepted, its host is not in brackets, and what is measured where the user information starts fits
the host. -/
theorem uriParse_composed_iff (nthTld : Nat → List (List Octet)) (fresh : (n : Nat) → Buffer n)
    (p : UriParts) (h : p.Composable) :
    (uriParse nthTld fresh p.text (-1)).Yields (some p.uri) ↔
      (p.userInfo = none ∨ 0 < p.span ∧ p.SpanFits) ∧ p.PortAccepted ∧ ¬ p.Bracketed := by
  rw [uriParse_parts h, ← and_assoc]
  refine and_congr_left fun _ => ?_
  constructor
  · exact .inr
  · rintro (huser | hfits)
    · have hspan := h.span_of_no_user huser
      refine ⟨hspan ▸ List.length_pos_of_ne_nil h.host_ne, ?_⟩
      rw [UriParts.SpanFits]
      cases hport : p.port with
      | some q => exact hspan
      | none =>
          obtain ⟨w, hw⟩ := p.behind_ended
          rw [UriParts.memory, hport, piece, List.nil_append, hspan, List.drop_left, hw,
            List.length_append, List.length_cons, peek_cons]
          exact ⟨by omega, by decide⟩
    · exact hfits

/-- The parts of a URI for a user at a host. -/
def userAtHost (host : List Octet) : UriParts :=
  ⟨ascii "http", some (ascii "user"), host, some (ascii "80"), some (ascii "/a"), some (ascii "b"),
    some (ascii "c")⟩

theorem composable_userAtHost {host : List Octet}
    (h : host ∈ [ascii "host", ascii "www.example.com"]) : (userAtHost host).Composable := by
  have hplain : ∀ host ∈ [ascii "host", ascii "www.example.com"],
      ∀ c ∈ (userAtHost host).text, c ≠ 0 ∧ c ≠ ch '%' ∧ c ≠ ch '+' := by decide
  have hdot : ∀ host ∈ [ascii "host", ascii "www.example.com"],
      (userAtHost host).text.getLast? ≠ some (ch '.') := by decide
  have hhost : ∀ host ∈ [ascii "host", ascii "www.example.com"], host ≠ [] ∧
      spanHost host 0 = host.length ∧ ∀ c ∈ host, c ∉ ascii ":/?#" := by decide
  exact {
    scheme := show ∃ t ∈ schemeTable, 0 < t.value ∧ ascii "http" = t.name by decide
    plain := hplain host h
    noDot := hdot host h
    userInfo := show ∀ u ∈ some (ascii "user"), ∀ c ∈ u, c ∉ ascii "@:/?#" by decide
    host_ne := (hhost host h).1
    host_full := (hhost host h).2.1
    host := (hhost host h).2.2
    port := show ∀ q ∈ some (ascii "80"), IsDigits 10 q by decide
    path := show ∀ s ∈ some (ascii "/a"), s.head? = some (ch '/') ∧
      ∀ c ∈ s, c ∉ ascii "?#" by decide
    query := show ∀ q ∈ some (ascii "b"), ch '#' ∉ q by decide }

theorem uriParse_userAtHost :
    (uriParse (fun _ => []) (fun n => .replicate n 0) (userAtHost (ascii "host")).text (-1)).Yields
      (some (userAtHost (ascii "host")).uri) :=
  (uriParse_composed_iff _ _ _ (composable_userAtHost (by decide))).mpr
    ⟨.inr ⟨by decide, show spanHost _ 0 = _ by decide⟩,
      show ∀ q ∈ some (ascii "80"), 0 ≤ uriGetSchemePort (some q) none none by decide,
      fun h => absurd h.1 (by decide)⟩

/-- The span of `user` is not that of `www.example.com`: the port stays at the host. -/
theorem uriParse_userAtExample : (userAtHost (ascii "www.example.com")).Composable ∧
    ¬ (uriParse (fun _ => []) (fun n => .replicate n 0)
      (userAtHost (ascii "www.example.com")).text (-1)).Yields
        (some (userAtHost (ascii "www.example.com")).uri) := by
  have hcomposable := composable_userAtHost (show ascii "www.example.com" ∈ _ by decide)
  refine ⟨hcomposable, fun h => ?_⟩
  have hfits := ((uriParse_parts hcomposable _ _).mp h).2.1
  have hspan : spanHost ((userAtHost (ascii "www.example.com")).authority ++ ascii "/a") 0 ≠
      (ascii "www.example.com").length := by decide
  exact hspan hfits

end Snert
