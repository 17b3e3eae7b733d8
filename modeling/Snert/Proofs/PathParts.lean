/-
Module: Snert.Proofs.PathParts
Purpose: How `parsePath` takes an address apart. The block behind the structure holds the address, and
  behind it the source route, the two halves of the local part and the domain, each in front of its
  NUL; a part that is not there shares the NUL before it. Put together again the parts are the
  address, unless the local part was split at a plus sign with nothing behind it.
Trusted boundary: none
Main exports: parsePath_lossless_iff
-/
import Snert.Lists.OctetBits
import Snert.Mail.ParsePath
import Snert.Proofs.FormatPathTruncation
import Snert.Proofs.InnerPathSpan

namespace Snert

open CModel CModel.Run Lists

/-! ### Spans stop in their string -/

theorem spanDomain_le (domain : List Octet) (minDots : Int) :
    spanDomain domain minDots ≤ domain.length := by
  unfold spanDomain
  split
  · exact Nat.zero_le _
  · split
    · exact Nat.zero_le _
    · exact Nat.sub_le _ _

theorem spanLocalPart_le (s : List Octet) : spanLocalPart s ≤ s.length := by
  unfold spanLocalPart
  dsimp only
  split
  · exact Nat.sub_le _ _
  · exact Nat.sub_le _ _

theorem spanSourceRoute_le (s : List Octet) : spanSourceRoute s ≤ s.length := by
  unfold spanSourceRoute
  split
  · exact Nat.zero_le _
  · exact Nat.sub_le _ _

/-! ### Strings in a block -/

section

variable {n : Nat} {block : Buffer n}

theorem get_of_octets {front rest : List Octet} (h : block.octets = front ++ rest) (i : Nat) :
    block.get (front.length + i) = rest.getD i 0 := by
  rw [Buffer.get, h, List.getD_eq_getElem?_getD, List.getElem?_append_right (Nat.le_add_right _ _),
    Nat.add_sub_cancel_left, ← List.getD_eq_getElem?_getD]

theorem getD_nul (s rest : List Octet) {i : Nat} (h : i ≤ s.length) :
    (s ++ 0 :: rest).getD i 0 = s.getD i 0 := by
  rw [List.getD_eq_getElem?_getD, List.getD_eq_getElem?_getD]
  rcases Nat.lt_or_eq_of_le h with hlt | heq
  · rw [List.getElem?_append_left hlt]
  · subst heq
    rw [List.getElem?_append_right (Nat.le_refl _), Nat.sub_self, List.getElem?_eq_none (Nat.le_refl _)]
    rfl

theorem stringAt_of_octets {front s rest : List Octet} (h : block.octets = front ++ (s ++ 0 :: rest))
    (hs : 0 ∉ s) : stringAt block front.length = s := by
  rw [stringAt, h, List.drop_left, List.takeWhile_append_of_pos]
  · simp
  · intro c hc
    simp only [ne_eq, decide_not, Bool.not_eq_eq_eq_not, Bool.not_true, decide_eq_false_iff_not]
    rintro rfl
    exact hs hc

theorem write_ends {front middle rest os : List Octet} (h : block.octets = front ++ (middle ++ rest))
    (hlen : os.length = middle.length) : (block.write (front.length : Nat) os).Ends fun b =>
      b.octets = front ++ (os ++ rest) := by
  have hn := block.length_octets
  rw [h, List.length_append, List.length_append] at hn
  refine (block.yields_write os (by omega)).ends_iff.mpr ?_
  rw [Buffer.octets_splice_append h (by rw [List.length_append]; omega), hlen, List.drop_left,
    List.append_assoc]

/-- A string that may be missing: it shares the NUL before it then. -/
def segment (s : List Octet) (present : Bool) : List Octet :=
  if present then s ++ [0] else []

theorem stringAt_segment {front s rest : List Octet} {present : Bool}
    (h : block.octets = front ++ 0 :: (segment s present ++ rest)) (hs : 0 ∉ s)
    (habsent : present = false → s = []) :
    stringAt block (front.length + present.toNat) = s := by
  cases present with
  | false =>
      rw [habsent rfl]
      exact stringAt_of_octets (s := []) h List.not_mem_nil
  | true =>
      have hoctets : block.octets = (front ++ [0]) ++ (s ++ 0 :: rest) := by
        rw [h, segment, if_pos rfl]
        simp
      have hat := stringAt_of_octets hoctets hs
      rwa [List.length_append] at hat

theorem textLower_ends {front s rest : List Octet} (h : block.octets = front ++ (s ++ 0 :: rest))
    (hs : 0 ∉ s) : (textLower block front.length).Ends fun b =>
      b.octets = front ++ (s.map tolower ++ 0 :: rest) := by
  unfold textLower
  rw [stringAt_of_octets h hs]
  exact write_ends h (List.length_map tolower)

theorem textLower_segment {front s rest : List Octet} {present : Bool}
    (h : block.octets = front ++ 0 :: (segment s present ++ rest)) (hs : 0 ∉ s)
    (habsent : present = false → s = []) :
    (textLower block (front.length + present.toNat)).Ends fun b =>
      b.octets = front ++ 0 :: (segment (s.map tolower) present ++ rest) := by
  cases present with
  | false =>
      have hends := textLower_ends (s := []) h List.not_mem_nil
      rw [habsent rfl]
      exact hends
  | true =>
      have hoctets : block.octets = (front ++ [0]) ++ (s ++ 0 :: rest) := by
        rw [h, segment, if_pos rfl]
        simp
      have hends := textLower_ends hoctets hs
      rw [List.length_append] at hends
      refine hends.mono fun b hb => ?_
      rw [hb, segment, if_pos rfl]
      simp

theorem strncpy_ends {front middle rest s : List Octet}
    (h : block.octets = front ++ (middle ++ rest)) {count : Nat} (hcount : count = middle.length)
    (hs : count ≤ s.length) : (strncpy block front.length s count).Ends fun b =>
      b.octets = front ++ (s.take count ++ rest) := by
  have hn := block.length_octets
  rw [h, List.length_append, List.length_append] at hn
  have hpad : min count n - s.length = 0 := by omega
  have htake : (s.take count).length = middle.length := by
    rw [List.length_take]
    omega
  unfold strncpy
  rw [hpad, List.replicate_zero, List.append_nil, ends_store]
  refine ⟨Access.inBounds_iff_le.mpr (by omega), ?_⟩
  rw [Buffer.octets_splice_append h (by rw [List.length_append]; omega), htake, List.drop_left,
    List.append_assoc]

end

/-! ### The parts of an address -/

/-- The parts of an address, as it is written. -/
structure AddressParts where
  route : List Octet
  localPart : List Octet
  behind : List Octet
deriving DecidableEq, Repr

namespace AddressParts

/-- The source route is there. -/
def hasRoute (parts : AddressParts) : Bool :=
  parts.route ≠ []

/-- An at sign stands behind the local part. -/
def qualified (parts : AddressParts) : Bool :=
  peek parts.behind = ch '@'

def domain (parts : AddressParts) : List Octet :=
  parts.behind.tail

/-- The local part up to its first plus sign, unless that is an octet as any other. -/
def left (parts : AddressParts) (flags : Nat) : List Octet :=
  if hasFlag flags STRICT_LITERAL_PLUS then parts.localPart
  else parts.localPart.takeWhile (· ∉ ascii "+")

/-- The local part is split at a plus sign. -/
def hasPlus (parts : AddressParts) (flags : Nat) : Bool :=
  (parts.left flags).length < parts.localPart.length

/-- The local part behind its first plus sign. -/
def right (parts : AddressParts) (flags : Nat) : List Octet :=
  parts.localPart.drop ((parts.left flags).length + 1)

end AddressParts

/-- Where the spans cut an address. -/
def partsOf (address : List Octet) : AddressParts :=
  let route := spanSourceRoute address
  let text := if 0 < route then address.drop (route + 1) else address
  ⟨address.take route, text.take (spanLocalPart text), text.drop (spanLocalPart text)⟩

section

variable {address : List Octet}

/-- The text behind the source route. -/
def AddressParts.text (parts : AddressParts) : List Octet :=
  parts.localPart ++ parts.behind

theorem partsOf_text (address : List Octet) : (partsOf address).text =
    if 0 < spanSourceRoute address then address.drop (spanSourceRoute address + 1) else address :=
  List.take_append_drop _ _

theorem hasRoute_partsOf (address : List Octet) : (partsOf address).hasRoute = true ↔
    0 < spanSourceRoute address := by
  have hle := spanSourceRoute_le address
  unfold AddressParts.hasRoute partsOf
  rw [decide_eq_true_eq, ne_eq, ← List.length_eq_zero_iff, List.length_take]
  omega

/-- The source route as it stands before the local part. -/
def AddressParts.routeText (parts : AddressParts) : List Octet :=
  if parts.hasRoute then parts.route ++ [ch ':'] else []

theorem partsOf_append (hcolon : 0 < spanSourceRoute address →
    address.getD (spanSourceRoute address) 0 = ch ':') :
    address = (partsOf address).routeText ++ (partsOf address).text := by
  rw [partsOf_text, AddressParts.routeText]
  by_cases hroute : 0 < spanSourceRoute address
  · have hget := hcolon hroute
    have hlt : spanSourceRoute address < address.length := by
      by_contra hge
      rw [List.getD_eq_getElem?_getD, List.getElem?_eq_none (Nat.le_of_not_lt hge)] at hget
      exact absurd hget (by decide)
    rw [List.getD_eq_getElem?_getD, List.getElem?_eq_getElem hlt] at hget
    have hdrop := List.drop_eq_getElem_cons hlt
    rw [show address[spanSourceRoute address] = ch ':' from hget] at hdrop
    rw [if_pos ((hasRoute_partsOf address).mpr hroute), if_pos hroute, partsOf,
      List.append_assoc, List.singleton_append, ← hdrop, List.take_append_drop]
  · rw [if_neg fun h => hroute ((hasRoute_partsOf address).mp h), if_neg hroute, List.nil_append]

theorem zero_not_mem_tolower {s : List Octet} (h : 0 ∉ s) : 0 ∉ s.map tolower := by
  rw [List.mem_map]
  rintro ⟨c, hc, hzero⟩
  exact h ((tolower_eq_zero_iff c).mp hzero ▸ hc)

/-! ### The steps of the split -/

variable {n : Nat} {block : Buffer n} {front : List Octet}

/-- What stands in the block before the local part. -/
def AddressParts.frontOf (parts : AddressParts) (front : List Octet) : List Octet :=
  front ++ 0 :: segment parts.route parts.hasRoute

/-- The source route of an address is cut off. -/
structure RouteCut (address front : List Octet) (cut : Buffer n × PathPart × Nat) : Prop where
  whole : address = (partsOf address).routeText ++ (partsOf address).text
  octets : cut.1.octets = (partsOf address).frontOf front ++ ((partsOf address).text ++ [0])
  part : cut.2.1 = ⟨front.length + (partsOf address).hasRoute.toNat, (partsOf address).route.length⟩
  localLeft : cut.2.2 = ((partsOf address).frontOf front).length

theorem splitSourceRoute_ends (h : block.octets = front ++ 0 :: (address ++ [0])) (hnul : 0 ∉ address) :
    (splitSourceRoute block (front.length + 1)).Ends fun r =>
      ∀ cut, r = some cut → RouteCut address front cut := by
  have hfront : (front ++ [0]).length = front.length + 1 := by simp
  have hoctets : block.octets = (front ++ [0]) ++ (address ++ 0 :: []) := by
    rw [h]
    simp
  have hstring : stringAt block (front.length + 1) = address := by
    rw [← hfront]
    exact stringAt_of_octets hoctets hnul
  unfold splitSourceRoute
  dsimp only
  rw [hstring]
  by_cases hroute : 0 < spanSourceRoute address
  · have hsome := (hasRoute_partsOf address).mpr hroute
    have hle := spanSourceRoute_le address
    rw [if_pos hroute, ← hfront, get_of_octets hoctets, getD_nul address [] hle]
    by_cases hcolon : address.getD (spanSourceRoute address) 0 = ch ':'
    · rw [if_neg (not_not.mpr hcolon)]
      have hwhole := partsOf_append fun _ => hcolon
      have hlen : (partsOf address).route.length = spanSourceRoute address := by
        rw [partsOf, List.length_take, Nat.min_eq_left hle]
      have hcut : block.octets = ((front ++ [0]) ++ (partsOf address).route) ++
          ([ch ':'] ++ ((partsOf address).text ++ [0])) := by
        rw [hoctets]
        conv_lhs => rw [hwhole, AddressParts.routeText, if_pos hsome]
        simp
      have hindex : (front ++ [0]).length + spanSourceRoute address =
          ((front ++ [0]) ++ (partsOf address).route).length := by
        simp only [List.length_append, hlen]
      have hwrite := write_ends hcut (show [(0 : Octet)].length = [ch ':'].length from rfl)
      rw [hindex]
      rw [ends_bind]
      refine hwrite.mono fun b hb => ends_pure.mpr fun cut hcut => ?_
      cases hcut
      constructor
      · exact hwhole
      · rw [hb, AddressParts.frontOf, segment, if_pos hsome]
        simp
      · rw [hsome, hlen, hfront]
        rfl
      · rw [AddressParts.frontOf, segment, if_pos hsome, hfront, ← hlen]
        simp only [List.length_append, List.length_cons, List.length_nil]
        omega
    · rw [if_pos hcolon, ends_pure]
      nofun
  · have hnone : (partsOf address).hasRoute = false := by
      rw [← Bool.not_eq_true, hasRoute_partsOf]
      exact hroute
    have hnil : (partsOf address).route = [] := by
      simpa [AddressParts.hasRoute] using hnone
    rw [if_neg hroute, ends_pure]
    intro cut hcut
    cases hcut
    constructor
    · exact partsOf_append fun hpos => absurd hpos hroute
    · rw [partsOf_text, if_neg hroute, AddressParts.frontOf, hnone, hoctets]
      rfl
    · rw [hnone, hnil]
      rfl
    · rw [AddressParts.frontOf, hnone, ← hfront]
      rfl

/-- The local part is cut off, and its left half measured. -/
structure LocalCut (front : List Octet) (parts : AddressParts) (flags : Nat) (s : LocalSplit n) :
    Prop where
  octets : s.block.octets = front ++ (parts.localPart ++ 0 :: (parts.behind ++ [0]).tail)
  localLength : s.localLength = parts.localPart.length
  leftLength : s.leftLength = (parts.left flags).length
  hasAtSign : s.hasAtSign = parts.qualified
  isUnqualified : s.isUnqualified = true → parts.behind = []

theorem splitLocalPart_ends {parts : AddressParts} {text : List Octet}
    (hcut : parts.localPart = text.take (spanLocalPart text))
    (hbehind : parts.behind = text.drop (spanLocalPart text)) (flags : Nat)
    (h : block.octets = front ++ (text ++ [0])) (hnul : 0 ∉ text) :
    (splitLocalPart block front.length flags).Ends (LocalCut front parts flags) := by
  have hstring : stringAt block front.length = text := stringAt_of_octets h hnul
  have hlen : parts.localPart.length = spanLocalPart text := by
    rw [hcut, List.length_take, Nat.min_eq_left (spanLocalPart_le text)]
  have htext : text = parts.localPart ++ parts.behind := by
    rw [hcut, hbehind, List.take_append_drop]
  have hlocalNul : 0 ∉ parts.localPart := fun hmem => hnul (htext ▸ List.mem_append_left _ hmem)
  have hoctets : block.octets = (front ++ parts.localPart) ++ (parts.behind ++ [0]) := by
    rw [h, htext]
    simp only [List.append_assoc]
  obtain ⟨c, tail, hc⟩ : ∃ c tail, parts.behind ++ [0] = c :: tail :=
    List.exists_cons_of_ne_nil (by simp)
  have hindex : front.length + spanLocalPart text = (front ++ parts.localPart).length := by
    rw [List.length_append, hlen]
  have hpeek : block.get (front ++ parts.localPart).length = peek parts.behind := by
    have hget := get_of_octets hoctets 0
    rw [Nat.add_zero] at hget
    rw [hget]
    cases parts.behind with
    | nil => rfl
    | cons d behind => rfl
  have hcons : block.octets = (front ++ parts.localPart) ++ ([c] ++ tail) := by
    rw [hoctets, hc]
    rfl
  have hwrite := write_ends hcons (show [(0 : Octet)].length = [c].length from rfl)
  unfold splitLocalPart
  dsimp only
  rw [hstring, hindex, ends_bind]
  refine hwrite.mono fun b hb => ends_pure.mpr ?_
  have hb' : b.octets = front ++ (parts.localPart ++ 0 :: tail) := by
    rw [hb]
    simp
  constructor
  · dsimp only
    rw [hb', hc]
    rfl
  · exact hlen.symm
  · dsimp only
    rw [stringAt_of_octets hb' hlocalNul, AddressParts.left]
    split
    · exact hlen.symm
    · rfl
  · dsimp only
    rw [hpeek]
    rfl
  · dsimp only
    rw [hpeek, decide_eq_true_eq]
    intro hzero
    cases hempty : parts.behind with
    | nil => rfl
    | cons d behind =>
        rw [hempty, peek_cons] at hzero
        rw [htext, hempty, hzero] at hnul
        exact absurd (List.mem_append_right _ List.mem_cons_self) hnul

theorem AddressParts.localPart_eq (parts : AddressParts) (flags : Nat) : parts.localPart =
    parts.left flags ++ if parts.hasPlus flags then ch '+' :: parts.right flags else [] := by
  have hsplit := List.takeWhile_append_dropWhile (p := fun c => decide (c ∉ ascii "+"))
    (l := parts.localPart)
  unfold hasPlus right left
  split
  · simp
  · cases hdrop : parts.localPart.dropWhile (fun c => decide (c ∉ ascii "+")) with
    | nil =>
        rw [hdrop, List.append_nil] at hsplit
        rw [hsplit]
        simp
    | cons c rest =>
        have hc : c = ch '+' := by
          have hhead := List.head?_dropWhile_not (fun c => decide (c ∉ ascii "+")) parts.localPart
          rw [hdrop] at hhead
          exact (by simpa using hhead : ch '+' = c).symm
        rw [hdrop, hc] at hsplit
        generalize parts.localPart.takeWhile (fun c => decide (c ∉ ascii "+")) = left at hsplit ⊢
        rw [← hsplit, if_pos (by simp), List.drop_append, List.drop_of_length_le (by omega)]
        simp

theorem AddressParts.behind_tail {parts : AddressParts}
    (h : parts.qualified = true ∨ parts.behind = []) :
    (parts.behind ++ [0]).tail = segment parts.domain parts.qualified := by
  cases hbehind : parts.behind with
  | nil =>
      have hnot : parts.qualified = false := by
        rw [AddressParts.qualified, hbehind]
        decide
      rw [hnot]
      rfl
  | cons c behind =>
      have hqualified : parts.qualified = true := h.resolve_right (by rw [hbehind]; nofun)
      rw [hqualified, AddressParts.domain, hbehind]
      rfl

theorem AddressParts.domain_eq_nil {parts : AddressParts}
    (h : parts.qualified = true ∨ parts.behind = []) (hnot : parts.qualified = false) :
    parts.domain = [] := by
  rw [AddressParts.domain, h.resolve_left (by rw [hnot]; exact Bool.false_ne_true)]
  rfl

theorem AddressParts.route_eq_nil (parts : AddressParts) (h : parts.hasRoute = false) :
    parts.route = [] := by
  simpa [AddressParts.hasRoute] using h

theorem splitPlus_ends {parts : AddressParts} {rest : List Octet} (flags : Nat)
    (h : block.octets = front ++ (parts.localPart ++ 0 :: rest)) :
    (do
      let block ← block.write ((front.length + parts.localPart.length : Nat) : Int) [0]
      block.write ((front.length + (parts.left flags).length : Nat) : Int) [0]).Ends fun b =>
        b.octets = front ++ (parts.left flags ++
          0 :: (segment (parts.right flags) (parts.hasPlus flags) ++ rest)) := by
  have hsame : block.octets = (front ++ parts.localPart) ++ ([0] ++ rest) := by
    rw [h]
    simp
  have hwrite := write_ends hsame (show [(0 : Octet)].length = [(0 : Octet)].length from rfl)
  rw [List.length_append] at hwrite
  rw [ends_bind]
  refine hwrite.mono fun b hb => ?_
  rw [← List.length_append]
  rw [parts.localPart_eq flags] at hb
  cases hplus : parts.hasPlus flags with
  | true =>
      rw [hplus, if_pos rfl] at hb
      have hoctets : b.octets = (front ++ parts.left flags) ++
          ([ch '+'] ++ (parts.right flags ++ ([0] ++ rest))) := by
        rw [hb]
        simp
      refine (write_ends hoctets (show [(0 : Octet)].length = [ch '+'].length from rfl)).mono ?_
      intro b' hb'
      rw [hb', segment, if_pos rfl]
      simp
  | false =>
      rw [hplus, if_neg Bool.false_ne_true, List.append_nil] at hb
      refine (write_ends hb (show [(0 : Octet)].length = [(0 : Octet)].length from rfl)).mono ?_
      intro b' hb'
      rw [hb', segment, if_neg Bool.false_ne_true]
      simp

theorem length_segment_map (s : List Octet) (present : Bool) :
    (segment (s.map tolower) present).length = (segment s present).length := by
  unfold segment
  split
  · simp
  · rfl

theorem lowerParts_ends {route left middle domain : List Octet} {hasRoute qualified : Bool}
    (h : block.octets = front ++ 0 :: (segment route hasRoute ++
      (left ++ (middle ++ 0 :: segment domain qualified))))
    (hmiddle : peek (middle ++ [0]) = 0)
    (hroute : 0 ∉ route) (hleft : 0 ∉ left) (hdomain : 0 ∉ domain)
    (hnone : hasRoute = false → route = []) (hunqualified : qualified = false → domain = [])
    {localLeft at' : Nat} (hlocalLeft : localLeft = (front ++ 0 :: segment route hasRoute).length)
    (hat : at' = localLeft + left.length + middle.length + qualified.toNat) :
    (do
      let block ← textLower block (front.length + hasRoute.toNat)
      let block ← textLower block localLeft
      textLower block at').Ends fun b =>
        b.octets = front ++ 0 :: (segment (route.map tolower) hasRoute ++
          (left.map tolower ++ (middle ++ 0 :: segment (domain.map tolower) qualified))) := by
  obtain ⟨rest, hrest⟩ : ∃ rest, middle ++ 0 :: segment domain qualified = 0 :: rest := by
    cases middle with
    | nil => exact ⟨_, rfl⟩
    | cons c middle =>
        obtain rfl : c = 0 := hmiddle
        exact ⟨_, rfl⟩
  rw [ends_bind]
  refine (textLower_segment h hroute hnone).mono fun b hb => ?_
  have hb' : b.octets = (front ++ 0 :: segment (route.map tolower) hasRoute) ++
      (left ++ 0 :: rest) := by
    rw [hb, hrest]
    simp
  have hlength : localLeft = (front ++ 0 :: segment (route.map tolower) hasRoute).length := by
    rw [hlocalLeft]
    simp only [List.length_append, List.length_cons, length_segment_map]
  rw [ends_bind, hlength]
  refine (textLower_ends hb' hleft).mono fun b' hb' => ?_
  have hb'' : b'.octets = (front ++ 0 :: segment (route.map tolower) hasRoute ++
      (left.map tolower ++ middle)) ++ 0 :: (segment domain qualified ++ []) := by
    rw [hb', ← hrest]
    simp
  have hindex : at' = (front ++ 0 :: segment (route.map tolower) hasRoute ++
      (left.map tolower ++ middle)).length + qualified.toNat := by
    rw [hat, hlength]
    simp only [List.length_append, List.length_map]
    omega
  rw [hindex]
  refine (textLower_segment hb'' hdomain hunqualified).mono fun b'' hb'' => ?_
  rw [hb'']
  simp

/-! ### The whole split -/

/-- An address is taken apart. -/
structure Decomposed (address : List Octet) (flags : Nat) (p : ParsedPath) : Prop where
  whole : address = (partsOf address).routeText ++ (partsOf address).text
  behind : (partsOf address).qualified = true ∨ (partsOf address).behind = []
  octets : p.block.octets = address ++ 0 ::
    (segment ((partsOf address).route.map tolower) (partsOf address).hasRoute ++
      (((partsOf address).left flags).map tolower ++ 0 ::
        (segment ((partsOf address).right flags) ((partsOf address).hasPlus flags) ++
          segment ((partsOf address).domain.map tolower) (partsOf address).qualified)))
  address_eq : p.address = ⟨0, address.length⟩
  sourceRoute_eq : p.sourceRoute =
    ⟨address.length + (partsOf address).hasRoute.toNat, (partsOf address).route.length⟩
  localLeft_eq : p.localLeft =
    ⟨((partsOf address).frontOf address).length, ((partsOf address).left flags).length⟩
  localRight_eq : p.localRight =
    ⟨((partsOf address).frontOf address).length + ((partsOf address).left flags).length +
      ((partsOf address).hasPlus flags).toNat, ((partsOf address).right flags).length⟩
  domain_eq : p.domain =
    ⟨((partsOf address).frontOf address).length + (partsOf address).localPart.length +
      (partsOf address).qualified.toNat, (partsOf address).domain.length⟩

theorem localPart_partsOf (address : List Octet) : (partsOf address).localPart =
    (partsOf address).text.take (spanLocalPart (partsOf address).text) := by
  rw [partsOf_text]
  rfl

theorem behind_partsOf (address : List Octet) : (partsOf address).behind =
    (partsOf address).text.drop (spanLocalPart (partsOf address).text) := by
  rw [partsOf_text]
  rfl

theorem LocalCut.behind_of_no_error {parts : AddressParts} {flags : Nat} {s : LocalSplit n}
    {dots : Int} (h : LocalCut front parts flags s) (hnone : localPartError s flags dots = none) :
    parts.qualified = true ∨ parts.behind = [] := by
  unfold localPartError at hnone
  split at hnone
  · cases hnone
  · split at hnone
    · cases hnone
    · rename_i hends
      rw [not_and_or, not_not, not_not, h.hasAtSign] at hends
      exact hends.imp_right h.isUnqualified

theorem length_of_domainError {front domain : List Octet} {flags length : Nat} {dots : Int}
    (h : block.octets = front ++ (domain ++ [0])) (hnul : 0 ∉ domain) (hle : length ≤ domain.length)
    (hnone : domainError block front.length length flags dots = none) : length = domain.length := by
  unfold domainError at hnone
  split at hnone
  · cases hnone
  · split at hnone
    · cases hnone
    · split at hnone
      · cases hnone
      · rename_i hget
        rw [not_not, get_of_octets h, getD_nul domain [] hle] at hget
        by_contra hne
        have hlt : length < domain.length := by omega
        rw [List.getD_eq_getElem?_getD, List.getElem?_eq_getElem hlt] at hget
        exact hnul (hget ▸ List.getElem_mem hlt)

theorem AddressParts.length_localPart (parts : AddressParts) (flags : Nat) :
    parts.localPart.length = (parts.left flags).length + (parts.hasPlus flags).toNat +
      (parts.right flags).length := by
  have hsplit := congrArg List.length (parts.localPart_eq flags)
  rw [List.length_append] at hsplit
  cases hplus : parts.hasPlus flags with
  | true =>
      rw [hplus, if_pos rfl, List.length_cons] at hsplit
      rw [hsplit, Bool.toNat_true]
      omega
  | false =>
      rw [hplus, if_neg Bool.false_ne_true, List.length_nil] at hsplit
      have hright : (parts.right flags).length = 0 := by
        rw [AddressParts.right, List.length_drop]
        omega
      rw [hsplit, hright]
      rfl

theorem AddressParts.exists_middle (parts : AddressParts) (flags : Nat) : ∃ middle,
    (∀ rest : List Octet, 0 :: (segment (parts.right flags) (parts.hasPlus flags) ++ rest) =
      middle ++ 0 :: rest) ∧ peek (middle ++ [0]) = 0 ∧
        (parts.left flags).length + middle.length = parts.localPart.length := by
  have hlength := parts.length_localPart flags
  cases hplus : parts.hasPlus flags with
  | true =>
      refine ⟨0 :: parts.right flags, fun rest => by simp [segment], rfl, ?_⟩
      rw [hlength, hplus, List.length_cons, Bool.toNat_true]
      omega
  | false =>
      refine ⟨[], fun rest => rfl, rfl, ?_⟩
      have hsplit := congrArg List.length (parts.localPart_eq flags)
      rw [hplus, if_neg Bool.false_ne_true, List.append_nil] at hsplit
      exact hsplit.symm

theorem LocalCut.plusSign {parts : AddressParts} {flags : Nat} {s : LocalSplit n}
    (h : LocalCut front parts flags s) : s.plusSign = (parts.hasPlus flags).toNat := by
  unfold LocalSplit.plusSign AddressParts.hasPlus
  rw [h.leftLength, h.localLength]
  split
  · rename_i hlt
    rw [decide_eq_true hlt]
    rfl
  · rename_i hge
    rw [decide_eq_false hge]
    rfl

theorem LocalCut.atSign {parts : AddressParts} {flags : Nat} {s : LocalSplit n}
    (h : LocalCut front parts flags s) : s.atSign = parts.qualified.toNat := by
  unfold LocalSplit.atSign
  rw [h.hasAtSign]
  cases parts.qualified <;> rfl

theorem LocalCut.domain {parts : AddressParts} {flags : Nat} {s : LocalSplit n} {dots : Int}
    (h : LocalCut front parts flags s) (hbehind : parts.qualified = true ∨ parts.behind = [])
    (hnul : 0 ∉ parts.domain)
    (hnone : domainError s.block (front.length + s.localLength + s.atSign)
      (spanDomain (stringAt s.block (front.length + s.localLength + s.atSign)) dots) flags dots =
        none) :
    spanDomain (stringAt s.block (front.length + s.localLength + s.atSign)) dots =
      parts.domain.length := by
  have hoctets : s.block.octets = (front ++ parts.localPart) ++
      0 :: (segment parts.domain parts.qualified ++ []) := by
    rw [h.octets, AddressParts.behind_tail hbehind]
    simp
  have hindex : front.length + s.localLength + s.atSign =
      (front ++ parts.localPart).length + parts.qualified.toNat := by
    rw [h.localLength, h.atSign, List.length_append]
  have habsent := AddressParts.domain_eq_nil hbehind
  rw [hindex, stringAt_segment hoctets hnul habsent] at hnone ⊢
  have hle := spanDomain_le parts.domain dots
  cases hq : parts.qualified with
  | true =>
      rw [hq, segment, if_pos rfl, List.append_nil] at hoctets
      rw [hq] at hnone
      have hfront : (front ++ parts.localPart).length + true.toNat =
          (front ++ parts.localPart ++ [0]).length := by
        simp only [List.length_append]
        rfl
      rw [hfront] at hnone
      exact length_of_domainError (by rw [hoctets]; simp) hnul hle hnone
  | false =>
      rw [habsent hq, List.length_nil] at hle ⊢
      omega

theorem partsOf_noNul
    (hwhole : address = (partsOf address).routeText ++ (partsOf address).text) (hnul : 0 ∉ address) :
    0 ∉ (partsOf address).route ∧ 0 ∉ (partsOf address).localPart ∧ 0 ∉ (partsOf address).domain := by
  rw [hwhole] at hnul
  refine ⟨fun hmem => hnul (List.mem_append_left _ ?_), fun hmem => hnul (List.mem_append_right _ ?_),
    fun hmem => hnul (List.mem_append_right _ ?_)⟩
  · have hroute : (partsOf address).hasRoute = true := by
      rw [AddressParts.hasRoute, decide_eq_true_eq]
      exact List.ne_nil_of_mem hmem
    rw [AddressParts.routeText, if_pos hroute]
    exact List.mem_append_left _ hmem
  · exact List.mem_append_left _ hmem
  · exact List.mem_append_right _ (List.mem_of_mem_tail hmem)

theorem LocalCut.cutParts_ends {parts : AddressParts} {flags : Nat} {s : LocalSplit n}
    (h : LocalCut (parts.frontOf front) parts flags s)
    (hbehind : parts.qualified = true ∨ parts.behind = [])
    (hroute : 0 ∉ parts.route) (hlocal : 0 ∉ parts.localPart) (hdomain : 0 ∉ parts.domain) :
    (cutParts s.block ⟨front.length + parts.hasRoute.toNat, parts.route.length⟩
        ⟨(parts.frontOf front).length, s.leftLength⟩
        ⟨(parts.frontOf front).length + s.leftLength + s.plusSign,
          s.localLength - (s.leftLength + s.plusSign)⟩
        ⟨(parts.frontOf front).length + s.localLength + s.atSign, parts.domain.length⟩).Ends fun b =>
      b.octets = front ++ 0 :: (segment (parts.route.map tolower) parts.hasRoute ++
        ((parts.left flags).map tolower ++ 0 ::
          (segment (parts.right flags) (parts.hasPlus flags) ++
            segment (parts.domain.map tolower) parts.qualified))) := by
  have hlength := parts.length_localPart flags
  have hsum : (parts.frontOf front).length + s.leftLength + s.plusSign +
      (s.localLength - (s.leftLength + s.plusSign)) =
        (parts.frontOf front).length + parts.localPart.length := by
    rw [h.leftLength, h.localLength, h.plusSign]
    omega
  have hoctets := h.octets
  rw [AddressParts.behind_tail hbehind] at hoctets
  have hleftNul : 0 ∉ parts.left flags := by
    rw [parts.localPart_eq flags] at hlocal
    exact fun hmem => hlocal (List.mem_append_left _ hmem)
  obtain ⟨middle, hmiddle, hnul, hmiddleLength⟩ := parts.exists_middle flags
  have hsteps : cutParts s.block ⟨front.length + parts.hasRoute.toNat, parts.route.length⟩
        ⟨(parts.frontOf front).length, s.leftLength⟩
        ⟨(parts.frontOf front).length + s.leftLength + s.plusSign,
          s.localLength - (s.leftLength + s.plusSign)⟩
        ⟨(parts.frontOf front).length + s.localLength + s.atSign, parts.domain.length⟩ =
      (do
        let block ← s.block.write
          (((parts.frontOf front).length + parts.localPart.length : Nat) : Int) [0]
        block.write (((parts.frontOf front).length + (parts.left flags).length : Nat) : Int) [0]) >>=
      fun block => (do
        let block ← textLower block (front.length + parts.hasRoute.toNat)
        let block ← textLower block (parts.frontOf front).length
        textLower block ((parts.frontOf front).length + s.localLength + s.atSign)) := by
    unfold cutParts
    dsimp only
    rw [hsum, h.leftLength, Run.bind_assoc]
  rw [hsteps, ends_bind]
  refine (splitPlus_ends flags hoctets).mono fun b hb => ?_
  have hlower : b.octets = front ++ 0 :: (segment parts.route parts.hasRoute ++
      (parts.left flags ++ (middle ++ 0 :: segment parts.domain parts.qualified))) := by
    rw [hb, hmiddle, AddressParts.frontOf]
    simp
  refine (lowerParts_ends hlower hnul hroute hleftNul hdomain parts.route_eq_nil
    (AddressParts.domain_eq_nil hbehind) rfl ?_).mono ?_
  · have hfront : (front ++ 0 :: segment parts.route parts.hasRoute).length =
        (parts.frontOf front).length := rfl
    rw [h.localLength, h.atSign, hfront]
    omega
  · intro b' hb'
    rw [hb', hmiddle]

theorem splitAddress_ends (h : block.octets = address ++ 0 :: (address ++ [0]))
    (hnul : 0 ∉ address) (flags : Nat) (dots : Int) :
    (splitAddress block address.length flags dots).Ends fun r =>
      ∀ p, r = .ok p → Decomposed address flags p := by
  unfold splitAddress
  rw [ends_bind]
  refine (splitSourceRoute_ends h hnul).mono fun r hr => ?_
  cases r with
  | none => exact ends_pure.mpr nofun
  | some cut =>
      obtain ⟨block, sourceRoute, localLeft⟩ := cut
      obtain ⟨hwhole, hoctets, hpart, hlocalLeft⟩ := hr _ rfl
      dsimp only at hoctets hpart hlocalLeft ⊢
      subst hpart hlocalLeft
      have htextNul : 0 ∉ (partsOf address).text := fun hmem =>
        hnul (hwhole ▸ List.mem_append_right _ hmem)
      rw [ends_bind]
      refine (splitLocalPart_ends (localPart_partsOf address) (behind_partsOf address) flags hoctets
        htextNul).mono fun s hs => ?_
      cases hlocal : localPartError s flags dots with
      | some error => exact ends_pure.mpr nofun
      | none =>
          have hbehind := hs.behind_of_no_error hlocal
          dsimp only
          cases hdomain : domainError s.block (((partsOf address).frontOf address).length +
              s.localLength + s.atSign) (spanDomain (stringAt s.block (((partsOf address).frontOf
                address).length + s.localLength + s.atSign)) dots) flags dots with
          | some error => exact ends_pure.mpr nofun
          | none =>
              obtain ⟨hroute, hlocalNul, hdomainNul⟩ := partsOf_noNul hwhole hnul
              have hlength := hs.domain hbehind hdomainNul hdomain
              dsimp only
              rw [hlength, ends_bind]
              refine (hs.cutParts_ends hbehind hroute hlocalNul hdomainNul).mono fun b hb => ?_
              refine ends_pure.mpr fun p hp => ?_
              cases hp
              have hsum := (partsOf address).length_localPart flags
              constructor
              · exact hwhole
              · exact hbehind
              · exact hb
              · rfl
              · rfl
              · rw [hs.leftLength]
              · rw [hs.leftLength, hs.plusSign, hs.localLength, hsum, Nat.add_sub_cancel_left]
              · rw [hs.localLength, hs.atSign]

end

/-! ### The address of a path -/

theorem findInnerPath_stop_le (path : List Octet) : (findInnerPath path).stop ≤ path.length := by
  have inv := findInnerPath_inv path
  unfold findInnerPath
  dsimp only
  generalize innerScan path 0 _ = s at inv ⊢
  cases hstop : s.stop with
  | none => exact Nat.le_refl _
  | some p => exact (inv.stop_close p hstop).2.1

theorem parsePathSpan_inside {path : List Octet} {flags : Nat} {start stop : Int}
    (h : parsePathSpan path flags = .ok (start, stop)) (hlt : start < stop) :
    0 ≤ start ∧ stop ≤ path.length := by
  have hle := findInnerPath_stop_le path
  unfold parsePathSpan at h
  dsimp only at h
  split at h
  · cases h
  split at h
  · cases h
  split at h
  · simp only [Except.ok.injEq, Prod.mk.injEq] at h
    obtain ⟨rfl, rfl⟩ := h
    constructor
    · split <;> omega
    · split <;> omega
  · simp only [trimSpace, Except.ok.injEq, Prod.mk.injEq] at h
    obtain ⟨rfl, rfl⟩ := h
    generalize hstart : (((findInnerPath path).start : Int) +
      if path.getD (findInnerPath path).start 0 = ch '<' then 1 else 0) = start at hlt ⊢
    generalize hstop : (((findInnerPath path).stop : Int) -
      if endsWithBracket path (findInnerPath path).start (findInnerPath path).stop then 1 else 0) =
        stop at hlt ⊢
    have hpos : 0 ≤ start := by
      rw [← hstart]
      split <;> omega
    have hend : stop ≤ path.length := by
      rw [← hstop]
      split <;> omega
    have hback := strlrspn_le ((path.drop start.toNat).drop (strspn (path.drop start.toNat) pathSpace))
      pathSpace (stop - (start + strspn (path.drop start.toNat) pathSpace)).toNat
    omega

/-- The address that `parsePath` copies from a path. -/
def pathAddress (path : CString) (flags : Nat) : List Octet :=
  match parsePathSpan path.octets flags with
  | .ok (start, stop) => (path.octets.drop start.toNat).take (stop - start).toNat
  | .error _ => []

theorem pathAddress_noNul (path : CString) (flags : Nat) : 0 ∉ pathAddress path flags := by
  unfold pathAddress
  split
  · exact fun hmem => path.noNul (List.mem_of_mem_drop (List.mem_of_mem_take hmem))
  · exact List.not_mem_nil

theorem copyAddress_ends {start address : List Octet} {length : Nat}
    (haddress : start.take length = address) (hlength : address.length = length)
    (hnul : 0 ∉ address) : (copyAddress start length).Ends fun block =>
      block.octets = address ++ 0 :: (address ++ [0]) := by
  have hle : length ≤ start.length := by
    rw [← hlength, ← haddress, List.length_take]
    omega
  have hsize : blockSize (length : Int) = length + (1 + (length + 1)) := by
    unfold blockSize
    omega
  have hzeros : (Buffer.replicate (blockSize (length : Int)) 0).octets =
      [] ++ (List.replicate length 0 ++ (0 :: (List.replicate length 0 ++ [0]))) := by
    change List.replicate (blockSize (length : Int)) 0 = _
    rw [hsize, List.replicate_add, List.replicate_add, List.replicate_add]
    rfl
  unfold copyAddress
  rw [if_neg (by omega), Int.toNat_natCast, ends_bind]
  refine (strncpy_ends hzeros (by simp) hle).mono fun block hblock => ?_
  rw [List.nil_append, haddress] at hblock
  have hfirst : block.octets = [] ++ (address ++ 0 :: (List.replicate length 0 ++ [0])) := hblock
  have hstring : stringAt block 0 = address := stringAt_of_octets hfirst hnul
  have hsecond : block.octets = (address ++ [0]) ++ (List.replicate length 0 ++ [0]) := by
    rw [hblock]
    simp
  have hindex : length + 1 = (address ++ [0]).length := by
    rw [List.length_append, hlength]
    rfl
  rw [hstring, hindex]
  refine (strncpy_ends hsecond (by simp) hlength.ge).mono fun block' hblock' => ?_
  rw [hblock', ← hlength, List.take_length]
  simp

theorem parsePath_decomposed {path : CString} {flags : Nat} {dots : Int} {p : ParsedPath}
    (h : (parsePath path flags dots).outcome = .done (.ok (some p))) :
    Decomposed (pathAddress path flags) flags p := by
  unfold parsePath at h
  cases hspan : parsePathSpan path.octets flags with
  | error error =>
      rw [hspan] at h
      cases h
  | ok span =>
      obtain ⟨start, stop⟩ := span
      rw [hspan] at h
      dsimp only at h
      by_cases heq : start = stop
      · rw [if_pos heq] at h
        cases h
      · rw [if_neg heq] at h
        by_cases hneg : stop - start < 0
        · obtain ⟨block, hblock, -⟩ := outcome_bind_eq_done.mp h
          rw [copyAddress, if_pos hneg] at hblock
          cases hblock
        · obtain ⟨hpos, hend⟩ := parsePathSpan_inside hspan (by omega)
          obtain ⟨length, hlen⟩ : ∃ length : Nat, stop - start = length :=
            ⟨(stop - start).toNat, by omega⟩
          have haddress : (path.octets.drop start.toNat).take length = pathAddress path flags := by
            rw [pathAddress, hspan]
            dsimp only
            rw [hlen, Int.toNat_natCast]
          have hlength : (pathAddress path flags).length = length := by
            rw [← haddress, List.length_take, List.length_drop]
            omega
          have hnul := pathAddress_noNul path flags
          rw [hlen, Int.toNat_natCast] at h
          have hends : (copyAddress (path.octets.drop start.toNat) length >>= fun block => do
              let parsed ← splitAddress block length flags dots
              pure (parsed.map some)).Ends fun r =>
                ∀ p, r = .ok (some p) → Decomposed (pathAddress path flags) flags p := by
            rw [ends_bind]
            refine (copyAddress_ends haddress hlength hnul).mono fun block hblock => ?_
            have hsplit := splitAddress_ends hblock hnul flags dots
            rw [hlength] at hsplit
            rw [ends_bind]
            refine hsplit.mono fun parsed hparsed => ?_
            refine ends_pure.mpr fun p hp => ?_
            cases parsed with
            | error error => cases hp
            | ok q =>
                cases hp
                exact hparsed _ rfl
          obtain ⟨-, r, hr, hdecomposed⟩ := hends
          rw [h] at hr
          obtain rfl := Outcome.done.inj hr
          exact hdecomposed p rfl

/-! ### The strings of the parts -/

namespace Decomposed

variable {address : List Octet} {flags : Nat} {p : ParsedPath}

theorem text_address (h : Decomposed address flags p) (hnul : 0 ∉ address) :
    p.text p.address = address := by
  have hoctets : p.block.octets = [] ++ (address ++ 0 :: _) := h.octets
  rw [h.address_eq]
  exact stringAt_of_octets hoctets hnul

theorem text_sourceRoute (h : Decomposed address flags p) (hnul : 0 ∉ address) :
    p.text p.sourceRoute = (partsOf address).route.map tolower := by
  obtain ⟨hroute, -, -⟩ := partsOf_noNul h.whole hnul
  rw [h.sourceRoute_eq]
  refine stringAt_segment h.octets (zero_not_mem_tolower hroute) fun hnone => ?_
  rw [AddressParts.route_eq_nil _ hnone]
  rfl

theorem length_frontOf (parts : AddressParts) (front : List Octet) :
    (parts.frontOf front).length =
      (front ++ 0 :: segment (parts.route.map tolower) parts.hasRoute).length := by
  simp only [AddressParts.frontOf, List.length_append, List.length_cons, length_segment_map]

theorem halves_noNul (h : Decomposed address flags p) (hnul : 0 ∉ address) :
    0 ∉ (partsOf address).left flags ∧ 0 ∉ (partsOf address).right flags := by
  obtain ⟨-, hlocal, -⟩ := partsOf_noNul h.whole hnul
  constructor
  · rw [(partsOf address).localPart_eq flags] at hlocal
    exact fun hmem => hlocal (List.mem_append_left _ hmem)
  · exact fun hmem => hlocal (List.mem_of_mem_drop hmem)

theorem text_localLeft (h : Decomposed address flags p) (hnul : 0 ∉ address) :
    p.text p.localLeft = ((partsOf address).left flags).map tolower := by
  have hoctets : p.block.octets =
      (address ++ 0 :: segment ((partsOf address).route.map tolower) (partsOf address).hasRoute) ++
        (((partsOf address).left flags).map tolower ++ 0 ::
          (segment ((partsOf address).right flags) ((partsOf address).hasPlus flags) ++
            segment ((partsOf address).domain.map tolower) (partsOf address).qualified)) := by
    rw [h.octets, List.append_assoc, List.cons_append]
  rw [h.localLeft_eq, length_frontOf]
  exact stringAt_of_octets hoctets (zero_not_mem_tolower (h.halves_noNul hnul).1)

theorem text_localRight (h : Decomposed address flags p) (hnul : 0 ∉ address) :
    p.text p.localRight = (partsOf address).right flags := by
  have hoctets : p.block.octets =
      (address ++ 0 :: segment ((partsOf address).route.map tolower) (partsOf address).hasRoute ++
        ((partsOf address).left flags).map tolower) ++ 0 ::
          (segment ((partsOf address).right flags) ((partsOf address).hasPlus flags) ++
            segment ((partsOf address).domain.map tolower) (partsOf address).qualified) := by
    rw [h.octets]
    simp only [List.append_assoc, List.cons_append]
  have hat := stringAt_segment hoctets (h.halves_noNul hnul).2 fun hnone => ?_
  · rw [List.length_append, List.length_map, ← length_frontOf] at hat
    rw [h.localRight_eq]
    exact hat
  · have hlength := (partsOf address).length_localPart flags
    have hnot : ¬ ((partsOf address).left flags).length < (partsOf address).localPart.length := by
      simpa [AddressParts.hasPlus] using hnone
    rw [hnone, Bool.toNat_false] at hlength
    exact List.eq_nil_of_length_eq_zero (by omega)

theorem text_domain (h : Decomposed address flags p) (hnul : 0 ∉ address) :
    p.text p.domain = (partsOf address).domain.map tolower := by
  obtain ⟨-, -, hdomain⟩ := partsOf_noNul h.whole hnul
  obtain ⟨middle, hmiddle, -, hlength⟩ := (partsOf address).exists_middle flags
  have hoctets : p.block.octets =
      (address ++ 0 :: segment ((partsOf address).route.map tolower) (partsOf address).hasRoute ++
        (((partsOf address).left flags).map tolower ++ middle)) ++ 0 ::
          (segment ((partsOf address).domain.map tolower) (partsOf address).qualified ++ []) := by
    rw [h.octets, hmiddle]
    simp only [List.append_assoc, List.cons_append, List.append_nil]
  have hat := stringAt_segment hoctets (zero_not_mem_tolower hdomain) fun hnone => by
    rw [AddressParts.domain_eq_nil h.behind hnone]
    rfl
  rw [List.length_append, ← length_frontOf, List.length_append, List.length_map, hlength] at hat
  rw [h.domain_eq]
  exact hat

end Decomposed

/-! ### Putting an address together again -/

/-- The format that an address is put together by. -/
def wholeFormat (parts : AddressParts) : List Octet :=
  if parts.qualified then ascii "%T%P@%D" else ascii "%T%P"

/-- The parts of a path in their block. -/
def ParsedPath.parts (p : ParsedPath) : List PathPart :=
  [p.address, p.sourceRoute, p.localLeft, p.localRight, p.domain]

/-- An address is taken apart without loss: the length of each part is that of its string, and the
parts, put together by a format, are the address but for the case of its letters. -/
structure Lossless (p : ParsedPath) : Prop where
  lengths : ∀ part ∈ p.parts, part.length = (p.text part).length
  whole : (p.text p.address).map tolower =
    (expansion p.strings (wholeFormat (partsOf (p.text p.address)))).map tolower

/-- The only plus sign of the local part is its last octet. -/
def PlusLast (address : List Octet) : Prop :=
  (partsOf address).localPart.getLast? = some (ch '+') ∧
    (partsOf address).localPart.count (ch '+') = 1

instance (address : List Octet) : Decidable (PlusLast address) :=
  inferInstanceAs (Decidable (_ ∧ _))

/-- No plus sign is lost: the local part is not split at one, or something stands behind it. -/
def PlusKept (flags : Nat) (address : List Octet) : Prop :=
  hasFlag flags STRICT_LITERAL_PLUS = true ∨ ¬ PlusLast address

instance (flags : Nat) (address : List Octet) : Decidable (PlusKept flags address) :=
  inferInstanceAs (Decidable (_ ∨ _))

theorem map_tolower_tolower (s : List Octet) : (s.map tolower).map tolower = s.map tolower := by
  rw [List.map_map]
  refine List.map_congr_left fun c _ => ?_
  exact forall_octet (P := fun c => tolower (tolower c) = tolower c) (by decide +kernel) c

theorem plusKept_iff (flags : Nat) (address : List Octet) : PlusKept flags address ↔
    ¬ ((partsOf address).hasPlus flags = true ∧ (partsOf address).right flags = []) := by
  have hsplit := (partsOf address).localPart_eq flags
  unfold PlusKept
  by_cases hflag : hasFlag flags STRICT_LITERAL_PLUS = true
  · refine iff_of_true (.inl hflag) fun h => ?_
    rw [AddressParts.hasPlus, AddressParts.left, if_pos hflag, decide_eq_true_eq] at h
    exact absurd h.1 (Nat.lt_irrefl _)
  · have hleft : ch '+' ∉ (partsOf address).left flags := by
      intro hmem
      rw [AddressParts.left, if_neg hflag] at hmem
      have hnot := List.mem_takeWhile_imp hmem
      rw [decide_eq_true_eq] at hnot
      exact hnot (by decide)
    rw [or_iff_right hflag, not_iff_not, PlusLast, hsplit]
    cases hplus : (partsOf address).hasPlus flags with
    | false =>
        rw [if_neg Bool.false_ne_true, List.append_nil]
        refine iff_of_false (fun h => hleft (List.mem_of_getLast? h.1)) fun h => ?_
        exact Bool.false_ne_true h.1
    | true =>
        rw [if_pos rfl, and_iff_right rfl, List.count_append, List.count_eq_zero.mpr hleft,
          List.count_cons_self, List.getLast?_append]
        cases hright : (partsOf address).right flags with
        | nil => exact iff_of_true ⟨rfl, rfl⟩ rfl
        | cons c right =>
            refine iff_of_false (fun h => ?_) nofun
            rw [List.getLast?_cons_cons, List.getLast?_cons, Option.some_or] at h
            have hmem : ch '+' ∈ c :: right := List.mem_of_getLast? (by rw [List.getLast?_cons, h.1])
            have hpos := List.count_pos_iff.mpr hmem
            omega

theorem expansion_percent (p : ParsePath) (c : Octet) (fmt : List Octet) :
    expansion p (ch '%' :: c :: fmt) = conversionText p c ++ expansion p fmt := by
  rw [expansion.eq_def]
  exact if_neg (not_not.mpr rfl)

theorem expansion_octet (p : ParsePath) {c : Octet} (hc : c ≠ ch '%') (fmt : List Octet) :
    expansion p (c :: fmt) = c :: expansion p fmt := by
  rw [expansion.eq_def]
  exact if_pos hc

theorem Decomposed.expansion_eq {address : List Octet} {flags : Nat} {p : ParsedPath}
    (h : Decomposed address flags p) (hnul : 0 ∉ address) :
    (expansion p.strings (wholeFormat (partsOf address))).map tolower =
      ((partsOf address).routeText ++ ((partsOf address).left flags ++
        (if (partsOf address).right flags = [] then [] else ch '+' :: (partsOf address).right flags) ++
          (partsOf address).behind)).map tolower := by
  have hroute : pathString p.strings.sourceRoute = (partsOf address).route.map tolower :=
    h.text_sourceRoute hnul
  have hleft : pathString p.strings.localLeft = ((partsOf address).left flags).map tolower :=
    h.text_localLeft hnul
  have hright : pathString p.strings.localRight = (partsOf address).right flags :=
    h.text_localRight hnul
  have hdomain : pathString p.strings.domain = (partsOf address).domain.map tolower :=
    h.text_domain hnul
  have hT : conversionText p.strings (ch 'T') = (partsOf address).routeText.map tolower := by
    have hconv : conversionText p.strings (ch 'T') = pathString p.strings.sourceRoute ++
        if pathString p.strings.sourceRoute = [] then [] else [ch ':'] := rfl
    rw [hconv, hroute, AddressParts.routeText, AddressParts.hasRoute]
    by_cases hnil : (partsOf address).route = []
    · simp [hnil]
    · rw [if_neg (by simpa using hnil), if_pos (decide_eq_true hnil), List.map_append]
      rfl
  have hP : conversionText p.strings (ch 'P') = ((partsOf address).left flags).map tolower ++
      if (partsOf address).right flags = [] then [] else ch '+' :: (partsOf address).right flags := by
    have hconv : conversionText p.strings (ch 'P') = pathString p.strings.localLeft ++
        if pathString p.strings.localRight = [] then [] else
          ch '+' :: pathString p.strings.localRight := rfl
    rw [hconv, hleft, hright]
  have hD : conversionText p.strings (ch 'D') = (partsOf address).domain.map tolower := hdomain
  unfold wholeFormat
  cases hq : (partsOf address).qualified with
  | true =>
      have hbehind : (partsOf address).behind = ch '@' :: (partsOf address).domain := by
        rw [AddressParts.qualified, decide_eq_true_eq] at hq
        rw [AddressParts.domain]
        cases hb : (partsOf address).behind with
        | nil =>
            rw [hb] at hq
            exact absurd hq (by decide)
        | cons c behind =>
            rw [hb] at hq
            rw [← hq]
            rfl
      have hformat : expansion p.strings (ascii "%T%P@%D") = conversionText p.strings (ch 'T') ++
          (conversionText p.strings (ch 'P') ++ (ch '@' ::
            (conversionText p.strings (ch 'D') ++ []))) := by
        have hascii : ascii "%T%P@%D" =
          [ch '%', ch 'T', ch '%', ch 'P', ch '@', ch '%', ch 'D'] := by decide
        rw [hascii, expansion_percent, expansion_percent, expansion_octet _ (by decide),
          expansion_percent, expansion]
      rw [if_pos rfl, hformat, hT, hP, hD, hbehind]
      simp only [List.map_append, List.map_cons, map_tolower_tolower, List.append_nil,
        List.append_assoc]
  | false =>
      have hbehind : (partsOf address).behind = [] :=
        h.behind.resolve_left (by rw [hq]; exact Bool.false_ne_true)
      have hformat : expansion p.strings (ascii "%T%P") = conversionText p.strings (ch 'T') ++
          (conversionText p.strings (ch 'P') ++ []) := by
        have hascii : ascii "%T%P" = [ch '%', ch 'T', ch '%', ch 'P'] := by decide
        rw [hascii, expansion_percent, expansion_percent, expansion]
      rw [if_neg Bool.false_ne_true, hformat, hT, hP, hbehind]
      simp only [List.map_append, map_tolower_tolower, List.append_nil]

theorem Decomposed.lengths {address : List Octet} {flags : Nat} {p : ParsedPath}
    (h : Decomposed address flags p) (hnul : 0 ∉ address) :
    ∀ part ∈ p.parts, part.length = (p.text part).length := by
  intro part hpart
  simp only [ParsedPath.parts, List.mem_cons, List.not_mem_nil, or_false] at hpart
  rcases hpart with rfl | rfl | rfl | rfl | rfl
  · rw [h.text_address hnul, h.address_eq]
  · rw [h.text_sourceRoute hnul, h.sourceRoute_eq, List.length_map]
  · rw [h.text_localLeft hnul, h.localLeft_eq, List.length_map]
  · rw [h.text_localRight hnul, h.localRight_eq]
  · rw [h.text_domain hnul, h.domain_eq, List.length_map]

theorem Decomposed.whole_iff {address : List Octet} {flags : Nat} {p : ParsedPath}
    (h : Decomposed address flags p) (hnul : 0 ∉ address) :
    address.map tolower = (expansion p.strings (wholeFormat (partsOf address))).map tolower ↔
      PlusKept flags address := by
  have hlength := congrArg List.length h.whole
  have hsplit := (partsOf address).localPart_eq flags
  rw [h.expansion_eq hnul, plusKept_iff]
  constructor
  · rintro heq ⟨hplus, hright⟩
    have hshort := congrArg List.length heq
    rw [hplus, if_pos rfl, hright] at hsplit
    simp only [hright, AddressParts.text, hsplit, List.length_map, List.length_append,
      List.length_cons, List.length_nil, if_pos] at hshort hlength
    omega
  · intro hkept
    have hlocal : (partsOf address).localPart = (partsOf address).left flags ++
        if (partsOf address).right flags = [] then [] else
          ch '+' :: (partsOf address).right flags := by
      rw [hsplit]
      congr 1
      cases hplus : (partsOf address).hasPlus flags with
      | true => rw [if_pos rfl, if_neg fun hright => hkept ⟨hplus, hright⟩]
      | false =>
          have hlen := (partsOf address).length_localPart flags
          rw [hsplit, hplus, if_neg Bool.false_ne_true, List.append_nil, Bool.toNat_false] at hlen
          rw [if_neg Bool.false_ne_true, if_pos (List.eq_nil_of_length_eq_zero (by omega))]
    conv_lhs => rw [h.whole, AddressParts.text, hlocal]

/-- A path that is accepted, with an address that is not empty, is taken apart without loss exactly
if no plus sign is lost. -/
theorem parsePath_lossless_iff (path : CString) (flags : Nat) (dots : Int) (p : ParsedPath)
    (h : (parsePath path flags dots).outcome = .done (.ok (some p))) :
    Lossless p ↔ PlusKept flags (pathAddress path flags) := by
  have hnul := pathAddress_noNul path flags
  have hparts := parsePath_decomposed h
  rw [← hparts.whole_iff hnul]
  constructor
  · intro hlossless
    have hwhole := hlossless.whole
    rwa [hparts.text_address hnul] at hwhole
  · intro hwhole
    refine ⟨hparts.lengths hnul, ?_⟩
    rwa [hparts.text_address hnul]

/-- What is passed back for a path, if it is accepted with an address that is not empty. -/
def acceptedPath (path : CString) (flags : Nat) (dots : Int) : Option ParsedPath :=
  match (parsePath path flags dots).outcome with
  | .done (.ok p) => p
  | _ => none

theorem outcome_of_acceptedPath {path : CString} {flags : Nat} {dots : Int} {p : ParsedPath}
    (h : acceptedPath path flags dots = some p) :
    (parsePath path flags dots).outcome = .done (.ok (some p)) := by
  unfold acceptedPath at h
  split at h
  · rename_i hdone
    rw [hdone, h]
  · cases h

theorem parsePath_lossless_plus : ∃ p,
    (parsePath ⟨ascii "<Foo+Bar@example.com>", by decide⟩ 0 1).outcome = .done (.ok (some p)) ∧
      Lossless p := by
  have haccepted : (acceptedPath ⟨ascii "<Foo+Bar@example.com>", by decide⟩ 0 1).isSome := by
    decide
  obtain ⟨p, hp⟩ := Option.isSome_iff_exists.mp haccepted
  have hdone := outcome_of_acceptedPath hp
  exact ⟨p, hdone, (parsePath_lossless_iff _ 0 1 p hdone).mpr (by decide)⟩

/-- The plus sign of `foo+@example.com` is in neither half of the local part. -/
theorem parsePath_plus_lost : ¬ ∀ (path : CString) (flags : Nat) (dots : Int) (p : ParsedPath),
    (parsePath path flags dots).outcome = .done (.ok (some p)) → Lossless p := by
  intro h
  have haccepted : (acceptedPath ⟨ascii "<foo+@example.com>", by decide⟩ 0 1).isSome := by
    decide
  obtain ⟨p, hp⟩ := Option.isSome_iff_exists.mp haccepted
  have hdone := outcome_of_acceptedPath hp
  have hwhole := (h _ 0 1 p hdone).whole
  have hnul := pathAddress_noNul ⟨ascii "<foo+@example.com>", by decide⟩ 0
  rw [(parsePath_decomposed hdone).text_address hnul,
    (parsePath_decomposed hdone).whole_iff hnul] at hwhole
  exact absurd hwhole (by decide)

end Snert
