/-
Module: Snert.Proofs.MimeMultipart
Purpose: The octets of a multipart body that has no boundary. The scanner keeps octets back that may
  begin a boundary, and gives them to the decoder later, from the source buffer or as the octets it
  takes them to have been. As long as these are the octets kept back, nothing is lost or invented;
  after any step in which they are not, the octets decoded stay other than those of the body.
Trusted boundary: none
Main exports: mimeFeed_keepsOctets_iff
-/
import Snert.Proofs.MimeScan

namespace Snert

open CModel

/-! ### Lists that differ -/

/-- The lists differ behind a part they have in common. -/
def Differ (octets octets' : List Octet) : Prop :=
  ∃ common c c' rest rest', c ≠ c' ∧ octets = common ++ c :: rest ∧ octets' = common ++ c' :: rest'

namespace Differ

variable {octets octets' : List Octet}

theorem ne (h : Differ octets octets') : octets ≠ octets' := by
  obtain ⟨common, c, c', rest, rest', hne, rfl, rfl⟩ := h
  intro heq
  exact hne (List.cons.inj (List.append_cancel_left heq)).1

theorem append (h : Differ octets octets') (new new' : List Octet) :
    Differ (octets ++ new) (octets' ++ new') := by
  obtain ⟨common, c, c', rest, rest', hne, rfl, rfl⟩ := h
  exact ⟨common, c, c', rest ++ new, rest' ++ new', hne, by simp, by simp⟩

theorem append_left (h : Differ octets octets') (before : List Octet) :
    Differ (before ++ octets) (before ++ octets') := by
  obtain ⟨common, c, c', rest, rest', hne, rfl, rfl⟩ := h
  exact ⟨before ++ common, c, c', rest, rest', hne, by simp, by simp⟩

end Differ

/-! ### What the scanner keeps back -/

/-- The states in which octets are kept back. -/
def SourceState.withholds : SourceState → Bool
  | .bdyLF | .dash1 | .dash2 | .boundary => true
  | _ => false

/-- The octets that can be kept back in a state: a newline and what of a boundary is behind it. At the
start of a body there is no newline. -/
def KeptBack (withheld : List Octet) : SourceState → Prop
  | .bdyLF => withheld = [ASCII_LF]
  | .dash1 => withheld = [ASCII_LF, ch '-'] ∨ withheld = [ch '-']
  | .dash2 => withheld = [ASCII_LF, ch '-', ch '-'] ∨ withheld = [ch '-', ch '-']
  | .boundary => withheld.head? = some ASCII_LF ∨ withheld.head? = some (ch '-')
  | _ => withheld = []

/-- The source buffer of a scanner that keeps octets back: these octets, and the CR of the newline. -/
structure Withholds (state : SourceState) (source withheld : List Octet) : Prop where
  kept : KeptBack withheld state
  buffer : state.withholds →
    source = withheld ∨ source = ASCII_CR :: withheld ∧ withheld.head? = some ASCII_LF
  start : state = .hdrBdy → source = []

variable {state : SourceState} {source withheld : List Octet}

theorem Withholds.nil (h : Withholds state source withheld) (hstate : state.withholds = false) :
    withheld = [] := by
  have hwithheld := h.kept
  cases state <;> first | exact hwithheld | cases hstate

theorem Withholds.cons (h : Withholds state source withheld) (hstate : state.withholds) :
    ∃ c rest, withheld = c :: rest ∧ c ≠ ASCII_CR := by
  have hfirst : withheld.head? = some ASCII_LF ∨ withheld.head? = some (ch '-') := by
    have hwithheld := h.kept
    cases state with
    | bdyLF =>
        rw [show withheld = _ from hwithheld]
        exact .inl rfl
    | dash1 | dash2 =>
        rcases hwithheld with heq | heq <;> rw [heq]
        · exact .inl rfl
        · exact .inr rfl
    | boundary => exact hwithheld
    | hdrStart | hdr | hdrValue | hdrLF | hdrBdy | bdy => cases hstate
  rcases hfirst with hfirst | hfirst
  · obtain ⟨rest, hrest⟩ := List.head?_eq_some_iff.mp hfirst
    exact ⟨_, rest, hrest, by decide⟩
  · obtain ⟨rest, hrest⟩ := List.head?_eq_some_iff.mp hfirst
    exact ⟨_, rest, hrest, by decide⟩

theorem withholds_none (hstate : state.withholds = false) (hstart : state = .hdrBdy → source = []) :
    Withholds state source [] where
  kept := by cases state <;> first | rfl | cases hstate
  buffer h := absurd (hstate.symm.trans h) Bool.false_ne_true
  start := hstart

theorem Withholds.concat {state' : SourceState} {c : Octet} (h : Withholds state source withheld)
    (hstate : state.withholds) (hwithheld : KeptBack (withheld ++ [c]) state')
    (hstate' : state' ≠ .hdrBdy) : Withholds state' (source ++ [c]) (withheld ++ [c]) where
  kept := hwithheld
  buffer _ := by
    rcases h.buffer hstate with hsource | ⟨hsource, hfirst⟩
    · exact .inl (by rw [hsource])
    · refine .inr ⟨by rw [hsource]; rfl, ?_⟩
      rw [List.head?_append, hfirst]
      rfl
  start h := absurd h hstate'

theorem Withholds.length_le (h : Withholds state source withheld) (hstate : state.withholds) :
    source.length ≤ withheld.length + 1 := by
  rcases h.buffer hstate with hsource | ⟨hsource, -⟩
  · rw [hsource]
    exact Nat.le_succ _
  · rw [hsource]
    exact Nat.le_refl _

theorem Withholds.source_eq (h : Withholds state source withheld) (hstate : state.withholds)
    (hfirst : source.head? ≠ some ASCII_CR) : source = withheld := by
  rcases h.buffer hstate with hsource | ⟨hsource, -⟩
  · exact hsource
  · rw [hsource] at hfirst
    exact absurd rfl hfirst

theorem Withholds.newline {line : List Octet} (h : Withholds state source withheld)
    (hstate : state.withholds) (hfirst : source.head? ≠ some (ch '-'))
    (hwithheld : withheld = ASCII_LF :: line ∨ withheld = line) (hline : line.head? = some (ch '-')) :
    withheld = ASCII_LF :: line := by
  refine hwithheld.resolve_right fun heq => ?_
  rcases h.buffer hstate with hsource | ⟨-, hnewline⟩
  · rw [hsource, heq] at hfirst
    exact hfirst hline
  · rw [heq, hline] at hnewline
    exact absurd hnewline (by decide)

theorem begun_of_hyphen {line : List Octet} (hwithheld : withheld = ASCII_LF :: line ∨ withheld = line)
    (hsource : source = withheld ∨ source = ASCII_CR :: withheld ∧ withheld.head? = some ASCII_LF)
    (hfirst : ¬ source.head? ≠ some (ch '-')) : withheld = line := by
  refine hwithheld.resolve_left fun heq => hfirst ?_
  rcases hsource with hsource | ⟨hsource, -⟩
  · rw [hsource, heq]
    exact fun hhyphen => absurd (Option.some.inj hhyphen) (by decide)
  · rw [hsource]
    exact fun hhyphen => absurd (Option.some.inj hhyphen) (by decide)

theorem withholds_newline (held : List Octet) :
    Withholds .bdyLF (unlessFull (newlineOf held)) [ASCII_LF] := by
  rw [unlessFull_newlineOf]
  refine ⟨rfl, fun _ => ?_, nofun⟩
  unfold newlineOf
  split
  · exact .inr ⟨rfl, rfl⟩
  · exact .inl rfl

/-! ### Steps of the scanner -/

/-- At the octet, the scanner goes on to keep octets back, or gives those to the decoder that it has
kept back: a line does not fail that was begun without a newline, and a line that is kept back in
the source buffer is no longer than this, and has no CR before it there when it ends. -/
def ScanKeeps (source : List Octet) (c : Octet) : SourceState → Prop
  | .dash1 => c = ch '-' ∨ source.head? ≠ some (ch '-')
  | .dash2 => leadsBoundary c ∨ source.head? ≠ some (ch '-')
  | .boundary =>
      if c = ASCII_LF then source.head? ≠ some ASCII_CR
      else source.length + 1 < MIME_BUFFER_SIZE - 1
  | _ => True

instance (source : List Octet) (c : Octet) : ∀ state, Decidable (ScanKeeps source c state)
  | .dash1 => inferInstanceAs (Decidable (_ ∨ _))
  | .dash2 => inferInstanceAs (Decidable (_ ∨ _))
  | .boundary => inferInstanceAs (Decidable (ite _ _ _))
  | .hdrStart | .hdr | .hdrValue | .hdrLF | .hdrBdy | .bdy | .bdyLF => .isTrue trivial

/-- The octets of a step that keeps them: what was kept back comes first. -/
def KeptBy (withheld : List Octet) (c : Octet) (scanned : Scanned) : Prop :=
  ∃ withheld', Withholds scanned.state (unlessFull scanned.source) withheld' ∧
    scanned.given ++ withheld' = withheld ++ [c]

theorem scanLine_keeps (held : List Octet) (c : Octet) : KeptBy [] c (scanLine held c) := by
  unfold scanLine
  split
  · rename_i hc
    exact ⟨[ASCII_LF], withholds_newline held, by rw [hc, List.nil_append]⟩
  · exact ⟨[], withholds_none rfl nofun, rfl⟩

theorem keptBy_concat {state' : SourceState} {c : Octet} (h : Withholds state source withheld)
    (hstate : state.withholds) (hwithheld : KeptBack (withheld ++ [c]) state')
    (hstate' : state' ≠ .hdrBdy) (hroom : source.length + 1 < MIME_BUFFER_SIZE - 1) :
    KeptBy withheld c ⟨[], state', source ++ [c]⟩ := by
  refine ⟨withheld ++ [c], ?_, rfl⟩
  have hfits : (source ++ [c]).length < MIME_BUFFER_SIZE - 1 := by
    rw [List.length_append]
    exact hroom
  dsimp only
  rw [unlessFull_of_lt hfits]
  exact h.concat hstate hwithheld hstate'

/-- A scanner that keeps the octets goes on to do so. -/
theorem scanBody_keeps {c : Octet} (h : Withholds state source withheld)
    (hkeeps : ScanKeeps source c state) :
    KeptBy withheld c (scanBody state (source ++ [c]) c) := by
  have hall := h
  obtain ⟨hwithheld, hsource, hstart⟩ := h
  cases state with
  | hdrStart | hdr | hdrValue | hdrLF | bdy =>
      cases hwithheld
      exact scanLine_keeps _ c
  | hdrBdy =>
      cases hwithheld
      cases hstart rfl
      unfold scanBody
      dsimp only
      split
      · rename_i hc
        rw [hc]
        exact ⟨[ch '-'], ⟨.inr rfl, fun _ => .inl rfl, nofun⟩, rfl⟩
      · exact scanLine_keeps _ c
  | bdyLF =>
      have hshort := hall.length_le rfl
      cases hwithheld
      unfold scanBody
      dsimp only
      split
      · rename_i hc
        refine keptBy_concat hall rfl (.inl ?_) nofun
          (Nat.lt_of_le_of_lt (Nat.succ_le_succ hshort) ?_)
        · rw [hc]
          rfl
        · decide
      · split
        · rename_i hc
          exact ⟨[ASCII_LF], withholds_newline _, by rw [hc]⟩
        · exact ⟨[], withholds_none rfl nofun, rfl⟩
  | dash1 =>
      have hshort : withheld.length ≤ 2 := by
        rcases hwithheld with heq | heq <;> rw [heq] <;> decide
      unfold scanBody
      dsimp only
      split
      · rename_i hc
        refine keptBy_concat hall rfl ?_ nofun
          (Nat.lt_of_le_of_lt (Nat.succ_le_succ (hall.length_le rfl)) ?_)
        · rcases hwithheld with heq | heq <;> rw [heq, hc]
          · exact .inl rfl
          · exact .inr rfl
        · exact Nat.lt_of_le_of_lt (Nat.add_le_add_right hshort 2) (by decide)
      · rename_i hc
        rw [hall.newline rfl (hkeeps.resolve_left hc) hwithheld rfl]
        exact ⟨[], withholds_none rfl nofun, rfl⟩
  | dash2 =>
      have hshort : withheld.length ≤ 3 := by
        rcases hwithheld with heq | heq <;> rw [heq] <;> decide
      unfold scanBody
      dsimp only
      split
      · refine keptBy_concat hall rfl ?_ nofun
          (Nat.lt_of_le_of_lt (Nat.succ_le_succ (hall.length_le rfl)) ?_)
        · rcases hwithheld with heq | heq <;> rw [heq]
          · exact .inl rfl
          · exact .inr rfl
        · exact Nat.lt_of_le_of_lt (Nat.add_le_add_right hshort 2) (by decide)
      · rename_i hc
        rw [hall.newline rfl (hkeeps.resolve_left hc) hwithheld rfl]
        exact ⟨[], withholds_none rfl nofun, rfl⟩
  | boundary =>
      unfold scanBody
      dsimp only
      by_cases hc : c = ASCII_LF
      · have hfirst : source.head? ≠ some ASCII_CR := by rwa [ScanKeeps, if_pos hc] at hkeeps
        rw [if_pos hc, hall.source_eq rfl hfirst]
        exact ⟨[], withholds_none rfl nofun, List.append_nil _⟩
      · have hroom : source.length + 1 < MIME_BUFFER_SIZE - 1 := by
          rwa [ScanKeeps, if_neg hc] at hkeeps
        rw [if_neg hc]
        refine keptBy_concat hall rfl ?_ nofun hroom
        rcases hwithheld with heq | heq
        · exact .inl (by rw [List.head?_append, heq]; rfl)
        · exact .inr (by rw [List.head?_append, heq]; rfl)

theorem scanBody_differs {c : Octet} (h : Withholds state source withheld)
    (hloses : ¬ ScanKeeps source c state) :
    Differ (scanBody state (source ++ [c]) c).given (withheld ++ [c]) ∨
      (state = .boundary ∧ c ≠ ASCII_LF ∧ MIME_BUFFER_SIZE - 1 ≤ source.length + 1) := by
  obtain ⟨hwithheld, hsource, -⟩ := h
  cases state with
  | hdrStart | hdr | hdrValue | hdrLF | hdrBdy | bdy | bdyLF => exact absurd trivial hloses
  | dash1 =>
      obtain ⟨hc, hfirst⟩ := not_or.mp hloses
      have hbegun : withheld = [ch '-'] := begun_of_hyphen hwithheld (hsource rfl) hfirst
      unfold scanBody
      dsimp only
      rw [if_neg hc, hbegun]
      exact .inl ⟨[], ASCII_LF, ch '-', _, _, by decide, rfl, rfl⟩
  | dash2 =>
      obtain ⟨hc, hfirst⟩ := not_or.mp hloses
      have hbegun : withheld = [ch '-', ch '-'] := begun_of_hyphen hwithheld (hsource rfl) hfirst
      unfold scanBody
      dsimp only
      rw [if_neg hc, hbegun]
      exact .inl ⟨[], ASCII_LF, ch '-', _, _, by decide, rfl, rfl⟩
  | boundary =>
      by_cases hc : c = ASCII_LF
      · rw [ScanKeeps, if_pos hc, not_not] at hloses
        rcases hsource rfl with heq | ⟨heq, hfirst⟩
        · rw [heq] at hloses
          rcases hwithheld with hfirst | hfirst
          · exact absurd (Option.some.inj (hloses.symm.trans hfirst)) (by decide)
          · exact absurd (Option.some.inj (hloses.symm.trans hfirst)) (by decide)
        · obtain ⟨rest, hrest⟩ := List.head?_eq_some_iff.mp hfirst
          unfold scanBody
          dsimp only
          rw [if_pos hc, heq, hrest]
          exact .inl ⟨[], ASCII_CR, ASCII_LF, _, _, by decide, rfl, rfl⟩
      · rw [ScanKeeps, if_neg hc] at hloses
        exact .inr ⟨rfl, hc, Nat.le_of_not_lt hloses⟩

/-! ### Octets that are lost -/

/-- The number of octets that are no CR. -/
def visible (octets : List Octet) : Nat :=
  octets.countP (· ≠ ASCII_CR)

@[simp] theorem visible_append (octets octets' : List Octet) :
    visible (octets ++ octets') = visible octets + visible octets' :=
  List.countP_append

theorem visible_cons {c : Octet} (octets : List Octet) (hc : c ≠ ASCII_CR) :
    visible (c :: octets) = visible octets + 1 :=
  List.countP_cons_of_pos (by simpa using hc)

theorem visible_newlineOf (held : List Octet) : visible (newlineOf held) = 1 := by
  unfold newlineOf
  split <;> decide

theorem visible_unlessFull (source : List Octet) : visible (unlessFull source) ≤ visible source := by
  unfold unlessFull
  split
  · exact Nat.zero_le _
  · exact Nat.le_refl _

theorem visible_newline (held : List Octet) : visible (unlessFull (newlineOf held)) ≤ 1 :=
  (visible_unlessFull _).trans (visible_newlineOf held).le

/-- How many octets that are no CR a state keeps back, and gives to the decoder when its line fails. -/
def due (source : List Octet) : SourceState → Nat
  | .bdyLF => 1
  | .dash1 => 2
  | .dash2 => 3
  | .boundary => visible source
  | _ => 0

/-- The source buffer holds no more than what the state keeps back. -/
def Due (source : List Octet) (state : SourceState) : Prop :=
  state.withholds → visible source ≤ due source state

/-- A step gives no more octets to the decoder than were kept back and come. -/
structure GivesDue (most : Nat) (scanned : Scanned) : Prop where
  state : scanned.state ≠ .hdrBdy
  buffer : Due (unlessFull scanned.source) scanned.state
  given : visible scanned.given + due (unlessFull scanned.source) scanned.state ≤ most

theorem scanLine_due (held : List Octet) (c : Octet) : GivesDue (visible [c]) (scanLine held c) := by
  unfold scanLine
  split
  · rename_i hc
    rw [hc]
    exact ⟨nofun, fun _ => visible_newline held, Nat.le_refl _⟩
  · exact ⟨nofun, nofun, Nat.le_refl _⟩

theorem scanBody_due {c : Octet} (hstate : state ≠ .hdrBdy) (hdue : Due source state) :
    GivesDue (due source state + visible [c]) (scanBody state (source ++ [c]) c) := by
  have hheld : visible (unlessFull (source ++ [c])) ≤ visible source + visible [c] :=
    (visible_unlessFull _).trans (visible_append _ _).le
  have hhyphen : visible [ch '-'] = 1 := by decide
  have hnewline : visible [ASCII_LF] = 1 := by decide
  cases state with
  | hdrBdy => exact absurd rfl hstate
  | hdrStart | hdr | hdrValue | hdrLF | bdy =>
      have hline := scanLine_due (source ++ [c]) c
      rwa [← Nat.zero_add (visible [c])] at hline
  | bdyLF =>
      have hdue : visible source ≤ 1 := hdue rfl
      unfold scanBody
      dsimp only
      split
      · rename_i hc
        rw [hc, hhyphen] at hheld ⊢
        exact ⟨nofun, fun _ => hheld.trans (Nat.add_le_add_right hdue 1), Nat.le_refl _⟩
      · split
        · rename_i hc
          rw [hc, hnewline]
          exact ⟨nofun, fun _ => visible_newline _, Nat.le_refl _⟩
        · exact ⟨nofun, nofun, (visible_append [ASCII_LF] [c]).le⟩
  | dash1 =>
      have hdue : visible source ≤ 2 := hdue rfl
      unfold scanBody
      dsimp only
      split
      · rename_i hc
        rw [hc, hhyphen] at hheld ⊢
        exact ⟨nofun, fun _ => hheld.trans (Nat.add_le_add_right hdue 1), Nat.le_refl _⟩
      · exact ⟨nofun, nofun, (visible_append [ASCII_LF, ch '-'] [c]).le⟩
  | dash2 =>
      have hdue : visible source ≤ 3 := hdue rfl
      unfold scanBody
      dsimp only
      split
      · refine ⟨nofun, fun _ => Nat.le_refl _, ?_⟩
        exact (Nat.zero_add _).le.trans (hheld.trans (Nat.add_le_add_right hdue _))
      · exact ⟨nofun, nofun, (visible_append [ASCII_LF, ch '-', ch '-'] [c]).le⟩
  | boundary =>
      unfold scanBody
      dsimp only
      split
      · exact ⟨nofun, nofun, (visible_append source [c]).le⟩
      · exact ⟨nofun, fun _ => Nat.le_refl _, (Nat.zero_add _).le.trans hheld⟩

/-! ### Steps of the parser -/

/-- At the octet, the parser keeps the octets of the body: the scanner does, and no CR is dropped that
the identity decoder has kept back. -/
def Mime.KeepsOctets (m : Mime) (c : Octet) : Prop :=
  ScanKeeps m.source.octets c m.sourceState ∧
    (m.EndsHeld c → m.decodeState = .decodeAdd → m.decodeStateCr = false)

instance (m : Mime) (c : Octet) : Decidable (m.KeepsOctets c) := by
  unfold Mime.KeepsOctets
  infer_instance

/-- The octets given to the decoder and those of the identity decoder are the ones expected, up to what
is kept back. -/
structure Mime.Keeps (m : Mime) (sources decoded withheld : List Octet) : Prop where
  withholds : Withholds m.sourceState m.source.octets withheld
  sources : sourceOctets m.log ++ withheld = sources
  decoded : m.decodeState = .decodeAdd → decodedOctets m.log ++ heldCr m ++ withheld = decoded

/-- The octets given to the decoder or those of the identity decoder are not the ones expected, and
will not be. -/
inductive Mime.Loses (m : Mime) (sources decoded : List Octet) : Prop where
  | sources (h : Differ (sourceOctets m.log) sources)
  | decoded (hidentity : m.decodeState = .decodeAdd) (h : Differ (decodedOctets m.log) decoded)
  | late (hstate : m.sourceState ≠ .hdrBdy) (hdue : Due m.source.octets m.sourceState)
      (h : visible (sourceOctets m.log) + due m.source.octets m.sourceState < visible sources)

section Steps

variable {m : Mime} {c : Octet} {sources decoded : List Octet}

theorem begin_octets (m : Mime) (c : Octet) :
    sourceOctets (m.begin c).log = sourceOctets m.log ∧
      decodedOctets (m.begin c).log = decodedOctets m.log ∧ m.log <+: (m.begin c).log := by
  have hlog : (m.begin c).log = (m.take c).log := by
    unfold Mime.begin
    split
    · rfl
    · rfl
  rw [hlog]
  exact ⟨(take_octets m c).1, (take_octets m c).2.1, List.prefix_append _ _⟩

theorem begin_decodeState (m : Mime) (c : Octet) : (m.begin c).decodeState = m.decodeState := by
  unfold Mime.begin
  split
  · rfl
  · rfl

theorem begin_heldCr (hkeeps : m.KeepsOctets c) (hidentity : m.decodeState = .decodeAdd) :
    heldCr (m.begin c) = heldCr m := by
  unfold Mime.begin
  split
  · rename_i hends
    rw [heldCr, heldCr, hkeeps.2 hends hidentity]
    rfl
  · rfl

theorem mimeNextOctet_keeps (hin : m.InMultipart) (hline : ¬ m.Accepts c)
    (h : m.Keeps sources decoded withheld) (hkeeps : m.KeepsOctets c) :
    ∃ withheld', (mimeNextOctet m c).Keeps (sources ++ [c]) (decoded ++ [c]) withheld' := by
  obtain ⟨hgives, hstate, hsource⟩ := mimeNextOctet_scan hin hline
  obtain ⟨withheld', hwithholds, hgiven⟩ := scanBody_keeps h.withholds hkeeps.1
  obtain ⟨hsources, hdecoded, -⟩ := begin_octets m c
  refine ⟨withheld', ?_, ?_, fun hidentity => ?_⟩
  · rwa [hstate, hsource]
  · rw [hgives.sources, hsources, List.append_assoc, hgiven, ← List.append_assoc, h.sources]
  · have hbegin := hgives.identity.mp hidentity
    have hbefore := (begin_decodeState m c).symm.trans hbegin
    rw [hgives.decoded hbegin, hdecoded, begin_heldCr hkeeps hbefore, List.append_assoc, hgiven,
      ← List.append_assoc, h.decoded hbefore]

theorem mimeNextOctet_dropsCr (hin : m.InMultipart) (hline : ¬ m.Accepts c)
    (h : m.Keeps sources decoded withheld) (hkeeps : ScanKeeps m.source.octets c m.sourceState)
    (hends : m.EndsHeld c) (hidentity : m.decodeState = .decodeAdd) (hcr : m.decodeStateCr) :
    Differ (decodedOctets (mimeNextOctet m c).log) (decoded ++ [c]) := by
  obtain ⟨hgives, -, -⟩ := mimeNextOctet_scan hin hline
  obtain ⟨hstate, rfl⟩ := hends
  have hwithholds : m.sourceState.withholds := by rw [hstate]; rfl
  have hsource : m.source.octets = withheld := by
    rw [hstate, ScanKeeps, if_pos rfl] at hkeeps
    exact h.withholds.source_eq hwithholds hkeeps
  obtain ⟨first, rest, hfirst, hne⟩ := h.withholds.cons hwithholds
  have hdropped : heldCr (m.begin ASCII_LF) = [] := by
    rw [Mime.begin, if_pos ⟨hstate, rfl⟩]
    rfl
  have hgiven := hgives.decoded ((begin_decodeState m ASCII_LF).trans hidentity)
  have hscan : scanBody .boundary (m.source.octets ++ [ASCII_LF]) ASCII_LF =
      ⟨withheld ++ [ASCII_LF], .bdy, withheld ++ [ASCII_LF]⟩ := by
    rw [hsource, scanBody, if_pos rfl]
  rw [(begin_octets m ASCII_LF).2.1, hdropped, hstate, hscan, List.append_nil] at hgiven
  dsimp only at hgiven
  -- The last octet decoded is the newline, so that no CR is kept back behind it.
  have hnone : heldCr (mimeNextOctet m ASCII_LF) = [] := by
    have hlast := congrArg List.getLast? hgiven
    rw [← List.append_assoc, List.getLast?_append] at hlast
    unfold heldCr at hlast ⊢
    split at hlast
    · exact absurd (Option.some.inj (hlast.trans List.getLast?_concat)) (by decide)
    · rename_i hfree
      rw [if_neg hfree]
  rw [hnone, List.append_nil] at hgiven
  refine ⟨decodedOctets m.log, first, ASCII_CR, rest ++ [ASCII_LF], withheld ++ [ASCII_LF], hne, ?_, ?_⟩
  · rw [hgiven, hfirst]
    rfl
  · rw [← h.decoded hidentity, heldCr, if_pos hcr]
    simp

theorem mimeNextOctet_loses (hin : m.InMultipart) (hline : ¬ m.Accepts c)
    (h : m.Keeps sources decoded withheld) (hloses : ¬ m.KeepsOctets c) :
    (mimeNextOctet m c).Loses (sources ++ [c]) (decoded ++ [c]) := by
  obtain ⟨hgives, hstate, hsource⟩ := mimeNextOctet_scan hin hline
  have hsources := hgives.sources
  rw [(begin_octets m c).1] at hsources
  by_cases hkeeps : ScanKeeps m.source.octets c m.sourceState
  · have hcr : m.EndsHeld c ∧ m.decodeState = .decodeAdd ∧ m.decodeStateCr = true := by
      by_contra hnot
      exact hloses ⟨hkeeps, fun hends hidentity => Bool.eq_false_iff.mpr fun hcr =>
        hnot ⟨hends, hidentity, hcr⟩⟩
    obtain ⟨hends, hidentity, hcr⟩ := hcr
    refine .decoded ?_ (mimeNextOctet_dropsCr hin hline h hkeeps hends hidentity hcr)
    exact hgives.identity.mpr ((begin_decodeState m c).trans hidentity)
  · rcases scanBody_differs h.withholds hkeeps with hdiffer | ⟨hboundary, hc, hfull⟩
    · refine .sources ?_
      rw [hsources, ← h.sources, List.append_assoc]
      exact hdiffer.append_left _
    · obtain ⟨first, rest, hfirst, hne⟩ := h.withholds.cons (by rw [hboundary]; rfl)
      have hscan : scanBody m.sourceState (m.source.octets ++ [c]) c =
          ⟨[], .boundary, m.source.octets ++ [c]⟩ := by
        rw [hboundary]
        exact if_neg hc
      have hflushed : unlessFull (m.source.octets ++ [c]) = [] :=
        if_pos (by rw [List.length_append]; exact hfull)
      rw [hscan] at hsources hstate hsource
      dsimp only at hsources hstate hsource
      rw [hflushed] at hsource
      refine .late (by rw [hstate]; nofun) ?_ ?_
      · rw [hstate, hsource]
        exact fun _ => Nat.zero_le _
      · rw [hstate, hsource, hsources, List.append_nil, ← h.sources, hfirst, visible_append,
          visible_append, visible_cons rest hne]
        change visible (sourceOctets m.log) + 0 < _
        omega

theorem Mime.Loses.next (hin : m.InMultipart) (hline : ¬ m.Accepts c) (h : m.Loses sources decoded) :
    (mimeNextOctet m c).Loses (sources ++ [c]) (decoded ++ [c]) := by
  obtain ⟨hgives, hstate, hsource⟩ := mimeNextOctet_scan hin hline
  obtain ⟨hsources, hdecoded, hlog⟩ := begin_octets m c
  cases h with
  | sources h =>
      refine .sources ?_
      rw [hgives.sources, hsources]
      exact h.append _ _
  | decoded hidentity h =>
      refine .decoded (hgives.identity.mpr ((begin_decodeState m c).trans hidentity)) ?_
      obtain ⟨new, hnew⟩ := hlog.trans hgives.log
      rw [← hnew, decodedOctets_append]
      exact h.append _ _
  | late hstart hdue h =>
      obtain ⟨hstart', hdue', hgiven⟩ := scanBody_due (c := c) hstart hdue
      refine .late (by rwa [hstate]) (by rwa [hstate, hsource]) ?_
      rw [hstate, hsource, hgives.sources, hsources, visible_append, visible_append]
      omega

end Steps

/-! ### Runs -/

section Runs

variable {m : Mime} {sources decoded : List Octet}

theorem mimeFeed_identityDecoder (octets : List Octet) : ∀ {m : Mime}, m.InMultipart →
    m.StaysInBody octets →
      ((mimeFeed m (octets.map some)).decodeState = .decodeAdd ↔ m.decodeState = .decodeAdd) := by
  induction octets with
  | nil => exact fun _ _ => Iff.rfl
  | cons c octets ih =>
      intro m hin hstays
      obtain ⟨hline, hrest⟩ := not_accepts_of_stays hin hstays
      have hstep := (mimeNextOctet_scan hin hline).gives.identity
      rw [begin_decodeState] at hstep
      rw [mimeFeed_cons hin.thrown]
      exact (ih (mimeNextOctet_inMultipart hin hline) hrest).trans hstep

theorem Mime.Loses.feed (octets : List Octet) : ∀ {m : Mime} {sources decoded : List Octet},
    m.InMultipart → m.StaysInBody octets → m.Loses sources decoded →
      (mimeFeed m (octets.map some)).Loses (sources ++ octets) (decoded ++ octets) := by
  induction octets with
  | nil => exact fun _ _ h => by rwa [List.append_nil, List.append_nil]
  | cons c octets ih =>
      intro m sources decoded hin hstays h
      obtain ⟨hline, hrest⟩ := not_accepts_of_stays hin hstays
      have hnext := ih (mimeNextOctet_inMultipart hin hline) hrest (h.next hin hline)
      rw [mimeFeed_cons hin.thrown]
      rwa [List.append_assoc, List.append_assoc] at hnext

theorem mimeFeed_keeps (octets : List Octet) :
    ∀ {m : Mime} {sources decoded withheld : List Octet}, m.InMultipart → m.StaysInBody octets →
      m.Keeps sources decoded withheld →
      (m.Along Mime.KeepsOctets octets → ∃ withheld', (mimeFeed m (octets.map some)).Keeps
        (sources ++ octets) (decoded ++ octets) withheld') ∧
      (¬ m.Along Mime.KeepsOctets octets → (mimeFeed m (octets.map some)).Loses
        (sources ++ octets) (decoded ++ octets)) := by
  induction octets with
  | nil =>
      intro m sources decoded withheld _ _ h
      refine ⟨fun _ => ⟨withheld, by rwa [List.append_nil, List.append_nil]⟩, fun hloses => ?_⟩
      exact absurd (fun before c after hoctets => absurd hoctets (by simp)) hloses
  | cons c octets ih =>
      intro m sources decoded withheld hin hstays h
      obtain ⟨hline, hrest⟩ := not_accepts_of_stays hin hstays
      have hnext := mimeNextOctet_inMultipart hin hline
      have hfeed : mimeFeed m [some c] = mimeNextOctet m c := mimeFeed_cons hin.thrown c []
      rw [along_cons, hfeed, mimeFeed_cons hin.thrown]
      by_cases hkeeps : m.KeepsOctets c
      · obtain ⟨withheld', hkept⟩ := mimeNextOctet_keeps hin hline h hkeeps
        obtain ⟨hkeptAll, hlost⟩ := ih hnext hrest hkept
        rw [List.append_assoc, List.append_assoc] at hkeptAll hlost
        exact ⟨fun hall => hkeptAll hall.2, fun hnot => hlost fun hall => hnot ⟨fun _ => hkeeps, hall⟩⟩
      · have hlost := (mimeNextOctet_loses hin hline h hkeeps).feed octets hnext hrest
        rw [List.append_assoc, List.append_assoc] at hlost
        exact ⟨fun hall => absurd (hall.1 hin.thrown) hkeeps, fun _ => hlost⟩

theorem Mime.Keeps.eof (hin : m.InMultipart) (h : m.Keeps sources decoded withheld) :
    (sourceOctets (mimeNextEof m).log = sources ∧
      (m.decodeState = .decodeAdd → decodedOctets (mimeNextEof m).log = decoded)) ↔
      m.sourceState.withholds = false := by
  obtain ⟨hsources, hdecoded, -⟩ := mimeNextEof_octets hin.body
  rw [hsources]
  constructor
  · rintro ⟨hall, -⟩
    refine Bool.eq_false_iff.mpr fun hwithholds => ?_
    obtain ⟨first, rest, hfirst, -⟩ := h.withholds.cons hwithholds
    have hnone : withheld = [] := List.append_right_eq_self.mp (h.sources.trans hall.symm)
    rw [hnone] at hfirst
    cases hfirst
  · intro hnone
    have hnil := h.withholds.nil hnone
    refine ⟨?_, fun hidentity => ?_⟩
    · rw [← h.sources, hnil, List.append_nil]
    · rw [hdecoded hidentity, ← h.decoded hidentity, hnil, List.append_nil]

theorem Mime.Loses.eof (hin : m.InMultipart) (h : m.Loses sources decoded) :
    ¬ (sourceOctets (mimeNextEof m).log = sources ∧
      (m.decodeState = .decodeAdd → decodedOctets (mimeNextEof m).log = decoded)) := by
  obtain ⟨hsources, hdecoded, -⟩ := mimeNextEof_octets hin.body
  rw [hsources]
  rintro ⟨hall, hsame⟩
  cases h with
  | sources h => exact h.ne hall
  | decoded hidentity h =>
      have hlonger := h.append (heldCr m) []
      rw [List.append_nil] at hlonger
      exact hlonger.ne ((hdecoded hidentity).symm.trans (hsame hidentity))
  | late _ _ h =>
      rw [← hall] at h
      exact absurd h (Nat.not_lt.mpr (Nat.le_add_right _ _))

end Runs

/-- The octets of a multipart body, up to `EOF`, that has no line taken for a boundary: those given to
the decoder and, if nothing is encoded, those decoded are its octets, exactly if the octets are kept at
each step and none are kept back at `EOF`. -/
theorem mimeFeed_keepsOctets_iff (m : Mime) (octets : List Octet) (hin : m.InMultipart)
    (hstart : m.sourceState = .bdy ∨ (m.sourceState = .hdrBdy ∧ m.source.octets = []))
    (hstays : m.StaysInBody octets) :
    (sourceOctets (mimeFeed m (octets.map some ++ [none])).log = sourceOctets m.log ++ octets ∧
      (m.decodeState = .decodeAdd →
        decodedOctets (mimeFeed m (octets.map some ++ [none])).log =
          decodedOctets m.log ++ heldCr m ++ octets)) ↔
      m.Along Mime.KeepsOctets octets ∧
        (mimeFeed m (octets.map some)).sourceState.withholds = false := by
  have hkeeps : m.Keeps (sourceOctets m.log) (decodedOctets m.log ++ heldCr m) [] := by
    refine ⟨?_, List.append_nil _, fun _ => List.append_nil _⟩
    rcases hstart with hstate | ⟨hstate, hempty⟩
    · rw [hstate]
      exact withholds_none rfl nofun
    · rw [hstate, hempty]
      exact withholds_none rfl fun _ => rfl
  have hfed := mimeFeed_inMultipart octets hin hstays
  obtain ⟨hkept, hlost⟩ := mimeFeed_keeps octets hin hstays hkeeps
  rw [mimeFeed_eof hfed.thrown, ← mimeFeed_identityDecoder octets hin hstays]
  by_cases hall : m.Along Mime.KeepsOctets octets
  · obtain ⟨withheld', hkept⟩ := hkept hall
    exact (hkept.eof hfed).trans (and_iff_right hall).symm
  · exact iff_of_false ((hlost hall).eof hfed) fun h => hall h.1

/-- A body with lines that begin like a boundary. -/
theorem mimeFeed_keepsOctets_dashes :
    sourceOctets (mimeFeed multipartStart ((ascii "a\n-b\n-- c\n--d e\nf").map some ++ [none])).log =
        sourceOctets multipartStart.log ++ ascii "a\n-b\n-- c\n--d e\nf" ∧
      (multipartStart.decodeState = .decodeAdd →
        decodedOctets (mimeFeed multipartStart
            ((ascii "a\n-b\n-- c\n--d e\nf").map some ++ [none])).log =
          decodedOctets multipartStart.log ++ heldCr multipartStart ++
            ascii "a\n-b\n-- c\n--d e\nf") :=
  (mimeFeed_keepsOctets_iff multipartStart (ascii "a\n-b\n-- c\n--d e\nf")
    multipartStart_inMultipart (.inr (by decide)) (by decide)).mpr
    (by decide)

/-- The newline at the end of a body is kept back, and lost. -/
theorem mimeFeed_not_keepsOctets :
    multipartStart.sourceState = .hdrBdy ∧ multipartStart.StaysInBody (ascii "x\n") ∧
      ¬ (sourceOctets (mimeFeed multipartStart ((ascii "x\n").map some ++ [none])).log =
          sourceOctets multipartStart.log ++ ascii "x\n" ∧
        (multipartStart.decodeState = .decodeAdd →
          decodedOctets (mimeFeed multipartStart ((ascii "x\n").map some ++ [none])).log =
            decodedOctets multipartStart.log ++ heldCr multipartStart ++ ascii "x\n")) := by
  decide

end Snert
