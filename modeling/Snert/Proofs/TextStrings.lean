/-
Module: Snert.Proofs.TextStrings
Purpose: What `pdq_txt_create` makes of any RDATA. It joins the strings where they end with the RDATA.
  Where the RDATA breaks off inside a string, this is noticed if it lacks more octets than there are
  strings before: the test forgets their length octets. Otherwise it reads behind the RDATA.
Trusted boundary: none
Main exports: txtCreate_exact_iff
-/
import Snert.Proofs.RecordDecode

namespace Snert

open CModel CModel.Run

/-- The packet with nothing behind an offset that may be read. -/
def Packet.upTo (packet : Packet) (stop : Nat) : Packet :=
  { packet with length := stop }

/-- What the octets from `p` to `e` should be decoded to: the strings joined, if strings with their
lengths fill them, or else nothing. -/
def Joined (packet : Packet) (p e : Nat) (text : Option (List Octet)) : Prop :=
  ∀ s, text = some s ↔ ∃ texts, StringsAt packet p texts e ∧ s = texts.flatten

/-- `pdq_txt_create` reads nothing behind the RDATA, and decodes it as it should. -/
def TextExact (packet : Packet) (p rdlength : Nat) : Prop :=
  (pdqTxtCreate (packet.upTo (p + rdlength)) p rdlength).Ends (Joined packet p (p + rdlength))

/-- Behind strings, the octets from `p` to `e` break off in a string that is longer. -/
def BreaksAt (packet : Packet) (p e : Nat) (texts : List (List Octet)) (q : Nat) : Prop :=
  StringsAt packet p texts q ∧ q < e ∧ e < q + 1 + (packet.octet q).toNat

/-- If the octets break off, more of them are missing than there are strings before. -/
def Caught (packet : Packet) (p e : Nat) : Prop :=
  ∀ texts q, BreaksAt packet p e texts q → e + texts.length < q + 1 + (packet.octet q).toNat

section

variable {packet : Packet} {p q q' e : Nat} {texts texts' front : List (List Octet)}

/-! ### Strings -/

theorem stringsAt_upTo {stop : Nat} :
    StringsAt (packet.upTo stop) p texts e ↔ StringsAt packet p texts e := by
  induction texts generalizing p with
  | nil => exact Iff.rfl
  | cons text texts ih => exact and_congr_right fun _ => and_congr_right fun _ => ih

theorem StringsAt.end_eq (h : StringsAt packet p texts q) :
    q = p + texts.flatten.length + texts.length := by
  induction texts generalizing p with
  | nil => exact h
  | cons text texts ih =>
      rw [ih h.2.2, List.flatten_cons, List.length_append, List.length_cons]
      omega

theorem StringsAt.concat (h : StringsAt packet p texts q) :
    StringsAt packet p (texts ++ [packet.octets (q + 1) (packet.octet q).toNat])
      (q + ((packet.octet q).toNat + 1)) := by
  induction texts generalizing p with
  | nil =>
      obtain rfl : q = p := h
      exact ⟨by rw [Packet.length_octets], by rw [Packet.length_octets],
        by rw [Packet.length_octets]; rfl⟩
  | cons text texts ih => exact ⟨h.1, h.2.1, ih h.2.2⟩

theorem StringsAt.firstOf (h : StringsAt packet p texts q)
    (hstops : e < q + 1 + (packet.octet q).toNat) (h' : StringsAt packet p texts' q')
    (hle : q' ≤ e) : texts' <+: texts := by
  induction texts' generalizing p texts with
  | nil => exact List.nil_prefix
  | cons text' texts' ih =>
      have hend := h'.end_eq
      obtain ⟨hlen', hoctets', hrest'⟩ := h'
      cases texts with
      | nil =>
          obtain rfl : q = p := h
          rw [List.flatten_cons, List.length_append, List.length_cons] at hend
          omega
      | cons text texts =>
          obtain ⟨hlen, hoctets, hrest⟩ := h
          rw [← hlen] at hoctets
          rw [← hlen'] at hoctets'
          obtain rfl : text' = text := hoctets'.symm.trans hoctets
          exact List.cons_prefix_cons.mpr ⟨rfl, ih hrest hrest'⟩

theorem StringsAt.unique (h : StringsAt packet p texts q)
    (hstops : e < q + 1 + (packet.octet q).toNat) (hle : q ≤ e)
    (h' : StringsAt packet p texts' q') (hstops' : e < q' + 1 + (packet.octet q').toNat)
    (hle' : q' ≤ e) : texts = texts' ∧ q = q' := by
  have heq : texts = texts' :=
    (h'.firstOf hstops' h hle).eq_of_length_le (h.firstOf hstops h' hle').length_le
  subst heq
  exact ⟨rfl, h.end_eq.trans h'.end_eq.symm⟩

/-! ### The loop -/

theorem joined_of_strings (h : StringsAt packet p texts e) :
    Joined packet p e (some texts.flatten) := by
  intro s
  rw [Option.some_inj]
  constructor
  · rintro rfl
    exact ⟨texts, h, rfl⟩
  · rintro ⟨texts', h', rfl⟩
    rw [(h.unique (by omega) (Nat.le_refl e) h' (by omega) (Nat.le_refl e)).1]

theorem caught_of_strings (h : StringsAt packet p texts e) : Caught packet p e := by
  rintro texts' q' ⟨h', hlt, hstops⟩
  have heq := (h.unique (by omega) (Nat.le_refl e) h' hstops (Nat.le_of_lt hlt)).2
  omega

theorem joined_none (h : BreaksAt packet p e texts q) : Joined packet p e none := by
  intro s
  refine iff_of_false nofun ?_
  rintro ⟨texts', h', -⟩
  have heq := (h'.unique (e := e) (by omega) (Nat.le_refl e) h.1 h.2.2 (Nat.le_of_lt h.2.1)).2
  have hlt := h.2.1
  omega

theorem caught_iff (h : BreaksAt packet p e texts q) :
    Caught packet p e ↔ e + texts.length < q + 1 + (packet.octet q).toNat := by
  refine ⟨fun hall => hall texts q h, ?_⟩
  rintro hlong texts' q' ⟨h', hlt, hstops⟩
  obtain ⟨rfl, rfl⟩ := h.1.unique h.2.2 (Nat.le_of_lt h.2.1) h' hstops (Nat.le_of_lt hlt)
  exact hlong

theorem txtLoop_stops {rdlength : Nat} (hend : e = p + rdlength) (h : StringsAt packet p texts e)
    (rounds : Nat) :
    (txtLoop packet rdlength e rounds e texts.flatten).Ends fun text =>
      Joined packet p e text ∧ ∀ s, text = some s → s.length ≤ rdlength := by
  have htaken := h.end_eq
  have hpure : txtLoop packet rdlength e rounds e texts.flatten = pure (some texts.flatten) := by
    cases rounds with
    | zero => rfl
    | succ rounds => exact if_pos (Nat.le_refl _)
  rw [hpure, ends_pure]
  refine ⟨joined_of_strings h, ?_⟩
  rintro s hs
  rw [← Option.some.inj hs]
  omega

theorem txtLoop_exact_iff {rdlength rounds : Nat} (hend : packet.length = p + rdlength)
    (hrounds : packet.length ≤ q + rounds) (hfront : StringsAt packet p front q)
    (hle : q ≤ packet.length) :
    (txtLoop packet rdlength packet.length rounds q front.flatten).Ends (fun text =>
        Joined packet p packet.length text ∧ ∀ s, text = some s → s.length ≤ rdlength) ↔
      Caught packet p packet.length := by
  induction rounds generalizing q front with
  | zero =>
      obtain rfl : q = packet.length := by omega
      exact iff_of_true (txtLoop_stops hend hfront 0) (caught_of_strings hfront)
  | succ rounds ih =>
      have htaken := hfront.end_eq
      by_cases hstop : packet.length ≤ q
      · obtain rfl : q = packet.length := Nat.le_antisymm hle hstop
        exact iff_of_true (txtLoop_stops hend hfront _) (caught_of_strings hfront)
      have hlt := Nat.not_le.mp hstop
      have hread : Access.InBounds ⟨q, 1, packet.length⟩ := Access.inBounds_iff_le.mpr (by omega)
      unfold txtLoop Packet.getOctet
      rw [if_neg hstop, (yields_load hread _).bind_ends_iff]
      by_cases hbreaks : packet.length < q + 1 + (packet.octet q).toNat
      · -- The string that begins here does not end in the RDATA.
        have hbreak : BreaksAt packet p packet.length front q := ⟨hfront, hlt, hbreaks⟩
        rw [caught_iff hbreak]
        by_cases hlong : rdlength ≤ front.flatten.length + (packet.octet q).toNat
        · rw [if_pos hlong, ends_pure]
          exact iff_of_true ⟨joined_none hbreak, by simp⟩ (by omega)
        · rw [if_neg hlong]
          refine iff_of_false (fun hends => ?_) (by omega)
          have hbeyond := ((inBounds_load_bind _ _ _).mp hends.1).1
          have hbeyond := hbeyond.2
          dsimp only at hbeyond
          omega
      · have hfits : ¬ rdlength ≤ front.flatten.length + (packet.octet q).toNat := by omega
        have hstring : (packet.read (q + 1) (packet.octet q).toNat).Yields _ :=
          yields_load (Access.inBounds_iff_le.mpr (by omega)) _
        have hstore : Access.InBounds
            ⟨front.flatten.length, (packet.octet q).toNat, rdlength + 1⟩ :=
          Access.inBounds_iff_le.mpr (by omega)
        have hjoin : front.flatten ++ packet.octets (q + 1) (packet.octet q).toNat =
            (front ++ [packet.octets (q + 1) (packet.octet q).toNat]).flatten := by
          rw [List.flatten_append, List.flatten_singleton]
        rw [if_neg hfits, hstring.bind_ends_iff, ends_bind, ends_store, and_iff_right hstore, hjoin]
        exact ih (by omega) hfront.concat (by omega)

theorem joined_upTo (packet : Packet) (p rdlength : Nat) (text : Option (List Octet)) :
    Joined (packet.upTo (p + rdlength)) p (p + rdlength) text ↔
      Joined packet p (p + rdlength) text := by
  unfold Joined
  simp only [stringsAt_upTo]

theorem txtStored_ends_iff (packet : Packet) (p rdlength : Nat) (text : Option (List Octet)) :
    (match text with
      | none => pure none
      | some text => store ⟨text.length, 1, rdlength + 1⟩ (some text) : Run _).Ends
        (Joined packet p (p + rdlength)) ↔
      Joined (packet.upTo (p + rdlength)) p (p + rdlength) text ∧
        ∀ s, text = some s → s.length ≤ rdlength := by
  rw [joined_upTo]
  cases text with
  | none => simp
  | some text =>
      rw [ends_store, Access.inBounds_iff_le, Nat.add_le_add_iff_right, and_comm]
      simp

/-- `pdq_txt_create` is exact for RDATA exactly when a break in it is caught. -/
theorem txtCreate_exact_iff (packet : Packet) (p rdlength : Nat) :
    TextExact packet p rdlength ↔ Caught packet p (p + rdlength) := by
  have hcaught : Caught (packet.upTo (p + rdlength)) p (p + rdlength) ↔
      Caught packet p (p + rdlength) := by
    unfold Caught BreaksAt
    simp only [stringsAt_upTo]
    rfl
  have hloop := @txtLoop_exact_iff (packet.upTo (p + rdlength)) p p [] rdlength rdlength rfl
    (Nat.le_refl _) rfl (Nat.le_add_right p rdlength)
  unfold TextExact pdqTxtCreate
  rw [← hcaught, ends_bind]
  exact Iff.trans ⟨fun h => h.mono fun text => (txtStored_ends_iff packet p rdlength text).mp,
    fun h => h.mono fun text => (txtStored_ends_iff packet p rdlength text).mpr⟩ hloop

end

/-- RDATA of two strings, of which the second lacks its one octet. -/
def brokenText : Packet :=
  { length := 3
    header := { id := 0, bits := 0x8000, qdcount := 1, ancount := 0, nscount := 0, arcount := 0 }
    octet := fun i => [1, ch 'a', 1].getD i 0 }

theorem txtCreate_overrun : ¬ TextExact brokenText 0 3 := by
  have hoverrun : ¬ (pdqTxtCreate (brokenText.upTo (0 + 3)) 0 3).InBounds := by
    decide
  exact fun hexact => hoverrun hexact.1

end Snert
