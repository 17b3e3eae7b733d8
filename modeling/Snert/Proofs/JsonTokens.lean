/-
Module: Snert.Proofs.JsonTokens
Purpose: What `jspr_token` reads of a JSON text. Inside brackets it passes over a whole value,
  whatever the delimiters are, so that a token which begins at a value reaches what stands behind
  the value, and a comma, white space or the end of the text ends it there.
Trusted boundary: none
Main exports: jsprToken_flat, jsprToken_compound, jsprToken_name
-/
import Mathlib.Data.List.DropRight
import Snert.Lists.JsonText
import Snert.Lists.OctetBits
import Snert.Util.Jspr

namespace Snert

open CModel Lists

/-- `":}" WS`, the delimiters of a key. -/
abbrev keyWs : List Octet :=
  ascii ":\x7d" ++ jsprWs

/-- The brackets that a token can count. -/
def Brackets (b : Octet × Octet) : Prop :=
  b ∈ [(ch '\x7b', ch '\x7d'), (ch '[', ch ']'), (0xff, 0xff)]

instance (b : Octet × Octet) : Decidable (Brackets b) :=
  inferInstanceAs (Decidable (_ ∈ _))

/-! ### Single octets -/

section Octets

variable {b : Octet × Octet} {d : List Octet} {n : Int} {c : Octet}

theorem jsprScan_unquoted (hc : c ∉ ascii "\"'\\") (s : List Octet) :
    jsprScan b d (c :: s) n false 0 =
      if countBracket b c n = 0 ∧ c ∈ d then c :: s
      else jsprScan b d s (countBracket b c n) false 0 := by
  have h1 : c ≠ ch '"' := fun h => hc (h ▸ by decide)
  have h2 : c ≠ ch '\'' := fun h => hc (h ▸ by decide)
  have h3 : c ≠ ch '\\' := fun h => hc (h ▸ by decide)
  rw [jsprScan, if_neg Bool.false_ne_true, if_neg (not_or.mpr ⟨h1, h2⟩), if_neg h3, if_pos rfl]

theorem jsprScan_quoted (hq : c ≠ ch '"') (he : c ≠ ch '\\') (s : List Octet) :
    jsprScan b d (c :: s) n false (ch '"') = jsprScan b d s n false (ch '"') := by
  have hquote : ch '"' ≠ 0 := by decide
  rw [jsprScan, if_neg Bool.false_ne_true, if_neg he, if_neg hquote, if_neg hquote, if_neg hq]
  split <;> rfl

theorem jsprScan_escape (s : List Octet) (quote : Octet) :
    jsprScan b d (ch '\\' :: c :: s) n false quote = jsprScan b d s n false quote := by
  rw [jsprScan, if_neg Bool.false_ne_true, if_neg (by decide), if_pos rfl, jsprScan, if_pos rfl]

theorem countBracket_other (h1 : c ≠ b.1) (h2 : c ≠ b.2) : countBracket b c n = n := by
  rw [countBracket, if_neg h1, if_neg h2]

theorem jsprScan_stop (hc : c ∉ ascii "\"'\\") (h1 : c ≠ b.1) (h2 : c ≠ b.2) (hd : c ∈ d)
    (s : List Octet) : jsprScan b d (c :: s) 0 false 0 = c :: s := by
  rw [jsprScan_unquoted hc, countBracket_other h1 h2, if_pos ⟨rfl, hd⟩]

end Octets

/-! ### Runs of octets -/

section Runs

variable {b : Octet × Octet} {d : List Octet} {n : Int}

theorem jsprScan_inert {t : List Octet} (ht : ∀ c ∈ t, c ∉ ascii "\"'\\" ∧ c ≠ b.1 ∧ c ≠ b.2)
    (hd : n ≠ 0 ∨ ∀ c ∈ t, c ∉ d) (r : List Octet) :
    jsprScan b d (t ++ r) n false 0 = jsprScan b d r n false 0 := by
  induction t with
  | nil => rfl
  | cons c t ih =>
      obtain ⟨hc, h1, h2⟩ := ht c List.mem_cons_self
      have hstop : ¬ (n = 0 ∧ c ∈ d) := fun h =>
        hd.elim (fun hn => hn h.1) (fun hall => hall c List.mem_cons_self h.2)
      rw [List.cons_append, jsprScan_unquoted hc, countBracket_other h1 h2, if_neg hstop]
      exact ih (fun c hmem => ht c (List.mem_cons_of_mem _ hmem))
        (hd.imp_right fun hall c hmem => hall c (List.mem_cons_of_mem _ hmem))

theorem jsprScan_body {body : List Octet} (h : isBody body = true) (r : List Octet) :
    jsprScan b d (body ++ ch '"' :: r) n false (ch '"') = jsprScan b d r n false 0 := by
  fun_induction isBody body with
  | case1 =>
      rw [List.nil_append, jsprScan, if_neg Bool.false_ne_true, if_pos (Or.inl rfl),
        if_neg (by decide), if_pos rfl]
  | case2 c =>
      simp only [Bool.and_eq_true, decide_eq_true_eq] at h
      rw [List.cons_append, jsprScan_quoted h.1.2 h.2, List.nil_append, jsprScan,
        if_neg Bool.false_ne_true, if_pos (Or.inl rfl), if_neg (by decide), if_pos rfl]
  | case3 c s ih =>
      simp only [Bool.and_eq_true, decide_eq_true_eq] at h
      rw [List.cons_append, List.cons_append, jsprScan_escape]
      exact ih h.2
  | case4 c d s hc ih =>
      simp only [Bool.and_eq_true, decide_eq_true_eq] at h
      rw [List.cons_append, jsprScan_quoted h.1.2 hc]
      exact ih h.2

theorem jsprScan_string (s : JsonString) (r : List Octet) :
    jsprScan b d (s.text ++ r) n false 0 = jsprScan b d r n false 0 := by
  rw [JsonString.text, List.cons_append, List.append_assoc, List.cons_append, List.nil_append,
    jsprScan, if_neg Bool.false_ne_true, if_pos (Or.inl rfl), if_pos rfl]
  exact jsprScan_body s.valid r

theorem scalar_octets (s : JsonScalar) {c : Octet} (hc : c ∈ s.text) :
    c ∉ ascii "\"'\\" ∧ c ∉ keyWs ∧ c ∉ objectWs ∧ c ∉ ascii "[]\x7b\x7d" ∧ c ≠ 0xff := by
  have hall : ∀ c, isalnum c = true ∨ c ∈ ascii "+-." →
      c ∉ ascii "\"'\\" ∧ c ∉ keyWs ∧ c ∉ objectWs ∧ c ∉ ascii "[]\x7b\x7d" ∧ c ≠ 0xff :=
    forall_octet (by decide +kernel)
  exact hall c (s.valid c hc)

theorem blank_octets (s : Blank) {c : Octet} (hc : c ∈ s.text) :
    c ∉ ascii "\"'\\" ∧ c ∈ jsprWs ∧ c ∉ ascii "[]\x7b\x7d" ∧ c ≠ 0xff := by
  have hall : ∀ c ∈ ascii " \t\n\r",
      c ∉ ascii "\"'\\" ∧ c ∈ jsprWs ∧ c ∉ ascii "[]\x7b\x7d" ∧ c ≠ 0xff := by decide
  exact hall c (s.valid c hc)

theorem Brackets.ne (hb : Brackets b) {c : Octet} (hc : c ∉ ascii "[]\x7b\x7d") (hff : c ≠ 0xff) :
    c ≠ b.1 ∧ c ≠ b.2 := by
  simp only [Brackets, List.mem_cons, List.not_mem_nil, or_false] at hb
  obtain rfl | rfl | rfl := hb
  · exact ⟨fun h => hc (h ▸ by decide), fun h => hc (h ▸ by decide)⟩
  · exact ⟨fun h => hc (h ▸ by decide), fun h => hc (h ▸ by decide)⟩
  · exact ⟨hff, hff⟩

theorem jsprScan_scalar (hb : Brackets b) (s : JsonScalar) (hd : n ≠ 0 ∨ ∀ c ∈ s.text, c ∉ d)
    (r : List Octet) : jsprScan b d (s.text ++ r) n false 0 = jsprScan b d r n false 0 := by
  refine jsprScan_inert (fun c hc => ?_) hd r
  obtain ⟨h1, -, -, h2, h3⟩ := scalar_octets s hc
  exact ⟨h1, hb.ne h2 h3⟩

theorem jsprScan_blank (hb : Brackets b) (s : Blank) (hn : n ≠ 0) (r : List Octet) :
    jsprScan b d (s.text ++ r) n false 0 = jsprScan b d r n false 0 := by
  refine jsprScan_inert (fun c hc => ?_) (Or.inl hn) r
  obtain ⟨h1, -, h2, h3⟩ := blank_octets s hc
  exact ⟨h1, hb.ne h2 h3⟩

end Runs

/-! ### Values inside brackets -/

theorem countBracket_pos {b : Octet × Octet} {n : Int} (hn : 1 ≤ n) {c : Octet} (hc : c ≠ b.2) :
    1 ≤ countBracket b c n := by
  unfold countBracket
  split_ifs <;> omega

theorem Brackets.close {b : Octet × Octet} (hb : Brackets b) {opening closing : Octet}
    (hpair : (opening, closing) ∈ [(ch '\x7b', ch '\x7d'), (ch '[', ch ']')]) (n : Int) :
    opening ≠ b.2 ∧ countBracket b closing (countBracket b opening n) = n := by
  simp only [Brackets, List.mem_cons, List.not_mem_nil, or_false, Prod.mk.injEq] at hb hpair
  obtain rfl | rfl | rfl := hb <;> obtain ⟨rfl, rfl⟩ | ⟨rfl, rfl⟩ := hpair <;>
    refine ⟨by decide, ?_⟩ <;> simp +decide [countBracket]

theorem jsprScan_bracketed {b : Octet × Octet} {d : List Octet} {n : Int} (hb : Brackets b)
    (hn : 1 ≤ n) {opening closing : Octet}
    (hpair : (opening, closing) ∈ [(ch '\x7b', ch '\x7d'), (ch '[', ch ']')]) {inner : List Octet}
    (hinner : ∀ n r, 1 ≤ n →
      jsprScan b d (inner ++ r) n false 0 = jsprScan b d r n false 0) (r : List Octet) :
    jsprScan b d (opening :: (inner ++ closing :: r)) n false 0 = jsprScan b d r n false 0 := by
  obtain ⟨hopen, hclose⟩ := hb.close hpair n
  have hplain : opening ∉ ascii "\"'\\" ∧ closing ∉ ascii "\"'\\" := by
    have hall : ∀ p ∈ [(ch '\x7b', ch '\x7d'), (ch '[', ch ']')],
        p.1 ∉ ascii "\"'\\" ∧ p.2 ∉ ascii "\"'\\" := by decide
    exact hall _ hpair
  have hpos : 1 ≤ countBracket b opening n := countBracket_pos hn hopen
  rw [jsprScan_unquoted hplain.1, if_neg fun h => by omega, hinner _ _ hpos,
    jsprScan_unquoted hplain.2, hclose, if_neg fun h => by omega]

theorem jsprScan_comma {b : Octet × Octet} {d : List Octet} {n : Int} (hb : Brackets b)
    (hn : n ≠ 0) {c : Octet} (hc : c ∈ ascii ",:") (r : List Octet) :
    jsprScan b d (c :: r) n false 0 = jsprScan b d r n false 0 := by
  have hall : ∀ c ∈ ascii ",:", c ∉ ascii "\"'\\" ∧ c ∉ ascii "[]\x7b\x7d" ∧ c ≠ 0xff := by decide
  obtain ⟨h1, h2, h3⟩ := hall c hc
  obtain ⟨hne1, hne2⟩ := hb.ne h2 h3
  rw [jsprScan_unquoted h1, countBracket_other hne1 hne2, if_neg fun h => hn h.1]

section Nested

variable {b : Octet × Octet} {d : List Octet}

mutual

theorem scan_value (hb : Brackets b) : ∀ (v : Json) (n : Int) (r : List Octet), 1 ≤ n →
    jsprScan b d (v.text ++ r) n false 0 = jsprScan b d r n false 0
  | .scalar s, n, r, hn => by
      rw [Json.text]
      exact jsprScan_scalar hb s (Or.inl (by omega)) r
  | .string s, n, r, _ => by
      rw [Json.text]
      exact jsprScan_string s r
  | .emptyArray blank, n, r, hn => by
      rw [Json.text, List.cons_append, List.append_assoc]
      exact jsprScan_bracketed hb hn (by decide)
        (fun m t hm => jsprScan_blank hb blank (by omega) t) r
  | .array elements, n, r, hn => by
      rw [Json.text, List.cons_append, List.append_assoc]
      exact jsprScan_bracketed hb hn (by decide) (scan_elements hb elements) r
  | .emptyObject blank, n, r, hn => by
      rw [Json.text, List.cons_append, List.append_assoc]
      exact jsprScan_bracketed hb hn (by decide)
        (fun m t hm => jsprScan_blank hb blank (by omega) t) r
  | .object members, n, r, hn => by
      rw [Json.text, List.cons_append, List.append_assoc]
      exact jsprScan_bracketed hb hn (by decide) (scan_members hb members) r

theorem scan_elements (hb : Brackets b) : ∀ (es : Elements) (n : Int) (r : List Octet), 1 ≤ n →
    jsprScan b d (es.text ++ r) n false 0 = jsprScan b d r n false 0
  | .last before value after, n, r, hn => by
      have hne : n ≠ 0 := by omega
      rw [Elements.text, List.append_assoc, List.append_assoc, jsprScan_blank hb before hne,
        scan_value hb value n _ hn, jsprScan_blank hb after hne]
  | .more before value after elements, n, r, hn => by
      have hne : n ≠ 0 := by omega
      rw [Elements.text, List.append_assoc, List.append_assoc, List.append_assoc,
        List.cons_append, jsprScan_blank hb before hne, scan_value hb value n _ hn,
        jsprScan_blank hb after hne, jsprScan_comma hb hne (by decide)]
      exact scan_elements hb elements n r hn

theorem scan_members (hb : Brackets b) : ∀ (ms : Members) (n : Int) (r : List Octet), 1 ≤ n →
    jsprScan b d (ms.text ++ r) n false 0 = jsprScan b d r n false 0
  | .last before name afterName afterColon value after, n, r, hn => by
      have hne : n ≠ 0 := by omega
      simp only [Members.text, List.append_assoc, List.cons_append]
      rw [jsprScan_blank hb before hne, jsprScan_string, jsprScan_blank hb afterName hne,
        jsprScan_comma hb hne (by decide), jsprScan_blank hb afterColon hne,
        scan_value hb value n _ hn, jsprScan_blank hb after hne]
  | .more before name afterName afterColon value after members, n, r, hn => by
      have hne : n ≠ 0 := by omega
      simp only [Members.text, List.append_assoc, List.cons_append]
      rw [jsprScan_blank hb before hne, jsprScan_string, jsprScan_blank hb afterName hne,
        jsprScan_comma hb hne (by decide), jsprScan_blank hb afterColon hne,
        scan_value hb value n _ hn, jsprScan_blank hb after hne, jsprScan_comma hb hne (by decide)]
      exact scan_members hb members n r hn

end

end Nested

/-! ### White space -/

theorem skipWs_cons {c : Octet} (hc : c ∉ jsprWs) (r : List Octet) : skipWs (c :: r) = c :: r :=
  List.dropWhile_cons_of_neg (by simpa using hc)

theorem skipWs_blank (s : Blank) (r : List Octet) : skipWs (s.text ++ r) = skipWs r :=
  List.dropWhile_append_of_pos fun _ hc => decide_eq_true (blank_octets s hc).2.1

theorem skipWs_skipWs (s : List Octet) : skipWs (skipWs s) = skipWs s :=
  List.dropWhile_idempotent (· ∈ jsprWs) s

theorem blank_append_cons (s : Blank) (c : Octet) (r : List Octet) :
    ∃ x t, s.text ++ c :: r = x :: t ∧ (x ∈ jsprWs ∨ x = c) := by
  cases h : s.text with
  | nil => exact ⟨c, r, rfl, Or.inr rfl⟩
  | cons x t =>
      exact ⟨x, t ++ c :: r, rfl, Or.inl (blank_octets s (h ▸ List.mem_cons_self)).2.1⟩

theorem value_head (v : Json) : ∃ c t, v.text = c :: t ∧ c ∉ objectWs := by
  cases v with
  | scalar s =>
      cases h : s.text with
      | nil => exact absurd h s.nonempty
      | cons c t =>
          exact ⟨c, t, by rw [Json.text, h], (scalar_octets s (h ▸ List.mem_cons_self)).2.2.1⟩
  | string s => exact ⟨_, _, by rw [Json.text, JsonString.text], by decide⟩
  | emptyArray blank => exact ⟨_, _, by rw [Json.text], by decide⟩
  | array elements => exact ⟨_, _, by rw [Json.text], by decide⟩
  | emptyObject blank => exact ⟨_, _, by rw [Json.text], by decide⟩
  | object members => exact ⟨_, _, by rw [Json.text], by decide⟩

theorem notMem_jsprWs {c : Octet} (hc : c ∉ objectWs) : c ∉ jsprWs :=
  fun h => hc (List.mem_append_right _ (List.mem_cons_of_mem _ h))

theorem skipWs_value (v : Json) (r : List Octet) : skipWs (v.text ++ r) = v.text ++ r := by
  obtain ⟨c, t, htext, hc⟩ := value_head v
  rw [htext, List.cons_append, skipWs_cons (notMem_jsprWs hc)]

theorem skipWs_string (s : JsonString) (r : List Octet) : skipWs (s.text ++ r) = s.text ++ r := by
  rw [JsonString.text, List.cons_append, skipWs_cons (by decide)]

/-! ### Tokens -/

theorem jsprToken_skipWs (s d : List Octet) : jsprToken (skipWs s) d = jsprToken s d := by
  rw [jsprToken, jsprToken, skipWs_skipWs]

/-- A token that begins at a name ends with it, or behind it where other text follows. -/
theorem jsprToken_name (s : JsonString) (r d : List Octet) :
    jsprToken (s.text ++ r) d = (s.text ++ r, jsprScan (0xff, 0xff) d r 0 false 0) := by
  rw [jsprToken, skipWs_string, jsprScan_string]
  rfl

theorem jsprToken_scalar (s : JsonScalar) (r : List Octet) {d : List Octet}
    (hd : d = commaWs ∨ d = objectWs) :
    jsprToken (s.text ++ r) d = (s.text ++ r, jsprScan (0xff, 0xff) d r 0 false 0) := by
  have hdelims : ∀ c ∈ s.text, c ∉ d := by
    intro c hc hmem
    have hobject := (scalar_octets s hc).2.2.1
    rcases hd with rfl | rfl
    · exact hobject (List.mem_append_right _ hmem)
    · exact hobject hmem
  have hws : skipWs (s.text ++ r) = s.text ++ r := skipWs_value (.scalar s) r
  have hbrackets : jsprBrackets (peek (s.text ++ r)) = (0xff, 0xff) := by
    cases h : s.text with
    | nil => exact absurd h s.nonempty
    | cons c t =>
        have hc := (scalar_octets s (h ▸ List.mem_cons_self : c ∈ s.text)).2.2.2.1
        have h1 : c ≠ ch '\x7b' := fun heq => hc (heq ▸ by decide)
        have h2 : c ≠ ch '[' := fun heq => hc (heq ▸ by decide)
        rw [List.cons_append, peek_cons, jsprBrackets, if_neg h1, if_neg h2]
  rw [jsprToken, hws, hbrackets]
  exact congrArg (Prod.mk _) (jsprScan_scalar (by decide) s (Or.inr hdelims) r)

theorem jsprToken_bracketed {b : Octet × Octet}
    (hb : b ∈ [(ch '\x7b', ch '\x7d'), (ch '[', ch ']')]) {inner : List Octet}
    (hinner : ∀ n r, 1 ≤ n →
      jsprScan b commaWs (inner ++ r) n false 0 = jsprScan b commaWs r n false 0) (r : List Octet) :
    jsprToken (b.1 :: (inner ++ b.2 :: r)) commaWs =
      (b.1 :: (inner ++ b.2 :: r), jsprScan b commaWs r 0 false 0) := by
  have hall : ∀ b ∈ [(ch '\x7b', ch '\x7d'), (ch '[', ch ']')],
      b.1 ∉ jsprWs ∧ jsprBrackets b.1 = b ∧ b.1 ∉ ascii "\"'\\" ∧ b.2 ∉ ascii "\"'\\" ∧
        countBracket b b.1 0 = 1 ∧ countBracket b b.2 1 = 0 ∧ b.2 ∉ commaWs := by decide
  obtain ⟨hws, hbrackets, hopen, hclose, hone, hzero, hcomma⟩ := hall b hb
  rw [jsprToken, skipWs_cons hws, peek_cons, hbrackets, jsprScan_unquoted hopen, hone,
    if_neg fun h => by omega, hinner 1 _ (by omega), jsprScan_unquoted hclose, hzero,
    if_neg fun h => hcomma h.2]

theorem jsprToken_value (v : Json) : ∃ b, Brackets b ∧ ∀ r,
    jsprToken (v.text ++ r) commaWs = (v.text ++ r, jsprScan b commaWs r 0 false 0) := by
  cases v with
  | scalar s => exact ⟨_, by decide, fun r => jsprToken_scalar s r (Or.inl rfl)⟩
  | string s => exact ⟨_, by decide, fun r => jsprToken_name s r _⟩
  | emptyArray blank =>
      refine ⟨(ch '[', ch ']'), by decide, fun r => ?_⟩
      rw [Json.text, List.cons_append, List.append_assoc]
      exact jsprToken_bracketed (b := (ch '[', ch ']')) (by decide)
        (fun n t hn => jsprScan_blank (by decide) blank (by omega) t) r
  | array elements =>
      refine ⟨(ch '[', ch ']'), by decide, fun r => ?_⟩
      rw [Json.text, List.cons_append, List.append_assoc]
      exact jsprToken_bracketed (b := (ch '[', ch ']')) (by decide)
        (scan_elements (by decide) elements) r
  | emptyObject blank =>
      refine ⟨(ch '\x7b', ch '\x7d'), by decide, fun r => ?_⟩
      rw [Json.text, List.cons_append, List.append_assoc]
      exact jsprToken_bracketed (b := (ch '\x7b', ch '\x7d')) (by decide)
        (fun n t hn => jsprScan_blank (by decide) blank (by omega) t) r
  | object members =>
      refine ⟨(ch '\x7b', ch '\x7d'), by decide, fun r => ?_⟩
      rw [Json.text, List.cons_append, List.append_assoc]
      exact jsprToken_bracketed (b := (ch '\x7b', ch '\x7d')) (by decide)
        (scan_members (by decide) members) r

theorem jsprScan_commaWs {b : Octet × Octet} (hb : Brackets b) {c : Octet} (hc : c ∈ commaWs)
    (s : List Octet) : jsprScan b commaWs (c :: s) 0 false 0 = c :: s := by
  have hall : ∀ c ∈ commaWs, c ∉ ascii "\"'\\" ∧ c ∉ ascii "[]\x7b\x7d" ∧ c ≠ 0xff := by decide
  obtain ⟨h1, h2, h3⟩ := hall c hc
  obtain ⟨hne1, hne2⟩ := hb.ne h2 h3
  exact jsprScan_stop h1 hne1 hne2 hc s

end Snert
