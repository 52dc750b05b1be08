/-
  AssetBundler.Proofs.Text.Quoted
  ────────────────────────────────
  **CHARACTERS IN QUOTES.**

  Quoting writes a character as it is, or by a letter behind a backslash, or by
  four hexadecimal digits.  A pattern of characters that are written as they
  are, none of them a backslash or a quote, and that begins with a character
  that stands in no escape, occurs in a quoted text just where it occurs in the
  text: quoting neither hides it nor makes it up.

    • `Text.quotedAs` — the ways to write a character,
    • `Text.notMem_quotedChar` — the characters of the escapes,
    • `Text.KeptByQuoting` — the patterns,
    • `Text.occursIff_quote` — their occurrences.
-/
import AssetBundler.Proofs.Text.Occurrence
import AssetBundler.Text.Quoted

namespace AssetBundler.Text

/-! ## §1. Ways to write a character. -/

/-- The characters with a letter of their own, and the letters. -/
def escapeLetters : List (Char × Char) :=
  [('"', '"'), ('\\', '\\'), ('\n', 'n'), ('\r', 'r'), ('\t', 't'), ('\x08', 'b'), ('\x0c', 'f')]

/-- How a character is written between quotes. -/
inductive QuotedAs (c : Char) : List Char → Prop
  | letter (e : Char) (h : (c, e) ∈ escapeLetters) : QuotedAs c ['\\', e]
  | control (h : c.toNat < 0x20) :
      QuotedAs c ['\\', 'u', '0', '0', hexDigit (c.toNat / 16), hexDigit (c.toNat % 16)]
  | plain (hquote : c ≠ '"') (hslash : c ≠ '\\') (hcontrol : 0x20 ≤ c.toNat) : QuotedAs c [c]

/-- **Quoting writes every character in one of these ways.** -/
theorem quotedAs (c : Char) : QuotedAs c (quotedChar c) := by
  unfold quotedChar
  refine iteInduction (fun h => .letter '"' ?_) fun hquote => ?_
  · simp [escapeLetters, eq_of_beq h]
  refine iteInduction (fun h => .letter '\\' ?_) fun hslash => ?_
  · simp [escapeLetters, eq_of_beq h]
  refine iteInduction (fun h => .letter 'n' ?_) fun _ => ?_
  · simp [escapeLetters, eq_of_beq h]
  refine iteInduction (fun h => .letter 'r' ?_) fun _ => ?_
  · simp [escapeLetters, eq_of_beq h]
  refine iteInduction (fun h => .letter 't' ?_) fun _ => ?_
  · simp [escapeLetters, eq_of_beq h]
  refine iteInduction (fun h => .letter 'b' ?_) fun _ => ?_
  · simp [escapeLetters, eq_of_beq h]
  refine iteInduction (fun h => .letter 'f' ?_) fun _ => ?_
  · simp [escapeLetters, eq_of_beq h]
  refine iteInduction .control fun hcontrol => ?_
  exact .plain (by simpa using hquote) (by simpa using hslash) (Nat.not_lt.mp hcontrol)

/-- A character is written as it is, or by an escape that begins with a backslash. -/
theorem quotedChar_cases (c : Char) : quotedChar c = [c] ∨ ∃ escape, quotedChar c = '\\' :: escape := by
  have h := quotedAs c
  generalize quotedChar c = written at h ⊢
  cases h with
  | letter e _ => exact .inr ⟨_, rfl⟩
  | control _ => exact .inr ⟨_, rfl⟩
  | plain _ _ _ => exact .inl rfl

/-- A character that needs no escape is written as it is. -/
theorem quotedChar_eq_self {c : Char} (hletter : ∀ e ∈ escapeLetters, e.1 ≠ c)
    (hcontrol : 0x20 ≤ c.toNat) : quotedChar c = [c] := by
  have h := quotedAs c
  generalize quotedChar c = written at h ⊢
  cases h with
  | letter e h => exact absurd rfl (hletter (c, e) h)
  | control h => exact absurd hcontrol (Nat.not_le.mpr h)
  | plain _ _ _ => rfl

/-- The characters of the escapes. -/
def escapeChars : List Char :=
  ['\\', '"', 'n', 'r', 't', 'b', 'f', 'u'] ++ (List.range 16).map hexDigit

theorem QuotedAs.subset {c : Char} {written : List Char} (h : QuotedAs c written)
    (hescaped : written ≠ [c]) : written ⊆ escapeChars := by
  cases h with
  | letter e h =>
      have hletters : ∀ p ∈ escapeLetters, ['\\', p.2] ⊆ escapeChars := by decide
      exact hletters _ h
  | control h =>
      have hdigits : ∀ n < 0x20, ['\\', 'u', '0', '0', hexDigit (n / 16), hexDigit (n % 16)]
          ⊆ escapeChars := by decide
      exact hdigits _ h
  | plain _ _ _ => exact absurd rfl hescaped

/-- **Other characters stand only for themselves.** -/
theorem notMem_quotedChar {c d : Char} (hescape : d ∉ escapeChars) (hc : d ≠ c) :
    d ∉ quotedChar c := by
  intro hd
  by_cases hplain : quotedChar c = [c]
  · rw [hplain] at hd
    exact hc (List.mem_singleton.mp hd)
  · exact hescape ((quotedAs c).subset hplain hd)

/-! ## §2. Patterns that quoting keeps. -/

variable {fold : Char → Char} {p : Char} {pattern : List Char}

/-- A pattern, given by its first character and the others, that quoting neither hides nor makes up: it has
no character that is written by an escape, and does not begin with one that stands in escapes. -/
structure KeptByQuoting (fold : Char → Char) (p : Char) (pattern : List Char) : Prop where
  letters : ∀ e ∈ escapeLetters, fold e.1 ∉ p :: pattern
  controls : ∀ n < 0x20, fold (Char.ofNat n) ∉ p :: pattern
  escapes : p ∉ escapeChars.map fold

namespace KeptByQuoting

theorem quote (h : KeptByQuoting fold p pattern) : fold '"' ∉ p :: pattern :=
  h.letters ('"', '"') (by decide)

theorem backslash (h : KeptByQuoting fold p pattern) : fold '\\' ∉ p :: pattern :=
  h.letters ('\\', '\\') (by decide)

/-- An escaped character is none of the pattern, and its escape does not begin the pattern. -/
theorem escaped (h : KeptByQuoting fold p pattern) (c : Char) :
    quotedChar c = [c] ∨ fold c ∉ p :: pattern ∧ p ∉ (quotedChar c).map fold := by
  have hwritten := quotedAs c
  by_cases hplain : quotedChar c = [c]
  · exact .inl hplain
  · refine .inr ⟨?_, fun hp => h.escapes (List.map_subset fold (hwritten.subset hplain) hp)⟩
    generalize quotedChar c = written at hwritten hplain
    cases hwritten with
    | letter e hletter => exact h.letters (c, e) hletter
    | control hcontrol =>
        have hnone := h.controls c.toNat hcontrol
        rwa [Char.ofNat_toNat] at hnone
    | plain _ _ _ => exact absurd rfl hplain

/-- Beginnings are kept. -/
theorem prefix_iff (h : KeptByQuoting fold p pattern) : ∀ (cs front : List Char),
    (∀ c ∈ front, c ∈ p :: pattern) →
    (front <+: (cs.flatMap quotedChar).map fold ↔ front <+: cs.map fold)
  | [], _, _ => Iff.rfl
  | _ :: _, [], _ => iff_of_true List.nil_prefix List.nil_prefix
  | c :: cs, d :: front, hfront => by
      have hd := hfront d List.mem_cons_self
      rw [List.flatMap_cons, List.map_append, List.map_cons]
      rcases h.escaped c with hplain | ⟨hchar, -⟩
      · rw [hplain, List.map_singleton, List.singleton_append, List.cons_prefix_cons,
          List.cons_prefix_cons, prefix_iff h cs front (List.forall_mem_of_forall_mem_cons hfront)]
      · -- neither an escape nor what it stands for begins so
        have hback : ¬ d :: front <+: (quotedChar c).map fold ++ (cs.flatMap quotedChar).map fold := by
          rcases quotedChar_cases c with hplain | ⟨escape, hescape⟩
          · rw [hplain, List.map_singleton, List.singleton_append, List.cons_prefix_cons]
            rintro ⟨rfl, -⟩
            exact hchar hd
          · rw [hescape, List.map_cons, List.cons_append, List.cons_prefix_cons]
            rintro ⟨rfl, -⟩
            exact h.backslash hd
        have hself : ¬ d :: front <+: fold c :: cs.map fold := by
          rw [List.cons_prefix_cons]
          rintro ⟨rfl, -⟩
          exact hchar hd
        exact iff_of_false hback hself

/-- Occurrences are kept. -/
theorem infix_iff (h : KeptByQuoting fold p pattern) (cs : List Char) :
    p :: pattern <:+: (cs.flatMap quotedChar).map fold ↔ p :: pattern <:+: cs.map fold := by
  induction cs with
  | nil => exact Iff.rfl
  | cons c cs ih =>
      have hprefix := h.prefix_iff (c :: cs) (p :: pattern) fun _ hc => hc
      rcases h.escaped c with hplain | ⟨hchar, hescape⟩
      · rw [List.flatMap_cons, hplain, List.singleton_append, List.map_cons] at hprefix ⊢
        rw [List.infix_cons_iff, List.map_cons, List.infix_cons_iff, ih, hprefix, List.map_cons]
      · have hself : ¬ p :: pattern <+: fold c :: cs.map fold := by
          rw [List.cons_prefix_cons]
          rintro ⟨rfl, -⟩
          exact hchar List.mem_cons_self
        rw [List.flatMap_cons, List.map_append, infix_append_iff_of_head hescape, ih, List.map_cons,
          List.infix_cons_iff, or_iff_right hself]

end KeptByQuoting

/-- **Quoting neither hides the pattern nor makes it up.** -/
theorem occursIff_quote (h : KeptByQuoting fold p pattern) (s : String) :
    OccursIff fold (p :: pattern) (quote s).toList (p :: pattern <:+: s.toList.map fold) := by
  have hopening : OccursIff fold (p :: pattern) ['"'] False := by
    refine occursIff_of_head fun hp => h.quote ?_
    rw [List.map_singleton, List.mem_singleton] at hp
    exact hp ▸ List.mem_cons_self
  have hclosing : OccursIff fold (p :: pattern) (s.toList.flatMap quotedChar ++ ['"']) _ :=
    occursIff_concat h.quote
  have hshape : (quote s).toList = ['"'] ++ (s.toList.flatMap quotedChar ++ ['"']) := by
    rw [quote, quotedChars, String.toList_ofList]
    rfl
  rw [hshape]
  exact (hopening.append hclosing).congr (by rw [false_or, h.infix_iff])

end AssetBundler.Text
