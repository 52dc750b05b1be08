/-
  AssetBundler.Proofs.Style.Expression
  ────────────────────────────────
  **SUMS OF TEXTS AND ADDRESSES.**

  The script that puts a stylesheet into the document assigns it as a sum: of
  texts in double quotes, and of what modules export by default.  A reader of
  such sums says what they stand for; a stylesheet that is written in double
  quotes, with sums broken into its references, stands for the stylesheet with
  the exports in its references.

    • `Expression.value?` — what a sum stands for,
    • `Style.flatMap_quotedChar_written` — a stylesheet in double quotes,
    • `Expression.value?_spliced` — its sum.
-/
import AssetBundler.Proofs.Data.Json
import AssetBundler.Proofs.Style.Placeholder

namespace AssetBundler.Style

open AssetBundler.Text AssetBundler.Text.Scan

/-! ## §1. What a sum stands for. -/

namespace Expression

/-- A term: what a module exports by default, or a text in double quotes. -/
def term (defaultOf : String → String) : Scan String := do
  if ← eatText "require(" then
    let specifier ← Data.Json.string
    expectText ").default"
    return defaultOf specifier
  Data.Json.string

/-- Terms with plus signs between them; `bound` exceeds their number. -/
def sum (defaultOf : String → String) : Nat → Scan String
  | 0 => fail
  | bound + 1 => do
    let first ← term defaultOf
    if ← eatText " + " then
      return first ++ (← sum defaultOf bound)
    return first

/-- **The text that a sum stands for**, when modules export these texts by default. -/
def value? (defaultOf : String → String) (text : List Char) : Option String :=
  run? (sum defaultOf (text.length + 1)) text

example : value? (· ++ "!") "\"a\" + require(\"b\").default + \"c\"".toList = some "ab!c" := by
  decide +kernel

end Expression

/-! ## §2. A stylesheet in double quotes. -/

/-- What stands in a reference inside the quoted text: its end, the export, and the beginning of the
next. -/
def splice (specifier : String) : List Char :=
  ("\" + require(" ++ quote specifier ++ ").default + \"").toList

/-- The quoted text of a stylesheet is written with its pieces. -/
theorem flatMap_quotedChar_written (form : String → List Char) (ps : List Piece) :
    (written single form ps).flatMap quotedChar
      = written quotedChar (fun s => (form s).flatMap quotedChar) ps := by
  induction ps with
  | nil => rfl
  | cons p ps ih =>
      cases p with
      | char c =>
          have hc : (single c).flatMap quotedChar = quotedChar c := List.flatMap_singleton ..
          rw [written_char, written_char, List.flatMap_append, hc, ih]
      | address s =>
          have hurl : "url(".toList.flatMap quotedChar = "url(".toList := rfl
          have hclosing : [')'].flatMap quotedChar = [')'] := rfl
          rw [written_address, written_address, ← ih]
          simp only [List.flatMap_append, hurl, hclosing]

/-- Digits need no escapes. -/
theorem quotedChar_of_isAsciiDigit {c : Char} (h : isAsciiDigit c = true) : quotedChar c = [c] := by
  have hletters : ∀ e ∈ escapeLetters, isAsciiDigit e.1 = false := by decide
  have hletter : ∀ e ∈ escapeLetters, e.1 ≠ c := by
    rintro e he rfl
    exact Bool.false_ne_true ((hletters e he).symm.trans h)
  have hzero : '0'.toNat ≤ c.toNat := of_decide_eq_true (Bool.and_eq_true_iff.mp h).1
  exact quotedChar_eq_self hletter (le_trans (by decide) hzero)

/-- A placeholder needs no escapes. -/
theorem flatMap_quotedChar_text (index : Nat) :
    (Placeholder.text index).flatMap quotedChar = Placeholder.text index := by
  have hdigits : (toString index).toList.flatMap quotedChar = (toString index).toList := by
    have hall : ∀ c ∈ (toString index).toList, quotedChar c = single c :=
      fun c hc => quotedChar_of_isAsciiDigit (Placeholder.isAsciiDigit_of_mem hc)
    rw [List.flatMap_congr hall, flatMap_single]
  have hopening : Placeholder.opening.flatMap quotedChar = Placeholder.opening := by decide
  have hclosing : Placeholder.closing.flatMap quotedChar = Placeholder.closing := by decide
  rw [Placeholder.text, List.flatMap_append, List.flatMap_append, hopening, hdigits, hclosing]

/-- What stands in a reference, in the parts that a sum is read by. -/
theorem splice_append (s : String) (rest : List Char) :
    splice s ++ rest = '"' :: (" + ".toList ++ ("require(".toList ++ ((quote s).toList
      ++ (").default".toList ++ (" + ".toList ++ '"' :: rest))))) := by
  have hbefore : "\" + require(".toList = '"' :: (" + ".toList ++ "require(".toList) := rfl
  have hbehind : ").default + \"".toList = ").default".toList ++ (" + ".toList ++ ['"']) := rfl
  rw [splice, String.toList_append, String.toList_append, hbefore, hbehind]
  simp only [List.append_assoc, List.cons_append, List.nil_append]

/-! ## §3. Its sum. -/

namespace Expression

variable {defaultOf : String → String}

/-- A quoted text is a term. -/
theorem term_literal (cs rest : List Char) :
    term defaultOf ('"' :: cs.flatMap quotedChar ++ '"' :: rest) = some (String.ofList cs, rest) := by
  have hquoted := Data.Json.string_quote (String.ofList cs) rest
  rw [Data.Json.quote_append, String.toList_ofList] at hquoted
  unfold term
  rw [List.cons_append, bind_of_eq (eatText_of_none rfl)]
  exact hquoted

/-- The export of a module is a term. -/
theorem term_require (s : String) (rest : List Char) :
    term defaultOf ("require(".toList ++ ((quote s).toList ++ (").default".toList ++ rest)))
      = some (defaultOf s, rest) := by
  unfold term
  rw [bind_of_eq (eatText_append ..)]
  show (Data.Json.string >>= fun specifier => expectText ").default" >>= fun _ =>
    (pure (defaultOf specifier) : Scan String)) _ = _
  rw [bind_of_eq (Data.Json.string_quote ..), bind_of_eq (expectText_append ..), pure_apply]

/-- The last term of a sum. -/
theorem sum_last {bound : Nat} {text rest : List Char} {first : String}
    (h : term defaultOf text = some (first, rest)) (hend : dropPrefix? " + ".toList rest = none) :
    sum defaultOf (bound + 1) text = some (first, rest) := by
  unfold sum
  rw [bind_of_eq h, bind_of_eq (eatText_of_none hend)]
  rfl

/-- A term and the others behind its plus sign. -/
theorem sum_cons {bound : Nat} {text others rest : List Char} {first value : String}
    (h : term defaultOf text = some (first, " + ".toList ++ others))
    (hothers : sum defaultOf bound others = some (value, rest)) :
    sum defaultOf (bound + 1) text = some (first ++ value, rest) := by
  unfold sum
  rw [bind_of_eq h, bind_of_eq (eatText_append ..)]
  show (sum defaultOf bound >>= fun value => (pure (first ++ value) : Scan String)) others = _
  rw [bind_of_eq hothers, pure_apply]

/-- **The sum of a stylesheet** whose first characters have been written: every reference ends a text,
and begins the next behind its export. -/
theorem sum_spliced : ∀ (ps : List Piece) (cs : List Char) (bound : Nat),
    2 * (specifiers ps).length < bound →
    sum defaultOf bound ('"' :: cs.flatMap quotedChar ++ (written quotedChar splice ps ++ ['"']))
      = some (String.ofList (cs ++ written single (fun s => (defaultOf s).toList) ps), [])
  | [], cs, bound + 1, _ => by
      rw [written_nil, written_nil, List.append_nil]
      exact sum_last (term_literal cs []) rfl
  | .char c :: ps, cs, bound, hbound => by
      have ih := sum_spliced ps (cs ++ [c]) bound hbound
      rw [List.flatMap_append, List.flatMap_singleton] at ih
      rw [written_char, written_char, single]
      simpa only [List.append_assoc, List.cons_append, List.nil_append] using ih
  | .address s :: ps, cs, bound + 2, hbound => by
      have hrest : 2 * (specifiers ps).length < bound := by
        simp only [specifiers, List.filterMap_cons, List.length_cons] at hbound ⊢
        omega
      have hexport := sum_cons (term_require s _) (sum_spliced ps [')'] bound hrest)
      have hall := sum_cons (term_literal (cs ++ "url(".toList) _) hexport
      have hurl : "url(".toList.flatMap quotedChar = "url(".toList := rfl
      have hclosing : [')'].flatMap quotedChar = [')'] := rfl
      rw [List.flatMap_append, hurl, hclosing] at hall
      rw [written_address, written_address]
      simp only [List.append_assoc, List.cons_append, List.nil_append] at hall ⊢
      rw [splice_append, hall]
      simp only [String.ofList_append, String.ofList_toList, String.append_assoc]

/-- Every reference has a plus sign on both sides. -/
theorem length_specifiers_le (ps : List Piece) :
    2 * (specifiers ps).length ≤ (written quotedChar splice ps).length := by
  induction ps with
  | nil => exact Nat.le_refl 0
  | cons p ps ih =>
      cases p with
      | char c =>
          rw [written_char, List.length_append]
          exact ih.trans (Nat.le_add_left _ _)
      | address s =>
          rw [written_address]
          simp only [specifiers, List.filterMap_cons, List.length_cons, List.length_append] at ih ⊢
          have hurl : "url(".toList.length = 4 := rfl
          omega

/-- **The sum of a stylesheet** stands for the stylesheet with the exports in its references. -/
theorem value?_spliced (defaultOf : String → String) (ps : List Piece) :
    value? defaultOf ('"' :: (written quotedChar splice ps ++ ['"']))
      = some (String.ofList (written single (fun s => (defaultOf s).toList) ps)) := by
  have hbound : 2 * (specifiers ps).length
      < ('"' :: (written quotedChar splice ps ++ ['"'])).length + 1 := by
    have hle := length_specifiers_le ps
    rw [List.length_cons, List.length_append]
    omega
  have hsum : sum defaultOf _ ('"' :: (written quotedChar splice ps ++ ['"'])) = _ :=
    sum_spliced ps [] _ hbound
  unfold value? run?
  rw [hsum]
  rfl

end Expression

end AssetBundler.Style
