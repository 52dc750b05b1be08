/-
  AssetBundler.Proofs.Script.Literal
  ────────────────────────────────
  **LITERALS AND THEIR VALUES.**

  Data stands in scripts as literals: texts in quotes, arrays of items, and
  objects whose members are named by texts or words.  The readers take a
  literal token by token, as the lexer of scripts divides them.  What a literal
  is made of spells its value wherever it stands, so the parts can be read one
  by one:

    • `Literal.readStringUnits_quoted` — the characters of a quoted text,
    • `Literal.spells_quote` — a quoted text,
    • `Literal.spells_array`, `Literal.spells_object` — arrays and objects,
    • `Literal.own_eq_filter` — the members that an object has as its own.
-/
import AssetBundler.Proofs.Config.TextMap
import AssetBundler.Proofs.Data.Json
import AssetBundler.Proofs.Text.Quoted
import AssetBundler.Script.Lexer

namespace AssetBundler.Script

open AssetBundler.Text AssetBundler.Text.Scan

namespace Literal

variable {α : Type}

/-! ## §1. Readers. -/

/-- The next token. -/
def token : Scan TokenKind := fun input =>
  (Lexer.readToken input 0 0).map fun cursor => (cursor.token.kind, cursor.rest)

/-- A punctuator, which must come next. -/
def punct (p : Punct) : Scan Unit := do
  match ← token with
  | .punct q => require (q = p)
  | _ => fail

/-- A text in quotes. -/
def string : Scan String := do
  match ← token with
  | .string value false => return String.ofList value
  | _ => fail

/-- The name of a member: a text in quotes, or a word. -/
def name : Scan String := do
  match ← token with
  | .string value false => return String.ofList value
  | .word name _ => return name.text
  | _ => fail

/-- A member of an object. -/
def member (value : Scan α) : Scan (String × α) := do
  let key ← name
  punct .colon
  return (key, ← value)

/-- Items with commas between them, and maybe one behind the last, up to the closing punctuator; `bound`
exceeds their number. -/
def items (closing : Punct) (item : Scan α) : Nat → Scan (List α)
  | 0 => fail
  | bound + 1 => do
    match ← attempt item with
    | none =>
      punct closing
      return []
    | some first =>
      match ← attempt (punct .comma) with
      | some _ => return first :: (← items closing item bound)
      | none =>
        punct closing
        return [first]

/-- An array. -/
def array (item : Scan α) : Scan (List α) := do
  punct .openBracket
  items .closeBracket item ((← get).length + 1)

/-- An object: its members as they are written. -/
def object (value : Scan α) : Scan (List (String × α)) := do
  punct .openBrace
  items .closeBrace (member value) ((← get).length + 1)

/-- The own members of an object, by the members of its literal: the last of each name. A member
`__proto__` is none of them, it names the object that is asked for what this one lacks. -/
def own (members : List (String × α)) : TextMap α :=
  TextMap.ofList (members.filter fun m => m.1 != "__proto__")

/-! ## §2. Tokens behind blanks. -/

theorem skipTrivia_blanks (input : List Char) (newline : Bool) : ∀ count pos : Nat,
    Lexer.skipTrivia .between (List.replicate count ' ' ++ input) pos newline
      = Lexer.skipTrivia .between input (pos + count) newline
  | 0, _ => rfl
  | count + 1, pos => by
      have hrest := skipTrivia_blanks input newline count (pos + 1)
      rw [Nat.add_right_comm] at hrest
      exact hrest

/-- A token is read from its first character on. -/
theorem token_blanks {c : Char} {input rest : List Char} {kind : TokenKind} {escaped : Bool}
    (hstop : ∀ pos, Lexer.skipTrivia .between (c :: input) pos false = some (c :: input, pos, false))
    (hkind : Lexer.readKind (c :: input) = some (kind, escaped, rest)) (count : Nat) :
    token (List.replicate count ' ' ++ c :: input) = some (kind, rest) := by
  simp [token, Lexer.readToken, skipTrivia_blanks, hstop, hkind]

/-- A character that is a punctuator by itself, whatever stands behind it. -/
def Single (c : Char) (p : Punct) : Prop :=
  ∀ (count : Nat) (rest : List Char),
    token (List.replicate count ' ' ++ c :: rest) = some (.punct p, rest)

theorem single_openBrace : Single '\x7b' .openBrace :=
  fun count _ => token_blanks (fun _ => rfl) rfl count

theorem single_closeBrace : Single '\x7d' .closeBrace :=
  fun count _ => token_blanks (fun _ => rfl) rfl count

theorem single_openBracket : Single '[' .openBracket :=
  fun count _ => token_blanks (fun _ => rfl) rfl count

theorem single_closeBracket : Single ']' .closeBracket :=
  fun count _ => token_blanks (fun _ => rfl) rfl count

theorem single_comma : Single ',' .comma :=
  fun count _ => token_blanks (fun _ => rfl) rfl count

theorem single_colon : Single ':' .colon :=
  fun count _ => token_blanks (fun _ => rfl) rfl count

theorem Single.punct {c : Char} {p : Punct} (h : Single c p) (count : Nat) (rest : List Char) :
    punct p (List.replicate count ' ' ++ c :: rest) = some ((), rest) := by
  unfold Literal.punct
  rw [bind_of_eq (h count rest)]
  simp [require_true]

theorem Single.punct_of_ne {c : Char} {p q : Punct} (h : Single c q) (hne : q ≠ p) (count : Nat)
    (rest : List Char) : Literal.punct p (List.replicate count ' ' ++ c :: rest) = none := by
  unfold Literal.punct
  rw [bind_of_eq (h count rest)]
  simp [require, hne, fail]

/-! ## §3. Texts in quotes. -/

open Lexer

/-- A character behind a backslash is read by its escape. -/
theorem readStringUnits_escape {c : Char} {text rest : List Char}
    (h : readEscape false text = (some [.char c], rest)) (bound : Nat) (units : List Unit16) :
    readStringUnits '"' (bound + 1) ('\\' :: text) units
      = readStringUnits '"' bound rest (.char c :: units) := by
  simp [readStringUnits, h]

theorem readEscape_letter {c e : Char} (h : (c, e) ∈ escapeLetters) (rest : List Char) :
    readEscape false (e :: rest) = (some [.char c], rest) := by
  simp only [escapeLetters, List.mem_cons, List.not_mem_nil, or_false, Prod.mk.injEq] at h
  rcases h with ⟨rfl, rfl⟩ | ⟨rfl, rfl⟩ | ⟨rfl, rfl⟩ | ⟨rfl, rfl⟩ | ⟨rfl, rfl⟩ | ⟨rfl, rfl⟩ | ⟨rfl, rfl⟩
  all_goals rfl

/-- A control character is spelt by its two last hexadecimal digits. -/
theorem readEscape_control {c : Char} (hc : c.toNat < 0x20) (rest : List Char) :
    readEscape false ('u' :: '0' :: '0' :: hexDigit (c.toNat / 16) :: hexDigit (c.toNat % 16) :: rest)
      = (some [.char c], rest) := by
  obtain ⟨hdigits, hnumber⟩ := Data.Json.hexNumber_control c.toNat hc
  have hscalar : isScalar c.toNat = true := by
    have hlow : c.toNat < 0xD800 := by omega
    simp [isScalar, hlow]
  simp [readEscape, readCodePoint, hdigits, hnumber, hscalar]

/-- One written character is read back. -/
theorem readStringUnits_quotedChar (c : Char) (bound : Nat) (rest : List Char)
    (units : List Unit16) :
    readStringUnits '"' (bound + 1) (quotedChar c ++ rest) units
      = readStringUnits '"' bound rest (.char c :: units) := by
  have h := quotedAs c
  generalize quotedChar c = written at h ⊢
  cases h with
  | letter e h => exact readStringUnits_escape (readEscape_letter h rest) bound units
  | control h => exact readStringUnits_escape (readEscape_control h rest) bound units
  | plain hquote hslash hcontrol =>
      have hbreak : (c == '\n' || c == '\r') = false := by
        rw [Bool.or_eq_false_iff, beq_eq_false_iff_ne, beq_eq_false_iff_ne]
        constructor
        all_goals
          rintro rfl
          exact absurd hcontrol (by decide)
      simp [readStringUnits, hquote, hslash, hbreak]

/-- **The characters of a quoted text** are read one by one. -/
theorem readStringUnits_quoted (rest : List Char) : ∀ (cs : List Char) (bound : Nat)
    (units : List Unit16), cs.length < bound →
    readStringUnits '"' bound (cs.flatMap quotedChar ++ '"' :: rest) units
      = some ((cs.map Unit16.char).reverse ++ units, rest)
  | [], bound + 1, units, _ => rfl
  | c :: cs, bound + 1, units, h => by
      have hrest := readStringUnits_quoted rest cs bound (.char c :: units) (Nat.lt_of_succ_lt_succ h)
      rw [List.flatMap_cons, List.append_assoc, readStringUnits_quotedChar, hrest, List.map_cons,
        List.reverse_cons, List.append_assoc, List.singleton_append]

theorem joinSurrogates_chars : ∀ cs : List Char,
    joinSurrogates (cs.map Unit16.char) = cs.map Unit16.char
  | [] => rfl
  | c :: cs => congrArg (Unit16.char c :: ·) (joinSurrogates_chars cs)

theorem hasSurrogate_chars (cs : List Char) : hasSurrogate (cs.map Unit16.char) = false := by
  simp [hasSurrogate]

theorem unitsText_chars (cs : List Char) : unitsText (cs.map Unit16.char) = cs := by
  rw [unitsText, hasSurrogate_chars, if_neg Bool.false_ne_true, List.filterMap_map]
  exact List.filterMap_some

/-- A quoted text is one token. -/
theorem readKind_quote (cs rest : List Char) :
    readKind ('"' :: (cs.flatMap quotedChar ++ '"' :: rest)) = some (.string cs false, false, rest) := by
  have hbound : cs.length < (cs.flatMap quotedChar ++ '"' :: rest).length + 1 := by
    have hle := Data.Json.length_le_flatMap_quotedChar cs
    rw [List.length_append]
    omega
  have hunits := readStringUnits_quoted rest cs _ [] hbound
  have hstring : readString '"' (cs.flatMap quotedChar ++ '"' :: rest) = some (cs, false, rest) := by
    rw [readString, hunits, List.append_nil]
    simp [joinSurrogates_chars, unitsText_chars, hasSurrogate_chars]
  simp [readKind, hstring]

/-! ## §4. What spells a value. -/

/-- A text that a reader turns into a value, behind any blanks and whatever stands behind it. -/
def Spells (scan : Scan α) (text : List Char) (a : α) : Prop :=
  ∀ (count : Nat) (rest : List Char),
    scan (List.replicate count ' ' ++ (text ++ rest)) = some (a, rest)

theorem token_quote (s : String) (count : Nat) (rest : List Char) :
    token (List.replicate count ' ' ++ ((quote s).toList ++ rest)) = some (.string s.toList false, rest) := by
  rw [Data.Json.quote_append]
  exact token_blanks (fun _ => rfl) (readKind_quote s.toList rest) count

/-- **A quoted text is read back.** -/
theorem spells_quote (s : String) : Spells string (quote s).toList s := by
  intro count rest
  unfold string
  rw [bind_of_eq (token_quote s count rest)]
  simp [pure_apply]

/-- What names a member before its colon. -/
def Names (text : List Char) (key : String) : Prop :=
  ∀ (count : Nat) (rest : List Char),
    name (List.replicate count ' ' ++ (text ++ ':' :: rest)) = some (key, ':' :: rest)

theorem names_quote (s : String) : Names (quote s).toList s := by
  intro count rest
  unfold name
  rw [bind_of_eq (token_quote s count _)]
  simp [pure_apply]

theorem names_word {c : Char} {input : List Char} {word : Name} {keyword? : Option Keyword}
    (hstop : ∀ rest pos, skipTrivia .between (c :: (input ++ rest)) pos false
      = some (c :: (input ++ rest), pos, false))
    (hkind : ∀ rest, readKind (c :: (input ++ ':' :: rest))
      = some (.word word keyword?, false, ':' :: rest)) :
    Names (c :: input) word.text := by
  intro count rest
  unfold name
  rw [List.cons_append, bind_of_eq (token_blanks (hstop _) (hkind rest) count)]
  rfl

theorem names_js : Names "js".toList "js" :=
  @names_word 'j' ['s'] ⟨['j', 's'], by decide⟩ none (fun _ _ => rfl) (fun _ => rfl)

theorem names_css : Names "css".toList "css" :=
  @names_word 'c' ['s', 's'] ⟨['c', 's', 's'], by decide⟩ none (fun _ _ => rfl) (fun _ => rfl)

theorem spells_member {value : Scan α} {keyText text : List Char} {key : String} {a : α}
    (hkey : Names keyText key) (hvalue : Spells value text a) :
    Spells (member value) (keyText ++ ':' :: ' ' :: text) (key, a) := by
  intro count rest
  have hcolon : punct .colon (':' :: ' ' :: (text ++ rest)) = some ((), ' ' :: (text ++ rest)) :=
    single_colon.punct 0 _
  have hspace : value (' ' :: (text ++ rest)) = some (a, rest) := hvalue 1 rest
  rw [List.append_assoc, List.cons_append, List.cons_append]
  unfold member
  rw [bind_of_eq (hkey count _), bind_of_eq hcolon]
  show (value >>= fun a => (pure (key, a) : Scan (String × α))) _ = _
  rw [bind_of_eq hspace, pure_apply]

/-! ## §5. Arrays and objects. -/

section

variable {closing : Punct} {item : Scan α} {text rest rest' : List Char} {a : α} {others : List α}

/-- No item is left. -/
theorem items_nil (hitem : item text = none) (hclosing : punct closing text = some ((), rest))
    (bound : Nat) : items closing item (bound + 1) text = some ([], rest) := by
  have hnone : attempt item text = some (none, text) := by simp [attempt, hitem]
  unfold items
  rw [bind_of_eq hnone]
  show (punct closing >>= fun _ => (pure [] : Scan (List α))) _ = _
  rw [bind_of_eq hclosing, pure_apply]

/-- The last item. -/
theorem items_last (hitem : item text = some (a, rest)) (hcomma : punct .comma rest = none)
    (hclosing : punct closing rest = some ((), rest')) (bound : Nat) :
    items closing item (bound + 1) text = some ([a], rest') := by
  have hsome : attempt item text = some (some a, rest) := by simp [attempt, hitem]
  have hnone : attempt (punct .comma) rest = some (none, rest) := by simp [attempt, hcomma]
  unfold items
  rw [bind_of_eq hsome]
  show (attempt (punct .comma) >>= _) rest = _
  rw [bind_of_eq hnone]
  show (punct closing >>= fun _ => (pure [a] : Scan (List α))) _ = _
  rw [bind_of_eq hclosing, pure_apply]

/-- An item and those behind its comma. -/
theorem items_cons {bound : Nat} {behind : List Char} (hitem : item text = some (a, rest))
    (hcomma : punct .comma rest = some ((), behind))
    (hothers : items closing item bound behind = some (others, rest')) :
    items closing item (bound + 1) text = some (a :: others, rest') := by
  have hsome : attempt item text = some (some a, rest) := by simp [attempt, hitem]
  have hnext : attempt (punct .comma) rest = some (some (), behind) := by simp [attempt, hcomma]
  unfold items
  rw [bind_of_eq hsome]
  show (attempt (punct .comma) >>= _) rest = _
  rw [bind_of_eq hnext]
  show (items closing item bound >>= fun others => (pure (a :: others) : Scan (List α))) _ = _
  rw [bind_of_eq hothers, pure_apply]

end

/-- Items on one line. -/
def separated (texts : List (List Char)) : List Char :=
  ", ".toList.intercalate texts

theorem separated_cons_cons (text text' : List Char) (texts : List (List Char)) :
    separated (text :: text' :: texts) = text ++ ',' :: ' ' :: separated (text' :: texts) := by
  rw [separated, List.intercalate_cons_cons, List.append_assoc]
  rfl

theorem length_le_separated : ∀ texts : List (List Char),
    texts.length ≤ (separated texts).length + 1
  | [] => Nat.zero_le _
  | [_] => Nat.le_add_left _ _
  | text :: text' :: texts => by
      have hrest := length_le_separated (text' :: texts)
      rw [separated_cons_cons]
      simp only [List.length_append, List.length_cons] at hrest ⊢
      omega

/-- A reader of items does not take the closing punctuator for one. -/
def Refuses (item : Scan α) (c : Char) : Prop :=
  ∀ (count : Nat) (rest : List Char), item (List.replicate count ' ' ++ c :: rest) = none

section

variable {β : Type} {closing : Punct} {c : Char} {item : Scan α} {spelling : β → List Char}
  {value : β → α}

/-- **Items are read one by one** up to the closing punctuator. -/
theorem items_separated (hclosing : Single c closing) (hcomma : closing ≠ .comma)
    (hrefuses : Refuses item c) (gap : Nat) (rest : List Char) :
    ∀ (xs : List β) (bound count : Nat),
    (∀ x ∈ xs, Spells item (spelling x) (value x)) → xs.length < bound →
    items closing item bound (List.replicate count ' '
        ++ (separated (xs.map spelling) ++ (List.replicate gap ' ' ++ c :: rest)))
      = some (xs.map value, rest)
  | [], bound + 1, count, _, _ => by
      have hblanks : List.replicate count ' ' ++ (List.replicate gap ' ' ++ c :: rest)
          = List.replicate (count + gap) ' ' ++ c :: rest := by
        rw [← List.append_assoc, List.replicate_append_replicate]
      rw [List.map_nil, separated, List.intercalate_nil, List.nil_append, hblanks]
      exact items_nil (hrefuses _ rest) (hclosing.punct _ rest) bound
  | [x], bound + 1, count, hspells, _ => by
      have hitem := hspells x List.mem_cons_self
      rw [List.map_singleton, separated, List.intercalate_singleton]
      exact items_last (hitem count _) (hclosing.punct_of_ne hcomma gap rest)
        (hclosing.punct gap rest) bound
  | x :: x' :: xs, bound + 1, count, hspells, hbound => by
      have hitem := hspells x List.mem_cons_self
      have hothers := items_separated hclosing hcomma hrefuses gap rest (x' :: xs) bound 1
        (List.forall_mem_of_forall_mem_cons hspells) (Nat.lt_of_succ_lt_succ hbound)
      rw [List.map_cons, List.map_cons, separated_cons_cons, List.append_assoc]
      exact items_cons (hitem count _) (single_comma.punct 0 _) hothers

/-- Items between punctuators, with some blanks inside of these. -/
theorem spells_enclosed (hclosing : Single c closing) (hcomma : closing ≠ .comma)
    (hrefuses : Refuses item c) {opening : Punct} {o : Char} (hopening : Single o opening)
    {xs : List β} (hspells : ∀ x ∈ xs, Spells item (spelling x) (value x)) (gap : Nat) :
    Spells (do punct opening; items closing item ((← get).length + 1))
      (o :: (List.replicate gap ' ' ++ (separated (xs.map spelling) ++ (List.replicate gap ' ' ++ [c]))))
      (xs.map value) := by
  intro count rest
  have hshape : o :: (List.replicate gap ' '
        ++ (separated (xs.map spelling) ++ (List.replicate gap ' ' ++ [c]))) ++ rest
      = o :: (List.replicate gap ' '
        ++ (separated (xs.map spelling) ++ (List.replicate gap ' ' ++ c :: rest))) := by
    simp only [List.cons_append, List.append_assoc, List.nil_append]
  have hbound : xs.length < (List.replicate gap ' '
      ++ (separated (xs.map spelling) ++ (List.replicate gap ' ' ++ c :: rest))).length + 1 := by
    have hle := length_le_separated (xs.map spelling)
    simp only [List.length_append, List.length_map, List.length_cons] at hle ⊢
    omega
  rw [hshape, bind_of_eq (hopening.punct count _), bind_of_eq (get_apply _)]
  exact items_separated hclosing hcomma hrefuses gap rest xs _ gap hspells hbound

/-- **An array is read back**, item by item. -/
theorem spells_array (hrefuses : Refuses item ']') {xs : List β}
    (hspells : ∀ x ∈ xs, Spells item (spelling x) (value x)) :
    Spells (array item) ('[' :: (separated (xs.map spelling) ++ [']'])) (xs.map value) :=
  spells_enclosed single_closeBracket nofun hrefuses single_openBracket hspells 0

theorem refuses_member (item : Scan α) : Refuses (member item) '\x7d' := by
  intro count rest
  have hname : name (List.replicate count ' ' ++ '\x7d' :: rest) = none := by
    unfold name
    rw [bind_of_eq (single_closeBrace count rest)]
    rfl
  rw [member, bind_apply, hname, Option.bind_none]

/-- **An object is read back**, member by member. -/
theorem spells_object {value : β → String × α} {xs : List β}
    (hspells : ∀ x ∈ xs, Spells (member item) (spelling x) (value x)) (gap : Nat) :
    Spells (object item) ('\x7b' :: (List.replicate gap ' '
      ++ (separated (xs.map spelling) ++ (List.replicate gap ' ' ++ ['\x7d'])))) (xs.map value) :=
  spells_enclosed single_closeBrace nofun (refuses_member item) single_openBrace hspells gap

end

theorem refuses_string : Refuses string ']' := by
  intro count rest
  unfold string
  rw [bind_of_eq (single_closeBracket count rest)]
  rfl

/-- An array of quoted texts. -/
theorem spells_texts (texts : List String) :
    Spells (array string) ('[' :: (separated (texts.map fun s => (quote s).toList) ++ [']'])) texts := by
  have harray := @spells_array _ _ string (fun s => (quote s).toList) id refuses_string texts
    fun s _ => spells_quote s
  rwa [List.map_id] at harray

/-! ## §6. Own members. -/

/-- **What an object has as its own** when its members are named in the order of a map. -/
theorem own_eq_filter {members : TextMap α} (h : (members.map (·.1)).Pairwise (· < ·)) :
    own members = members.filter fun m => m.1 != "__proto__" := by
  have hsublist : (members.filter fun m => m.1 != "__proto__").Sublist members := List.filter_sublist
  exact TextMap.ofList_eq_self (h.sublist (hsublist.map _))

end Literal

end AssetBundler.Script
