/-
  AssetBundler.Proofs.Data.Json
  ────────────────────────────────
  **READING BACK WHAT HAS BEEN WRITTEN.**

  The reader of the JSON format gives back a quoted text, and a table of
  values that it gives back one by one.  What stands behind a value does not
  matter, so the lemmas are about a text with any rest.

    • `Json.string_quote` — a quoted text,
    • `Json.spells_table` — a table, whatever blanks stand behind its commas
      and colons.
-/
import AssetBundler.Data.Json
import AssetBundler.Proofs.Text.Quoted
import Mathlib.Data.List.Forall2

namespace AssetBundler

open AssetBundler.Text

/-! ## §1. Scanners on a given text. -/

namespace Text.Scan

variable {α β : Type}

theorem bind_apply (scan : Scan α) (next : α → Scan β) (text : List Char) :
    (scan >>= next) text = (scan text).bind fun found => next found.1 found.2 := rfl

/-- What follows a scanner goes on behind what this has found. -/
theorem bind_of_eq {scan : Scan α} {text rest : List Char} {a : α}
    (h : scan text = some (a, rest)) (next : α → Scan β) :
    (scan >>= next) text = next a rest := by
  rw [bind_apply, h]
  rfl

theorem pure_apply (a : α) (text : List Char) : (pure a : Scan α) text = some (a, text) := rfl

theorem map_apply (f : α → β) (scan : Scan α) (text : List Char) :
    (f <$> scan) text = (scan text).map fun found => (f found.1, found.2) := by
  rw [map_eq_pure_bind, bind_apply]
  cases scan text <;> rfl

theorem get_apply (text : List Char) : (get : Scan (List Char)) text = some (text, text) := rfl

theorem next_cons (c : Char) (rest : List Char) : next (c :: rest) = some (c, rest) := rfl

theorem peek?_cons (c : Char) (rest : List Char) :
    peek? (c :: rest) = some (some c, c :: rest) := rfl

theorem require_true (text : List Char) : require true text = some ((), text) := rfl

theorem eat_cons_self (c : Char) (rest : List Char) : eat c (c :: rest) = some (true, rest) := by
  simp [eat, bind_apply, get_apply]
  rfl

theorem eat_cons_of_ne {c d : Char} (h : c ≠ d) (rest : List Char) :
    eat c (d :: rest) = some (false, d :: rest) := by
  simp [eat, bind_apply, get_apply, h, pure_apply]

theorem expect_cons (c : Char) (rest : List Char) : expect c (c :: rest) = some ((), rest) := by
  simp [expect, bind_apply, eat_cons_self, require_true]

theorem take_four (a b c d : Char) (rest : List Char) :
    take 4 (a :: b :: c :: d :: rest) = some ([a, b, c, d], rest) := by
  simp [take, bind_apply, get_apply, require_true]
  rfl

theorem eatText_append (s : String) (rest : List Char) :
    eatText s (s.toList ++ rest) = some (true, rest) := by
  simp [eatText, bind_apply, get_apply, dropPrefix?_append]
  rfl

theorem eatText_of_none {s : String} {text : List Char} (h : dropPrefix? s.toList text = none) :
    eatText s text = some (false, text) := by
  simp [eatText, bind_apply, get_apply, h, pure_apply]

theorem expectText_append (s : String) (rest : List Char) :
    expectText s (s.toList ++ rest) = some ((), rest) := by
  unfold expectText
  rw [bind_of_eq (eatText_append s rest), require_true]

end Text.Scan

namespace Data.Json

open Text.Scan

/-! ## §2. Quoted texts. -/

/-- A control character is spelt by its two last hexadecimal digits. -/
theorem hexNumber_control : ∀ n < 0x20,
    ['0', '0', hexDigit (n / 16), hexDigit (n % 16)].all isHexDigit = true
      ∧ hexNumber ['0', '0', hexDigit (n / 16), hexDigit (n % 16)] = n := by
  decide

theorem hex4_control {n : Nat} (hn : n < 0x20) (rest : List Char) :
    hex4 ('0' :: '0' :: hexDigit (n / 16) :: hexDigit (n % 16) :: rest) = some (n, rest) := by
  obtain ⟨hdigits, hnumber⟩ := hexNumber_control n hn
  unfold hex4
  rw [bind_of_eq (take_four ..), hdigits, bind_of_eq (require_true _), hnumber]
  rfl

theorem unicodeEscape_control {c : Char} (hc : c.toNat < 0x20) (rest : List Char) :
    unicodeEscape ('0' :: '0' :: hexDigit (c.toNat / 16) :: hexDigit (c.toNat % 16) :: rest)
      = some (c, rest) := by
  unfold unicodeEscape
  rw [bind_of_eq (hex4_control hc rest)]
  -- a control character is no half of a pair
  have hsurrogate : ¬ 0xD800 ≤ c.toNat := by omega
  have hsurrogate' : ¬ 0xDC00 ≤ c.toNat := by omega
  simp [hsurrogate, hsurrogate', bind_apply, require_true, pure_apply]

/-- A character behind a backslash is read by its escape. -/
theorem stringRest_escape {c : Char} {text rest : List Char} (h : escape text = some (c, rest))
    (bound : Nat) :
    stringRest (bound + 1) ('\\' :: text)
      = (stringRest bound rest).map fun found => (c :: found.1, found.2) := by
  simp [stringRest, bind_apply, map_apply, next_cons, h]

/-- A character that needs no escape is read as it is. -/
theorem stringRest_plain {c : Char} (hquote : c ≠ '"') (hslash : c ≠ '\\')
    (hcontrol : 0x20 ≤ c.toNat) (bound : Nat) (rest : List Char) :
    stringRest (bound + 1) (c :: rest)
      = (stringRest bound rest).map fun found => (c :: found.1, found.2) := by
  simp [stringRest, bind_apply, map_apply, next_cons, hcontrol, require_true]

theorem escape_letter {c e : Char} (h : (c, e) ∈ escapeLetters) (rest : List Char) :
    escape (e :: rest) = some (c, rest) := by
  simp only [escapeLetters, List.mem_cons, List.not_mem_nil, or_false, Prod.mk.injEq] at h
  rcases h with ⟨rfl, rfl⟩ | ⟨rfl, rfl⟩ | ⟨rfl, rfl⟩ | ⟨rfl, rfl⟩ | ⟨rfl, rfl⟩ | ⟨rfl, rfl⟩ | ⟨rfl, rfl⟩
  all_goals rfl

/-- One written character is read back. -/
theorem stringRest_quotedChar (c : Char) (bound : Nat) (rest : List Char) :
    stringRest (bound + 1) (quotedChar c ++ rest)
      = (stringRest bound rest).map fun found => (c :: found.1, found.2) := by
  have h := quotedAs c
  generalize quotedChar c = written at h ⊢
  cases h with
  | letter e h => exact stringRest_escape (escape_letter h rest) bound
  | control h =>
      have hescape : escape ('u' :: '0' :: '0' :: hexDigit (c.toNat / 16)
          :: hexDigit (c.toNat % 16) :: rest) = some (c, rest) :=
        unicodeEscape_control h rest
      exact stringRest_escape hescape bound
  | plain hquote hslash hcontrol => exact stringRest_plain hquote hslash hcontrol bound rest

theorem stringRest_quoted (rest : List Char) : ∀ (cs : List Char) (bound : Nat),
    cs.length < bound →
    stringRest bound (cs.flatMap quotedChar ++ '"' :: rest) = some (cs, rest)
  | [], bound + 1, _ => by
      simp [stringRest, bind_apply, next_cons, pure_apply]
  | c :: cs, bound + 1, h => by
      have hrest := stringRest_quoted rest cs bound (Nat.lt_of_succ_lt_succ h)
      rw [List.flatMap_cons, List.append_assoc, stringRest_quotedChar, hrest]
      rfl

theorem quotedChar_ne_nil (c : Char) : quotedChar c ≠ [] := by
  rcases quotedChar_cases c with hplain | ⟨escape, hescape⟩
  · rw [hplain]
    exact List.cons_ne_nil _ _
  · rw [hescape]
    exact List.cons_ne_nil _ _

theorem length_le_flatMap_quotedChar : ∀ cs : List Char,
    cs.length ≤ (cs.flatMap quotedChar).length
  | [] => Nat.le_refl 0
  | c :: cs => by
      have hc : 0 < (quotedChar c).length := List.length_pos_iff.mpr (quotedChar_ne_nil c)
      have hcs := length_le_flatMap_quotedChar cs
      rw [List.flatMap_cons, List.length_append, List.length_cons]
      omega

theorem quote_append (s : String) (rest : List Char) :
    (quote s).toList ++ rest = '"' :: (s.toList.flatMap quotedChar ++ '"' :: rest) := by
  simp [quote, quotedChars]

/-- **A quoted text is read back.** -/
theorem string_quote (s : String) (rest : List Char) :
    string ((quote s).toList ++ rest) = some (s, rest) := by
  have hbound : s.toList.length < (s.toList.flatMap quotedChar ++ '"' :: rest).length + 1 := by
    have hle := length_le_flatMap_quotedChar s.toList
    rw [List.length_append]
    omega
  unfold string
  rw [quote_append, bind_of_eq (expect_cons ..), bind_of_eq (get_apply _),
    bind_of_eq (stringRest_quoted rest s.toList _ hbound), pure_apply, String.ofList_toList]

/-! ## §3. Tables. -/

/-- A text that the reader turns into a value, whatever stands behind it. It does not begin with a
blank. -/
structure Spells (depth : Nat) (text : List Char) (v : Value) : Prop where
  reads : ∀ rest, value depth (text ++ rest) = some (v, rest)
  head : ∀ rest, ∃ c behind, text ++ rest = c :: behind ∧ isBlank c = false

theorem spells_null (depth : Nat) : Spells (depth + 1) "null".toList .null :=
  ⟨fun _ => rfl, fun _ => ⟨'n', _, rfl, rfl⟩⟩

theorem spells_quote (depth : Nat) (s : String) :
    Spells (depth + 1) (quote s).toList (.text s) := by
  refine ⟨fun rest => ?_, fun rest => ⟨'"', _, quote_append s rest, rfl⟩⟩
  have hstring := string_quote s rest
  rw [quote_append] at hstring ⊢
  unfold value
  rw [bind_of_eq (peek?_cons ..)]
  show (string >>= fun t => pure (Value.text t)) _ = _
  rw [bind_of_eq hstring, pure_apply]

/-- Blanks are passed over up to what is none. -/
theorem blanks_append {gap : List Char} (hgap : ∀ c ∈ gap, isBlank c = true) {c : Char}
    (hc : isBlank c = false) (rest : List Char) :
    blanks (gap ++ c :: rest) = some ((), c :: rest) := by
  have hdrop : (gap ++ c :: rest).dropWhile isBlank = c :: rest := by
    rw [List.dropWhile_append_of_pos hgap, List.dropWhile_cons_of_neg (by simp [hc])]
  show some ((), (gap ++ c :: rest).dropWhile isBlank) = _
  rw [hdrop]

theorem blanks_cons {c : Char} (hc : isBlank c = false) (rest : List Char) :
    blanks (c :: rest) = some ((), c :: rest) :=
  @blanks_append [] nofun c hc rest

/-- A member as it is to be written: its key, its text, and the value that this spells. -/
structure Spelling where
  key : String
  text : List Char
  value : Value

/-- A member as it is written, with a gap behind its colon. -/
def Spelling.written (gap : List Char) (m : Spelling) : List Char :=
  (quote m.key).toList ++ ':' :: gap ++ m.text

/-- Members with commas between them and a gap behind each comma. -/
def membersText (gap : List Char) (members : List Spelling) : List Char :=
  (',' :: gap).intercalate (members.map (·.written gap))

section

variable {gap : List Char} {depth : Nat}

theorem member_written (hgap : ∀ c ∈ gap, isBlank c = true) {m : Spelling}
    (hm : Spells depth m.text m.value) (rest : List Char) :
    member (value depth) (m.written gap ++ rest) = some ((m.key, m.value), rest) := by
  obtain ⟨c, behind, htext, hc⟩ := hm.head rest
  have hcolon : ∀ behind, blanks (':' :: behind) = some ((), ':' :: behind) := blanks_cons rfl
  unfold member Spelling.written
  simp only [List.append_assoc, List.cons_append]
  rw [bind_of_eq (string_quote ..), bind_of_eq (hcolon _), bind_of_eq (expect_cons ..), htext,
    bind_of_eq (blanks_append hgap hc behind), ← htext, bind_of_eq (hm.reads rest), pure_apply]

/-- A written member begins with a quote. -/
theorem written_append (m : Spelling) (rest : List Char) :
    ∃ behind, m.written gap ++ rest = '"' :: behind := by
  unfold Spelling.written
  rw [List.append_assoc, List.append_assoc, quote_append]
  exact ⟨_, rfl⟩

theorem membersText_cons_cons (m m₂ : Spelling) (members : List Spelling) :
    membersText gap (m :: m₂ :: members)
      = m.written gap ++ ',' :: gap ++ membersText gap (m₂ :: members) := by
  simp [membersText, List.intercalate_cons_cons]

theorem membersText_append (m : Spelling) (members : List Spelling) (rest : List Char) :
    ∃ behind, membersText gap (m :: members) ++ rest = '"' :: behind := by
  cases members with
  | nil =>
      simp only [membersText, List.map_cons, List.map_nil, List.intercalate_singleton]
      exact written_append m rest
  | cons m₂ members =>
      rw [membersText_cons_cons, List.append_assoc, List.append_assoc]
      exact written_append m _

/-- Every member has a character at least. -/
theorem length_le_membersText : ∀ members : List Spelling,
    members.length ≤ (membersText gap members).length
  | [] => Nat.zero_le _
  | [m] => by
      obtain ⟨behind, h⟩ := @membersText_append gap m [] []
      rw [List.append_nil] at h
      rw [h]
      simp
  | m :: m₂ :: members => by
      have hrest := length_le_membersText (m₂ :: members)
      rw [membersText_cons_cons]
      simp only [List.length_cons, List.length_append] at hrest ⊢
      omega

/-- The members of a table up to its closing brace. -/
theorem separated_membersText (hgap : ∀ c ∈ gap, isBlank c = true) (rest : List Char) :
    ∀ (members : List Spelling) (m : Spelling) (bound : Nat),
      (∀ m' ∈ m :: members, Spells depth m'.text m'.value) →
      members.length < bound →
      separated '\x7d' (member (value depth)) bound
          (membersText gap (m :: members) ++ '\x7d' :: rest)
        = some ((m :: members).map fun m' => (m'.key, m'.value), rest)
  | [], m, bound + 1, hspells, _ => by
      have hm := member_written hgap (hspells m List.mem_cons_self) ('\x7d' :: rest)
      have hclose : blanks ('\x7d' :: rest) = some ((), '\x7d' :: rest) :=
        blanks_cons rfl rest
      simp only [membersText, List.map_cons, List.map_nil, List.intercalate_singleton]
      unfold separated
      rw [bind_of_eq hm, bind_of_eq hclose, bind_of_eq (eat_cons_self ..)]
      rfl
  | m₂ :: members, m, bound + 1, hspells, hbound => by
      have hrest := separated_membersText hgap rest members m₂ bound
        (fun m' hm' => hspells m' (List.mem_cons_of_mem _ hm')) (Nat.lt_of_succ_lt_succ hbound)
      set tail := membersText gap (m₂ :: members) ++ '\x7d' :: rest with htail
      have htext : membersText gap (m :: m₂ :: members) ++ '\x7d' :: rest
          = m.written gap ++ ',' :: (gap ++ tail) := by
        simp [membersText_cons_cons, htail]
      have hm := member_written hgap (hspells m List.mem_cons_self) (',' :: (gap ++ tail))
      have hcomma : blanks (',' :: (gap ++ tail)) = some ((), ',' :: (gap ++ tail)) :=
        blanks_cons rfl _
      -- the gap ends where the next member begins
      have hnext : blanks (gap ++ tail) = some ((), tail) := by
        obtain ⟨behind, hbehind⟩ := membersText_append m₂ members ('\x7d' :: rest)
        rw [htail, hbehind]
        exact blanks_append hgap rfl behind
      rw [htext]
      unfold separated
      rw [bind_of_eq hm, bind_of_eq hcomma, bind_of_eq (eat_cons_of_ne (by decide) _)]
      show ((expect ',' >>= fun _ => blanks >>= fun _ =>
        separated '\x7d' (member (value depth)) bound >>= fun others =>
          pure ((m.key, m.value) :: others)) (',' :: (gap ++ tail))) = _
      rw [bind_of_eq (expect_cons ..), bind_of_eq hnext, bind_of_eq hrest, pure_apply]
      rfl

/-- A table on one line. -/
def tableText (gap : List Char) (members : List Spelling) : List Char :=
  '\x7b' :: membersText gap members ++ ['\x7d']

/-- **A table is read back** with its members in order. -/
theorem spells_table (hgap : ∀ c ∈ gap, isBlank c = true) {members : List Spelling}
    (hspells : ∀ m ∈ members, Spells (depth + 1) m.text m.value) :
    Spells (depth + 2) (tableText gap members)
      (.table (members.map fun m => (m.key, m.value))) := by
  refine ⟨fun rest => ?_, fun rest => ⟨'\x7b', _, rfl, rfl⟩⟩
  have hcontainer : container '\x7d' (member (value (depth + 1)))
      (membersText gap members ++ '\x7d' :: rest)
        = some (members.map fun m => (m.key, m.value), rest) := by
    unfold container
    cases members with
    | nil =>
        have hclose : blanks ('\x7d' :: rest) = some ((), '\x7d' :: rest) :=
          blanks_cons rfl rest
        show (blanks >>= _) ('\x7d' :: rest) = _
        rw [bind_of_eq hclose, bind_of_eq (eat_cons_self ..)]
        rfl
    | cons m members =>
        obtain ⟨behind, hbehind⟩ := @membersText_append gap m members ('\x7d' :: rest)
        have hfirst : blanks ('"' :: behind) = some ((), '"' :: behind) :=
          blanks_cons rfl behind
        have hbound : members.length
            < (membersText gap (m :: members) ++ '\x7d' :: rest).length + 1 := by
          have hle := @length_le_membersText gap (m :: members)
          rw [List.length_append]
          rw [List.length_cons] at hle
          omega
        have hitems := separated_membersText hgap rest members m _ hspells hbound
        rw [hbehind] at hitems ⊢
        rw [bind_of_eq hfirst, bind_of_eq (eat_cons_of_ne (by decide) _)]
        exact hitems
  have hshape : tableText gap members ++ rest
      = '\x7b' :: (membersText gap members ++ '\x7d' :: rest) := by
    simp [tableText]
  rw [hshape]
  unfold value
  rw [bind_of_eq (peek?_cons ..)]
  show (next >>= fun _ => require (decide (0 < depth + 1)) >>= fun _ =>
    container '\x7d' (member (value (depth + 1))) >>= fun found => pure (Value.table found)) _ = _
  rw [bind_of_eq (next_cons ..), decide_eq_true (Nat.succ_pos depth), bind_of_eq (require_true _),
    bind_of_eq hcontainer, pure_apply]

end

/-- A text that spells a value is read as that value. -/
theorem parse?_of_spells {text : String} {v : Value} (h : Spells maxDepth text.toList v) :
    parse? text = some v := by
  obtain ⟨c, behind, htext, hc⟩ := h.head []
  have hreads := h.reads []
  rw [List.append_nil] at htext hreads
  have hfirst : blanks text.toList = some ((), text.toList) := by
    rw [htext]
    exact blanks_cons hc behind
  unfold parse? Scan.run?
  rw [bind_of_eq hfirst, bind_of_eq hreads]
  rfl

end Data.Json

/-! ## §4. Members of tables. -/

namespace Data.Value

/-- When no name occurs twice, it does not matter from which end a member is looked for. -/
theorem lastMember?_eq_lookup (name : String) : ∀ {members : List (String × Value)},
    (members.map (·.1)).Nodup → lastMember? name members = members.lookup name
  | [], _ => rfl
  | (key, v) :: rest, h => by
      rw [List.map_cons, List.nodup_cons] at h
      have hrest := lastMember?_eq_lookup name h.2
      unfold lastMember?
      by_cases hkey : name = key
      · -- the name does not come again
        have hnone : rest.lookup name = none := by
          rw [List.lookup_eq_none_iff]
          intro e he
          rw [bne_iff_ne]
          exact fun hname => h.1 (List.mem_map.mpr ⟨e, he, hname.symm.trans hkey⟩)
        rw [hrest, hnone]
        simp [hkey]
      · rw [hrest, List.lookup_cons, beq_false_of_ne hkey, beq_false_of_ne (Ne.symm hkey)]
        cases rest.lookup name <;> rfl

theorem lookup_map_value {α : Type} (f : α → Value) (name : String) :
    ∀ members : List (String × α),
      (members.map fun (key, a) => (key, f a)).lookup name = (members.lookup name).map f
  | [] => rfl
  | (key, a) :: rest => by
      rw [List.map_cons, List.lookup_cons, List.lookup_cons]
      cases name == key with
      | true => rfl
      | false => exact lookup_map_value f name rest

end Data.Value

end AssetBundler
