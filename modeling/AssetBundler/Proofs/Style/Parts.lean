/-
  AssetBundler.Proofs.Style.Parts
  ────────────────────────────────
  **A STYLESHEET, READ BY ITS GRAMMAR.**

  References are searched for by their shape in the bare text of a stylesheet.
  What the search should find is told by another reader, which goes from token
  to token: a comment and a string are passed over as wholes, an import rule
  reaches to the semicolon behind its condition, and the target of a reference
  is what its characters and escapes stand for.  Nothing of the text is lost:

    • `Style.kindAt` — what stands at the head of a text,
    • `Style.parts` — all parts of a text,
    • `Style.textOf_parts` — their texts side by side,
    • `Style.asked` — the imports that the parts ask for,
    • `Style.rendered` — the parts of which the stylesheet is written.
-/
import AssetBundler.Style.Stylesheet
import AssetBundler.Style.Syntax.Token

namespace AssetBundler.Style

open AssetBundler.Text AssetBundler.Style.Syntax

/-! ## §1. What references stand for. -/

/-- What a string stands for, whose opening mark has been read. A line break behind a backslash is left
out. -/
def quotedValue (mark : Char) : Nat → List Char → List Char
  | 0, _ | _, [] => []
  | bound + 1, c :: rest =>
    if c == mark || isBreak c then []
    else if startsEscape (c :: rest) then
      let (e, rest) := readEscape rest
      e :: quotedValue mark bound rest
    else if c == '\\' then quotedValue mark bound (dropBlank rest)
    else c :: quotedValue mark bound rest

/-- What an address without quotation marks stands for. -/
def urlValue : Nat → List Char → List Char
  | 0, _ | _, [] => []
  | bound + 1, c :: rest =>
    if c == ')' || isBlank c then []
    else if startsEscape (c :: rest) then
      let (e, rest) := readEscape rest
      e :: urlValue bound rest
    else c :: urlValue bound rest

/-- The target of an address in quotation marks, and what follows its parenthesis; `text` is what stands
behind the opening one. -/
def quotedAddress? (text : List Char) : Option (List Char × List Char) :=
  match text.dropWhile isBlank with
  | [] => none
  | mark :: inner =>
    if isQuote mark then
      let (closed, rest) := skipString mark (inner.length + 1) inner
      match closed, rest.dropWhile isBlank with
      | true, ')' :: behind => some (quotedValue mark inner.length inner, behind)
      | _, _ => none
    else none

/-- The target of the address at the head of a text, and what follows. -/
def addressAt? (c : Char) (rest : List Char) : Option (List Char × List Char) :=
  match readToken c rest with
  | (some .url, behind) =>
    let inner := ((nameAt (c :: rest)).2.drop 1).dropWhile isBlank
    some (urlValue inner.length inner, behind)
  | (some (.function name), behind) =>
    if name.map asciiLower == "url".toList then quotedAddress? behind else none
  | _ => none

/-! ## §2. Import rules. -/

/-- The text without the blanks and comments at its start; the first argument bounds their number. -/
def dropIdle : Nat → List Char → List Char
  | 0, text => text
  | bound + 1, text =>
    match text with
    | '/' :: '*' :: rest => dropIdle bound (afterComment rest)
    | c :: rest => if isBlank c then dropIdle bound rest else text
    | [] => []

/-- The target of an import rule, and what follows; `text` is what stands behind its name. -/
def argumentAt? (text : List Char) : Option (List Char × List Char) :=
  match dropIdle text.length text with
  | [] => none
  | c :: rest =>
    match readToken c rest with
    | (some .string, behind) => some (quotedValue c rest.length rest, behind)
    | _ => addressAt? c rest

/-- The text from the semicolon on that ends a rule, when no block comes before it; `depth` parentheses
are open, and the first argument bounds the number of tokens. -/
def afterCondition? : Nat → Nat → List Char → Option (List Char)
  | 0, _, text => some text
  | bound + 1, depth, text =>
    match text with
    | [] => some []
    | c :: rest =>
      match readToken c rest with
      | (some .semicolon, behind) => if depth = 0 then some text else afterCondition? bound depth behind
      | (some (.opening '\x7b'), _) | (some (.closing '\x7d'), _) => none
      | (some (.opening _), behind) | (some (.function _), behind) =>
        afterCondition? bound (depth + 1) behind
      | (some (.closing _), behind) => afterCondition? bound (depth - 1) behind
      | (_, behind) => afterCondition? bound depth behind

/-- The target and the condition of an import rule, and what follows its semicolon; `text` is what stands
behind its name. -/
def ruleAt? (text : List Char) : Option (List Char × List Char × List Char) :=
  match argumentAt? text with
  | none => none
  | some (target, behind) =>
    match afterCondition? (behind.length + 1) 0 behind with
    | none => none
    | some rest => some (target, behind.take (behind.length - rest.length), rest.drop 1)

/-! ## §3. Parts. -/

/-- What a part of a stylesheet is. -/
inductive Kind where
  | comment
  | quoted
  /-- An import rule. -/
  | rule (target condition : List Char)
  /-- A reference to a file. -/
  | file (target : List Char)
  /-- Any other token. -/
  | token (t : Token)
  deriving DecidableEq

/-- A part of a stylesheet, as it is written. -/
structure Part where
  kind : Kind
  text : List Char
  deriving DecidableEq

/-- A part that is no import rule: a comment, a string, a reference or another token. -/
def plainKindAt (c : Char) (rest : List Char) : Kind × List Char :=
  match addressAt? c rest with
  | some (target, behind) => (.file target, behind)
  | none =>
    match readToken c rest with
    | (none, behind) => (.comment, behind)
    | (some .string, behind) => (.quoted, behind)
    | (some t, behind) => (.token t, behind)

/-- What stands at the head of a text, and what follows. -/
def kindAt (c : Char) (rest : List Char) : Kind × List Char :=
  match readToken c rest with
  | (some (.atName name), behind) =>
    match name.map asciiLower == "import".toList, ruleAt? behind with
    | true, some (target, condition, behind) => (.rule target condition, behind)
    | _, _ => plainKindAt c rest
  | _ => plainKindAt c rest

/-- The parts of a text; `skip` characters of a part are still to be passed over. -/
def parts : Nat → List Char → List Part
  | _, [] => []
  | skip + 1, _ :: rest => parts skip rest
  | 0, c :: rest =>
    let (kind, behind) := kindAt c rest
    ⟨kind, c :: rest.take (rest.length - behind.length)⟩ :: parts (rest.length - behind.length) rest

/-- The text of some parts. -/
def textOf (ps : List Part) : List Char :=
  ps.flatMap Part.text

@[simp]
theorem textOf_nil : textOf [] = [] := rfl

@[simp]
theorem textOf_cons (p : Part) (ps : List Part) : textOf (p :: ps) = p.text ++ textOf ps :=
  List.flatMap_cons

@[simp]
theorem textOf_append (ps qs : List Part) : textOf (ps ++ qs) = textOf ps ++ textOf qs :=
  List.flatMap_append

/-- **Nothing of a text is lost**, and nothing is read twice. -/
theorem textOf_parts (text : List Char) : ∀ skip, textOf (parts skip text) = text.drop skip := by
  induction text with
  | nil => exact fun skip => by rw [parts, List.drop_nil, textOf_nil]
  | cons c rest ih =>
      intro skip
      cases skip with
      | succ skip => exact ih skip
      | zero =>
          rw [parts]
          dsimp only
          rw [textOf_cons, ih, List.cons_append, List.take_append_drop, List.drop_zero]

/-! ## §4. What is asked for, and what is kept. -/

namespace Kind

/-- The part is an import rule. -/
def isRule : Kind → Bool
  | rule .. => true
  | _ => false

/-- The part is an import rule or a reference to a file. -/
def isReference : Kind → Bool
  | rule .. | file _ => true
  | _ => false

/-- What an import rule asks for, unless it leads out of the project. -/
def ruleImport? : Kind → Option Import
  | rule target _ => if isExternal target then none else some ⟨String.ofList target, .style⟩
  | _ => none

/-- What a reference to a file asks for, unless it leads out of the project. -/
def fileImport? : Kind → Option Import
  | file target => if isExternal target then none else some ⟨String.ofList target, .url⟩
  | _ => none

end Kind

/-- **The imports that a stylesheet asks for**: those of its rules, then those of its references. -/
def asked (ps : List Part) : List Import :=
  ps.filterMap (·.kind.ruleImport?) ++ ps.filterMap (·.kind.fileImport?)

/-- The parts without the import rules of the project. -/
def kept (ps : List Part) : List Part :=
  ps.filter fun p => p.kind.ruleImport?.isNone

/-- The part with something in the place of its target, if that is a file of the project. -/
def Part.withTarget (form : String → List Char) (p : Part) : Part :=
  match p.kind.fileImport? with
  | none => p
  | some i => { p with text := "url(".toList ++ form i.specifier ++ [')'] }

/-- **The parts of which a stylesheet is written**: without the import rules of the project, and with
something in the place of its files. -/
def rendered (form : String → List Char) (ps : List Part) : List Part :=
  (kept ps).map (Part.withTarget form)

@[simp]
theorem Part.withTarget_kind (form : String → List Char) (p : Part) : (p.withTarget form).kind = p.kind := by
  unfold withTarget
  split
  next => rfl
  next => rfl

end AssetBundler.Style
