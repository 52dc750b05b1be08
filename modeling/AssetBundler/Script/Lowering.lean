/-
  AssetBundler.Script.Lowering
  ────────────────────────────────
  **FROM A MODULE TO A FUNCTION BODY.**

  The body of a module runs as a function of `module`, `exports`, `require`
  and `__import__`.  Import and export declarations are replaced by
  statements over these, and dynamic imports by calls of `__import__`.  A
  replacement keeps the line breaks of what it replaces, so every other
  statement stays on its line; what assigns the exports of declarations
  follows behind the body.
-/
import AssetBundler.Script.Module
import AssetBundler.Text.Quoted
import AssetBundler.Transform.Artifact

namespace AssetBundler.Script

open AssetBundler.Text

/-! ## §1. Edits of a source text. -/

/-- A stretch of source and the text that takes its place. -/
structure Edit where
  range : Range
  text : String

/-- A list in the order of a key; elements of one key keep their order. -/
def sortOn {α : Type} (key : α → Nat) : List α → List α
  | [] => []
  | x :: xs => insert x (sortOn key xs)
where
  insert (x : α) : List α → List α
    | [] => [x]
    | y :: ys => if key x ≤ key y then x :: y :: ys else y :: insert x ys

/-- The text with edits made, in order; `source` is what stands from offset `cursor` on. An edit that
begins before that is left out. Line breaks of the replaced text follow the new one. -/
def applyEdits : List Edit → Nat → List Char → List Char
  | [], _, source => source
  | edit :: edits, cursor, source =>
    let { start, stop } := edit.range
    if start < cursor then applyEdits edits cursor source
    else
      let kept := source.take (start - cursor)
      let replaced := (source.drop (start - cursor)).take (stop - start)
      kept ++ edit.text.toList ++ replaced.filter (· == '\n')
        ++ applyEdits edits stop (source.drop (stop - cursor))

/-! ## §2. Declarations. -/

/-- What the lowering of one item contributes. -/
structure Contribution where
  imports : List (Nat × Import)
  edits : List Edit
  /-- Statements behind the body. -/
  tail : List String

/-- The variable that holds the `n`-th imported module. -/
def moduleVariable (n : Nat) : String :=
  "__weft_m" ++ toString n

/-- A statement that assigns an export. -/
def exportAssignment (name value : String) : String :=
  "exports." ++ name ++ " = " ++ value ++ ";"

/-- The call that gives a module. -/
def requireCall (specifier : String) : String :=
  "require(" ++ quote specifier ++ ")"

/-- The statement that binds what an import binds; `holder` is the variable of the module. -/
def bindingStatement (holder : String) : ImportBinding → String
  | .member imported name =>
    " var " ++ name.text ++ " = " ++ holder ++ "." ++ imported.text ++ ";"
  | .default name =>
    " var " ++ name.text ++ " = " ++ holder ++ ".__esModule ? " ++ holder ++ ".default : "
      ++ holder ++ ";"
  | .all name => " var " ++ name.text ++ " = " ++ holder ++ ";"

/-- The statement that puts a module into a variable. -/
def holderStatement (holder specifier : String) : String :=
  "var " ++ holder ++ " = " ++ requireCall specifier ++ ";"

/-- The statement that copies all exports of a module but the default one. -/
def copyExports (specifier : String) : String :=
  "(function (m) \x7b for (var k in m) if (k !== \"default\" && "
    ++ "!Object.prototype.hasOwnProperty.call(exports, k)) exports[k] = m[k]; \x7d)("
    ++ requireCall specifier ++ ");"

/-- Whether an item puts a module into a variable of its own. -/
def needsVariable : ModuleItem → Bool
  | .importFrom _ _ (some _) | .exportFrom .. => true
  | _ => false

/-- The range from the start of an export to the start of what it exports. -/
def exportWords (range : Range) (inner : Tree) : Range :=
  ⟨range.start, inner.range.start⟩

/-- The lowering of one item; `n` numbers the variable of its module. -/
def lowerItem (n : Nat) (item : ModuleItem) : Contribution :=
  let holder := moduleVariable n
  let static (range : Range) (specifier : String) := [(range.start, ⟨specifier, .static⟩)]
  match item with
  | .importFrom range specifier none =>
    ⟨static range specifier, [⟨range, requireCall specifier ++ ";"⟩], []⟩
  | .importFrom range specifier (some bindings) =>
    let text := holderStatement holder specifier
      ++ String.join (bindings.map (bindingStatement holder))
    ⟨static range specifier, [⟨range, text⟩], []⟩
  | .exportAll range specifier (some name) =>
    let text := exportAssignment name.text (requireCall specifier)
    ⟨static range specifier, [⟨range, text⟩], []⟩
  | .exportAll range specifier none =>
    ⟨static range specifier, [⟨range, copyExports specifier⟩], []⟩
  | .exportFrom range specifier members =>
    let text := holderStatement holder specifier
      ++ String.join (members.map fun m =>
        " " ++ exportAssignment m.exported.text (holder ++ "." ++ m.source.text))
    ⟨static range specifier, [⟨range, text⟩], []⟩
  | .exportList range members =>
    ⟨[], [⟨range, ""⟩], members.map fun m => exportAssignment m.exported.text m.source.text⟩
  | .exportDeclaration range declaration =>
    let names := declaration.declaredNames.map Name.text
    ⟨[], [⟨exportWords range declaration, ""⟩], names.map fun n => exportAssignment n n⟩
  | .exportDefault range value =>
    match value.declaredNames with
    | name :: _ => ⟨[], [⟨exportWords range value, ""⟩], [exportAssignment "default" name.text]⟩
    | [] => ⟨[], [⟨exportWords range value, "exports.default = "⟩], []⟩
  | .statement _ => ⟨[], [], []⟩

/-- The lowering of items; `n` modules have been put into variables before. -/
def lowerItems : Nat → List ModuleItem → List Contribution
  | _, [] => []
  | n, item :: items =>
    let n := if needsVariable item then n + 1 else n
    lowerItem n item :: lowerItems n items

/-! ## §3. Calls that load modules. -/

/-- The specifier of a dynamic import of a string literal. -/
def dynamicSpecifier? : Tree → Option String
  | .node .importCall _ (.node (.string specifier) _ _ :: _) => some specifier
  | _ => none

/-- The specifier of a call of `require` with one string literal. -/
def requiredSpecifier? : Tree → Option String
  | .node .call _ [.node (.identifier name) _ _, .node (.string specifier) _ _] =>
    if name.text == "require" then some specifier else none
  | _ => none

/-- What one tree, its parts left aside, contributes. -/
def lowerCall (tree : Tree) : Contribution :=
  match dynamicSpecifier? tree with
  | some specifier =>
    ⟨[(tree.range.start, ⟨specifier, .deferred⟩)],
      [⟨tree.range, "__import__(" ++ quote specifier ++ ")"⟩], []⟩
  | none =>
    match requiredSpecifier? tree with
    | some specifier => ⟨[(tree.range.start, ⟨specifier, .static⟩)], [], []⟩
    | none => ⟨[], [], []⟩

/-- All trees of some items, parts included. -/
def allSubtrees (items : List ModuleItem) : List Tree :=
  items.flatMap fun item => item.trees.flatMap Tree.subtrees

/-! ## §4. The whole module. -/

/-- A module as a function body, with its imports in source order. -/
structure LoweredModule where
  code : List Char
  imports : List Import

/-- The statement that marks the exports as those of a module. -/
def moduleMark : String :=
  "Object.defineProperty(exports, \"__esModule\", \x7b value: true \x7d); "

/-- The tail behind a body, on lines of its own. -/
def withTail (body : List Char) (tail : List String) : List Char :=
  match tail with
  | [] => body
  | tail =>
    let body := if body.getLast? == some '\n' then body else body ++ ['\n']
    body ++ ("\n".intercalate tail).toList ++ ['\n']

/-- All contributions of a module: declarations first, then calls. -/
def contributions (items : List ModuleItem) : List Contribution :=
  lowerItems 0 items ++ (allSubtrees items).map lowerCall

/-- The lowering of a module that has been read. -/
def lowerModule (source : List Char) (items : List ModuleItem) : LoweredModule :=
  let parts := contributions items
  let edits := sortOn (·.range.start) (parts.flatMap (·.edits))
  let mark := if items.any ModuleItem.isExport then moduleMark.toList else []
  let body := mark ++ applyEdits edits 0 source
  { code := withTail body (parts.flatMap (·.tail))
    imports := firstOccurrences ((sortOn (·.1) (parts.flatMap (·.imports))).map (·.2)) }

/-- Reads a module and lowers it; `none` when the text is no module. -/
def lower? (markup : Bool) (source : List Char) : Option LoweredModule :=
  (parse? markup source).map (lowerModule source)

end AssetBundler.Script
