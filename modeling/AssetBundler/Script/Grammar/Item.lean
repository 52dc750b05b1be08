/-
  AssetBundler.Script.Grammar.Item
  ────────────────────────────────
  **IMPORT AND EXPORT DECLARATIONS.**

  The declarations that make a source text a module.  Below the top level
  they are read in the same way.
-/
import AssetBundler.Script.Grammar.Expression

namespace AssetBundler.Script.Grammar

/-! ## §1. Names and specifiers. -/

/-- The name of an export: a word, or a string without lone surrogates. -/
def exportName : Parser ExportName := do
  match (← token).kind with
  | .word name _ =>
    advance
    return .identifier name
  | .string value lone =>
    require !lone
    advance
    return .quoted (String.ofList value)
  | _ => fail

/-- The value of a string literal. -/
def stringValue : Parser String := do
  match (← token).kind with
  | .string value _ =>
    advance
    return String.ofList value
  | _ => fail

/-- The key of an import attribute, and behind a colon its value. -/
def importAttribute : Parser (List Char) := do
  let key ← match (← token).kind with
    | .word name _ => pure name.chars
    | .string value _ => pure value
    | _ => fail
  advance
  expect .colon
  let _ ← stringValue
  return key

/-- No element occurs twice. -/
def allDistinct {α : Type} [BEq α] : List α → Bool
  | [] => true
  | x :: xs => !xs.contains x && allDistinct xs

/-- Import attributes, if they stand here; no key occurs twice. -/
def importAttributes (bound : Nat) : Parser Unit := do
  let t ← token
  let present := t.keyword? == some .with_ || (t.keyword? == some .assert && !t.afterNewline)
  if present then
    advance
    expect .openBrace
    let (keys, _) ← commaList .closeBrace importAttribute bound
    require (allDistinct keys)
    expect .closeBrace

/-- The module that a declaration is about, behind the word `from`, to the end of the declaration. -/
def sourceModule (bound : Nat) : Parser String := do
  let specifier ← stringValue
  importAttributes bound
  endStatement
  return specifier

/-! ## §2. Imports. -/

/-- One member of an import list. A name that is reserved, or quoted, is bound under another. -/
def importMember (ctx : Context) : Parser ImportBinding := do
  let first ← token
  let imported ← exportName
  if ← eatKeyword .as then return .member imported (← identifierName ctx)
  require first.isIdentifier
  match imported with
  | .identifier name =>
    require !(ctx.await && first.keyword? == some .await)
    return .member imported name
  | .quoted _ => fail

/-- The whole module under a name. -/
def importAll (ctx : Context) : Parser ImportBinding := do
  expect .star
  expectKeyword .as
  return .all (← identifierName ctx)

/-- The members that an import declaration names in braces. -/
def importList (bound : Nat) (ctx : Context) : Parser (List ImportBinding) := do
  expect .openBrace
  let (members, _) ← commaList .closeBrace (importMember ctx) bound
  expect .closeBrace
  return members

/-- What an import declaration binds, up to the word `from`. -/
def importBindings (bound : Nat) (ctx : Context) : Parser (List ImportBinding) := do
  match (← token).kind with
  | .punct .star => return [← importAll ctx]
  | .punct .openBrace => importList bound ctx
  | _ =>
    let first := ImportBinding.default (← identifierName ctx)
    if ← eat .comma then
      if ← atPunct .star then return [first, ← importAll ctx]
      return first :: (← importList bound ctx)
    return [first]

/-- The bindings behind a word for an import phase: a whole module that is deferred, or one name for
the source of a module. -/
def phasedBindings (ctx : Context) : Parser (List ImportBinding) := do
  let bindings ← do
    if ← eatKeyword .defer then pure [← importAll ctx]
    else
      expectKeyword .source
      pure [.default (← identifierName ctx)]
  expectKeyword .from_
  return bindings

/-- An import declaration. -/
def importItem (bound : Nat) (ctx : Context) : Parser ModuleItem := do
  let start ← here
  expectKeyword .import_
  match (← token).kind with
  | .string .. =>
    let specifier ← sourceModule bound
    return .importFrom (← rangeFrom start) specifier none
  | _ =>
    let bindings ← do
      match ← attempt (phasedBindings ctx) with
      | some bindings => pure bindings
      | none =>
        let bindings ← importBindings bound ctx
        expectKeyword .from_
        pure bindings
    let specifier ← sourceModule bound
    return .importFrom (← rangeFrom start) specifier (some bindings)

/-! ## §3. Exports. -/

/-- One member of an export list, and whether its inner name can be a name of this module. -/
def exportMember : Parser (ExportMember × Bool) := do
  let isString (name : ExportName) : Bool := match name with
    | .quoted _ => true
    | .identifier _ => false
  let reserved : Bool := match (← token).kind with
    | .word _ (some k) => k.isReserved || k.isStrictReserved
    | _ => false
  let source ← exportName
  let exported ← if ← eatKeyword .as then exportName else pure source
  return (⟨source, exported⟩, !reserved && !isString source)

/-- A list of exports in braces, of this module or of another. -/
def exportListItem (bound start : Nat) : Parser ModuleItem := do
  expect .openBrace
  let (members, _) ← commaList .closeBrace exportMember bound
  expect .closeBrace
  let isString (t : Token) : Bool := match t.kind with
    | .string .. => true
    | _ => false
  if (← atKeyword .from_) && (← nextToken isString) then
    advance
    let specifier ← sourceModule bound
    return .exportFrom (← rangeFrom start) specifier (members.map (·.1))
  require (members.all (·.2))
  endStatement
  return .exportList (← rangeFrom start) (members.map (·.1))

/-- All exports of another module. -/
def exportAllItem (bound start : Nat) : Parser ModuleItem := do
  expect .star
  let name? ← if ← eatKeyword .as then some <$> exportName else pure none
  expectKeyword .from_
  let specifier ← sourceModule bound
  return .exportAll (← rangeFrom start) specifier name?

/-- The function keyword stands here, with the word for async functions before it or not. -/
def atFunction : Parser Bool := do
  if ← atKeyword .function then return true
  if ← atKeyword .async then nextOnLine (·.keyword? == some .function) else return false

/-- A function declaration, at its first word. -/
def functionDeclaration (bound : Nat) (parse : ParseGoal) (ctx : Context)
    (form : FunctionForm) : Parser Tree := do
  let start ← here
  let async ← eatKeyword .async
  functionFromKeyword bound parse ctx start async form

/-- A class whose decorators stand here; `outer` are decorators that stood before the export. -/
def decoratedClass (bound : Nat) (parse : ParseGoal) (ctx : Context) (outer : List Tree) :
    Parser Tree := do
  let start ← here
  let inner ← decorators bound parse ctx
  require (outer.isEmpty || inner.isEmpty)
  classFromKeyword bound parse ctx start (outer ++ inner)

/-- The default export behind its keyword. -/
def exportDefaultItem (bound : Nat) (parse : ParseGoal) (ctx : Context) (start : Nat)
    (marks : List Tree) : Parser ModuleItem := do
  if (← atKeyword .class_) || (← atPunct .at) then
    let value ← decoratedClass bound parse ctx marks
    return .exportDefault (← rangeFrom start) value
  require marks.isEmpty
  if ← atFunction then
    let value ← functionDeclaration bound parse ctx .defaultExport
    return .exportDefault (← rangeFrom start) value
  let value ← parse .assignment ctx
  endStatement
  return .exportDefault (← rangeFrom start) value

/-- The tree is a declaration that an export may carry. -/
def isExportable : Tree → Bool
  | .node (.variables kind) _ _ => kind != .using_
  | .node (.function _) _ _ | .node (.class_ _) _ _ => true
  | _ => false

/-- An export declaration; `marks` are the decorators before it. -/
def exportItem (bound : Nat) (parse : ParseGoal) (ctx : Context) (marks : List Tree) :
    Parser ModuleItem := do
  let start ← here
  expectKeyword .export_
  if ← eatKeyword .default_ then exportDefaultItem bound parse ctx start marks
  else if (← atKeyword .class_) || (← atPunct .at) then
    let declaration ← decoratedClass bound parse ctx marks
    return .exportDeclaration (← rangeFrom start) declaration
  else
    require marks.isEmpty
    match (← token).kind with
    | .punct .star => exportAllItem bound start
    | .punct .openBrace => exportListItem bound start
    | .word _ (some k) =>
      require ([Keyword.var, .let_, .const_, .function, .async].contains k)
      let declaration ← parse (.statement false) ctx
      require (isExportable declaration)
      return .exportDeclaration (← rangeFrom start) declaration
    | _ => fail

/-! ## §4. Items. -/

/-- An import or export declaration or a decorated class stands here. -/
def atItem : Parser Bool := do
  let isCall (t : Token) : Bool := t.isPunct .openParen || t.isPunct .dot
  if ← atKeyword .import_ then return !(← nextToken isCall)
  return (← atKeyword .export_) || (← atPunct .at)

/-- What stands where `atItem` holds. -/
def declarationItem (bound : Nat) (parse : ParseGoal) (ctx : Context) : Parser ModuleItem := do
  if ← atKeyword .import_ then importItem bound ctx
  else
    let start ← here
    let marks ← decorators bound parse ctx
    if ← atKeyword .export_ then exportItem bound parse ctx marks
    else return .statement (← classFromKeyword bound parse ctx start marks)

end AssetBundler.Script.Grammar
