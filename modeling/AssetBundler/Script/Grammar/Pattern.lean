/-
  AssetBundler.Script.Grammar.Pattern
  ────────────────────────────────
  **PATTERNS AND ASSIGNMENT TARGETS.**

  Binding patterns are read as such.  A pattern on the left of `=` is first
  read as an expression, since only the `=` behind it tells; `Tree.toTarget?`
  then turns the literal into the pattern it spells, if it spells one.
-/
import AssetBundler.Script.Grammar.Core

namespace AssetBundler.Script

/-! ## §1. Expressions as assignment targets. -/

namespace Tree

/-- The expression names one place: a name, a member, or one of these in parentheses. -/
def isSimpleTarget : Tree → Bool
  | node (.identifier _) _ _ | node .member _ _ | node .index _ _ => true
  | node .parenthesized _ [inner] => isSimpleTarget inner
  | _ => false

/-- An array or object literal. -/
def isLiteralPattern : Tree → Bool
  | node (.array _) _ _ | node (.object _) _ _ => true
  | _ => false

mutual
/-- The target that an expression spells: a simple one, or a pattern from an array or object
literal. -/
def toTarget? : Tree → Option Tree
  | node (.array trailing) range parts =>
    (toElements? trailing parts).map (node .arrayPattern range)
  | node (.object trailing) range parts =>
    (toProperties? trailing parts).map (node .objectPattern range)
  | tree => if tree.isSimpleTarget then some tree else none
/-- The target of one element or property value, with its default if it has one. -/
def toDefaulted? : Tree → Option Tree
  | node .assignment range [target, value] => some (node .defaulted range [target, value])
  | tree => toTarget? tree
/-- The elements of an array pattern; a rest element is the last, with no comma behind it. -/
def toElements? (trailing : Bool) : List Tree → Option (List Tree)
  | [] => some []
  | node .spread range [inner] :: [] =>
    if trailing then none else (toTarget? inner).map fun target => [node .rest range [target]]
  | node .spread _ _ :: _ :: _ => none
  | node .hole range parts :: rest => (toElements? trailing rest).map (node .hole range parts :: ·)
  | tree :: rest =>
    match toDefaulted? tree, toElements? trailing rest with
    | some target, some targets => some (target :: targets)
    | _, _ => none
/-- The properties of an object pattern; what a rest property names is no pattern. -/
def toProperties? (trailing : Bool) : List Tree → Option (List Tree)
  | [] => some []
  | node .spread range [inner] :: [] =>
    if trailing || inner.isLiteralPattern then none
    else (toTarget? inner).map fun target => [node .rest range [target]]
  | node .property range [key, value] :: rest =>
    match toDefaulted? value, toProperties? trailing rest with
    | some target, some targets => some (node .property range [key, target] :: targets)
    | _, _ => none
  | node (.shorthand name) range parts :: rest =>
    (toProperties? trailing rest).map (node (.identifier name) range parts :: ·)
  | node (.shorthandDefault name) range parts :: rest =>
    (toProperties? trailing rest).map
      (node .defaulted range (node (.identifier name) range [] :: parts) :: ·)
  | _ => none
end

/-- No name with a default is left outside a pattern. -/
def isFinished (tree : Tree) : Bool :=
  (tree.collect fun
    | node (.shorthandDefault _) _ _ => [()]
    | _ => []).isEmpty

end Tree

namespace Grammar

/-! ## §2. Property names. -/

/-- A property name: its tree, and its text when the name is written out. -/
structure PropertyName where
  tree : Tree
  text? : Option (List Char)

/-- A word, a string, a number, or an expression in brackets. -/
def propertyName (parse : ParseGoal) (ctx : Context) : Parser PropertyName := do
  let start ← here
  let leaf (text? : Option (List Char)) : Parser PropertyName := do
    advance
    return ⟨← node .leaf start [], text?⟩
  match (← token).kind with
  | .word name _ => leaf (some name.chars)
  | .string value _ => leaf (some value)
  | .number => leaf none
  | .punct .openBracket =>
    advance
    let key ← parse .assignment (Context.inner ctx)
    expect .closeBracket
    return ⟨key, none⟩
  | _ => fail

/-! ## §3. Binding patterns. -/

/-- A binding pattern with its default, if it has one. -/
def bindingElement (parse : ParseGoal) (ctx : Context) : Parser Tree := do
  let start ← here
  let target ← parse .pattern ctx
  if ← eat .assign then
    let value ← parse .assignment { ctx with allowIn := true }
    node .defaulted start [target, value]
  else return target

/-- Items up to a closing punctuator, of which the last may be a rest element; nothing stands behind
that, not even a comma. -/
def withRest (close : Punct) (item restItem : Parser Tree) : Nat → Parser (List Tree)
  | 0 => fail
  | bound + 1 => do
    if ← atPunct close then return []
    if ← atPunct .ellipsis then
      let start ← here
      advance
      let target ← restItem
      require (← atPunct close)
      return [← node .rest start [target]]
    let first ← item
    if ← atPunct close then return [first]
    expect .comma
    return first :: (← withRest close item restItem bound)

/-- One property of an object pattern. -/
def bindingProperty (parse : ParseGoal) (ctx : Context) : Parser Tree := do
  let start ← here
  let first ← token
  if first.isIdentifier && !(← nextToken (·.isPunct .colon)) then
    let target ← bindingName ctx
    if ← eat .assign then
      let value ← parse .assignment { ctx with allowIn := true }
      node .defaulted start [target, value]
    else return target
  else
    let key ← propertyName parse ctx
    expect .colon
    let value ← bindingElement parse ctx
    node .property start [key.tree, value]

/-- A binding pattern: a name, an array pattern or an object pattern. -/
def bindingPattern (bound : Nat) (parse : ParseGoal) (ctx : Context) : Parser Tree := do
  let start ← here
  match (← token).kind with
  | .punct .openBracket =>
    advance
    let item : Parser Tree := do
      if ← atPunct .comma then node .hole (← here) [] else bindingElement parse ctx
    let items ← withRest .closeBracket item (parse .pattern ctx) bound
    expect .closeBracket
    node .arrayPattern start items
  | .punct .openBrace =>
    advance
    let items ← withRest .closeBrace (bindingProperty parse ctx) (bindingName ctx) bound
    expect .closeBrace
    node .objectPattern start items
  | _ => bindingName ctx

end Grammar

end AssetBundler.Script
