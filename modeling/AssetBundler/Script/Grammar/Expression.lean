/-
  AssetBundler.Script.Grammar.Expression
  ────────────────────────────────
  **EXPRESSIONS.**

  From literals up to assignments.  Whether parentheses hold the parameters
  of an arrow function is decided by reading them as such: when that fails
  the same input is read as an expression.
-/
import AssetBundler.Script.Grammar.Function
import AssetBundler.Script.Grammar.Markup

namespace AssetBundler.Script.Grammar

open AssetBundler.Script.Lexer

/-! ## §1. Arguments and literals. -/

/-- An expression or, behind three dots, one whose items are spread out. -/
def spreadable (parse : ParseGoal) (ctx : Context) : Parser Tree := do
  let start ← here
  if ← eat .ellipsis then node .spread start [← parse .assignment ctx]
  else parse .assignment ctx

/-- Arguments in parentheses. -/
def callArguments (bound : Nat) (parse : ParseGoal) (ctx : Context) : Parser (List Tree) := do
  expect .openParen
  let (items, _) ← commaList .closeParen (spreadable parse (Context.inner ctx)) bound
  expect .closeParen
  return items

/-- An array literal. -/
def arrayLiteral (bound : Nat) (parse : ParseGoal) (ctx : Context) : Parser Tree := do
  let start ← here
  expect .openBracket
  let item : Parser Tree := do
    if ← atPunct .comma then node .hole (← here) [] else spreadable parse (Context.inner ctx)
  let (items, trailing) ← commaList .closeBracket item bound
  expect .closeBracket
  node (.array trailing) start items

/-- A property that is a name alone, with the default that only a pattern may give it. -/
def shorthandProperty (parse : ParseGoal) (ctx : Context) : Parser Tree := do
  let start ← here
  let name ← identifierName ctx
  if ← eat .assign then node (.shorthandDefault name) start [← parse .assignment ctx]
  else node (.shorthand name) start []

/-- One property of an object literal. -/
def objectProperty (bound : Nat) (parse : ParseGoal) (ctx : Context) : Parser Tree := do
  let start ← here
  if ← atPunct .ellipsis then
    spreadable parse ctx
  else if ← memberModifier .get false false then
    methodRest bound parse ctx start (← propertyName parse ctx).tree .getter
  else if ← memberModifier .set false false then
    methodRest bound parse ctx start (← propertyName parse ctx).tree .setter
  else
    let async ← memberModifier .async true true
    let generator ← eat .star
    let valueFollows ← nextToken fun t => t.isPunct .colon || t.isPunct .openParen
    if !async && !generator && (← token).isIdentifier && !valueFollows then
      shorthandProperty parse ctx
    else
      let key ← propertyName parse ctx
      if async || generator || (← atPunct .openParen) then
        methodRest bound parse ctx start key.tree (.method async generator)
      else
        expect .colon
        let value ← parse .assignment ctx
        node .property start [key.tree, value]

/-- An object literal. -/
def objectLiteral (bound : Nat) (parse : ParseGoal) (ctx : Context) : Parser Tree := do
  let start ← here
  expect .openBrace
  let (items, trailing) ←
    commaList .closeBrace (objectProperty bound parse (Context.inner ctx)) bound
  expect .closeBrace
  node (.object trailing) start items

/-- A regular expression, at the slash that begins it. -/
def regexLiteral : Parser Tree := do
  let start ← here
  match readRegex (← token).source with
  | some (_, rest) =>
    widen .number rest
    advance
    node .leaf start []
  | none => fail

/-- The substitutions of a template from the one at hand on, up to the end of the template. In a
`tagged` template escapes need not be valid. -/
def templateRest (tagged : Bool) (parse : ParseGoal) (ctx : Context) : Nat → Parser (List Tree)
  | 0 => fail
  | bound + 1 => do
    match (← token).kind with
    | .template closed cooked =>
      require (tagged || cooked)
      advance
      if closed then return []
      let value ← parse .expression (Context.inner ctx)
      require (← atPunct .closeBrace)
      let behind := (← token).source.tail
      match readTemplate (behind.length + 1) behind true with
      | some (closed, cooked, rest) =>
        widen (.template closed cooked) rest
        return value :: (← templateRest tagged parse ctx bound)
      | none => fail
    | _ => fail

/-- A template literal. -/
def templateLiteral (bound : Nat) (parse : ParseGoal) (ctx : Context) : Parser Tree := do
  let start ← here
  node .template start (← templateRest false parse ctx bound)

/-! ## §2. Operands. -/

/-- An expression in parentheses. -/
def parenthesized (parse : ParseGoal) (ctx : Context) : Parser Tree := do
  let start ← here
  expect .openParen
  let inner ← parse .expression (Context.inner ctx)
  expect .closeParen
  node .parenthesized start [inner]

/-- The next token stands on the same line and satisfies a test. -/
def nextOnLine (test : Token → Bool) : Parser Bool :=
  nextToken fun t => !t.afterNewline && test t

/-- An operand that begins with a word. -/
def wordOperand (bound : Nat) (parse : ParseGoal) (ctx : Context) : Parser Tree := do
  let start ← here
  let t ← token
  let isFunctionKeyword (t : Token) : Bool := t.keyword? == some .function
  match t.keyword? with
  | some .this | some .null | some .true_ | some .false_ =>
    advance
    node .leaf start []
  | some .function => functionFromKeyword bound parse ctx start false .expression
  | some .class_ => classFromKeyword bound parse ctx start []
  | some .async =>
    if ← nextOnLine isFunctionKeyword then
      advance
      functionFromKeyword bound parse ctx start true .expression
    else node (.identifier (← identifierName ctx)) start []
  | _ => node (.identifier (← identifierName ctx)) start []

/-- A literal, a name, or anything that brackets or a keyword begin. -/
def primary (bound : Nat) (parse : ParseGoal) (ctx : Context) : Parser Tree := do
  let start ← here
  match (← token).kind with
  | .word .. => wordOperand bound parse ctx
  | .string value _ =>
    advance
    node (.string (String.ofList value)) start []
  | .number =>
    advance
    node .leaf start []
  | .template .. => templateLiteral bound parse ctx
  | .punct .openParen => parenthesized parse ctx
  | .punct .openBracket => arrayLiteral bound parse ctx
  | .punct .openBrace => objectLiteral bound parse ctx
  | .punct .slash | .punct .slashAssign => regexLiteral
  | .punct .at =>
    let marks ← decorators bound parse ctx
    classFromKeyword bound parse ctx start marks
  | .punct .less =>
    require ctx.markup
    let element ← parse .element ctx
    retokenize
    return element
  | _ => fail

/-- What `import` begins in an expression: `import.meta`, or the import of a module at run time, which
`calls` allows. -/
def importExpression (calls : Bool) (parse : ParseGoal) (ctx : Context) : Parser Tree := do
  let start ← here
  expectKeyword .import_
  if ← eat .dot then
    if ← eatKeyword .meta_ then return ← node .other start []
    let phase ← do
      if ← eatKeyword .source then pure true else eatKeyword .defer
    require phase
  require calls
  expect .openParen
  let specifier ← parse .assignment (Context.inner ctx)
  let options ← do
    if (← eat .comma) && !(← atPunct .closeParen) then
      let options ← parse .assignment (Context.inner ctx)
      let _ ← eat .comma
      pure [options]
    else pure []
  expect .closeParen
  node .importCall start (specifier :: options)

/-- The base of a class, which is called or has a member taken that is not private. -/
def superExpression (calls : Bool) : Parser Tree := do
  let start ← here
  expectKeyword .super
  let private? ← nextToken fun t => match t.kind with
    | .privateName _ => true
    | _ => false
  match (← token).kind with
  | .punct .dot => require !private?
  | .punct .openBracket => pure ()
  | .punct .openParen => require calls
  | _ => fail
  node .leaf start []

/-- A constructor call, or `new.target`. -/
def newExpression (bound : Nat) (parse : ParseGoal) (ctx : Context) : Parser Tree := do
  let start ← here
  expectKeyword .new
  if ← eat .dot then
    expectKeyword .target
    node .other start []
  else
    let callee ← parse .constructor ctx
    require !(← atPunct .optionalDot)
    let arguments ← do
      if ← atPunct .openParen then callArguments bound parse ctx else pure []
    node .construct start (callee :: arguments)

/-- What members are taken of and what is called. -/
def memberBase (bound : Nat) (calls : Bool) (parse : ParseGoal) (ctx : Context) :
    Parser Tree := do
  match (← token).keyword? with
  | some .new => newExpression bound parse ctx
  | some .super => superExpression calls
  | some .import_ => importExpression calls parse ctx
  | _ => primary bound parse ctx

/-! ## §3. Members and calls. -/

/-- The name of a member behind its dot. -/
def memberWord : Parser Unit := do
  match (← token).kind with
  | .word .. | .privateName _ => advance
  | _ => fail

/-- The tree inside a chain, and whether it is one. -/
def splitChain : Tree → Tree × Bool
  | .node .chain _ [inner] => (inner, true)
  | tree => (tree, false)

/-- One more link behind `tree`: a member, an index, a call or a template. Once a link is optional the
whole is a chain, which no template ends. -/
def memberLink (bound : Nat) (calls : Bool) (parse : ParseGoal) (ctx : Context) (tree : Tree) :
    Parser (Option Tree) := do
  let start := tree.range.start
  let (inner, chained) := splitChain tree
  let link (chained : Bool) (kind : NodeKind) (parts : List Tree) : Parser (Option Tree) := do
    let linked ← node kind start (inner :: parts)
    if chained then some <$> node .chain start [linked] else return some linked
  let index (chained : Bool) : Parser (Option Tree) := do
    expect .openBracket
    let key ← parse .expression (Context.inner ctx)
    expect .closeBracket
    link chained .index [key]
  match (← token).kind with
  | .punct .dot =>
    advance
    memberWord
    link chained .member []
  | .punct .optionalDot =>
    unless calls do return none
    advance
    match (← token).kind with
    | .punct .openParen => link true .call (← callArguments bound parse ctx)
    | .punct .openBracket => index true
    | _ =>
      memberWord
      link true .member []
  | .punct .openBracket => if ctx.decorator then return none else index chained
  | .punct .openParen =>
    if calls then link chained .call (← callArguments bound parse ctx) else return none
  | .template .. =>
    require !chained
    link false .template (← templateRest true parse ctx bound)
  | _ => return none

/-- Members and calls of an operand; without `calls` only members. -/
def members (bound : Nat) (calls : Bool) (parse : ParseGoal) (ctx : Context) : Parser Tree := do
  let base ← memberBase bound calls parse ctx
  extend (memberLink bound calls parse ctx) bound base

/-! ## §4. Prefix and postfix operators. -/

/-- The token could begin an operand on its own, so that a word before it is no name. -/
def beginsOperand (t : Token) : Bool :=
  t.isWord || t.isLiteral

/-- An operand with what increments or decrements it. -/
def updated (parse : ParseGoal) (ctx : Context) : Parser Tree := do
  let operand ← parse .leftHandSide ctx
  let t ← token
  if (t.isPunct .increment || t.isPunct .decrement) && !t.afterNewline then
    require operand.isSimpleTarget
    advance
    node .other operand.range.start [operand]
  else return operand

/-- An operand with its prefix operators. -/
def unary (parse : ParseGoal) (ctx : Context) : Parser Tree := do
  let start ← here
  let t ← token
  let prefixed : Parser Tree := do
    advance
    node .unary start [← parse .unary ctx]
  match t.kind with
  | .punct .plus | .punct .minus | .punct .bang | .punct .tilde => prefixed
  | .punct .increment | .punct .decrement =>
    advance
    let operand ← parse .unary ctx
    require operand.isSimpleTarget
    node .other start [operand]
  | _ =>
    match t.keyword? with
    | some .delete | some .typeof | some .void => prefixed
    | some .await =>
      if ctx.await then prefixed
      else
        require !(← nextOnLine beginsOperand)
        updated parse ctx
    | _ => updated parse ctx

/-! ## §5. Binary operators. -/

/-- A binary operator: how tightly it binds, and the kind of its node. -/
structure BinaryOperator where
  precedence : Nat
  kind : NodeKind

/-- The binary operator that a token is. -/
def binaryOperator? (ctx : Context) (t : Token) : Option BinaryOperator :=
  match t.kind with
  | .punct .nullish => some ⟨1, .coalesce⟩
  | .punct .logicalOr => some ⟨2, .logical⟩
  | .punct .logicalAnd => some ⟨3, .logical⟩
  | .punct .bitOr => some ⟨4, .binary⟩
  | .punct .bitXor => some ⟨5, .binary⟩
  | .punct .bitAnd => some ⟨6, .binary⟩
  | .punct .equality => some ⟨7, .binary⟩
  | .punct .less | .punct .greater | .punct .relational => some ⟨8, .binary⟩
  | .punct .shift => some ⟨9, .binary⟩
  | .punct .plus | .punct .minus => some ⟨10, .binary⟩
  | .punct .star | .punct .slash | .punct .percent => some ⟨11, .binary⟩
  | .punct .power => some ⟨12, .binary⟩
  | _ =>
    match t.keyword? with
    | some .instanceof => some ⟨8, .binary⟩
    | some .in_ => if ctx.allowIn then some ⟨8, .binary⟩ else none
    | _ => none

/-- Nullish choice and the logical operators are not mixed without parentheses. -/
def mayJoin (kind : NodeKind) (left right : Tree) : Bool :=
  match kind, left.kind, right.kind with
  | .coalesce, .logical, _ | .coalesce, _, .logical => false
  | .logical, .coalesce, _ | .logical, _, .coalesce => false
  | _, _, _ => true

/-- An operand with prefix operators. -/
def isUnary : Tree → Bool
  | .node .unary _ _ => true
  | _ => false

/-- One more operator and operand behind `left`, when the operator binds more tightly than `above`.
The power operator groups to the right and takes no prefixed operand on its left. -/
def binaryStep (parse : ParseGoal) (ctx : Context) (above : Nat) (left : Tree) :
    Parser (Option Tree) := do
  let t ← token
  match binaryOperator? ctx t with
  | none => return none
  | some operator =>
    if operator.precedence ≤ above then return none
    let power := t.isPunct .power
    require !(power && isUnary left)
    advance
    let limit := if power then operator.precedence - 1 else operator.precedence
    let right ← parse (.binary limit) ctx
    require (mayJoin operator.kind left right)
    some <$> node operator.kind left.range.start [left, right]

/-- The test whether an object has a private member, `#name in object`. -/
def privateTest (parse : ParseGoal) (ctx : Context) (above : Nat) : Parser Tree := do
  let start ← here
  require (ctx.allowIn && above < 8)
  advance
  expectKeyword .in_
  node .binary start [← parse (.binary 8) ctx]

/-- Operands joined by operators that bind more tightly than `above`. -/
def binary (bound : Nat) (parse : ParseGoal) (ctx : Context) (above : Nat) : Parser Tree := do
  let first ← do
    match (← token).kind with
    | .privateName _ => privateTest parse ctx above
    | _ => parse .unary ctx
  extend (binaryStep parse ctx above) bound first

/-! ## §6. Arrow functions. -/

/-- The arrow, which stands on the line of the parameters. -/
def expectArrow : Parser Unit := do
  let t ← token
  require (t.isPunct .arrow && !t.afterNewline)
  advance

/-- Parameters and arrow of an arrow function, and whether it is async. -/
def arrowHead (bound : Nat) (parse : ParseGoal) (ctx : Context) :
    Parser (Bool × List Tree) := do
  let async ← do
    if (← atKeyword .async) && (← nextOnLine fun t => t.isPunct .openParen || t.isIdentifier)
    then
      advance
      pure true
    else pure false
  let inner := { Context.inner ctx with await := ctx.await || async }
  let params ← do
    if ← atPunct .openParen then parameters bound parse inner
    else pure [← bindingName inner]
  expectArrow
  return (async, params)

/-- The token can begin an arrow function. -/
def beginsArrow (t : Token) : Bool :=
  t.isPunct .openParen || t.isIdentifier

/-- The body of an arrow function: a block or an expression. -/
def arrowBody (parse : ParseGoal) (ctx : Context) (async : Bool) : Parser Tree := do
  let ctx := { ctx with await := async, yield := false, decorator := false }
  if ← atPunct .openBrace then functionBody parse ctx else parse .assignment ctx

/-! ## §7. Assignments. -/

/-- The value given up to the caller of a generator. -/
def yieldExpression (parse : ParseGoal) (ctx : Context) : Parser Tree := do
  let start ← here
  advance
  let t ← token
  if t.afterNewline then return ← node .other start []
  let delegates ← eat .star
  let ends : Bool := match t.kind with
    | .endOfInput => true
    | .punct p =>
      [Punct.semicolon, .closeBrace, .closeParen, .closeBracket, .colon, .comma].contains p
    | _ => t.keyword? == some .in_
  if ends && !delegates then node .other start []
  else node .other start [← parse .assignment ctx]

/-- A choice by a condition, or what could be its condition. -/
def conditional (parse : ParseGoal) (ctx : Context) : Parser Tree := do
  let test ← parse (.binary 0) ctx
  if ← eat .question then
    let consequent ← parse .assignment (Context.inner ctx)
    expect .colon
    let alternate ← parse .assignment ctx
    node .other test.range.start [test, consequent, alternate]
  else return test

/-- What stands on the right of an assignment, if one follows `left`. -/
def assignmentRest (parse : ParseGoal) (ctx : Context) (left : Tree) : Parser Tree := do
  match (← token).kind with
  | .punct .assign =>
    match left.toTarget? with
    | some target =>
      advance
      node .assignment left.range.start [target, ← parse .assignment ctx]
    | none => fail
  | .punct .compoundAssign | .punct .slashAssign =>
    require left.isSimpleTarget
    advance
    node .binary left.range.start [left, ← parse .assignment ctx]
  | _ => return left

/-- An expression without top-level commas. -/
def assignment (bound : Nat) (parse : ParseGoal) (ctx : Context) : Parser Tree := do
  let start ← here
  let t ← token
  if t.keyword? == some .yield then
    if ctx.yield then return ← yieldExpression parse ctx
    require !(← nextOnLine beginsOperand)
  let head? ← if beginsArrow t then attempt (arrowHead bound parse ctx) else pure none
  match head? with
  | some (async, params) =>
    let body ← arrowBody parse ctx async
    node .arrow start (params ++ [body])
  | none => assignmentRest parse ctx (← conditional parse ctx)

/-- An expression, commas included. -/
def expression (bound : Nat) (parse : ParseGoal) (ctx : Context) : Parser Tree := do
  let start ← here
  let first ← parse .assignment ctx
  if ← atPunct .comma then
    let others ← many (do return !(← atPunct .comma)) (do
      advance
      parse .assignment ctx) bound
    node .sequence start (first :: others)
  else return first

end AssetBundler.Script.Grammar
