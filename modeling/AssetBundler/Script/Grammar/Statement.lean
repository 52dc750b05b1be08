/-
  AssetBundler.Script.Grammar.Statement
  ────────────────────────────────
  **STATEMENTS.**

  Where only a single statement may stand (behind `if`, `while`, a label, …)
  lexical declarations, classes, and generator or async functions are refused;
  a plain function is accepted.
-/
import AssetBundler.Script.Grammar.Item

namespace AssetBundler.Script.Grammar

/-! ## §1. Variables. -/

/-- A variable with its value, if it has one. -/
def declarator (parse : ParseGoal) (ctx : Context) : Parser Tree := do
  let start ← here
  let target ← parse .pattern ctx
  if ← eat .assign then node .declarator start [target, ← parse .assignment ctx]
  else node .declarator start [target]

/-- Variables behind their keyword. -/
def declarators (bound : Nat) (parse : ParseGoal) (ctx : Context) : Parser (List Tree) := do
  let first ← declarator parse ctx
  let others ← many (do return !(← atPunct .comma)) (do
    advance
    declarator parse ctx) bound
  return first :: others

/-- Constants, resources and patterns need a value. -/
def hasNeededValue (kind : VariableKind) : Tree → Bool
  | .node .declarator _ [.node (.binding _) _ _] => kind == .var || kind == .let_
  | .node .declarator _ [_] => false
  | _ => true

/-- A resource binds plain names. -/
def bindsAllowed (kind : VariableKind) : Tree → Bool
  | .node .declarator _ (.node (.binding _) _ _ :: _) => true
  | _ => kind != .using_

/-- A binding name follows on the same line. -/
def nameFollows : Parser Bool :=
  nextOnLine (·.isIdentifier)

/-- Passes over the keyword of a variable declaration, if one begins here. The word `let` is one
unless an operator, a member, a call or a semicolon follows; `using` is one before a name on its line. -/
def variableKeyword (ctx : Context) : Parser (Option VariableKind) := do
  match (← token).keyword? with
  | some .var => advance; return some .var
  | some .const_ => advance; return some .const_
  | some .let_ =>
    let usedAsName ← nextToken fun t =>
      (binaryOperator? ctx t).isSome
        || [Punct.assign, .compoundAssign, .slashAssign, .dot, .openParen, .semicolon].any t.isPunct
        || t.keyword? == some .in_
    if usedAsName then return none
    advance
    return some .let_
  | some .using_ =>
    if ← nameFollows then
      advance
      return some .using_
    return none
  | some .await =>
    let found ← lookahead (do
      advance
      let t ← token
      require (t.keyword? == some .using_ && !t.afterNewline)
      require (← nameFollows))
    if ctx.await && found.isSome then
      advance
      advance
      return some .using_
    return none
  | _ => return none

/-- Variables that make up a statement. -/
def variableStatement (bound : Nat) (parse : ParseGoal) (ctx : Context) (start : Nat)
    (kind : VariableKind) : Parser Tree := do
  let parts ← declarators bound parse ctx
  require (parts.all (hasNeededValue kind) && parts.all (bindsAllowed kind))
  endStatement
  node (.variables kind) start parts

/-! ## §2. Loops. -/

/-- An expression in parentheses. -/
def parenthesizedTest (parse : ParseGoal) (ctx : Context) : Parser Tree := do
  expect .openParen
  let test ← parse .expression (Context.inner ctx)
  expect .closeParen
  return test

/-- The part of a loop head behind `stop`, up to `close`. -/
def loopPart (parse : ParseGoal) (ctx : Context) (close : Punct) : Parser (List Tree) := do
  let parts ← if ← atPunct close then pure [] else pure [← parse .expression (Context.inner ctx)]
  expect close
  return parts

/-- A counting loop behind its initial part. -/
def countingLoop (parse : ParseGoal) (ctx : Context) (start : Nat) (initial : List Tree) :
    Parser Tree := do
  expect .semicolon
  let test ← loopPart parse ctx .semicolon
  let step ← loopPart parse ctx .closeParen
  let body ← parse (.statement true) ctx
  node .other start (initial ++ test ++ step ++ [body])

/-- A loop over the keys or items of an object, behind its target. -/
def itemLoop (parse : ParseGoal) (ctx : Context) (start : Nat) (isAwait : Bool)
    (target : Tree) : Parser Tree := do
  let items ← do
    if ← eatKeyword .of then parse .assignment (Context.inner ctx)
    else
      expectKeyword .in_
      require !isAwait
      parse .expression (Context.inner ctx)
  expect .closeParen
  let body ← parse (.statement true) ctx
  node .other start [target, items, body]

/-- The token is the word between the target and the items of a loop. -/
def atItems : Parser Bool := do
  return (← atKeyword .of) || (← atKeyword .in_)

/-- A `for` loop. -/
def forLoop (bound : Nat) (parse : ParseGoal) (ctx : Context) : Parser Tree := do
  let start ← here
  expectKeyword .for_
  let isAwait ← eatKeyword .await
  require (ctx.await || !isAwait)
  expect .openParen
  if ← atPunct .semicolon then
    require !isAwait
    return ← countingLoop parse ctx start []
  let headStart ← here
  let head := { Context.inner ctx with allowIn := false }
  let isOf (t : Token) : Bool := t.keyword? == some .of
  require !((← atKeyword .let_) && (← nextToken isOf))
  let startsAsync ← atKeyword .async
  let kind? ← do
    if (← atKeyword .using_) && (← nextToken isOf) then pure none else variableKeyword head
  match kind? with
  | some kind =>
    let parts ← declarators bound parse head
    require (parts.all (bindsAllowed kind))
    let target ← node (.variables kind) headStart parts
    if ← atItems then
      require !(kind == .using_ && (← atKeyword .in_))
      itemLoop parse ctx start isAwait target
    else
      require (!isAwait && parts.all (hasNeededValue kind))
      countingLoop parse ctx start [target]
  | none =>
    let first ← parse .expression head
    if ← atItems then
      let isName : Bool := match first with
        | .node (.identifier _) _ _ => true
        | _ => false
      require (isAwait || !(startsAsync && isName && (← atKeyword .of)))
      match first.toTarget? with
      | some target => itemLoop parse ctx start isAwait target
      | none => fail
    else
      require !isAwait
      countingLoop parse ctx start [first]

/-- A loop that tests behind its body; its semicolon may be left out anywhere. -/
def doLoop (parse : ParseGoal) (ctx : Context) : Parser Tree := do
  let start ← here
  expectKeyword .do_
  let body ← parse (.statement true) ctx
  expectKeyword .while_
  let test ← parenthesizedTest parse ctx
  let _ ← eat .semicolon
  node .other start [body, test]

/-! ## §3. Choices. -/

/-- A keyword, a test in parentheses and a statement. -/
def testedStatement (parse : ParseGoal) (ctx : Context) : Parser (List Tree) := do
  advance
  let test ← parenthesizedTest parse ctx
  return [test, ← parse (.statement true) ctx]

/-- A conditional statement. -/
def ifStatement (parse : ParseGoal) (ctx : Context) : Parser Tree := do
  let start ← here
  let parts ← testedStatement parse ctx
  let otherwise ← do
    if ← eatKeyword .else_ then pure [← parse (.statement true) ctx] else pure []
  node .other start (parts ++ otherwise)

/-- One case of a choice by value. -/
def switchCase (bound : Nat) (parse : ParseGoal) (ctx : Context) : Parser Tree := do
  let start ← here
  let test ← do
    if ← eatKeyword .default_ then pure []
    else
      expectKeyword .case_
      pure [← parse .expression (Context.inner ctx)]
  expect .colon
  let atCaseEnd : Parser Bool := do
    return (← atKeyword .case_) || (← atKeyword .default_) || (← atPunct .closeBrace)
  let body ← many atCaseEnd (parse (.statement false) ctx) bound
  node .block start (test ++ body)

/-- A choice by value. -/
def switchStatement (bound : Nat) (parse : ParseGoal) (ctx : Context) : Parser Tree := do
  let start ← here
  advance
  let value ← parenthesizedTest parse ctx
  expect .openBrace
  let cases ← many (atPunct .closeBrace) (switchCase bound parse ctx) bound
  expect .closeBrace
  node .other start (value :: cases)

/-! ## §4. Leaving a block. -/

/-- A statement that leaves a loop, perhaps a labelled one. -/
def jump : Parser Tree := do
  let start ← here
  advance
  let t ← token
  if t.isIdentifier && !t.afterNewline then advance
  endStatement
  node .other start []

/-- A statement that leaves a function. -/
def returnStatement (parse : ParseGoal) (ctx : Context) : Parser Tree := do
  let start ← here
  require ctx.return_
  advance
  let value ← do
    if ← canEnd then pure [] else pure [← parse .expression (Context.inner ctx)]
  endStatement
  node .other start value

/-- A statement that raises an exception, whose value stands on the same line. -/
def throwStatement (parse : ParseGoal) (ctx : Context) : Parser Tree := do
  let start ← here
  advance
  require !(← token).afterNewline
  let value ← parse .expression (Context.inner ctx)
  endStatement
  node .other start [value]

/-- A guarded block with what catches its exceptions, what runs behind it, or both. -/
def tryStatement (parse : ParseGoal) (ctx : Context) : Parser Tree := do
  let start ← here
  advance
  let body ← parse .block ctx
  let handler ← do
    if ← eatKeyword .catch_ then
      let parameter ← do
        if ← eat .openParen then
          let target ← parse .pattern (Context.inner ctx)
          expect .closeParen
          pure [target]
        else pure []
      pure (parameter ++ [← parse .block ctx])
    else pure []
  let final ← if ← eatKeyword .finally_ then pure [← parse .block ctx] else pure []
  require !(handler ++ final).isEmpty
  node .other start (body :: handler ++ final)

/-! ## §5. Statements. -/

/-- Statements in braces. -/
def block (bound : Nat) (parse : ParseGoal) (ctx : Context) : Parser Tree := do
  let start ← here
  expect .openBrace
  let ctx := Context.inner ctx
  let statements ← many (atPunct .closeBrace) (parse (.statement false) ctx) bound
  expect .closeBrace
  node .block start statements

/-- A label with the statement it marks, or an expression as a statement. -/
def expressionStatement (parse : ParseGoal) (ctx : Context) : Parser Tree := do
  let start ← here
  let value ← parse .expression (Context.inner ctx)
  match value with
  | .node (.identifier name) _ _ =>
    if ← eat .colon then
      return ← node (.labelled name) start [← parse (.statement true) ctx]
  | _ => pure ()
  endStatement
  node .other start [value]

/-- The word `let` as an expression by itself, where no declaration may stand. -/
def letAsName : Parser Tree := do
  let start ← here
  let name ← wordName
  let value ← node (.identifier name) start []
  endStatement
  node .other start [value]

/-- A variable declaration, if one begins here. -/
def variableStatement? (bound : Nat) (parse : ParseGoal) (ctx : Context) (single : Bool) :
    Parser (Option Tree) := do
  let start ← here
  let isBracket (t : Token) : Bool := t.isPunct .openBracket
  if single && (← atKeyword .let_) && !(← nextToken isBracket) then
    match ← lookahead (variableKeyword ctx) with
    | some (some _) => return some (← letAsName)
    | _ => return none
  match ← variableKeyword ctx with
  | some kind =>
    require (!single || kind == .var)
    return some (← variableStatement bound parse ctx start kind)
  | none => return none

/-- A statement that a keyword begins, a label, or an expression. -/
def keywordStatement (bound : Nat) (parse : ParseGoal) (ctx : Context) (single : Bool) :
    Parser Tree := do
  let start ← here
  match (← token).keyword? with
  | some .if_ => ifStatement parse ctx
  | some .for_ => forLoop bound parse ctx
  | some .while_ | some .with_ => node .other start (← testedStatement parse ctx)
  | some .do_ => doLoop parse ctx
  | some .continue_ | some .break_ => jump
  | some .return_ => returnStatement parse ctx
  | some .switch => switchStatement bound parse ctx
  | some .throw => throwStatement parse ctx
  | some .try_ => tryStatement parse ctx
  | some .debugger =>
    advance
    endStatement
    node .other start []
  | some .class_ =>
    require !single
    classFromKeyword bound parse ctx start []
  | _ =>
    match ← variableStatement? bound parse ctx single with
    | some tree => return tree
    | none =>
      if ← atFunction then
        let isStar (t : Token) : Bool := t.isPunct .star
        require (!single || ((← atKeyword .function) && !(← nextToken isStar)))
        functionDeclaration bound parse ctx .declaration
      else expressionStatement parse ctx

/-- A statement or declaration. -/
def statement (bound : Nat) (parse : ParseGoal) (ctx : Context) (single : Bool) :
    Parser Tree := do
  if ← atItem then
    require (!single || !(← atPunct .at))
    return (← declarationItem bound parse ctx).toTree
  match (← token).kind with
  | .punct .openBrace => parse .block ctx
  | .punct .semicolon =>
    let start ← here
    advance
    node .other start []
  | .word .. => keywordStatement bound parse ctx single
  | _ => expressionStatement parse ctx

end AssetBundler.Script.Grammar
