/-
  AssetBundler.Script.Grammar.Function
  ────────────────────────────────
  **FUNCTIONS AND CLASSES.**

  Parameters, bodies, methods and class members.  Parameters and body are
  read under the context that the function itself makes: `await` is an
  operator in async ones, `yield` in generators.
-/
import AssetBundler.Script.Grammar.Pattern

namespace AssetBundler.Script.Grammar

/-! ## §1. Decorators. -/

/-- The decorators that stand here. -/
def decorators (bound : Nat) (parse : ParseGoal) (ctx : Context) : Parser (List Tree) :=
  many (do return !(← atPunct .at)) (do
    advance
    parse .leftHandSide { ctx with decorator := true }) bound

/-! ## §2. Parameters and bodies. -/

/-- The context inside a function. -/
def Context.inFunction (ctx : Context) (async generator : Bool) : Context :=
  { ctx with allowIn := true, await := async, yield := generator, decorator := false }

/-- Parameters in parentheses. -/
def parameters (bound : Nat) (parse : ParseGoal) (ctx : Context) : Parser (List Tree) := do
  expect .openParen
  let item : Parser Tree := do
    let start ← here
    match ← decorators bound parse ctx with
    | [] => bindingElement parse ctx
    | marks => node .other start (marks ++ [← bindingElement parse ctx])
  let items ← withRest .closeParen item (parse .pattern ctx) bound
  expect .closeParen
  return items

/-- A body in braces, where `return` may stand. -/
def functionBody (parse : ParseGoal) (ctx : Context) : Parser Tree :=
  parse .block { ctx with return_ := true, allowIn := true }

/-- Parameters and body of a function or method, as its parts. -/
def functionRest (bound : Nat) (parse : ParseGoal) (ctx : Context) (async generator : Bool) :
    Parser (List Tree) := do
  let ctx := Context.inFunction ctx async generator
  let params ← parameters bound parse ctx
  let body ← functionBody parse ctx
  return params ++ [body]

/-- What a function is written as, which decides whether it needs a name and under which context that
is read. -/
inductive FunctionForm where
  | declaration | expression | defaultExport
  deriving DecidableEq

/-- A function from its keyword on; `start` is where it begins, `async` tells whether that word came
before. -/
def functionFromKeyword (bound : Nat) (parse : ParseGoal) (ctx : Context) (start : Nat)
    (async : Bool) (form : FunctionForm) : Parser Tree := do
  expectKeyword .function
  let generator ← eat .star
  let nameCtx :=
    if form = .expression then { ctx with await := async, yield := generator } else ctx
  let name? ←
    if (← token).isIdentifier then some <$> identifierName nameCtx else pure none
  require (form ≠ .declaration || name?.isSome)
  let parts ← functionRest bound parse ctx async generator
  node (.function name?) start parts

/-! ## §3. Methods and accessors. -/

/-- How a member that runs code is called up. -/
inductive MethodForm where
  | method (async generator : Bool)
  | getter
  | setter
  deriving DecidableEq

/-- A getter has no parameter, a setter one that is no rest element. -/
def MethodForm.admits (form : MethodForm) (params : List Tree) : Bool :=
  match form, params with
  | .method .., _ => true
  | .getter, params => params.isEmpty
  | .setter, [.node .rest _ _] => false
  | .setter, params => params.length = 1

/-- Parameters and body of a method or accessor with the given name. -/
def methodRest (bound : Nat) (parse : ParseGoal) (ctx : Context) (start : Nat) (key : Tree)
    (form : MethodForm) : Parser Tree := do
  let (async, generator) := match form with
    | .method async generator => (async, generator)
    | _ => (false, false)
  let ctx := Context.inFunction ctx async generator
  let params ← parameters bound parse ctx
  require (form.admits params)
  let body ← functionBody parse ctx
  node .method start (key :: params ++ [body])

/-! ## §4. Class members. -/

/-- A member name of a class, which may be private. -/
def memberName (parse : ParseGoal) (ctx : Context) : Parser PropertyName := do
  match (← token).kind with
  | .privateName name =>
    require (name.chars != "constructor".toList)
    let start ← here
    advance
    return ⟨← node .leaf start [], none⟩
  | _ => propertyName parse ctx

/-- A word before a member name that says how the member is called up; a line break ends the word's
role where `sameLine` holds. -/
def memberModifier (k : Keyword) (sameLine star : Bool) : Parser Bool := do
  unless ← atKeyword k do return false
  let follows ← nextToken fun t =>
    (t.isPropertyName || (star && t.isPunct .star)) && !(sameLine && t.afterNewline)
  if follows then advance
  return follows

/-- How a class member may be named: a constructor is a plain method, and static members leave
`prototype` alone. -/
def memberNameAllowed (static : Bool) (text? : Option (List Char)) (form? : Option MethodForm) :
    Bool :=
  match text? with
  | none => true
  | some text =>
    if text == "constructor".toList then
      match form? with
      | none => false
      | some form => static || form = .method false false
    else !(static && text == "prototype".toList)

/-- The context of a field's value. -/
def Context.inField (ctx : Context) : Context :=
  { ctx with allowIn := true, await := false, yield := false, decorator := false }

/-- The context of a static block. -/
def Context.inStaticBlock (ctx : Context) : Context :=
  { ctx with allowIn := true, await := true, yield := false, return_ := false, decorator := false }

/-- A field behind its name. -/
def fieldRest (parse : ParseGoal) (ctx : Context) (start : Nat) (static : Bool)
    (key : PropertyName) : Parser Tree := do
  require (memberNameAllowed static key.text? none)
  let value ←
    if ← eat .assign then pure [← parse .assignment (Context.inField ctx)] else pure []
  endStatement
  node .field start (key.tree :: value)

/-- One member of a class, or a semicolon between members. -/
def classMember (bound : Nat) (parse : ParseGoal) (ctx : Context) : Parser Tree := do
  let start ← here
  if ← eat .semicolon then return ← node .leaf start []
  let marks ← decorators bound parse ctx
  let member ← do
    if (← atKeyword .static) && (← nextToken (·.isPunct .openBrace)) then
      advance
      parse .block (Context.inStaticBlock ctx)
    else
      let static ← memberModifier .static false true
      let method (form : MethodForm) (key : PropertyName) : Parser Tree := do
        require (memberNameAllowed static key.text? (some form))
        methodRest bound parse ctx start key.tree form
      if ← memberModifier .get false false then
        method .getter (← memberName parse ctx)
      else if ← memberModifier .set false false then
        method .setter (← memberName parse ctx)
      else if ← memberModifier .accessor true false then
        fieldRest parse ctx start static (← memberName parse ctx)
      else
        let async ← memberModifier .async true true
        let generator ← eat .star
        let key ← memberName parse ctx
        if async || generator || (← atPunct .openParen) then method (.method async generator) key
        else fieldRest parse ctx start static key
  match marks with
  | [] => return member
  | marks => node .other start (marks ++ [member])

/-- A class from its keyword on; `start` is where it begins, `marks` are its decorators. -/
def classFromKeyword (bound : Nat) (parse : ParseGoal) (ctx : Context) (start : Nat)
    (marks : List Tree) : Parser Tree := do
  let ctx := { ctx with decorator := false }
  expectKeyword .class_
  let first ← token
  let name? ←
    if first.isIdentifier && first.keyword? != some .implements then
      some <$> identifierName ctx
    else pure none
  let parent ←
    if ← eatKeyword .extends_ then pure [← parse .leftHandSide ctx] else pure []
  expect .openBrace
  let members ← many (atPunct .closeBrace) (classMember bound parse ctx) bound
  expect .closeBrace
  node (.class_ name?) start (marks ++ parent ++ members)

end AssetBundler.Script.Grammar
