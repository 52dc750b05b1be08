/-
  AssetBundler.Script.Grammar.Core
  ────────────────────────────────
  **PARSERS, GOALS AND CONTEXTS.**

  A parser takes the cursor and gives a result with the cursor behind it, or
  fails; failure is a syntax error, and no parser says more about it.  The
  productions call one another through `Goal`s: each is a plain definition
  over a function that parses goals, and `Grammar.parseGoal` ties the knot by
  recursion on a bound.
-/
import AssetBundler.Script.Lexer
import AssetBundler.Script.Tree

namespace AssetBundler.Script.Grammar

open AssetBundler.Script.Lexer

/-! ## §1. Parsers. -/

/-- A parser moves the cursor or fails. -/
abbrev Parser := StateT Cursor Option

/-- What may stand here depends on where the code is. -/
structure Context where
  /-- The operator `in` may be used. -/
  allowIn : Bool
  /-- The code is an async body or the top level, so `await` is an operator. -/
  await : Bool
  /-- The code is a generator body. -/
  yield : Bool
  /-- The code is a function body. -/
  return_ : Bool
  /-- The expression is a decorator, which a bracket does not continue. -/
  decorator : Bool
  /-- Markup elements are expressions. -/
  markup : Bool

/-- What the productions ask of one another. -/
inductive Goal where
  /-- A statement or declaration; `single` where only a statement may stand. -/
  | statement (single : Bool)
  /-- A block in braces. -/
  | block
  /-- An expression, commas included. -/
  | expression
  /-- An expression without top-level commas. -/
  | assignment
  /-- Binary operators that bind more tightly than `above`. -/
  | binary (above : Nat)
  /-- An operand with its prefix operators. -/
  | unary
  /-- Members, calls and what they apply to. -/
  | leftHandSide
  /-- The operand of `new`. -/
  | constructor
  /-- A binding pattern. -/
  | pattern
  /-- A markup element, at its opening bracket. -/
  | element

/-- Inside brackets nothing outside them limits an expression. -/
def Context.inner (ctx : Context) : Context :=
  { ctx with allowIn := true, decorator := false }

/-- The function that parses goals. -/
abbrev ParseGoal := Goal → Context → Parser Tree

/-! ## §2. Looking at the token. -/

/-- The token at hand. -/
def token : Parser Token := do
  return (← get).token

/-- Gives up. -/
def fail {α : Type} : Parser α := fun _ => none

/-- Goes on only under a condition. -/
def require (condition : Bool) : Parser Unit :=
  if condition then pure () else fail

/-- Moves to the next token. -/
def advance : Parser Unit := fun c =>
  (readToken c.rest c.restPos c.restPos).map fun next => ((), next)

/-- The offset of the token at hand. -/
def here : Parser Nat := do
  return (← token).start

/-- The range from an offset to the end of the last token read. -/
def rangeFrom (start : Nat) : Parser Range := do
  return ⟨start, (← get).previousEnd⟩

/-- A node from an offset to the end of the last token read. -/
def node (kind : NodeKind) (start : Nat) (children : List Tree) : Parser Tree := do
  return .node kind (← rangeFrom start) children

/-- The token at hand is this punctuator. -/
def atPunct (p : Punct) : Parser Bool := do
  return (← token).isPunct p

/-- The token at hand is this keyword. -/
def atKeyword (k : Keyword) : Parser Bool := do
  return (← token).keyword? == some k

/-- Passes over a punctuator if it is here. -/
def eat (p : Punct) : Parser Bool := do
  if ← atPunct p then
    advance
    return true
  return false

/-- Passes over a keyword if it is here. -/
def eatKeyword (k : Keyword) : Parser Bool := do
  if ← atKeyword k then
    advance
    return true
  return false

/-- Passes over a punctuator, which must be here. -/
def expect (p : Punct) : Parser Unit := do
  require (← eat p)

/-- Passes over a keyword, which must be here. -/
def expectKeyword (k : Keyword) : Parser Unit := do
  require (← eatKeyword k)

/-- The input has ended. -/
def atEnd : Parser Bool := do
  match (← token).kind with
  | .endOfInput => return true
  | _ => return false

/-- What a parser would find, without moving. -/
def lookahead {α : Type} (p : Parser α) : Parser (Option α) := fun c =>
  match p c with
  | some (result, _) => some (some result, c)
  | none => some (none, c)

/-- What a parser finds, or nothing and the cursor left in place when it fails. -/
def attempt {α : Type} (p : Parser α) : Parser (Option α) := fun c =>
  match p c with
  | some (result, next) => some (some result, next)
  | none => some (none, c)

/-- The token behind the one at hand satisfies a test. -/
def nextToken (test : Token → Bool) : Parser Bool := do
  match ← lookahead (do advance; token) with
  | some t => return test t
  | none => return false

/-- Puts a longer token in the place of the one at hand: `rest` is what is left behind it. -/
def widen (kind : TokenKind) (rest : List Char) : Parser Unit := modify fun c =>
  { c with
    token := { c.token with kind }
    rest
    restPos := c.token.start + (c.token.source.length - rest.length) }

/-! ## §3. Ends of statements. -/

/-- A semicolon may be left out here: before a closing brace, at the end, and at a line break. -/
def canEnd : Parser Bool := do
  let t ← token
  match t.kind with
  | .endOfInput => return true
  | .punct p => return p == .semicolon || p == .closeBrace || t.afterNewline
  | _ => return t.afterNewline

/-- The end of a statement. -/
def endStatement : Parser Unit := do
  if ← eat .semicolon then return ()
  require (← canEnd)

/-! ## §4. Repetition. -/

/-- Items until `stop` holds; `bound` exceeds their number. -/
def many {α : Type} (stop : Parser Bool) (item : Parser α) : Nat → Parser (List α)
  | 0 => fail
  | bound + 1 => do
    if ← stop then return []
    let first ← item
    return first :: (← many stop item bound)

/-- Items with commas between them up to a closing punctuator, which is left in place, and whether a
comma stands before it; `bound` exceeds the number of items. -/
def commaList {α : Type} (close : Punct) (item : Parser α) : Nat → Parser (List α × Bool)
  | 0 => fail
  | bound + 1 => do
    if ← atPunct close then return ([], false)
    let first ← item
    if ← atPunct close then return ([first], false)
    expect .comma
    if ← atPunct close then return ([first], true)
    let (others, trailing) ← commaList close item bound
    return (first :: others, trailing)

/-- Applies a step to a tree as long as it gives another; `bound` exceeds the number of steps. -/
def extend (step : Tree → Parser (Option Tree)) : Nat → Tree → Parser Tree
  | 0, _ => fail
  | bound + 1, tree => do
    match ← step tree with
    | some next => extend step bound next
    | none => return tree

/-! ## §5. Names. -/

/-- Any word, as a name. -/
def wordName : Parser Name := do
  match (← token).kind with
  | .word name _ =>
    advance
    return name
  | _ => fail

/-- An identifier that the context allows: `await` is none where it is an operator, `yield` none in
a generator. -/
def identifierName (ctx : Context) : Parser Name := do
  let t ← token
  require t.isIdentifier
  match t.kind with
  | .word name k =>
    require !(ctx.await && k == some .await)
    require !(ctx.yield && k == some .yield)
    advance
    return name
  | _ => fail

/-- A name that is bound here. -/
def bindingName (ctx : Context) : Parser Tree := do
  let start ← here
  let name ← identifierName ctx
  node (.binding name) start []

end AssetBundler.Script.Grammar
