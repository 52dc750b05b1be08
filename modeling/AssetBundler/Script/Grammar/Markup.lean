/-
  AssetBundler.Script.Grammar.Markup
  ────────────────────────────────
  **MARKUP ELEMENTS AS EXPRESSIONS.**

  Inside an element the input is text, so it is read by characters: the token
  at hand is `unread` and stands for all that follows.  Only between braces
  are there tokens again.  An element begins at the token of its opening
  bracket and leaves the input behind its closing bracket unread.
-/
import AssetBundler.Script.Grammar.Core

namespace AssetBundler.Script.Grammar

open AssetBundler.Text AssetBundler.Script.Lexer

/-! ## §1. Reading characters. -/

/-- The input from here on. -/
def input : Parser (List Char) := do
  return (← token).source

/-- Leaves `rest`, an end of the input, to be read. -/
def leave (rest : List Char) : Parser Unit := modify fun c =>
  let start := c.token.start + (c.token.source.length - rest.length)
  { token := { kind := .unread, start, source := rest, afterNewline := false, escaped := false }
    rest
    restPos := start
    previousEnd := start }

/-- Reads the token that the input begins with. -/
def retokenize : Parser Unit := fun c =>
  (readToken c.token.source c.token.start c.previousEnd).map fun next => ((), next)

/-- Passes over blanks and comments. -/
def skipBlanks : Parser Unit := do
  let t ← token
  match skipTrivia .between t.source t.start false with
  | some (rest, _, _) => leave rest
  | none => fail

/-- Passes over a character, which must be here. -/
def expectChar (c : Char) : Parser Unit := do
  match ← input with
  | d :: rest => if c == d then leave rest else fail
  | [] => fail

/-- Passes over a character if it is here. -/
def eatChar (c : Char) : Parser Bool := do
  match ← input with
  | d :: rest =>
    if c == d then
      leave rest
      return true
    else return false
  | [] => return false

/-! ## §2. Names. -/

/-- A word of a tag, in which hyphens are letters, and the blanks behind it. -/
def tagWord : Parser (List Char) := do
  let here ← input
  let isPart (c : Char) := isIdentifierPart c || c == '-'
  require (here.head?.any isIdentifierStart)
  leave (here.dropWhile isPart)
  skipBlanks
  return here.takeWhile isPart

/-- A word with another behind a colon, or one word. -/
def qualifiedWord : Parser (List Char) := do
  let first ← tagWord
  if ← eatChar ':' then
    skipBlanks
    return first ++ ':' :: (← tagWord)
  else return first

/-- The name of an element: a word, a qualified word, or a path of words without hyphens. -/
def tagName (bound : Nat) : Parser (List Char) := do
  let first ← qualifiedWord
  let atDot : Parser Bool := do return (← input).head? == some '.'
  if first.contains ':' || !(← atDot) then return first
  require !(first.contains '-')
  let others ← many (do return !(← atDot)) (do
    expectChar '.'
    skipBlanks
    let word ← tagWord
    require !(word.contains '-')
    return '.' :: word) bound
  return first ++ others.flatten

/-! ## §3. Braces. -/

/-- What stands in braces: tokens from the opening brace to the closing one, behind which the input is
left unread. -/
def inBraces (content : Parser (List Tree)) : Parser (List Tree) := do
  retokenize
  expect .openBrace
  let trees ← content
  require (← atPunct .closeBrace)
  leave (← input).tail
  return trees

/-- A value spread out in braces. -/
def spreadContent (parse : ParseGoal) (ctx : Context) : Parser (List Tree) := do
  expect .ellipsis
  return [← parse .assignment ctx]

/-- What the braces between two tags may hold: nothing, a value spread out, or a value. -/
def childContent (parse : ParseGoal) (ctx : Context) : Parser (List Tree) := do
  if ← atPunct .closeBrace then return []
  if ← atPunct .ellipsis then spreadContent parse ctx
  else return [← parse .assignment ctx]

/-! ## §4. Elements. -/

/-- The value of an attribute: text in quotes, a value in braces, or an element. -/
def attributeValue (parse : ParseGoal) (ctx : Context) : Parser (List Tree) := do
  match ← input with
  | '\x7b' :: _ => inBraces (do return [← parse .assignment ctx])
  | '<' :: _ =>
    retokenize
    return [← parse .element ctx]
  | quote :: rest =>
    require (quote == '"' || quote == '\'')
    match rest.dropWhile (· != quote) with
    | _ :: behind =>
      leave behind
      return []
    | [] => fail
  | [] => fail

/-- An attribute and the blanks behind it. -/
def markupAttribute (parse : ParseGoal) (ctx : Context) : Parser (List Tree) := do
  let trees ← do
    if (← input).head? == some '\x7b' then inBraces (spreadContent parse ctx)
    else
      let _ ← qualifiedWord
      if ← eatChar '=' then
        skipBlanks
        attributeValue parse ctx
      else pure []
  skipBlanks
  return trees

/-- The children of an element up to and including the `</` of its closing tag. -/
def elementChildren (parse : ParseGoal) (ctx : Context) : Nat → Parser (List Tree)
  | 0 => fail
  | bound + 1 => do
    let isText (c : Char) := c != '\x7b' && c != '<' && c != '>' && c != '\x7d'
    leave ((← input).dropWhile isText)
    match ← input with
    | '\x7b' :: _ =>
      let child ← inBraces (childContent parse ctx)
      return child ++ (← elementChildren parse ctx bound)
    | '<' :: _ =>
      let closing ← lookahead (do
        expectChar '<'
        skipBlanks
        expectChar '/'
        input)
      match closing with
      | some rest =>
        leave rest
        return []
      | none =>
        retokenize
        let child ← parse .element ctx
        return child :: (← elementChildren parse ctx bound)
    | _ => fail

/-- An element or a fragment, from its opening bracket on. The closing tag repeats the name. -/
def markupElement (bound : Nat) (parse : ParseGoal) (ctx : Context) : Parser Tree := do
  let ctx := Context.inner ctx
  let start ← here
  expectChar '<'
  skipBlanks
  let name ← if (← input).head? == some '>' then pure [] else tagName bound
  let atTagEnd : Parser Bool := do
    return (← input).head? == some '>' || (← input).head? == some '/'
  let attributes ←
    if name.isEmpty then pure [] else many atTagEnd (markupAttribute parse ctx) bound
  let children ← do
    if ← eatChar '/' then
      skipBlanks
      pure []
    else
      expectChar '>'
      let children ← elementChildren parse ctx bound
      skipBlanks
      let closing ← if (← input).head? == some '>' then pure [] else tagName bound
      require (closing == name)
      pure children
  expectChar '>'
  node .element start (attributes.flatten ++ children)

end AssetBundler.Script.Grammar
