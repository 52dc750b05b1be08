/-
  AssetBundler.Style.Syntax.Node
  ────────────────────────────────
  **BLOCKS OF STYLESHEETS.**

  Tokens with parentheses, brackets, braces and functions put together.  What
  is still open at the end ends there; a closing mark that closes nothing
  stays a token.
-/
import AssetBundler.Style.Syntax.Token

namespace AssetBundler.Style.Syntax

/-- A token, or a block that one opens. -/
inductive Node where
  | token (t : Token)
  | block (head : Token) (body : List Node)

/-- The character that closes what a token opens. -/
def closerOf? : Token → Option Char
  | .opening '(' => some ')'
  | .opening '[' => some ']'
  | .opening _ => some '\x7d'
  | .function _ => some ')'
  | _ => none

/-- The nodes up to a closing character, and what follows that; the first argument bounds the number of
tokens. -/
def readNodes (closer? : Option Char) : Nat → List Token → List Node × List Token
  | _, [] | 0, _ => ([], [])
  | bound + 1, t :: rest =>
    match closerOf? t with
    | some closer =>
      let (body, rest) := readNodes (some closer) bound rest
      let (nodes, rest) := readNodes closer? bound rest
      (.block t body :: nodes, rest)
    | none =>
      if closer?.any fun c => t == .closing c then ([], rest)
      else
        let (nodes, rest) := readNodes closer? bound rest
        (.token t :: nodes, rest)

/-- The nodes of a text. -/
def nodes (text : List Char) : List Node :=
  let ts := tokens text
  (readNodes none (ts.length + 1) ts).1

namespace Node

/-- The node is a blank. -/
def isBlank : Node → Bool
  | token .blank => true
  | _ => false

/-- The node is a semicolon. -/
def isSemicolon : Node → Bool
  | token .semicolon => true
  | _ => false

/-- The node is a comma. -/
def isComma : Node → Bool
  | token .comma => true
  | _ => false

/-- The node is a block in braces. -/
def isBraces : Node → Bool
  | block (.opening '\x7b') _ => true
  | _ => false

/-- The node is a name, letter case aside. -/
def isName (text : String) : Node → Bool
  | token (.name name) => name.map Text.asciiLower == text.toList
  | _ => false

end Node

/-- Nodes without blanks at their start. -/
def dropBlanks (ns : List Node) : List Node :=
  ns.dropWhile Node.isBlank

/-- Nodes without blanks at their ends. -/
def trimBlanks (ns : List Node) : List Node :=
  (dropBlanks (dropBlanks ns).reverse).reverse

/-- The pieces between the nodes that satisfy a test. -/
def splitNodes (isSeparator : Node → Bool) : List Node → List (List Node)
  | [] => [[]]
  | n :: rest =>
    if isSeparator n then [] :: splitNodes isSeparator rest
    else match splitNodes isSeparator rest with
      | piece :: pieces => (n :: piece) :: pieces
      | [] => [[n]]

/-! ## Values. -/

/-- Two hyphens begin the text. -/
def isDashed (text : List Char) : Bool :=
  Text.startsWith "--".toList text

/-- The arguments of a reference to a variable: its name, and behind a comma what stands in for it. -/
def isReference (args : List Node) : Bool :=
  match dropBlanks args with
  | .token (.name name) :: rest =>
    isDashed name && (match dropBlanks rest with
      | [] | .token .comma :: _ => true
      | _ => false)
  | _ => false

/-- The arguments of a quoted address. -/
def isQuotedUrl (args : List Node) : Bool :=
  match trimBlanks args with
  | [.token .string] => true
  | _ => false

mutual
/-- A node may stand in a value. -/
def isValueNode : Node → Bool
  | .token t => !t.isBad
  | .block (.function name) body =>
    isValue body
      && (if name == "var".toList then isReference body
        else if name == "url".toList then isQuotedUrl body
        else true)
  | .block _ body => isValue body
/-- Nodes may make a value. -/
def isValue : List Node → Bool
  | [] => true
  | n :: rest => isValueNode n && isValue rest
end

end AssetBundler.Style.Syntax
