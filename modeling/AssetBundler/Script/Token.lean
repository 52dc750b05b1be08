/-
  AssetBundler.Script.Token
  ────────────────────────────────
  **TOKENS OF THE SCRIPTING LANGUAGE.**

  Words (identifiers and keywords), private names, literals, template parts
  and punctuators, each with the place where it stands in the source.  A token
  keeps the input from its first character on, so that a slash can be read
  again as a regular expression and a closing brace as the rest of a template
  where the grammar asks for it.
-/
import AssetBundler.Text.CharClass

namespace AssetBundler.Script

open AssetBundler.Text

/-! ## §1. Names. -/

/-- The text of an identifier: identifier characters only, so never a line break, a quote or a blank. -/
structure Name where
  chars : List Char
  valid : chars.all isIdentifierPart = true
  deriving DecidableEq

/-- The name with the given characters, when they are all identifier characters. -/
def Name.ofChars? (chars : List Char) : Option Name :=
  if h : chars.all isIdentifierPart = true then some ⟨chars, h⟩ else none

/-- The name as text. -/
def Name.text (name : Name) : String :=
  String.ofList name.chars

/-! ## §2. Keywords and punctuators. -/

/-- The words with a role in the grammar: reserved words, the words that strict code reserves, and
words that are keywords in some places only. -/
inductive Keyword where
  | break_ | case_ | catch_ | class_ | const_ | continue_ | debugger | default_ | delete | do_
  | else_ | enum | export_ | extends_ | false_ | finally_ | for_ | function | if_ | import_ | in_
  | instanceof | new | null | return_ | super | switch | this | throw | true_ | try_ | typeof
  | var | void | while_ | with_ | await | yield
  | let_ | static | implements | interface | package | private_ | protected_ | public_
  | async | from_ | get | set | of | as | meta_ | target | source | defer | using_ | accessor
  | assert
  deriving DecidableEq, Repr

namespace Keyword

/-- Every keyword with its spelling. -/
def table : List (Keyword × String) :=
  [(break_, "break"), (case_, "case"), (catch_, "catch"), (class_, "class"), (const_, "const"),
   (continue_, "continue"), (debugger, "debugger"), (default_, "default"), (delete, "delete"),
   (do_, "do"), (else_, "else"), (enum, "enum"), (export_, "export"), (extends_, "extends"),
   (false_, "false"), (finally_, "finally"), (for_, "for"), (function, "function"), (if_, "if"),
   (import_, "import"), (in_, "in"), (instanceof, "instanceof"), (new, "new"), (null, "null"),
   (return_, "return"), (super, "super"), (switch, "switch"), (this, "this"), (throw, "throw"),
   (true_, "true"), (try_, "try"), (typeof, "typeof"), (var, "var"), (void, "void"),
   (while_, "while"), (with_, "with"), (await, "await"), (yield, "yield"), (let_, "let"),
   (static, "static"), (implements, "implements"), (interface, "interface"),
   (package, "package"), (private_, "private"), (protected_, "protected"), (public_, "public"),
   (async, "async"), (from_, "from"), (get, "get"), (set, "set"), (of, "of"), (as, "as"),
   (meta_, "meta"), (target, "target"), (source, "source"), (defer, "defer"), (using_, "using"),
   (accessor, "accessor"), (assert, "assert")]

/-- The spellings as lists of characters. -/
def spellings : List (List Char × Keyword) :=
  table.map fun (k, s) => (s.toList, k)

/-- The keyword that a word spells. -/
def ofChars? (chars : List Char) : Option Keyword :=
  (spellings.find? fun entry => entry.1 == chars).map (·.2)

/-- Words reserved wherever an identifier could stand. -/
def isReserved : Keyword → Bool
  | break_ | case_ | catch_ | class_ | const_ | continue_ | debugger | default_ | delete | do_
  | else_ | enum | export_ | extends_ | false_ | finally_ | for_ | function | if_ | import_ | in_
  | instanceof | new | null | return_ | super | switch | this | throw | true_ | try_ | typeof
  | var | void | while_ | with_ | await | yield => true
  | _ => false

/-- Words that strict code reserves. -/
def isStrictReserved : Keyword → Bool
  | let_ | static | implements | interface | package | private_ | protected_ | public_ => true
  | _ => false

end Keyword

/-- Punctuators, told apart as far as the grammar does. -/
inductive Punct where
  | openBrace | closeBrace | openParen | closeParen | openBracket | closeBracket
  | dot | ellipsis | semicolon | comma | colon | question | optionalDot | arrow | at
  | less | greater | relational | equality | shift
  | plus | minus | star | slash | percent | power | increment | decrement
  | bitAnd | bitOr | bitXor | bang | tilde | logicalAnd | logicalOr | nullish
  | assign | compoundAssign | slashAssign
  deriving DecidableEq, Repr

/-- The punctuators, each before those that begin it. -/
def Punct.table : List (String × Punct) :=
  [(">>>=", .compoundAssign),
   ("...", .ellipsis), ("===", .equality), ("!==", .equality), ("**=", .compoundAssign),
   ("<<=", .compoundAssign), (">>=", .compoundAssign), (">>>", .shift), ("&&=", .compoundAssign),
   ("||=", .compoundAssign), ("??=", .compoundAssign),
   ("=>", .arrow), ("==", .equality), ("!=", .equality), ("<=", .relational),
   (">=", .relational), ("&&", .logicalAnd), ("||", .logicalOr), ("??", .nullish),
   ("++", .increment), ("--", .decrement), ("+=", .compoundAssign), ("-=", .compoundAssign),
   ("*=", .compoundAssign), ("/=", .slashAssign), ("%=", .compoundAssign),
   ("&=", .compoundAssign), ("|=", .compoundAssign), ("^=", .compoundAssign), ("<<", .shift),
   (">>", .shift), ("**", .power), ("?.", .optionalDot),
   ("\x7b", .openBrace), ("\x7d", .closeBrace), ("(", .openParen), (")", .closeParen),
   ("[", .openBracket), ("]", .closeBracket), (".", .dot), (";", .semicolon), (",", .comma),
   ("<", .less), (">", .greater), ("+", .plus), ("-", .minus), ("*", .star), ("/", .slash),
   ("%", .percent), ("&", .bitAnd), ("|", .bitOr), ("^", .bitXor), ("!", .bang), ("~", .tilde),
   ("?", .question), (":", .colon), ("=", .assign), ("@", .at)]

/-- The punctuators as lists of characters. -/
def Punct.spellings : List (List Char × Punct) :=
  Punct.table.map fun (s, p) => (s.toList, p)

/-! ## §3. Tokens. -/

/-- What a token is. -/
inductive TokenKind where
  /-- The end of the input. -/
  | endOfInput
  /-- An identifier or keyword. -/
  | word (name : Name) (keyword? : Option Keyword)
  /-- A private member name, `#x`. -/
  | privateName (name : Name)
  /-- A string literal: its value, and whether that holds a lone surrogate. -/
  | string (value : List Char) (loneSurrogate : Bool)
  /-- A number literal. -/
  | number
  /-- A template up to its end (`closed`) or its first substitution; `cooked` when all its escapes
  are valid. -/
  | template (closed cooked : Bool)
  | punct (p : Punct)
  /-- Input not yet divided into tokens. -/
  | unread

/-- A token in its place. -/
structure Token where
  kind : TokenKind
  /-- The offset of the token's first character. -/
  start : Nat
  /-- The input from the token's first character on. -/
  source : List Char
  /-- A line break stands before the token. -/
  afterNewline : Bool
  /-- The token's word is spelled with escapes. -/
  escaped : Bool

namespace Token

/-- The token is this punctuator. -/
def isPunct (t : Token) (p : Punct) : Bool :=
  match t.kind with
  | .punct q => q == p
  | _ => false

/-- The keyword that the token spells without escapes. -/
def keyword? (t : Token) : Option Keyword :=
  match t.kind with
  | .word _ (some k) => if t.escaped then none else some k
  | _ => none

/-- The token is a word of any kind. -/
def isWord (t : Token) : Bool :=
  match t.kind with
  | .word .. => true
  | _ => false

/-- The token can be an identifier: a word that is not reserved, or `await` or `yield`, on which the
context decides. -/
def isIdentifier (t : Token) : Bool :=
  match t.kind with
  | .word _ none => true
  | .word _ (some k) => !k.isReserved || k == .await || k == .yield
  | _ => false

/-- The token is a literal. -/
def isLiteral (t : Token) : Bool :=
  match t.kind with
  | .string .. | .number | .template .. => true
  | .word _ (some k) => k == .null || k == .true_ || k == .false_
  | _ => false

/-- The token can begin a property name; private names and computed ones are included. -/
def isPropertyName (t : Token) : Bool :=
  match t.kind with
  | .word .. | .privateName _ | .string .. | .number => true
  | .punct p => p == .openBracket
  | _ => false

end Token

/-- A stretch of the source, from `start` up to but not including `stop`. -/
structure Range where
  start : Nat
  stop : Nat
  deriving DecidableEq, Repr

end AssetBundler.Script
