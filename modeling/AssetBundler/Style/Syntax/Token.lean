/-
  AssetBundler.Style.Syntax.Token
  ────────────────────────────────
  **TOKENS OF STYLESHEETS.**

  The lexical grammar of stylesheets: names with escapes, strings, addresses,
  numbers and marks.  A text always has tokens; those of malformed strings and
  addresses are kept as such.
-/
import AssetBundler.Text.Scan

namespace AssetBundler.Style.Syntax

open AssetBundler.Text

/-! ## §1. Tokens. -/

/-- A token of a stylesheet. -/
inductive Token where
  | name (text : List Char)
  /-- A name behind an at sign. -/
  | atName (text : List Char)
  /-- A name behind a number sign; `identifier` tells whether it could stand alone. -/
  | hash (text : List Char) (identifier : Bool)
  | string
  | badString
  | url
  | badUrl
  | number
  | percentage
  | dimension (suffix : List Char)
  | blank
  /-- A name with its opening parenthesis. -/
  | function (text : List Char)
  | opening (c : Char)
  | closing (c : Char)
  | colon
  | semicolon
  | comma
  /-- A mark followed by an equals sign. -/
  | matches (c : Char)
  /-- The marks that hide a stylesheet from readers of pages. -/
  | pageMark
  /-- Any other character. -/
  | mark (c : Char)
  deriving DecidableEq

namespace Token

/-- The token has no place in a value. -/
def isBad : Token → Bool
  | badString | badUrl | closing _ => true
  | _ => false

end Token

/-! ## §2. Names. -/

/-- A line break. -/
def isBreak (c : Char) : Bool :=
  c == '\n' || c == '\r' || c == '\x0c'

/-- A blank. -/
def isBlank (c : Char) : Bool :=
  c == ' ' || c == '\t' || isBreak c

/-- A character that may begin a name. -/
def isNameStart (c : Char) : Bool :=
  isAsciiLetter c || c == '_' || c == '\x00' || 0x80 ≤ c.toNat

/-- A character that may continue a name. -/
def isNamePart (c : Char) : Bool :=
  isNameStart c || isAsciiDigit c || c == '-'

/-- A backslash and what it escapes begin the text. -/
def startsEscape : List Char → Bool
  | '\\' :: c :: _ => !isBreak c
  | _ => false

/-- A name begins the text. -/
def startsName : List Char → Bool
  | '-' :: '-' :: _ => true
  | '-' :: c :: rest => isNameStart c || startsEscape (c :: rest)
  | c :: rest => isNameStart c || startsEscape (c :: rest)
  | [] => false

/-- The text without one blank at its start. -/
def dropBlank : List Char → List Char
  | '\r' :: '\n' :: rest => rest
  | c :: rest => if isBlank c then rest else c :: rest
  | [] => []

/-- The character of a code point, or a mark for one that has none. -/
def characterOf (n : Nat) : Char :=
  if n = 0 || 0x10FFFF < n || (0xD800 ≤ n && n < 0xE000) then '\uFFFD' else Char.ofNat n

/-- The character that an escape stands for, whose backslash has been read, and what follows. -/
def readEscape (text : List Char) : Char × List Char :=
  let digits := (text.take 6).takeWhile isHexDigit
  if digits.isEmpty then
    match text with
    | c :: rest => (c, rest)
    | [] => ('\uFFFD', [])
  else (characterOf (hexNumber digits), dropBlank (text.drop digits.length))

/-- The name at the start of a text, and what follows; the first argument bounds its length. -/
def readName : Nat → List Char → List Char × List Char
  | 0, text => ([], text)
  | bound + 1, text =>
    match text with
    | [] => ([], [])
    | c :: rest =>
      if isNamePart c then
        let (name, rest) := readName bound rest
        (c :: name, rest)
      else if startsEscape text then
        let (e, rest) := readEscape rest
        let (name, rest) := readName bound rest
        (e :: name, rest)
      else ([], text)

/-- The name at the start of a text, and what follows. -/
def nameAt (text : List Char) : List Char × List Char :=
  readName text.length text

/-! ## §3. Strings, addresses and comments. -/

/-- Passes over the rest of a string: whether it is well formed, and what follows. -/
def skipString (quote : Char) : Nat → List Char → Bool × List Char
  | 0, text => (true, text)
  | bound + 1, text =>
    match text with
    | [] => (true, [])
    | '\\' :: '\r' :: '\n' :: rest => skipString quote bound rest
    | '\\' :: _ :: rest => skipString quote bound rest
    | c :: rest =>
      if c == quote then (true, rest)
      else if isBreak c then (false, text)
      else skipString quote bound rest

/-- Passes over the rest of a malformed address. -/
def skipBadUrl : List Char → List Char
  | [] => []
  | '\\' :: ')' :: rest | '\\' :: '\\' :: rest => skipBadUrl rest
  | ')' :: rest => rest
  | _ :: rest => skipBadUrl rest

/-- A character that must not stand in an address without quotes. -/
def spoilsUrl (c : Char) : Bool :=
  c == '"' || c == '\'' || c == '(' || (1 ≤ c.toNat && c.toNat ≤ 8) || c == '\x0b'
    || (14 ≤ c.toNat && c.toNat ≤ 31) || c == '\x7f'

/-- The rest of an address without quotes, and what follows. -/
def readUrl : Nat → List Char → Token × List Char
  | 0, text => (.url, text)
  | bound + 1, text =>
    match text with
    | [] => (.url, [])
    | ')' :: rest => (.url, rest)
    | c :: rest =>
      if isBlank c then
        match rest.dropWhile isBlank with
        | [] => (.url, [])
        | ')' :: rest => (.url, rest)
        | rest => (.badUrl, skipBadUrl rest)
      else if startsEscape text then readUrl bound (readEscape rest).2
      else if c == '\\' || spoilsUrl c then (.badUrl, skipBadUrl rest)
      else readUrl bound rest

/-- What follows a comment, whose opening has been read. -/
def afterComment : List Char → List Char
  | [] => []
  | '*' :: '/' :: rest => rest
  | _ :: rest => afterComment rest

/-! ## §4. Numbers. -/

/-- A number begins the text. -/
def startsNumber : List Char → Bool
  | '+' :: rest | '-' :: rest => unsigned rest
  | text => unsigned text
where
  unsigned : List Char → Bool
    | '.' :: c :: _ => isAsciiDigit c
    | c :: _ => isAsciiDigit c
    | [] => false

/-- What follows the exponent at the start of a text, if there is one. -/
def afterExponent (text : List Char) : List Char :=
  let digits (rest : List Char) : List Char :=
    match rest with
    | c :: _ => if isAsciiDigit c then rest.dropWhile isAsciiDigit else text
    | [] => text
  match text with
  | 'e' :: '+' :: rest | 'E' :: '+' :: rest | 'e' :: '-' :: rest | 'E' :: '-' :: rest =>
    digits rest
  | 'e' :: rest | 'E' :: rest => digits rest
  | _ => text

/-- What follows the number at the start of a text. -/
def afterNumber (text : List Char) : List Char :=
  let unsigned := match text with
    | '+' :: rest | '-' :: rest => rest
    | rest => rest
  let behindWhole := unsigned.dropWhile isAsciiDigit
  match behindWhole with
  | '.' :: c :: rest =>
    afterExponent (if isAsciiDigit c then (c :: rest).dropWhile isAsciiDigit else behindWhole)
  | _ => afterExponent behindWhole

/-- The number at the start of a text with its unit, and what follows. -/
def readNumber (text : List Char) : Token × List Char :=
  let rest := afterNumber text
  match rest with
  | '%' :: rest => (.percentage, rest)
  | _ =>
    if startsName rest then
      let (suffix, rest) := nameAt rest
      (.dimension suffix, rest)
    else (.number, rest)

/-! ## §5. All tokens. -/

/-- The token that begins with a name, and what follows. -/
def readNamed (text : List Char) : Token × List Char :=
  let (name, rest) := nameAt text
  match rest with
  | '(' :: rest =>
    if name.map asciiLower == "url".toList then
      match rest.dropWhile isBlank with
      | '"' :: _ | '\'' :: _ => (.function name, rest)
      | inner => readUrl (inner.length + 1) inner
    else (.function name, rest)
  | rest => (.name name, rest)

/-- The token at the start of a text that begins with a mark, and what follows. -/
def readMark (c : Char) (rest : List Char) : Token × List Char :=
  match c, rest with
  | '(', _ | '[', _ | '\x7b', _ => (.opening c, rest)
  | ')', _ | ']', _ | '\x7d', _ => (.closing c, rest)
  | ':', _ => (.colon, rest)
  | ';', _ => (.semicolon, rest)
  | ',', _ => (.comma, rest)
  | '$', '=' :: rest | '*', '=' :: rest | '^', '=' :: rest | '|', '=' :: rest
  | '~', '=' :: rest => (.matches c, rest)
  | '<', '!' :: '-' :: '-' :: rest => (.pageMark, rest)
  | '-', '-' :: '>' :: rest => (.pageMark, rest)
  | '"', _ | '\'', _ =>
    let (good, rest) := skipString c (rest.length + 1) rest
    (if good then .string else .badString, rest)
  | '#', d :: _ =>
    if isNamePart d || startsEscape rest then
      let (name, behind) := nameAt rest
      (.hash name (startsName rest), behind)
    else (.mark c, rest)
  | '@', _ =>
    if startsName rest then
      let (name, rest) := nameAt rest
      (.atName name, rest)
    else (.mark c, rest)
  | _, _ => (.mark c, rest)

/-- The token at the start of a text, and what follows; a comment has none. -/
def readToken (c : Char) (rest : List Char) : Option Token × List Char :=
  let some_ (found : Token × List Char) : Option Token × List Char := (some found.1, found.2)
  match c, rest with
  | '/', '*' :: rest => (none, afterComment rest)
  | _, _ =>
    if isBlank c then (some .blank, rest.dropWhile isBlank)
    else if startsNumber (c :: rest) then some_ (readNumber (c :: rest))
    else if c == '-' && startsWith "->".toList rest then some_ (readMark c rest)
    else if startsName (c :: rest) then some_ (readNamed (c :: rest))
    else some_ (readMark c rest)

/-- The tokens of a text; the first argument bounds their number. -/
def tokensFrom : Nat → List Char → List Token
  | _, [] | 0, _ => []
  | bound + 1, c :: rest =>
    let (token?, rest) := readToken c rest
    token?.toList ++ tokensFrom bound rest

/-- The tokens of a text. -/
def tokens (text : List Char) : List Token :=
  tokensFrom text.length text

end AssetBundler.Style.Syntax
