/-
  AssetBundler.Script.Lexer
  ────────────────────────────────
  **DIVIDING SOURCE TEXT INTO TOKENS.**

  `readToken` skips blanks and comments and reads the one token after them.
  It reads a slash as a division; the grammar calls `readRegex` where an
  expression may start, and `readTemplateRest` after a substitution.  Every
  reader takes the input and its offset and gives back what is left.
-/
import AssetBundler.Script.Token
import AssetBundler.Text.Search

namespace AssetBundler.Script.Lexer

open AssetBundler.Text

/-! ## §1. Blanks and comments. -/

/-- A character that ends a line. -/
def isLineBreak (c : Char) : Bool :=
  c == '\n' || c == '\r' || c == '\u2028' || c == '\u2029'

/-- A blank other than a line break. -/
def isBlank (c : Char) : Bool :=
  c == ' ' || c == '\t' || c == '\x0b' || c == '\x0c' || c == '\u0085' || c == '\u00a0'
    || c == '\u1680' || c == '\u180e' || ('\u2000' ≤ c && c ≤ '\u200b') || c == '\u202f'
    || c == '\u205f' || c == '\u3000' || c == '\ufeff'

/-- Where skipping stands. -/
inductive TriviaMode where
  | between
  | lineComment
  | blockComment

/-- The input behind blanks and comments, its offset, and whether a line break was passed; `none`
when a block comment does not end. -/
def skipTrivia : TriviaMode → List Char → Nat → Bool → Option (List Char × Nat × Bool)
  | .blockComment, [], _, _ => none
  | _, [], pos, newline => some ([], pos, newline)
  | .between, '/' :: '/' :: rest, pos, newline => skipTrivia .lineComment rest (pos + 2) newline
  | .between, '/' :: '*' :: rest, pos, newline => skipTrivia .blockComment rest (pos + 2) newline
  | .between, c :: rest, pos, newline =>
    if isLineBreak c then skipTrivia .between rest (pos + 1) true
    else if isBlank c then skipTrivia .between rest (pos + 1) newline
    else some (c :: rest, pos, newline)
  | .lineComment, c :: rest, pos, newline =>
    if isLineBreak c then skipTrivia .between rest (pos + 1) true
    else skipTrivia .lineComment rest (pos + 1) newline
  | .blockComment, '*' :: '/' :: rest, pos, newline => skipTrivia .between rest (pos + 2) newline
  | .blockComment, c :: rest, pos, newline =>
    skipTrivia .blockComment rest (pos + 1) (newline || isLineBreak c)

/-! ## §2. Words. -/

/-- The code point of a Unicode escape behind its backslash and `u`: four digits, or any number of
digits in braces up to the last code point. -/
def readCodePoint : List Char → Option (Nat × List Char)
  | '\x7b' :: rest =>
    let digits := rest.takeWhile isHexDigit
    match digits, rest.dropWhile isHexDigit with
    | _ :: _, '\x7d' :: rest =>
      let n := hexNumber digits
      if n ≤ 0x10FFFF then some (n, rest) else none
    | _, _ => none
  | a :: b :: c :: d :: rest =>
    if [a, b, c, d].all isHexDigit then some (hexNumber [a, b, c, d], rest) else none
  | _ => none

/-- A code point that is no surrogate. -/
def isScalar (n : Nat) : Bool :=
  n < 0xD800 || (0xDFFF < n && n ≤ 0x10FFFF)

/-- The next character of a word, with the escape taken back, and whether it was escaped. -/
def readWordChar : List Char → Option (Char × Bool × List Char)
  | '\\' :: 'u' :: rest =>
    match readCodePoint rest with
    | some (n, rest) => if isScalar n then some (Char.ofNat n, true, rest) else none
    | none => none
  | '\\' :: _ => none
  | c :: rest => some (c, false, rest)
  | [] => none

/-- The characters of a word from its second on, newest first; reading stops before the first
character that continues no identifier. `none` when an escape is broken. -/
def readWordRest : Nat → List Char → List Char → Bool → Option (List Char × Bool × List Char)
  | 0, _, _, _ => none
  | fuel + 1, input, read, escaped =>
    match input with
    | [] => some (read, escaped, [])
    | c :: _ =>
      if c == '\\' then
        match readWordChar input with
        | some (c, _, rest) =>
          if isIdentifierPart c then readWordRest fuel rest (c :: read) true else none
        | none => none
      else if isIdentifierPart c then readWordRest fuel input.tail (c :: read) escaped
      else some (read, escaped, input)

/-- A word at the head of the input. -/
def readWord (input : List Char) : Option (Name × Bool × List Char) :=
  match readWordChar input with
  | some (c, escaped, rest) =>
    if isIdentifierStart c then
      match readWordRest (rest.length + 1) rest [c] escaped with
      | some (chars, escaped, rest) =>
        (Name.ofChars? chars.reverse).map fun name => (name, escaped, rest)
      | none => none
    else none
  | none => none

/-! ## §3. Numbers. -/

/-- Digits of a class with separators between them, from the second digit on; `none` when a
separator has no digit behind it. -/
def skipDigits (isDigit : Char → Bool) : List Char → Option (List Char)
  | '_' :: c :: rest => if isDigit c then skipDigits isDigit rest else none
  | '_' :: [] => none
  | c :: rest => if isDigit c then skipDigits isDigit rest else some (c :: rest)
  | [] => some []

/-- One digit or more, with separators. -/
def skipDigits1 (isDigit : Char → Bool) : List Char → Option (List Char)
  | c :: rest => if isDigit c then skipDigits isDigit rest else none
  | [] => none

/-- A number must not touch an identifier or a digit. -/
def endNumber (input : List Char) : Option (List Char) :=
  match input with
  | c :: _ => if isAsciiDigit c || isIdentifierStart c then none else some input
  | [] => some []

/-- The exponent behind its letter. -/
def skipExponentDigits : List Char → Option (List Char)
  | '+' :: rest => skipDigits1 isAsciiDigit rest
  | '-' :: rest => skipDigits1 isAsciiDigit rest
  | rest => skipDigits1 isAsciiDigit rest

/-- An exponent if one stands here, and the end of the number. -/
def endDecimal (input : List Char) : Option (List Char) :=
  match input with
  | 'e' :: rest => (skipExponentDigits rest).bind endNumber
  | 'E' :: rest => (skipExponentDigits rest).bind endNumber
  | _ => endNumber input

/-- The digits behind a decimal point, which may be missing. -/
def skipFraction (input : List Char) : Option (List Char) :=
  match input with
  | c :: _ => if isAsciiDigit c then (skipDigits1 isAsciiDigit input).bind endDecimal
    else endDecimal input
  | [] => some []

/-- A number with a radix letter: its digits, and the letter of a big integer. -/
def skipRadix (isDigit : Char → Bool) (input : List Char) : Option (List Char) :=
  match skipDigits1 isDigit input with
  | some ('n' :: rest) => endNumber rest
  | some rest => endNumber rest
  | none => none

/-- A digit of an octal number. -/
def isOctalDigit (c : Char) : Bool := '0' ≤ c && c ≤ '7'

/-- The part of a decimal number behind its leading digits. -/
def endInteger (input : List Char) : Option (List Char) :=
  match input with
  | '.' :: rest => skipFraction rest
  | 'n' :: rest => endNumber rest
  | rest => endDecimal rest

/-- What is left behind a number literal at the head of the input. -/
def skipNumber (input : List Char) : Option (List Char) :=
  match input with
  | '0' :: c :: rest =>
    if c == 'b' || c == 'B' then skipRadix (fun c => c == '0' || c == '1') rest
    else if c == 'o' || c == 'O' then skipRadix isOctalDigit rest
    else if c == 'x' || c == 'X' then skipRadix isHexDigit rest
    else if isAsciiDigit c then
      let digits := (c :: rest).takeWhile isAsciiDigit
      let behind := (c :: rest).dropWhile isAsciiDigit
      if digits.all isOctalDigit then endNumber behind
      else match behind with
        | '.' :: rest => skipFraction rest
        | behind => endDecimal behind
    else endInteger (c :: rest)
  | '.' :: rest => skipFraction rest
  | input => (skipDigits1 isAsciiDigit input).bind endInteger

/-! ## §4. Strings and templates. -/

/-- A piece of a string's value: a character, or a surrogate code unit that an escape names. -/
inductive Unit16 where
  | char (c : Char)
  | surrogate (n : Nat)

/-- The value of an escape behind its backslash; `template` rules out octal escapes. `none` for an
escape that is not valid, together with where reading goes on. -/
def readEscape (template : Bool) : List Char → Option (List Unit16) × List Char
  | [] => (none, [])
  | '\r' :: '\n' :: rest => (some [], rest)
  | 'x' :: a :: b :: rest =>
    if isHexDigit a && isHexDigit b then
      (some [.char (Char.ofNat (hexNumber [a, b]))], rest)
    else (none, a :: b :: rest)
  | 'u' :: rest =>
    match readCodePoint rest with
    | some (n, rest) =>
      (some [if isScalar n then .char (Char.ofNat n) else .surrogate n], rest)
    | none => (none, rest)
  | c :: rest =>
    if c == '\n' || c == '\r' || c == '\u2028' || c == '\u2029' then (some [], rest)
    else if c == 'b' then (some [.char '\x08'], rest)
    else if c == 'f' then (some [.char '\x0c'], rest)
    else if c == 'n' then (some [.char '\n'], rest)
    else if c == 'r' then (some [.char '\r'], rest)
    else if c == 't' then (some [.char '\t'], rest)
    else if c == 'v' then (some [.char '\x0b'], rest)
    else if c == 'x' then (none, rest)
    else if c == '0' && !(rest.head?.any isAsciiDigit) then (some [.char '\x00'], rest)
    else if template && isAsciiDigit c then (none, rest)
    else if isOctalDigit c then
      let limit := if c ≤ '3' then 2 else 1
      let more := (rest.take limit).takeWhile isOctalDigit
      let n := (c :: more).foldl (fun n d => 8 * n + (d.toNat - '0'.toNat)) 0
      (some [.char (Char.ofNat n)], rest.drop more.length)
    else (some [.char c], rest)

/-- Two surrogates that follow one another make one character. -/
def joinSurrogates : List Unit16 → List Unit16
  | .surrogate high :: .surrogate low :: rest =>
    if high < 0xDC00 && 0xDC00 ≤ low then
      .char (Char.ofNat (0x10000 + (high - 0xD800) * 0x400 + (low - 0xDC00)))
        :: joinSurrogates rest
    else .surrogate high :: joinSurrogates (.surrogate low :: rest)
  | unit :: rest => unit :: joinSurrogates rest
  | [] => []

/-- A lone surrogate remains. -/
def hasSurrogate (units : List Unit16) : Bool :=
  units.any fun | .surrogate _ => true | .char _ => false

/-- Four hexadecimal digits. -/
def hex4 (n : Nat) : List Char :=
  [hexDigit (n / 4096 % 16), hexDigit (n / 256 % 16), hexDigit (n / 16 % 16), hexDigit (n % 16)]

/-- The value as text. Where it holds a lone surrogate, that is written as the replacement character
and its four digits, and a replacement character as itself and `fffd`. -/
def unitsText (units : List Unit16) : List Char :=
  if hasSurrogate units then
    units.flatMap fun
      | .surrogate n => '\ufffd' :: hex4 n
      | .char c => if c == '\ufffd' then '\ufffd' :: hex4 0xFFFD else [c]
  else units.filterMap fun | .char c => some c | .surrogate _ => none

/-- The pieces of a string literal behind its opening quote, newest first. `none` when a line or the
input ends first or an escape is not valid. -/
def readStringUnits (quote : Char) :
    Nat → List Char → List Unit16 → Option (List Unit16 × List Char)
  | 0, _, _ => none
  | fuel + 1, input, units =>
    match input with
    | [] => none
    | c :: rest =>
      if c == quote then some (units, rest)
      else if c == '\n' || c == '\r' then none
      else if c == '\\' then
        match readEscape false rest with
        | (some value, rest) => readStringUnits quote fuel rest (value.reverse ++ units)
        | (none, _) => none
      else readStringUnits quote fuel rest (.char c :: units)

/-- A string literal behind its opening quote: its value, whether that holds a lone surrogate, and
what is left. -/
def readString (quote : Char) (input : List Char) : Option (List Char × Bool × List Char) :=
  match readStringUnits quote (input.length + 1) input [] with
  | some (units, rest) =>
    let units := joinSurrogates units.reverse
    some (unitsText units, hasSurrogate units, rest)
  | none => none

/-- Template characters up to the closing backquote (`true`) or the next substitution (`false`); the
second flag tells whether all escapes were valid. -/
def readTemplate : Nat → List Char → Bool → Option (Bool × Bool × List Char)
  | 0, _, _ => none
  | fuel + 1, input, cooked =>
    match input with
    | [] => none
    | '$' :: '\x7b' :: rest => some (false, cooked, rest)
    | c :: rest =>
      if c == '\x60' then some (true, cooked, rest)
      else if c == '\\' then
        match readEscape true rest with
        | (some _, rest) => readTemplate fuel rest cooked
        | (none, rest) => if rest.isEmpty then none else readTemplate fuel rest false
      else readTemplate fuel rest cooked

/-! ## §5. Regular expressions. -/

/-- The input behind the body of a regular expression, whose opening slash has been read; brackets
keep slashes inside them. -/
def skipRegexBody : Bool → List Char → Option (List Char)
  | _, [] => none
  | inClass, '\\' :: c :: rest => if isLineBreak c then none else skipRegexBody inClass rest
  | inClass, c :: rest =>
    if isLineBreak c then none
    else if c == '/' && !inClass then some rest
    else if c == '[' then skipRegexBody true rest
    else if c == ']' then skipRegexBody false rest
    else skipRegexBody inClass rest

/-- Flags are known letters, each at most once. -/
def validFlags : List Char → Bool
  | [] => true
  | c :: rest =>
    ['g', 'i', 'm', 's', 'u', 'y', 'd', 'v'].contains c && !rest.contains c && validFlags rest

/-- The input behind a regular expression literal, and how many characters it has. -/
def readRegex (input : List Char) : Option (Nat × List Char) :=
  match input with
  | '/' :: body =>
    match skipRegexBody false body with
    | some rest =>
      let isFlag (c : Char) := isAsciiLetter c || isAsciiDigit c || c == '$' || c == '_'
      let flags := rest.takeWhile isFlag
      let behind := rest.dropWhile isFlag
      if validFlags flags then some (input.length - behind.length, behind) else none
    | none => none
  | _ => none

/-! ## §6. One token. -/

/-- The longest punctuator at the head of the input. An optional-chaining dot is none before a
digit. -/
def readPunct (input : List Char) : Option (Punct × List Char) :=
  Punct.spellings.findSome? fun (spelling, punct) =>
    match dropPrefix? spelling input with
    | some rest =>
      if punct = .optionalDot && rest.head?.any isAsciiDigit then none else some (punct, rest)
    | none => none

/-- A token and what is left behind it, from its first character on. -/
def readKind (input : List Char) : Option (TokenKind × Bool × List Char) :=
  match input with
  | [] => some (.endOfInput, false, [])
  | c :: rest =>
    if c == '"' || c == '\'' then
      (readString c rest).map fun (value, lone, rest) => (.string value lone, false, rest)
    else if c == '\x60' then
      (readTemplate (rest.length + 1) rest true).map fun (closed, cooked, rest) =>
        (.template closed cooked, false, rest)
    else if isAsciiDigit c || (c == '.' && rest.head?.any isAsciiDigit) then
      (skipNumber input).map fun rest => (.number, false, rest)
    else if c == '#' then
      (readWord rest).map fun (name, escaped, rest) => (.privateName name, escaped, rest)
    else if isIdentifierStart c || c == '\\' then
      (readWord input).map fun (name, escaped, rest) =>
        (.word name (Keyword.ofChars? name.chars), escaped, rest)
    else (readPunct input).map fun (punct, rest) => (.punct punct, false, rest)

/-- The state of reading: the token at hand and the input behind it. -/
structure Cursor where
  token : Token
  /-- The input behind the token. -/
  rest : List Char
  /-- The offset of that input. -/
  restPos : Nat
  /-- The offset behind the token before. -/
  previousEnd : Nat

/-- The next token of an input at an offset. -/
def readToken (input : List Char) (pos previousEnd : Nat) : Option Cursor := do
  let (input, start, newline) ← skipTrivia .between input pos false
  let (kind, escaped, rest) ← readKind input
  return {
    token := { kind, start, source := input, afterNewline := newline, escaped }
    rest
    restPos := start + (input.length - rest.length)
    previousEnd }

/-- The first token of a source text. A first line that begins with `#!` is skipped. -/
def start (source : List Char) : Option Cursor :=
  match source with
  | '#' :: '!' :: _ =>
    let line := source.takeWhile fun c => !isLineBreak c
    readToken (source.drop line.length) line.length 0
  | _ => readToken source 0 0

end AssetBundler.Script.Lexer
