/-
  AssetBundler.Data.Json
  ────────────────────────────────
  **THE JSON FORMAT.**

  Reading and writing of values.  Containers may be nested up to a depth of
  127; surrogate escapes must come in pairs.
-/
import AssetBundler.Data.Number
import AssetBundler.Data.Value
import AssetBundler.Text.Quoted
import AssetBundler.Text.Scan

namespace AssetBundler.Data.Json

open AssetBundler.Text

/-! ## §1. Blanks and numbers. -/

/-- A blank of the format. -/
def isBlank (c : Char) : Bool :=
  c == ' ' || c == '\n' || c == '\t' || c == '\r'

/-- Passes over blanks. -/
def blanks : Scan Unit := do
  let _ ← Scan.takeWhile isBlank

/-- The digits before the point: a zero or digits that do not begin with one. -/
def wholeDigits : Scan (List Char) := do
  if ← Scan.eat '0' then return ['0']
  Scan.takeWhile1 isAsciiDigit

/-- The exponent of a number, if it has one. -/
def exponent : Scan (Option Int) := do
  if ← Scan.eatOneOf ['e', 'E'] then
    let negative ← Scan.eat '-'
    unless negative do
      let _ ← Scan.eat '+'
    let n := decimalNumber (← Scan.takeWhile1 isAsciiDigit)
    return some (if negative then -n else n)
  return none

/-- A number. What has neither point nor exponent and fits 64 bits is an integer. -/
def number : Scan Value := do
  let start ← get
  let negative ← Scan.eat '-'
  let whole ← wholeDigits
  let fraction? ← do
    if ← Scan.eat '.' then some <$> Scan.takeWhile1 isAsciiDigit else pure none
  let exponent? ← exponent
  let spelling := String.ofList (start.take (start.length - (← get).length))
  let n := decimalNumber whole
  Scan.require (inDoubleRange whole (fraction?.getD []) (exponent?.getD 0))
  if fraction?.isSome || exponent?.isSome then return .real spelling
  if negative then
    return if 0 < n && n ≤ Nat.pow 2 63 then .integer (-n) else .real spelling
  return if n < UInt64.size then .integer n else .real spelling

/-! ## §2. Strings. -/

/-- Four hexadecimal digits. -/
def hex4 : Scan Nat := do
  let digits ← Scan.take 4
  Scan.require (digits.all isHexDigit)
  return hexNumber digits

/-- The character of a Unicode escape, whose backslash and `u` have been read. -/
def unicodeEscape : Scan Char := do
  let n ← hex4
  if 0xD800 ≤ n && n < 0xDC00 then
    Scan.expectText "\\u"
    let low ← hex4
    Scan.require (0xDC00 ≤ low && low < 0xE000)
    return Char.ofNat (0x10000 + (n - 0xD800) * 0x400 + (low - 0xDC00))
  Scan.require !(0xDC00 ≤ n && n < 0xE000)
  return Char.ofNat n

/-- The character of an escape, whose backslash has been read. -/
def escape : Scan Char := do
  match ← Scan.next with
  | '"' => return '"'
  | '\\' => return '\\'
  | '/' => return '/'
  | 'b' => return '\x08'
  | 'f' => return '\x0c'
  | 'n' => return '\n'
  | 'r' => return '\r'
  | 't' => return '\t'
  | 'u' => unicodeEscape
  | _ => Scan.fail

/-- The characters of a string up to its closing quote; the argument exceeds their number. -/
def stringRest : Nat → Scan (List Char)
  | 0 => Scan.fail
  | bound + 1 => do
    match ← Scan.next with
    | '"' => return []
    | '\\' =>
      let c ← escape
      return c :: (← stringRest bound)
    | c =>
      Scan.require (0x20 ≤ c.toNat)
      return c :: (← stringRest bound)

/-- A string. -/
def string : Scan String := do
  Scan.expect '"'
  return String.ofList (← stringRest ((← get).length + 1))

/-! ## §3. Values. -/

/-- Items up to a closing character, with commas between them; the last argument exceeds their
number. -/
def separated {α : Type} (close : Char) (item : Scan α) : Nat → Scan (List α)
  | 0 => Scan.fail
  | bound + 1 => do
    let first ← item
    blanks
    if ← Scan.eat close then return [first]
    Scan.expect ','
    blanks
    return first :: (← separated close item bound)

/-- The items of a container, whose opening character has been read. -/
def container {α : Type} (close : Char) (item : Scan α) : Scan (List α) := do
  blanks
  if ← Scan.eat close then return []
  separated close item ((← get).length + 1)

/-- A member of an object. -/
def member (value : Scan Value) : Scan (String × Value) := do
  let key ← string
  blanks
  Scan.expect ':'
  blanks
  return (key, ← value)

/-- A value whose containers are nested less than `depth` deep. -/
def value : Nat → Scan Value
  | 0 => Scan.fail
  | depth + 1 => do
    match ← Scan.peek? with
    | some '"' => return .text (← string)
    | some '[' =>
      let _ ← Scan.next
      Scan.require (0 < depth)
      return .list (← container ']' (value depth))
    | some '\x7b' =>
      let _ ← Scan.next
      Scan.require (0 < depth)
      return .table (← container '\x7d' (member (value depth)))
    | some 'n' =>
      Scan.expectText "null"
      return .null
    | some 't' =>
      Scan.expectText "true"
      return .boolean true
    | some 'f' =>
      Scan.expectText "false"
      return .boolean false
    | _ => number

/-- How deep containers may be nested, and one more. -/
def maxDepth : Nat := 128

/-- The value that a text spells. -/
def parse? (text : String) : Option Value :=
  Scan.run? (do
    blanks
    let v ← value maxDepth
    blanks
    return v) text.toList

/-! ## §4. Writing. -/

mutual
/-- A value on one line, without blanks. -/
def compact : Value → String
  | .null => "null"
  | .boolean true => "true"
  | .boolean false => "false"
  | .integer n => toString n
  | .real spelling => spelling
  | .text s | .moment s => quote s
  | .list items => "[" ++ compactItems items ++ "]"
  | .table members => "\x7b" ++ compactMembers members ++ "\x7d"
/-- Items with commas between them. -/
def compactItems : List Value → String
  | [] => ""
  | [item] => compact item
  | item :: rest => compact item ++ "," ++ compactItems rest
/-- Members with commas between them. -/
def compactMembers : List (String × Value) → String
  | [] => ""
  | [(key, value)] => quote key ++ ":" ++ compact value
  | (key, value) :: rest => quote key ++ ":" ++ compact value ++ "," ++ compactMembers rest
end

/-- The start of a line at a depth of nesting. -/
def newline (depth : Nat) : String :=
  "\n" ++ String.ofList (List.replicate (2 * depth) ' ')

mutual
/-- A value with its items and members on lines of their own, two blanks deeper than itself. -/
def pretty (depth : Nat) : Value → String
  | .list [] => "[]"
  | .list (item :: rest) =>
    "[" ++ newline (depth + 1) ++ pretty (depth + 1) item ++ prettyItems (depth + 1) rest
      ++ newline depth ++ "]"
  | .table [] => "\x7b\x7d"
  | .table ((key, value) :: rest) =>
    "\x7b" ++ newline (depth + 1) ++ quote key ++ ": " ++ pretty (depth + 1) value
      ++ prettyMembers (depth + 1) rest ++ newline depth ++ "\x7d"
  | .null => "null"
  | .boolean true => "true"
  | .boolean false => "false"
  | .integer n => toString n
  | .real spelling => spelling
  | .text s | .moment s => quote s
/-- Further items, each behind a comma and on its own line. -/
def prettyItems (depth : Nat) : List Value → String
  | [] => ""
  | item :: rest => "," ++ newline depth ++ pretty depth item ++ prettyItems depth rest
/-- Further members, each behind a comma and on its own line. -/
def prettyMembers (depth : Nat) : List (String × Value) → String
  | [] => ""
  | (key, value) :: rest =>
    "," ++ newline depth ++ quote key ++ ": " ++ pretty depth value ++ prettyMembers depth rest
end

end AssetBundler.Data.Json
