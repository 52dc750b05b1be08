/-
  AssetBundler.Data.Toml
  ────────────────────────────────
  **THE TOML FORMAT.**

  A document is a list of entries: keys with values, and headers that open
  tables.  `entries` reads them; `assemble` puts them together and refuses
  what defines a table or a key twice.
-/
import AssetBundler.Data.Number
import AssetBundler.Data.Value
import AssetBundler.Text.Scan

namespace AssetBundler.Data.Toml

open AssetBundler.Text

/-! ## §1. Blanks, line ends and comments. -/

/-- A blank inside a line. -/
def isBlank (c : Char) : Bool :=
  c == ' ' || c == '\t'

/-- Passes over blanks. -/
def blanks : Scan Unit := do
  let _ ← Scan.takeWhile isBlank

/-- A character that may stand in a comment or a string: a tab or no control character. -/
def isPlain (c : Char) : Bool :=
  c == '\t' || (0x20 ≤ c.toNat && c.toNat != 0x7F)

/-- Takes a line end off, if one is next. -/
def eatNewline : Scan Bool := do
  if ← Scan.eat '\n' then return true
  Scan.eatText "\r\n"

/-- Passes over a comment, if one is next. -/
def comment : Scan Unit := do
  if ← Scan.eat '#' then
    let _ ← Scan.takeWhile isPlain

/-- Passes over blanks, line ends and comments; the argument exceeds the number of lines. -/
def spacing : Nat → Scan Unit
  | 0 => Scan.fail
  | bound + 1 => do
    blanks
    comment
    if ← eatNewline then spacing bound

/-! ## §2. Strings. -/

/-- A character given by a number of hexadecimal digits. -/
def codePoint (count : Nat) : Scan Char := do
  let digits ← Scan.take count
  Scan.require (digits.all isHexDigit)
  let n := hexNumber digits
  Scan.require (n < 0xD800 || (0xDFFF < n && n ≤ 0x10FFFF))
  return Char.ofNat n

/-- The character of an escape, whose backslash has been read. -/
def escape : Scan Char := do
  match ← Scan.next with
  | 'b' => return '\x08'
  | 't' => return '\t'
  | 'n' => return '\n'
  | 'f' => return '\x0c'
  | 'r' => return '\r'
  | '"' => return '"'
  | '\\' => return '\\'
  | 'u' => codePoint 4
  | 'U' => codePoint 8
  | _ => Scan.fail

/-- A string with escapes on one line, behind its opening quote; the argument exceeds its length. -/
def basicRest : Nat → Scan (List Char)
  | 0 => Scan.fail
  | bound + 1 => do
    match ← Scan.next with
    | '"' => return []
    | '\\' =>
      let c ← escape
      return c :: (← basicRest bound)
    | c =>
      Scan.require (isPlain c)
      return c :: (← basicRest bound)

/-- A string without escapes on one line, behind its opening quote. -/
def literalRest : Scan (List Char) := do
  let text ← Scan.takeWhile fun c => isPlain c && c != '\''
  Scan.expect '\''
  return text

/-- Closing quotes of a string over several lines, if three stand here: those of the up to five that
belong to the string. -/
def closingQuotes (quote : Char) : Scan (Option (List Char)) := do
  let quotes := (← get).takeWhile (· == quote)
  if quotes.length < 3 then return none
  let count := min quotes.length 5
  let _ ← Scan.take count
  return some (List.replicate (count - 3) quote)

/-- Passes over blanks and line ends; the argument exceeds the number of lines. -/
def blankLines : Nat → Scan Unit
  | 0 => Scan.fail
  | bound + 1 => do
    blanks
    if ← eatNewline then blankLines bound

/-- Passes over blanks and line ends behind a backslash that ends a line. -/
def lineContinuation : Scan Bool := do
  let found ← Scan.attempt (do
    blanks
    Scan.require (← eatNewline))
  if found.isSome then
    blankLines ((← get).length + 1)
    return true
  return false

/-- A string over several lines behind its opening quotes; the last argument exceeds its length. -/
def multilineRest (quote : Char) : Nat → Scan (List Char)
  | 0 => Scan.fail
  | bound + 1 => do
    match ← closingQuotes quote with
    | some own => return own
    | none =>
      if ← eatNewline then return '\n' :: (← multilineRest quote bound)
      let c ← Scan.next
      if c == '\\' && quote == '"' then
        if ← lineContinuation then multilineRest quote bound
        else
          let c ← escape
          return c :: (← multilineRest quote bound)
      else
        Scan.require (isPlain c)
        return c :: (← multilineRest quote bound)

/-- A string of one of the four kinds. -/
def string : Scan String := do
  let bound := (← get).length + 1
  let chars ←
    if ← Scan.eatText "\"\"\"" then
      let _ ← eatNewline
      multilineRest '"' bound
    else if ← Scan.eatText "'''" then
      let _ ← eatNewline
      multilineRest '\'' bound
    else if ← Scan.eat '"' then basicRest bound
    else
      Scan.expect '\''
      literalRest
  return String.ofList chars

/-! ## §3. Keys. -/

/-- A character of a key without quotes. -/
def isBareKey (c : Char) : Bool :=
  isAsciiLetter c || isAsciiDigit c || c == '_' || c == '-'

/-- One key. -/
def simpleKey : Scan String := do
  match ← Scan.peek? with
  | some '"' =>
    let _ ← Scan.next
    return String.ofList (← basicRest ((← get).length + 1))
  | some '\'' =>
    let _ ← Scan.next
    return String.ofList (← literalRest)
  | _ => return String.ofList (← Scan.takeWhile1 isBareKey)

/-- Keys with dots between them, and the blanks around each. -/
def dottedKey : Nat → Scan (List String)
  | 0 => Scan.fail
  | bound + 1 => do
    blanks
    let first ← simpleKey
    blanks
    if ← Scan.eat '.' then return first :: (← dottedKey bound)
    return [first]

/-! ## §4. Numbers and moments. -/

/-- Digits of a class with single underscores between them, without the underscores. -/
def separatedDigits (isDigit : Char → Bool) : Nat → Scan (List Char)
  | 0 => Scan.fail
  | bound + 1 => do
    let first ← Scan.takeWhile1 isDigit
    if ← Scan.eat '_' then return first ++ (← separatedDigits isDigit bound)
    return first

/-- A whole number in a given base, behind its two-character mark. -/
def radixInteger (mark : String) (base : Nat) (isDigit : Char → Bool) : Scan Value := do
  Scan.expectText mark
  let digits ← separatedDigits isDigit ((← get).length + 1)
  let n := digits.foldl (fun n c => base * n + hexValue c) 0
  Scan.require (n < Nat.pow 2 63)
  return .integer n

/-- A sign, if one is next: whether it is a minus. -/
def sign : Scan Bool := do
  if ← Scan.eat '-' then return true
  let _ ← Scan.eat '+'
  return false

/-- The digits of a decimal number, which do not begin with a zero unless that is all. -/
def decimalDigits : Scan (List Char) := do
  let digits ← separatedDigits isAsciiDigit ((← get).length + 1)
  Scan.require (digits.length = 1 || digits.head? != some '0')
  return digits

/-- A decimal whole number. -/
def decimalInteger : Scan Value := do
  let negative ← sign
  let n := decimalNumber (← decimalDigits)
  Scan.require (if negative then n ≤ Nat.pow 2 63 else n < Nat.pow 2 63)
  return .integer (if negative then -n else n)

/-- The exponent of a number, if it has one. -/
def exponent : Scan (Option Int) := do
  if ← Scan.eatOneOf ['e', 'E'] then
    let negative ← sign
    let n := decimalNumber (← separatedDigits isAsciiDigit ((← get).length + 1))
    return some (if negative then -n else n)
  return none

/-- A number with a point or an exponent, or one of the words for infinity and for no number. -/
def real : Scan Value := do
  let start ← get
  let _ ← sign
  let special ← do
    if ← Scan.eatText "inf" then pure true else Scan.eatText "nan"
  unless special do
    let whole ← decimalDigits
    let fraction? ← do
      if ← Scan.eat '.' then
        some <$> separatedDigits isAsciiDigit ((← get).length + 1)
      else pure none
    let exponent? ← exponent
    Scan.require (fraction?.isSome || exponent?.isSome)
    Scan.require (inDoubleRange whole (fraction?.getD []) (exponent?.getD 0))
  return .real (String.ofList (start.take (start.length - (← get).length)))

/-- A number of two digits within bounds. -/
def twoDigits (low high : Nat) : Scan Nat := do
  let digits ← Scan.take 2
  let n := decimalNumber digits
  Scan.require (digits.all isAsciiDigit && low ≤ n && n ≤ high)
  return n

/-- How many days a month has. -/
def daysIn (year month : Nat) : Nat :=
  if month == 2 then
    if year % 4 == 0 && (year % 100 != 0 || year % 400 == 0) then 29 else 28
  else if [4, 6, 9, 11].contains month then 30
  else 31

/-- A date. -/
def date : Scan Unit := do
  let digits ← Scan.take 4
  Scan.require (digits.all isAsciiDigit)
  Scan.expect '-'
  let month ← twoDigits 1 12
  Scan.expect '-'
  let _ ← twoDigits 1 (daysIn (decimalNumber digits) month)

/-- A time of day. -/
def time : Scan Unit := do
  let _ ← twoDigits 0 23
  Scan.expect ':'
  let _ ← twoDigits 0 59
  Scan.expect ':'
  let _ ← twoDigits 0 60
  if ← Scan.eat '.' then
    let _ ← Scan.takeWhile1 isAsciiDigit

/-- The distance of a time from universal time, if it is given. -/
def offset : Scan Unit := do
  if ← Scan.eatOneOf ['Z', 'z'] then return ()
  if ← Scan.eatOneOf ['+', '-'] then
    let _ ← twoDigits 0 23
    Scan.expect ':'
    let _ ← twoDigits 0 59

/-- The time of a date, behind what parts them. -/
def timeOfDate : Scan Unit := do
  let c ← Scan.next
  Scan.require (c == 'T' || c == 't' || c == ' ')
  time
  offset

/-- A date, a time, or both. -/
def moment : Scan Value := do
  let start ← get
  match ← Scan.attempt date with
  | some _ => let _ ← Scan.attempt timeOfDate
  | none => time
  return .moment (String.ofList (start.take (start.length - (← get).length)))

/-- The first of some scanners that succeeds. -/
def firstOf {α : Type} : List (Scan α) → Scan α
  | [] => Scan.fail
  | scan :: rest => do
    match ← Scan.attempt scan with
    | some a => return a
    | none => firstOf rest

/-- A number or a moment. -/
def numeric : Scan Value :=
  firstOf [moment, real, radixInteger "0x" 16 isHexDigit,
    radixInteger "0o" 8 (fun c => '0' ≤ c && c ≤ '7'),
    radixInteger "0b" 2 (fun c => c == '0' || c == '1'), decimalInteger]

/-! ## §5. Tables under construction. -/

/-- How a table came to be. -/
inductive Origin where
  /-- By a header of its own, or as an element of a list of tables. -/
  | header
  /-- By a header of a table inside it. -/
  | implied
  /-- By a key with dots. -/
  | dotted
  deriving DecidableEq, Repr

/-- What a key stands for while a document is read. -/
inductive Item where
  | value (v : Value)
  | table (origin : Origin) (members : List (String × Item))
  /-- A list of tables, each opened by a header. -/
  | tables (elements : List (List (String × Item)))

/-- The members of a table under construction. -/
abbrev Members := List (String × Item)

mutual
/-- The value that an item amounts to. -/
def Item.toValue : Item → Value
  | .value v => v
  | .table _ members => .table (membersToValues members)
  | .tables elements => .list (elementsToValues elements)
/-- The values of members. -/
def membersToValues : List (String × Item) → List (String × Value)
  | [] => []
  | (key, item) :: rest => (key, item.toValue) :: membersToValues rest
/-- The values of the elements of a list of tables. -/
def elementsToValues : List (List (String × Item)) → List Value
  | [] => []
  | members :: rest => .table (membersToValues members) :: elementsToValues rest
end

/-- The members with another item for a key that is there. -/
def replaceItem (key : String) (item : Item) (members : Members) : Members :=
  members.map fun m => if m.1 == key then (key, item) else m

/-- Follows keys into a table and changes the table at their end; what is missing on the way is made.
Keys with dots do not lead into a table that has a header. -/
def descend (dotted : Bool) (change : Origin → Members → Option Members) :
    Origin → List String → Members → Option Members
  | origin, [], members => change origin members
  | _, key :: rest, members =>
    match members.lookup key with
    | none =>
      let origin := if dotted then Origin.dotted else .implied
      (descend dotted change origin rest []).map fun inner =>
        members ++ [(key, .table origin inner)]
    | some (.value _) => none
    | some (.table origin inner) =>
      if dotted && origin == .header then none
      else (descend dotted change origin rest inner).map fun inner =>
        replaceItem key (.table origin inner) members
    | some (.tables elements) =>
      match elements.getLast? with
      | none => none
      | some last =>
        (descend dotted change .header rest last).map fun last =>
          replaceItem key (.tables (elements.dropLast ++ [last])) members

/-- Adds a value under a key with dots, given as its last part and those before; `origin` is that of
the table. -/
def addValue (before : List String) (key : String) (v : Value) (origin : Origin)
    (members : Members) : Option Members :=
  descend true (fun origin members =>
    if (origin == .dotted) == before.isEmpty then none
    else if (members.lookup key).isSome then none
    else some (members ++ [(key, .value v)])) origin before members

/-- The last of some keys, and those before. -/
def splitLast (keys : List String) : List String × String :=
  (keys.dropLast, keys.getLast?.getD "")

/-! ## §6. Values. -/

/-- Items of a list up to its closing bracket, where a comma may stand behind the last. -/
def listItems (value : Scan Value) : Nat → Scan (List Value)
  | 0 => Scan.fail
  | bound + 1 => do
    spacing ((← get).length + 1)
    if ← Scan.eat ']' then return []
    let first ← value
    spacing ((← get).length + 1)
    if ← Scan.eat ']' then return [first]
    Scan.expect ','
    return first :: (← listItems value bound)

/-- A key with its value. -/
def keyValue (value : Scan Value) : Scan (List String × Value) := do
  let keys ← dottedKey ((← get).length + 1)
  Scan.expect '='
  blanks
  return (keys, ← value)

/-- The entries of a table in braces, behind the opening one. -/
def inlineEntries (value : Scan Value) : Nat → Scan (List (List String × Value))
  | 0 => Scan.fail
  | bound + 1 => do
    let first ← keyValue value
    blanks
    if ← Scan.eat '\x7d' then return [first]
    Scan.expect ','
    return first :: (← inlineEntries value bound)

/-- The table of some entries; no key is given twice. -/
def inlineTable (entries : List (List String × Value)) : Option Value :=
  let members? := entries.foldlM (fun members (keys, v) =>
    let (before, key) := splitLast keys
    addValue before key v .header members) ([] : Members)
  members?.map fun members => .table (membersToValues members)

/-- A value whose lists and tables are nested less than `depth` deep. -/
def value : Nat → Scan Value
  | 0 => Scan.fail
  | depth + 1 => do
    match ← Scan.peek? with
    | some '"' | some '\'' => return .text (← string)
    | some '[' =>
      let _ ← Scan.next
      return .list (← listItems (value depth) ((← get).length + 1))
    | some '\x7b' =>
      let _ ← Scan.next
      blanks
      if ← Scan.eat '\x7d' then return .table []
      match inlineTable (← inlineEntries (value depth) ((← get).length + 1)) with
      | some table => return table
      | none => Scan.fail
    | some 't' =>
      Scan.expectText "true"
      return .boolean true
    | some 'f' =>
      Scan.expectText "false"
      return .boolean false
    | _ => numeric

/-- How deep lists and tables may be nested. -/
def maxDepth : Nat := 80

/-! ## §7. Documents. -/

/-- An entry of a document. -/
inductive DocumentEntry where
  | keyValue (keys : List String) (v : Value)
  /-- A header that opens a table. -/
  | table (keys : List String)
  /-- A header that opens one more element of a list of tables. -/
  | element (keys : List String)

/-- A header, if one is next. -/
def header : Scan (Option DocumentEntry) := do
  let bound := (← get).length + 1
  if ← Scan.eatText "[[" then
    let keys ← dottedKey bound
    Scan.expectText "]]"
    return some (.element keys)
  if ← Scan.eat '[' then
    let keys ← dottedKey bound
    Scan.expect ']'
    return some (.table keys)
  return none

/-- The entry of a line, if it has one. -/
def line : Scan (List DocumentEntry) := do
  blanks
  let entry ← do
    match ← Scan.peek? with
    | none | some '\n' | some '\r' | some '#' => pure []
    | _ =>
      match ← header with
      | some entry => pure [entry]
      | none =>
        let (keys, v) ← keyValue (value maxDepth)
        pure [.keyValue keys v]
  blanks
  comment
  Scan.require ((← eatNewline) || (← Scan.atEnd))
  return entry

/-- The entries of a document. -/
def entries (text : List Char) : Option (List DocumentEntry) :=
  let text := match text with
    | '\ufeff' :: rest => rest
    | text => text
  (Scan.run? (Scan.many (do return !(← Scan.atEnd)) line (text.length + 1)) text).map
    List.flatten

/-- Opens a table by a header; one that only a header inside it implied is completed. -/
def openTable (key : String) (_ : Origin) (members : Members) : Option Members :=
  match members.lookup key with
  | none => some (members ++ [(key, .table .header [])])
  | some (.table .implied inner) => some (replaceItem key (.table .header inner) members)
  | some _ => none

/-- Opens one more element of a list of tables. -/
def openElement (key : String) (_ : Origin) (members : Members) : Option Members :=
  match members.lookup key with
  | none => some (members ++ [(key, .tables [[]])])
  | some (.tables elements) => some (replaceItem key (.tables (elements ++ [[]])) members)
  | some _ => none

/-- Adds entries to a document; `current` leads to the table that was opened last. -/
def assemble : List DocumentEntry → List String → Members → Option Members
  | [], _, root => some root
  | .keyValue keys v :: rest, current, root => do
    let (before, key) := splitLast keys
    let root ← descend false (addValue before key v) .header current root
    assemble rest current root
  | .table keys :: rest, _, root => do
    let (before, key) := splitLast keys
    let root ← descend false (openTable key) .header before root
    assemble rest keys root
  | .element keys :: rest, _, root => do
    let (before, key) := splitLast keys
    let root ← descend false (openElement key) .header before root
    assemble rest keys root

/-- The table that a document spells. -/
def parse? (text : String) : Option Value := do
  let root ← assemble (← entries text.toList) [] []
  return .table (membersToValues root)

end AssetBundler.Data.Toml
