/-
  AssetBundler.Pattern.Parser
  ────────────────────────────────
  **READING PATTERNS.**

  The written form of patterns: groups with flags, classes with set
  operations, counted repetition, escapes.  There are neither look-around nor
  back references; what asks for them is no pattern.
-/
import AssetBundler.Pattern.Basic
import AssetBundler.Text.Scan

namespace AssetBundler.Pattern.Parser

open AssetBundler.Text

/-! ## §1. Flags. -/

/-- How the pattern behind some point is read. -/
structure Flags where
  ignoreCase : Bool := false
  multiLine : Bool := false
  dotMatchesNewline : Bool := false
  swapGreed : Bool := false
  unicode : Bool := true
  crlf : Bool := false
  ignoreBlanks : Bool := false

/-- The flags with the one of a letter set; `none` for a letter without a flag. -/
def Flags.set? (flags : Flags) (letter : Char) (on : Bool) : Option Flags :=
  match letter with
  | 'i' => some { flags with ignoreCase := on }
  | 'm' => some { flags with multiLine := on }
  | 's' => some { flags with dotMatchesNewline := on }
  | 'U' => some { flags with swapGreed := on }
  | 'u' => some { flags with unicode := on }
  | 'R' => some { flags with crlf := on }
  | 'x' => some { flags with ignoreBlanks := on }
  | _ => none

/-- Sets the flags of some letters. -/
def Flags.setAll? (on : Bool) (flags : Flags) (letters : List Char) : Option Flags :=
  letters.foldlM (fun flags c => flags.set? c on) flags

/-- Letters of flags to set and, behind a hyphen, of flags to clear. No letter occurs twice, and behind
a hyphen there is at least one. -/
def readFlags (flags : Flags) : Scan Flags := do
  let on ← Scan.takeWhile isAsciiLetter
  let off? ← do
    if ← Scan.eat '-' then some <$> Scan.takeWhile1 isAsciiLetter else pure none
  let letters := on ++ off?.getD []
  Scan.require (letters.eraseDups.length == letters.length && !letters.isEmpty)
  match (flags.setAll? true on).bind fun flags => flags.setAll? false (off?.getD []) with
  | some flags => return flags
  | none => Scan.fail

/-- Passes over blanks and comments where flags say that they do not count; the last argument exceeds
the number of comments. -/
def skipIgnored (flags : Flags) : Nat → Scan Unit
  | 0 => Scan.fail
  | bound + 1 => do
    if flags.ignoreBlanks then
      let _ ← Scan.takeWhile isSpace
      if ← Scan.eat '#' then
        let _ ← Scan.takeWhile (· != '\n')
        skipIgnored flags bound

/-- Passes over what does not count. -/
def ignored (flags : Flags) : Scan Unit := do
  skipIgnored flags ((← get).length + 1)

/-! ## §2. Characters and escapes. -/

/-- A character with the case variants that the flags ask for. -/
def charSet (flags : Flags) (set : CharSet) : CharSet :=
  if flags.ignoreCase then .folded set else set

/-- The set of one character. -/
def single (c : Char) : CharSet :=
  .range c c

/-- A character by its number, in braces or with a fixed count of digits. -/
def numbered (count : Nat) : Scan Char := do
  let digits ← do
    if ← Scan.eat '\x7b' then
      let digits ← Scan.takeWhile (· != '\x7d')
      Scan.expect '\x7d'
      pure digits
    else Scan.take count
  Scan.require (!digits.isEmpty && digits.all isHexDigit)
  let n := hexNumber digits
  Scan.require (n < 0xD800 || (0xDFFF < n && n ≤ 0x10FFFF))
  return Char.ofNat n

/-- What an escape stands for. -/
inductive Escape where
  | char (c : Char)
  | set (s : CharSet)
  | assertion (a : Assertion)

/-- The boundary named in braces behind the letter of a word boundary, if there is one. -/
def namedBoundary (u : Bool) : Scan (Option Assertion) := do
  let named (s : String) (a : Assertion) : Scan (Option Assertion) := do
    return if ← Scan.eatText s then some a else none
  match ← named "\x7bstart\x7d" (.wordStart u) with
  | some a => return some a
  | none =>
    match ← named "\x7bend\x7d" (.wordEnd u) with
    | some a => return some a
    | none =>
      match ← named "\x7bstart-half\x7d" (.wordStartHalf u) with
      | some a => return some a
      | none => named "\x7bend-half\x7d" (.wordEndHalf u)

/-- An escape, whose backslash has been read. -/
def escape (flags : Flags) : Scan Escape := do
  let u := flags.unicode
  let c ← Scan.next
  match c with
  | 'd' => return .set (.digit u)
  | 'D' => return .set (.complement (.digit u))
  | 's' => return .set (.space u)
  | 'S' => return .set (.complement (.space u))
  | 'w' => return .set (.word u)
  | 'W' => return .set (.complement (.word u))
  | 'b' =>
    match ← namedBoundary u with
    | some a => return .assertion a
    | none => return .assertion (.wordBoundary u)
  | 'B' => return .assertion (.noWordBoundary u)
  | '<' => return .assertion (.wordStart u)
  | '>' => return .assertion (.wordEnd u)
  | 'A' => return .assertion .textStart
  | 'z' => return .assertion .textEnd
  | 'a' => return .char '\x07'
  | 'f' => return .char '\x0c'
  | 't' => return .char '\t'
  | 'n' => return .char '\n'
  | 'r' => return .char '\r'
  | 'v' => return .char '\x0b'
  | 'x' => return .char (← numbered 2)
  | 'u' => return .char (← numbered 4)
  | 'U' => return .char (← numbered 8)
  | c =>
    Scan.require (c.toNat < 128 && !isAsciiLetter c && !isAsciiDigit c)
    return .char c

/-! ## §3. Classes. -/

/-- Named classes of ASCII characters. -/
def namedClasses : List (String × CharSet) :=
  let range (low high : Char) : CharSet := .range low high
  let lower := range 'a' 'z'
  let upper := range 'A' 'Z'
  let digit := range '0' '9'
  let punct := CharSet.union [range '!' '/', range ':' '@', range '[' '\x60', range '\x7b' '~']
  [("alnum", .union [lower, upper, digit]), ("alpha", .union [lower, upper]),
   ("ascii", range '\x00' '\x7f'), ("blank", .union [single ' ', single '\t']),
   ("cntrl", .union [range '\x00' '\x1f', single '\x7f']), ("digit", digit),
   ("graph", range '!' '~'), ("lower", lower), ("print", range ' ' '~'), ("punct", punct),
   ("space", .union [range '\t' '\x0d', single ' ']), ("upper", upper),
   ("word", .union [lower, upper, digit, single '_']),
   ("xdigit", .union [digit, range 'a' 'f', range 'A' 'F'])]

/-- A named class, behind its opening bracket. -/
def namedClass : Scan CharSet := do
  Scan.expect ':'
  let negated ← Scan.eat '^'
  let name ← Scan.takeWhile (· != ':')
  Scan.expectText ":]"
  match namedClasses.lookup (String.ofList name) with
  | some set => return if negated then .complement set else set
  | none => Scan.fail

/-- An end of a range, or a set that is none. -/
def classAtom (flags : Flags) : Scan Escape := do
  let c ← Scan.next
  if c == '\\' then
    match ← escape flags with
    | .assertion _ => Scan.fail
    | e => return e
  else return .char c

/-- Takes off the hyphen of a range, if one is next; a hyphen before a closing bracket or another
hyphen is none. -/
def rangeHyphen (flags : Flags) : Scan Bool := do
  ignored flags
  let found ← Scan.attempt (do
    Scan.expect '-'
    ignored flags
    Scan.require (!(← Scan.peek?).any fun c => c == ']' || c == '-'))
  return found.isSome

/-- A range, one character or a set. Both ends of a range are characters. -/
def classItem (flags : Flags) : Scan CharSet := do
  let first ← classAtom flags
  if ← rangeHyphen flags then
    match first, ← classAtom flags with
    | .char low, .char high =>
      Scan.require (low ≤ high)
      return .range low high
    | _, _ => Scan.fail
  else
    match first with
    | .char c => return single c
    | .set set => return set
    | .assertion _ => Scan.fail

/-- An operation between two parts of a class. -/
inductive SetOperation where
  | intersection | difference | symmetricDifference

/-- The operation that comes next, if one does. -/
def setOperation : Scan (Option SetOperation) := do
  if ← Scan.eatText "&&" then return some .intersection
  if ← Scan.eatText "--" then return some .difference
  if ← Scan.eatText "~~" then return some .symmetricDifference
  return none

/-- What an operation gives. -/
def SetOperation.apply (a b : CharSet) : SetOperation → CharSet
  | intersection => .intersection a b
  | difference => .difference a b
  | symmetricDifference => .symmetricDifference a b

/-- A class under construction: what stands before the last operation, and the items since. -/
structure ClassState where
  before? : Option (CharSet × SetOperation) := none
  items : List CharSet := []

/-- The set that has been built. -/
def ClassState.close (s : ClassState) : CharSet :=
  match s.before? with
  | some (before, operation) => operation.apply before (.union s.items)
  | none => .union s.items

/-- The rest of a class up to its closing bracket; `inner` reads a class inside it. The last argument
exceeds the number of items. -/
def classRest (flags : Flags) (inner : Scan CharSet) (state : ClassState) :
    Nat → Scan CharSet
  | 0 => Scan.fail
  | bound + 1 => do
    ignored flags
    if ← Scan.eat ']' then return state.close
    match ← setOperation with
    | some operation =>
      classRest flags inner { before? := some (state.close, operation) } bound
    | none =>
      let item ← do
        if (← Scan.peek?) == some '[' then
          match ← Scan.attempt (do
            let _ ← Scan.next
            namedClass) with
          | some set => pure set
          | none => inner
        else classItem flags
      classRest flags inner { state with items := state.items ++ [item] } bound

/-- A class at its opening bracket, nested less than the first argument deep. -/
def readClass (flags : Flags) : Nat → Scan CharSet
  | 0 => Scan.fail
  | depth + 1 => do
    Scan.expect '['
    ignored flags
    let negated ← Scan.eat '^'
    ignored flags
    let hyphens ← Scan.takeWhile (· == '-')
    let first ← do
      if hyphens.isEmpty then
        if ← Scan.eat ']' then pure [single ']'] else pure []
      else pure [single '-']
    let set ← classRest flags (readClass flags depth) { items := first } ((← get).length + 1)
    let set := charSet flags set
    return if negated then .complement set else set

/-! ## §4. Repetition. -/

/-- A number of repetitions, with blanks around it. -/
def count : Scan Nat := do
  let _ ← Scan.takeWhile isSpace
  let digits ← Scan.takeWhile1 isAsciiDigit
  let _ ← Scan.takeWhile isSpace
  let n := decimalNumber digits
  Scan.require (n < UInt32.size)
  return n

/-- Bounds in braces, behind the opening one: the least number and, if it is limited, the greatest. -/
def bounds : Scan (Nat × Option Nat) := do
  let least ← count
  if ← Scan.eat ',' then
    let _ ← Scan.takeWhile isSpace
    if ← Scan.eat '\x7d' then return (least, none)
    let most ← count
    Scan.expect '\x7d'
    Scan.require (least ≤ most)
    return (least, some most)
  Scan.expect '\x7d'
  return (least, some least)

/-- The bounds of a repetition operator, if one comes next. -/
def repetition (flags : Flags) : Scan (Option (Nat × Option Nat)) := do
  let found ← do
    if ← Scan.eat '*' then pure (some (0, none))
    else if ← Scan.eat '+' then pure (some (1, none))
    else if ← Scan.eat '?' then pure (some (0, some 1))
    else if ← Scan.eat '\x7b' then
      let found ← bounds
      ignored flags
      pure (some found)
    else pure none
  if found.isSome then
    let _ ← Scan.eat '?'
  return found

/-- A pattern with the repetition operators behind it; the last argument exceeds their number. -/
def repeat_ (flags : Flags) (p : Pattern) : Nat → Scan Pattern
  | 0 => Scan.fail
  | bound + 1 => do
    ignored flags
    match ← repetition flags with
    | some (least, most?) =>
      repeat_ flags (.repeated p least (most?.map (· - least))) bound
    | none => return p

/-! ## §5. Groups. -/

/-- A character that may begin the name of a group. -/
def beginsName (c : Char) : Bool :=
  c == '_' || (isWord c && !isDecimalDigit c)

/-- A character that may continue the name of a group. -/
def continuesName (c : Char) : Bool :=
  isWord c || c == '.' || c == '[' || c == ']'

/-- The name of a group and its closing bracket. -/
def groupName : Scan (List Char) := do
  let name ← Scan.takeWhile1 continuesName
  Scan.require (name.head?.any beginsName)
  Scan.expect '>'
  return name

/-- What an opening parenthesis begins. -/
inductive GroupStart where
  | group (flags : Flags) (name? : Option (List Char))
  /-- Flags for what follows. -/
  | flags (flags : Flags)

/-- The beginning of a group, behind the opening parenthesis. -/
def groupStart (flags : Flags) : Scan GroupStart := do
  ignored flags
  if !(← Scan.eat '?') then return .group flags none
  if ← Scan.eatText "P<" then return .group flags (some (← groupName))
  if ← Scan.eat '<' then return .group flags (some (← groupName))
  if ← Scan.eat ':' then return .group flags none
  let flags ← readFlags flags
  if ← Scan.eat ':' then return .group flags none
  Scan.expect ')'
  return .flags flags

/-- Any character but those that end a line. -/
def dot (flags : Flags) : CharSet :=
  if flags.dotMatchesNewline then .complement (.union [])
  else if flags.crlf then .complement (.union [single '\n', single '\r'])
  else .complement (single '\n')

/-- One item of a sequence that is no group. -/
def plainItem (flags : Flags) : Scan Pattern := do
  match ← Scan.peek? with
  | some '[' => return .one (← readClass flags ((← get).length + 1))
  | _ =>
    let c ← Scan.next
    match c with
    | '*' | '+' | '?' | '\x7b' => Scan.fail
    | '.' => return .one (dot flags)
    | '^' => return .assert (if flags.multiLine then .lineStart flags.crlf else .textStart)
    | '$' => return .assert (if flags.multiLine then .lineEnd flags.crlf else .textEnd)
    | '\\' =>
      match ← escape flags with
      | .char c => return .one (charSet flags (single c))
      | .set set => return .one set
      | .assertion a => return .assert a
    | c => return .one (charSet flags (single c))

/-- A pattern and the names of the groups in it. -/
structure Reading where
  pattern : Pattern
  names : List (List Char) := []

/-- What is read next is added behind. -/
def Reading.append (r : Reading) (p : Pattern) (names : List (List Char)) : Reading :=
  ⟨.both r.pattern p, r.names ++ names⟩

/-- A sequence and the flags behind it, up to a bar, a closing parenthesis or the end; `inner` reads
the inside of a group. The last argument exceeds the number of items. -/
def sequence (inner : Flags → Scan Reading) (flags : Flags) (before : Reading) :
    Nat → Scan (Reading × Flags)
  | 0 => Scan.fail
  | bound + 1 => do
    ignored flags
    match ← Scan.peek? with
    | none | some '|' | some ')' => return (before, flags)
    | some '(' =>
      let _ ← Scan.next
      match ← groupStart flags with
      | .flags flags =>
        Scan.require !((← Scan.peek?).any fun c => ['*', '+', '?', '\x7b'].contains c)
        sequence inner flags before bound
      | .group innerFlags name? =>
        let group ← inner innerFlags
        Scan.expect ')'
        let p ← repeat_ flags group.pattern ((← get).length + 1)
        sequence inner flags (before.append p (name?.toList ++ group.names)) bound
    | some _ =>
      let p ← plainItem flags
      let p ← repeat_ flags p ((← get).length + 1)
      sequence inner flags (before.append p []) bound

/-- Sequences with bars between them; flags that one sets hold in the next. -/
def choices (inner : Flags → Scan Reading) (flags : Flags) : Nat → Scan Reading
  | 0 => Scan.fail
  | bound + 1 => do
    let (first, flags) ← sequence inner flags ⟨.empty, []⟩ ((← get).length + 1)
    if ← Scan.eat '|' then
      let others ← choices inner flags bound
      return ⟨.either first.pattern others.pattern, first.names ++ others.names⟩
    return first

/-- A pattern whose groups are nested less than the first argument deep. -/
def reading : Nat → Flags → Scan Reading
  | 0, _ => Scan.fail
  | depth + 1, flags => do
    choices (reading depth) flags ((← get).length + 1)

end AssetBundler.Pattern.Parser

namespace AssetBundler

/-- The pattern that a text spells. No two of its groups have one name. -/
def Pattern.parse? (text : String) : Option Pattern := do
  let found ← Text.Scan.run? (Parser.reading 250 {}) text.toList
  if found.names.eraseDups.length == found.names.length then some found.pattern else none

end AssetBundler
