/-
  AssetBundler.Text.Scan
  ────────────────────────────────
  **READING TEXT FROM THE FRONT.**

  A scanner takes characters off the front of a text and gives a result, or
  fails.  The readers of data formats and patterns are made of these.
-/
import AssetBundler.Text.Search

namespace AssetBundler.Text

/-- Takes characters off the front of a text, or fails. -/
abbrev Scan := StateT (List Char) Option

namespace Scan

/-- Gives up. -/
def fail {α : Type} : Scan α := fun _ => none

/-- Goes on only under a condition. -/
def require (condition : Bool) : Scan Unit :=
  if condition then pure () else fail

/-- The next character, left in place. -/
def peek? : Scan (Option Char) := do
  return (← get).head?

/-- Nothing is left. -/
def atEnd : Scan Bool := do
  return (← get).isEmpty

/-- The next character. -/
def next : Scan Char := do
  match ← get with
  | c :: rest =>
    set rest
    return c
  | [] => fail

/-- Takes a character off if it is the next. -/
def eat (c : Char) : Scan Bool := do
  match ← get with
  | d :: rest =>
    if c == d then
      set rest
      return true
    else return false
  | [] => return false

/-- Takes the next character off if it is one of a list. -/
def eatOneOf (cs : List Char) : Scan Bool := do
  match ← get with
  | d :: rest =>
    if cs.contains d then
      set rest
      return true
    else return false
  | [] => return false

/-- Takes a character off, which must be the next. -/
def expect (c : Char) : Scan Unit := do
  require (← eat c)

/-- Takes a text off if it is what comes next. -/
def eatText (s : String) : Scan Bool := do
  match dropPrefix? s.toList (← get) with
  | some rest =>
    set rest
    return true
  | none => return false

/-- Takes a text off, which must be what comes next. -/
def expectText (s : String) : Scan Unit := do
  require (← eatText s)

/-- The characters up to the first that fails a test. -/
def takeWhile (test : Char → Bool) : Scan (List Char) := do
  let text ← get
  set (text.dropWhile test)
  return text.takeWhile test

/-- One character or more that satisfy a test. -/
def takeWhile1 (test : Char → Bool) : Scan (List Char) := do
  let taken ← takeWhile test
  require !taken.isEmpty
  return taken

/-- A number of characters. -/
def take (count : Nat) : Scan (List Char) := do
  let text ← get
  require (count ≤ text.length)
  set (text.drop count)
  return text.take count

/-- What a scanner finds, or nothing and the text left in place when it fails. -/
def attempt {α : Type} (scan : Scan α) : Scan (Option α) := fun text =>
  match scan text with
  | some (a, rest) => some (some a, rest)
  | none => some (none, text)

/-- Items as long as `more` holds; `bound` exceeds their number. -/
def many {α : Type} (more : Scan Bool) (item : Scan α) : Nat → Scan (List α)
  | 0 => fail
  | bound + 1 => do
    if ← more then
      let first ← item
      return first :: (← many more item bound)
    return []

/-- The result of a scanner that reads a whole text. -/
def run? {α : Type} (scan : Scan α) (text : List Char) : Option α :=
  match scan text with
  | some (a, []) => some a
  | _ => none

end Scan

end AssetBundler.Text
