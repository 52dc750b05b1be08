/-
  AssetBundler.Text.CharClass
  ────────────────────────────────
  **UNICODE CLASSES OF CHARACTERS.**

  Predicates for word characters, decimal digits, white space and the
  characters of identifiers, and the simple case folding.  The ASCII part of
  every class is spelled out, so that statements about ASCII text need no
  table; beyond ASCII the tables of `UnicodeRanges` decide.
-/
import AssetBundler.Text.UnicodeRanges

namespace AssetBundler.Text

open UnicodeRanges

/-! ## §1. Membership in a table of ranges. -/

/-- Some range of the table holds the code point. -/
def inRanges (ranges : Array (Nat × Nat)) (n : Nat) : Bool :=
  ranges.any fun r => r.1 ≤ n && n ≤ r.2

/-! ## §2. The classes. -/

/-- An ASCII letter. -/
def isAsciiLetter (c : Char) : Bool :=
  ('a' ≤ c && c ≤ 'z') || ('A' ≤ c && c ≤ 'Z')

/-- An ASCII decimal digit. -/
def isAsciiDigit (c : Char) : Bool :=
  '0' ≤ c && c ≤ '9'

/-- A hexadecimal digit. -/
def isHexDigit (c : Char) : Bool :=
  isAsciiDigit c || ('a' ≤ c && c ≤ 'f') || ('A' ≤ c && c ≤ 'F')

/-- A word character: letter, mark, decimal digit, connector or join control of any script. -/
def isWord (c : Char) : Bool :=
  if c.toNat < 128 then isAsciiLetter c || isAsciiDigit c || c == '_'
  else inRanges wordRanges c.toNat

/-- A decimal digit of any script. -/
def isDecimalDigit (c : Char) : Bool :=
  if c.toNat < 128 then isAsciiDigit c else inRanges digitRanges c.toNat

/-- White space of any script. -/
def isSpace (c : Char) : Bool :=
  if c.toNat < 128 then c == ' ' || (9 ≤ c.toNat && c.toNat ≤ 13)
  else inRanges spaceRanges c.toNat

/-- A character that may begin an identifier of the scripting language: `$`, `_` or a Unicode
identifier start. -/
def isIdentifierStart (c : Char) : Bool :=
  if c.toNat < 128 then isAsciiLetter c || c == '$' || c == '_'
  else inRanges identifierStartRanges c.toNat

/-- A character that may continue an identifier of the scripting language; the two join controls
are included. -/
def isIdentifierPart (c : Char) : Bool :=
  if c.toNat < 128 then isAsciiLetter c || isAsciiDigit c || c == '$' || c == '_'
  else c == '\u200c' || c == '\u200d' || inRanges identifierPartRanges c.toNat

/-! ## §3. Letter case. -/

/-- The lower-case form of an ASCII letter; any other character is left alone. -/
def asciiLower (c : Char) : Char :=
  if 'A' ≤ c && c ≤ 'Z' then Char.ofNat (c.toNat + 32) else c

/-- The code point that `n` folds to. -/
def foldCodePoint (n : Nat) : Nat :=
  match foldRuns.find? fun r =>
      r.first ≤ n && n ≤ r.last && (n - r.first) % r.stride == 0 with
  | some r => (Int.ofNat n + r.delta).toNat
  | none => n

/-- Two characters are the same but for letter case. -/
def sameFold (a b : Char) : Bool :=
  a == b || foldCodePoint a.toNat == foldCodePoint b.toNat

/-- The numeric value of a hexadecimal digit. -/
def hexValue (c : Char) : Nat :=
  if isAsciiDigit c then c.toNat - '0'.toNat
  else if 'a' ≤ c && c ≤ 'f' then c.toNat - 'a'.toNat + 10
  else if 'A' ≤ c && c ≤ 'F' then c.toNat - 'A'.toNat + 10
  else 0

/-- The number that a list of hexadecimal digits denotes. -/
def hexNumber (cs : List Char) : Nat :=
  cs.foldl (fun n c => 16 * n + hexValue c) 0

/-- The number that a list of ASCII decimal digits denotes. -/
def decimalNumber (cs : List Char) : Nat :=
  cs.foldl (fun n c => 10 * n + (c.toNat - '0'.toNat)) 0

/-- The lower-case hexadecimal digit of a number below sixteen. -/
def hexDigit (n : Nat) : Char :=
  if n < 10 then Char.ofNat (n + '0'.toNat) else Char.ofNat (n - 10 + 'a'.toNat)

end AssetBundler.Text
