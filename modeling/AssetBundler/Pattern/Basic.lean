/-
  AssetBundler.Pattern.Basic
  ────────────────────────────────
  **PATTERNS OF TEXT.**

  Regular expressions over characters, with assertions about the place where
  they stand.  `ends` gives every place where a match may end; a text matches
  when a match begins anywhere in it.
-/
import AssetBundler.Text.CharClass

namespace AssetBundler

open AssetBundler.Text

/-! ## §1. Sets of characters. -/

/-- A set of characters. -/
inductive CharSet where
  | range (low high : Char)
  /-- Decimal digits, of any script or of ASCII. -/
  | digit (unicode : Bool)
  /-- White space, of any script or of ASCII. -/
  | space (unicode : Bool)
  /-- Word characters, of any script or of ASCII. -/
  | word (unicode : Bool)
  | union (sets : List CharSet)
  | complement (set : CharSet)
  | intersection (a b : CharSet)
  | difference (a b : CharSet)
  | symmetricDifference (a b : CharSet)
  /-- The set with all characters that differ from its members in letter case alone. -/
  | folded (set : CharSet)

/-- The characters that are the same as `c` but for letter case. -/
def caseVariants (c : Char) : List Char :=
  let target := foldCodePoint c.toNat
  let sources := UnicodeRanges.foldRuns.toList.filterMap fun r =>
    let n := (Int.ofNat target - r.delta).toNat
    if foldCodePoint n == target then some (Char.ofNat n) else none
  c :: Char.ofNat target :: sources

mutual
/-- The set holds a character. -/
def CharSet.contains (c : Char) : CharSet → Bool
  | .range low high => low ≤ c && c ≤ high
  | .digit unicode => if unicode then isDecimalDigit c else isAsciiDigit c
  | .space unicode => isSpace c && (unicode || c.toNat < 128)
  | .word unicode => isWord c && (unicode || c.toNat < 128)
  | .union sets => CharSet.anyContains c sets
  | .complement set => !set.contains c
  | .intersection a b => a.contains c && b.contains c
  | .difference a b => a.contains c && !b.contains c
  | .symmetricDifference a b => a.contains c != b.contains c
  | .folded set => (caseVariants c).any fun d => set.contains d
/-- Some set of a list holds a character. -/
def CharSet.anyContains (c : Char) : List CharSet → Bool
  | [] => false
  | set :: rest => set.contains c || CharSet.anyContains c rest
end

/-! ## §2. Patterns. -/

/-- A condition on the place between two characters. -/
inductive Assertion where
  | textStart
  | textEnd
  /-- The start of a line; `crlf` takes a carriage return for a line end as well. -/
  | lineStart (crlf : Bool)
  | lineEnd (crlf : Bool)
  | wordBoundary (unicode : Bool)
  | noWordBoundary (unicode : Bool)
  | wordStart (unicode : Bool)
  | wordEnd (unicode : Bool)
  /-- No word character stands before. -/
  | wordStartHalf (unicode : Bool)
  /-- No word character follows. -/
  | wordEndHalf (unicode : Bool)
  deriving DecidableEq, Repr

/-- A pattern. -/
inductive Pattern where
  | empty
  | one (set : CharSet)
  | assert (a : Assertion)
  | both (first second : Pattern)
  | either (a b : Pattern)
  /-- At least `least` times, and `more` times more at most, if that is limited. -/
  | repeated (p : Pattern) (least : Nat) (more? : Option Nat)

/-! ## §3. Places in a text. -/

/-- A place in a text: the character before it, and what follows. -/
structure Spot where
  before : Option Char
  after : List Char

/-- The next place. -/
def Spot.next? (s : Spot) : Option (Char × Spot) :=
  match s.after with
  | c :: rest => some (c, ⟨some c, rest⟩)
  | [] => none

/-- The condition holds at a place. -/
def Assertion.holds (s : Spot) : Assertion → Bool
  | textStart => s.before.isNone
  | textEnd => s.after.isEmpty
  | lineStart crlf =>
    s.before.isNone || s.before == some '\n'
      || (crlf && s.before == some '\r' && s.after.head? != some '\n')
  | lineEnd crlf =>
    s.after.isEmpty || (s.after.head? == some '\n' && !(crlf && s.before == some '\r'))
      || (crlf && s.after.head? == some '\r')
  | wordBoundary u => wordBefore u s != wordAfter u s
  | noWordBoundary u => wordBefore u s == wordAfter u s
  | wordStart u => !wordBefore u s && wordAfter u s
  | wordEnd u => wordBefore u s && !wordAfter u s
  | wordStartHalf u => !wordBefore u s
  | wordEndHalf u => !wordAfter u s
where
  wordBefore (u : Bool) (s : Spot) : Bool := s.before.any (CharSet.word u).contains
  wordAfter (u : Bool) (s : Spot) : Bool := s.after.head?.any (CharSet.word u).contains

/-! ## §4. Matching. -/

/-- Those of some places that differ from all of `seen` and from one another. -/
def freshSpots (seen : List Spot) : List Spot → List Spot
  | [] => []
  | s :: rest =>
    if seen.any fun t => t.after.length == s.after.length then freshSpots seen rest
    else s :: freshSpots (s :: seen) rest

/-- All places that are reached by at most `limit` steps; `seen` holds those found so far, `edge` the
newest of them. -/
def reach (step : Spot → List Spot) : Nat → List Spot → List Spot → List Spot
  | 0, seen, _ => seen
  | limit + 1, seen, edge =>
    match freshSpots seen (edge.flatMap step) with
    | [] => seen
    | new => reach step limit (seen ++ new) new

/-- The places that are reached by a number of steps. -/
def stepTimes (step : Spot → List Spot) : Nat → List Spot → List Spot
  | 0, spots => spots
  | n + 1, spots => stepTimes step n (freshSpots [] (spots.flatMap step))

/-- The places where a match that begins at a place may end. -/
def Pattern.ends : Pattern → Spot → List Spot
  | empty, s => [s]
  | one set, s =>
    match s.next? with
    | some (c, next) => if set.contains c then [next] else []
    | none => []
  | assert a, s => if a.holds s then [s] else []
  | both first second, s => freshSpots [] ((first.ends s).flatMap second.ends)
  | either a b, s => freshSpots [] (a.ends s ++ b.ends s)
  | repeated p least more?, s =>
    let start := stepTimes p.ends least [s]
    reach p.ends (more?.getD (s.after.length + 1)) start start

/-- A match begins at one of the places from `before` on. -/
def Pattern.matchesFrom (p : Pattern) (before : Option Char) : List Char → Bool
  | [] => !(p.ends ⟨before, []⟩).isEmpty
  | c :: rest => !(p.ends ⟨before, c :: rest⟩).isEmpty || p.matchesFrom (some c) rest

/-- The pattern matches somewhere in a text. -/
def Pattern.isMatch (p : Pattern) (text : String) : Bool :=
  p.matchesFrom none text.toList

end AssetBundler
