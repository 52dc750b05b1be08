/-
  AssetBundler.Pattern.Glob
  ────────────────────────────────
  **GLOBS.**

  Patterns of file paths: `?` and `*` stand for bytes of any kind, slashes
  among them; `**` between slashes stands for directories; brackets hold
  classes and braces alternatives.  A glob is read into tokens and matched, by
  way of a pattern, against the bytes of a whole path.
-/
import AssetBundler.Pattern.Basic

namespace AssetBundler

open AssetBundler.Text

/-! ## §1. Tokens. -/

/-- A part of a glob. -/
inductive GlobToken where
  | literal (c : Char)
  /-- One byte. -/
  | any
  /-- Bytes of any number. -/
  | star
  /-- Directories at the start, or none. -/
  | anyStart
  /-- Everything below a directory. -/
  | anyEnd
  /-- Directories in the middle, or none. -/
  | anyMiddle
  | oneOf (negated : Bool) (ranges : List (Char × Char))
  | alternatives (branches : List (List GlobToken))

/-- A pattern of file paths. -/
structure Glob where
  tokens : List GlobToken

namespace Glob

/-! ## §2. Classes. -/

/-- A class that is being read: its ranges, the newest first, and whether a hyphen waits for the end of
the newest. -/
structure ClassState where
  ranges : List (Char × Char) := []
  inRange : Bool := false

/-- The class with one more character; a range must not run backwards. -/
def ClassState.add? (s : ClassState) (c : Char) : Option ClassState :=
  if s.ranges.isEmpty then some { ranges := [(c, c)] }
  else if s.inRange then
    match s.ranges with
    | (low, _) :: rest => if c < low then none else some { ranges := (low, c) :: rest }
    | [] => none
  else if c == '-' then some { s with inRange := true }
  else some { ranges := (c, c) :: s.ranges }

/-- The ranges of a class that has been read; a hyphen at the end stands for itself. -/
def ClassState.finish (s : ClassState) : List (Char × Char) :=
  (if s.inRange then ('-', '-') :: s.ranges else s.ranges).reverse

/-- The ranges of a class up to its closing bracket, and what follows that. A bracket that comes first
stands for itself. -/
def classRest? (s : ClassState) : List Char → Option (List (Char × Char) × List Char)
  | [] => none
  | c :: rest =>
    if c == ']' && !s.ranges.isEmpty then some (s.finish, rest)
    else (s.add? c).bind fun s => classRest? s rest

/-- The class whose opening bracket has been read, and what follows it. -/
def class? : List Char → Option (GlobToken × List Char)
  | '!' :: rest | '^' :: rest =>
    (classRest? {} rest).map fun (ranges, rest) => (.oneOf true ranges, rest)
  | text => (classRest? {} text).map fun (ranges, rest) => (.oneOf false ranges, rest)

/-! ## §3. Reading. -/

/-- A group of alternatives that is being read: the branches that are complete, and the tokens in front
of the group. Everything is kept with the newest first. -/
structure OpenGroup where
  before : List GlobToken
  branches : List (List GlobToken) := []

/-- A glob that is being read. -/
structure ReadState where
  /-- Groups that are still open, the innermost first. -/
  groups : List OpenGroup := []
  /-- The tokens of the current branch, the newest first. -/
  branch : List GlobToken := []
  /-- The character that has been read last. -/
  last : Option Char := none

/-- The state behind one more token. -/
def ReadState.push (s : ReadState) (token : GlobToken) (last : Char) : ReadState :=
  { s with branch := token :: s.branch, last := some last }

/-- The state behind an opening brace. -/
def ReadState.openGroup (s : ReadState) : ReadState :=
  { groups := { before := s.branch } :: s.groups, last := some '\x7b' }

/-- The state behind a comma, which divides branches in a group. -/
def ReadState.comma (s : ReadState) : ReadState :=
  match s.groups with
  | [] => s.push (.literal ',') ','
  | g :: outer =>
    { groups := { g with branches := s.branch.reverse :: g.branches } :: outer, last := some ',' }

/-- The state behind a closing brace, which must close a group. -/
def ReadState.closeGroup? (s : ReadState) : Option ReadState :=
  match s.groups with
  | [] => none
  | g :: outer =>
    some {
      groups := outer
      branch := .alternatives (s.branch.reverse :: g.branches).reverse :: g.before
      last := some '\x7d' }

/-- A star counts for directories at the start of a branch, behind a slash, and behind what begins a
branch. -/
def ReadState.atComponent (s : ReadState) : Bool :=
  s.last == some '/'
    || (!s.groups.isEmpty && (s.last == some ',' || s.last == some '\x7b'))

/-- The state behind two stars that stand for bytes. -/
def ReadState.twoStars (s : ReadState) : ReadState :=
  { s with branch := .star :: .star :: s.branch, last := some '*' }

/-- The tokens of a branch with directories in place of the slash at their end. -/
def replaceSlash (token : GlobToken) : List GlobToken → List GlobToken
  | .anyStart :: rest => .anyStart :: rest
  | .anyEnd :: rest => .anyEnd :: rest
  | _ :: rest => token :: rest
  | [] => [token]

/-- The state behind two stars and what follows them. -/
def doubleStar (s : ReadState) (rest : List Char) : ReadState × List Char :=
  if s.branch.isEmpty then
    match rest with
    | [] => ({ s with branch := [.anyStart], last := some '*' }, [])
    | '/' :: rest => ({ s with branch := [.anyStart], last := some '/' }, rest)
    | _ => (s.twoStars, rest)
  else if !s.atComponent then (s.twoStars, rest)
  else
    match rest with
    | [] => ({ s with branch := replaceSlash .anyEnd s.branch, last := some '*' }, [])
    | '/' :: rest =>
      ({ s with branch := replaceSlash .anyMiddle s.branch, last := some '/' }, rest)
    | c :: _ =>
      if (c == ',' || c == '\x7d') && !s.groups.isEmpty then
        ({ s with branch := replaceSlash .anyEnd s.branch, last := some '*' }, rest)
      else (s.twoStars, rest)

/-- One token, or one change of groups, at the front of a text, and what follows. -/
def readToken? (s : ReadState) : List Char → Option (ReadState × List Char)
  | [] => none
  | '?' :: rest => some (s.push .any '?', rest)
  | '*' :: '*' :: rest => some (doubleStar s rest)
  | '*' :: rest => some (s.push .star '*', rest)
  | '[' :: rest => (class? rest).map fun (token, rest) => (s.push token ']', rest)
  | '\x7b' :: rest => some (s.openGroup, rest)
  | '\x7d' :: rest => s.closeGroup?.map fun s => (s, rest)
  | ',' :: rest => some (s.comma, rest)
  | '\\' :: c :: rest => some (s.push (.literal c) c, rest)
  | ['\\'] => none
  | c :: rest => some (s.push (.literal c) c, rest)

/-- The tokens of a text, of which every group is closed; the first argument bounds the length of the
text. -/
def readTokens? : Nat → ReadState → List Char → Option (List GlobToken)
  | _, s, [] => if s.groups.isEmpty then some s.branch.reverse else none
  | 0, _, _ :: _ => none
  | bound + 1, s, c :: rest =>
    (readToken? s (c :: rest)).bind fun (s, rest) => readTokens? bound s rest

/-- The glob that a text spells. -/
def parse? (text : String) : Option Glob :=
  (readTokens? text.toList.length {} text.toList).map Glob.mk

/-! ## §4. Matching. -/

/-- The bytes of a text, each as the character of its number. -/
def byteChars (text : String) : List Char :=
  text.toUTF8.toList.map fun b => Char.ofNat b.toNat

/-- A pattern for some bytes one after the other. -/
def bytesPattern (cs : List Char) : Pattern :=
  cs.foldr (fun c p => .both (.one (.range c c)) p) .empty

/-- A pattern for a literal character. -/
def literalPattern (c : Char) : Pattern :=
  bytesPattern (byteChars (String.singleton c))

/-- A pattern for one byte of any kind. -/
def anyByte : Pattern :=
  .one (.range '\x00' '\xff')

/-- A pattern for bytes of any number. -/
def anyBytes : Pattern :=
  .repeated anyByte 0 none

/-- The bytes that a range of a class allows: those of its first character but the last, those from the
last byte of the first character to the first byte of the second, and the rest of the second. -/
def rangeBytes (low high : Char) : List (Char × Char) :=
  let single (cs : List Char) : List (Char × Char) := cs.map fun c => (c, c)
  if low == high then single (byteChars (String.singleton low))
  else
    match (byteChars (String.singleton low)).reverse, byteChars (String.singleton high) with
    | a :: before, b :: after => single before.reverse ++ [(a, b)] ++ single after
    | _, _ => []

/-- The set of a class of bytes. -/
def classSet (negated : Bool) (ranges : List (Char × Char)) : CharSet :=
  let members : CharSet := .union
    ((ranges.flatMap fun (low, high) => rangeBytes low high).map fun (a, b) => .range a b)
  if negated then .complement members else members

/-- The pattern of a slash. -/
def slash : Pattern :=
  literalPattern '/'

mutual
/-- The pattern of a token, unless nothing is left of it. -/
def tokenPattern : GlobToken → Option Pattern
  | .literal c => some (literalPattern c)
  | .any => some anyByte
  | .star => some anyBytes
  | .anyStart => some (.either (.repeated slash 0 (some 1)) (.both anyBytes slash))
  | .anyEnd => some (.both slash anyBytes)
  | .anyMiddle => some (.either slash (.both slash (.both anyBytes slash)))
  | .oneOf negated ranges => some (.one (classSet negated ranges))
  | .alternatives branches => branchesPattern branches
/-- The pattern of some tokens one after the other, unless nothing is left of them. -/
def tokensPattern : List GlobToken → Option Pattern
  | [] => none
  | token :: rest =>
    match tokenPattern token, tokensPattern rest with
    | some p, some q => some (.both p q)
    | some p, none => some p
    | none, q => q
/-- The pattern of some branches; a branch of which nothing is left does not count. -/
def branchesPattern : List (List GlobToken) → Option Pattern
  | [] => none
  | branch :: rest =>
    match tokensPattern branch, branchesPattern rest with
    | some p, some q => some (.either p q)
    | some p, none => some p
    | none, q => q
end

/-- The pattern of a glob. -/
def pattern (glob : Glob) : Pattern :=
  match glob.tokens with
  | [.anyStart] => anyBytes
  | tokens => (tokensPattern tokens).getD .empty

/-- The token is a character other than those of a list. -/
def isLiteralBut (excluded : List Char) : GlobToken → Bool
  | .literal c => !excluded.contains c
  | _ => false

/-- The token is a character. -/
def isLiteral : GlobToken → Bool :=
  isLiteralBut []

/-- The tokens behind the start of a glob, if that stands for directories. -/
def behindStart : List GlobToken → Option (List GlobToken)
  | .anyStart :: rest => some rest
  | _ => none

/-- The glob names a file whatever its directory. -/
def namesFile (tokens : List GlobToken) : Bool :=
  match behindStart tokens with
  | some [] | none => false
  | some rest => rest.all (isLiteralBut ['/'])

/-- The tokens spell a suffix behind bytes of any number. -/
def namesSuffix (tokens : List GlobToken) : Bool :=
  match (behindStart tokens).getD tokens with
  | .star :: rest | rest => rest.all isLiteral

/-- The tokens are a star and an extension, of the letters behind its point. -/
def namesExtension (tokens : List GlobToken) : Bool :=
  match (behindStart tokens).getD tokens with
  | .star :: .literal '.' :: rest => rest.all (isLiteralBut ['.', '/'])
  | _ => false

/-- The glob asks for the extension of a file name, or for the name itself. -/
def asksForName (glob : Glob) : Bool :=
  let endsInPoint := match glob.tokens.getLast? with
    | some (.literal '.') => true
    | _ => false
  namesFile glob.tokens || namesExtension glob.tokens
    || (endsInPoint && !namesSuffix glob.tokens)

/-- The glob matches a path as a whole. A path that ends in a point has no file name. -/
def isMatch (glob : Glob) (path : String) : Bool :=
  let text := byteChars path
  if text.getLast? == some '.' && glob.asksForName then false
  else (glob.pattern.ends ⟨none, text⟩).any fun s => s.after.isEmpty

end Glob

end AssetBundler
