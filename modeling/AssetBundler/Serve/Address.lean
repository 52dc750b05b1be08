/-
  AssetBundler.Serve.Address
  ────────────────────────────────
  **REQUEST ADDRESSES.**

  An address is a path with a query and a fragment, a host with all of these
  behind a scheme, a host alone, or a star.  The server needs the path only,
  as it is written.
-/
import AssetBundler.Text.Search

namespace AssetBundler.Address

open AssetBundler.Text

/-! ## §1. Characters. -/

/-- ASCII letters and digits. -/
def isAlphanumeric (c : Char) : Bool :=
  isAsciiLetter c || isAsciiDigit c

/-- What a scheme is made of. -/
def isSchemeChar (c : Char) : Bool :=
  isAlphanumeric c || ['+', '-', '.', '~'].contains c

/-- What a host with its user and port is made of, besides the marks that divide them. -/
def isHostChar (c : Char) : Bool :=
  isAlphanumeric c
    || ['!', '$', '&', '\'', '(', ')', '*', '+', ',', '-', '.', ';', '=', '_', '~'].contains c

/-- What a path is made of. -/
def isPathChar (c : Char) : Bool :=
  '!' ≤ c && !(['#', '<', '>', '?', '`'].contains c)

/-- What a query is made of. -/
def isQueryChar (c : Char) : Bool :=
  '!' ≤ c && !(['"', '#', '<', '>'].contains c)

/-! ## §2. Hosts. -/

/-- What is known of a host that is being read. -/
structure HostState where
  /-- Colons behind the last mark that allows them to begin anew. -/
  colons : Nat := 0
  bracketOpened : Bool := false
  bracketClosed : Bool := false
  /-- A percent sign stands behind the last such mark. -/
  percent : Bool := false
  /-- The last character is the one behind a user. -/
  userJustEnded : Bool := false

/-- The state behind one more character, unless it must not stand there. -/
def HostState.next? (s : HostState) (c : Char) : Option HostState :=
  let s := { s with userJustEnded := false }
  if c == ':' then
    if s.colons ≥ 8 then none else some { s with colons := s.colons + 1 }
  else if c == '[' then
    if s.percent || s.bracketOpened then none else some { s with bracketOpened := true }
  else if c == ']' then
    if !s.bracketOpened || s.bracketClosed then none
    else some { s with bracketClosed := true, colons := 0, percent := false }
  else if c == '@' then some { s with colons := 0, percent := false, userJustEnded := true }
  else if c == '%' then some { s with percent := true }
  else if isHostChar c then some s
  else none

/-- A host may end here. -/
def HostState.isComplete (s : HostState) : Bool :=
  s.bracketOpened == s.bracketClosed && s.colons ≤ 1 && !s.userJustEnded && !s.percent

/-- The characters that end a host. -/
def endsHost (c : Char) : Bool :=
  c == '/' || c == '?' || c == '#'

/-- What follows the host at the front of a text, if there is a proper one. -/
def afterHost? (text : List Char) : Option (List Char) := do
  let s ← (text.takeWhile fun c => !endsHost c).foldlM HostState.next? {}
  if s.isComplete then some (text.dropWhile fun c => !endsHost c) else none

/-! ## §3. Addresses. -/

/-- The path at the front of a text, when path and query hold proper characters only. -/
def pathOf? (text : List Char) : Option (List Char) :=
  let path := text.takeWhile fun c => c != '?' && c != '#'
  let query := match text.dropWhile fun c => c != '?' && c != '#' with
    | '?' :: rest => rest.takeWhile (· != '#')
    | _ => []
  if path.all isPathChar && query.all isQueryChar then
    some (if path.isEmpty then ['/'] else path)
  else none

/-- What follows a scheme that is known, letter case aside. -/
def afterKnownScheme? (text : List Char) : Option (List Char) :=
  ["http://", "https://"].findSome? fun scheme =>
    if startsWith scheme.toList ((text.take scheme.length).map asciiLower) then
      some (text.drop scheme.length)
    else none

/-- The longest scheme that is not known beforehand. -/
def maxSchemeLength : Nat := 64

/-- What follows the scheme of a text, or the whole text without one; nothing if the scheme is too
long. -/
def splitScheme? (text : List Char) : Option (Bool × List Char) :=
  match afterKnownScheme? text with
  | some rest => some (true, rest)
  | none =>
    let name := text.takeWhile isSchemeChar
    match dropPrefix? "://".toList (text.drop name.length) with
    | none => some (false, text)
    | some rest => if name.length > maxSchemeLength then none else some (true, rest)

/-- The path of an address that does not begin with it. -/
def remotePath? (text : List Char) : Option (List Char) := do
  let (hasScheme, rest) ← splitScheme? text
  let behind ← afterHost? rest
  if hasScheme then
    if behind.length == rest.length then none else pathOf? behind
  else if behind.isEmpty then some [] else none

/-- The longest address, in bytes. -/
def maxLength : Nat := 65534

/-- The path of an address; nothing for what is no address. -/
def path? (address : String) : Option String :=
  if address.utf8ByteSize > maxLength then none
  else (match address.toList with
    | [] => none
    | ['*'] => some ['*']
    | '/' :: rest => pathOf? ('/' :: rest)
    | text => remotePath? text).map String.ofList

end AssetBundler.Address
