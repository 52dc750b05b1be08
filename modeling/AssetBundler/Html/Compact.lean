/-
  AssetBundler.Html.Compact
  ────────────────────────────────
  **PAGES FOR PRODUCTION.**

  Comments are dropped and tags are written anew, one attribute after the
  other.  Scripts, styles and plain text elements are left as written.
-/
import AssetBundler.Text.Search

namespace AssetBundler.Html

open AssetBundler.Text

/-! ## §1. Attributes. -/

/-- An attribute; its value is empty if it has none. -/
structure HtmlAttribute where
  name : List Char
  value : List Char

/-- What divides attributes. -/
def dividesAttributes (c : Char) : Bool :=
  isSpace c || c == '/'

/-- The value at the start of a text, in quotes or up to a blank, and what follows. -/
def attributeValue : List Char → List Char × List Char
  | '"' :: rest => (rest.takeWhile (· != '"'), (rest.dropWhile (· != '"')).tail)
  | '\'' :: rest => (rest.takeWhile (· != '\''), (rest.dropWhile (· != '\'')).tail)
  | text =>
    let ends (c : Char) : Bool := isSpace c || c == '>'
    (text.takeWhile fun c => !ends c, text.dropWhile fun c => !ends c)

/-- The attribute at the start of a text that is not empty, and what follows. An equals sign may begin
its name. -/
def attributeAt (first : Char) (rest : List Char) : HtmlAttribute × List Char :=
  let ends (c : Char) : Bool := dividesAttributes c || c == '=' || c == '>'
  let name := first :: rest.takeWhile fun c => !ends c
  let behind := (rest.dropWhile fun c => !ends c)
  match behind.dropWhile isSpace with
  | '=' :: text =>
    let (value, text) := attributeValue (text.dropWhile isSpace)
    (⟨name, value⟩, text)
  | _ => (⟨name, []⟩, behind)

/-- The attributes up to the end of a tag, and what follows the tag; the first argument bounds their
number. -/
def attributesAt : Nat → List Char → List HtmlAttribute × List Char
  | 0, text => ([], text)
  | bound + 1, text =>
    match text.dropWhile dividesAttributes with
    | [] => ([], [])
    | '>' :: rest => ([], rest)
    | c :: rest =>
      let (a, rest) := attributeAt c rest
      let (others, rest) := attributesAt bound rest
      (a :: others, rest)

/-- An attribute as written in a tag. -/
def HtmlAttribute.text (a : HtmlAttribute) : List Char :=
  if a.value.isEmpty then ' ' :: a.name
  else ' ' :: a.name ++ "=\"".toList ++ replaceAll ['"'] "&quot;".toList a.value ++ ['"']

/-! ## §2. Pages. -/

/-- Elements whose inside is no markup. -/
def plainElements : List String := ["script", "style", "textarea", "title"]

/-- The text up to a mark, letter case aside, and from there on. The mark is given in lower case. -/
def cutBefore (mark : List Char) : List Char → List Char × List Char
  | [] => ([], [])
  | c :: rest =>
    if startsWith mark (((c :: rest).take mark.length).map asciiLower) then ([], c :: rest)
    else
      let (before, after) := cutBefore mark rest
      (c :: before, after)

/-- A page written anew; the first argument bounds its length. -/
def compactChars : Nat → List Char → List Char
  | _, [] | 0, _ => []
  | bound + 1, c :: rest =>
    match c, rest with
    | '<', '!' :: '-' :: '-' :: inner =>
      let mark := "-->".toList
      compactChars bound ((cutBefore mark inner).2.drop mark.length)
    | '<', first :: _ =>
      if isAsciiLetter first then
        let ends (c : Char) : Bool := dividesAttributes c || c == '>'
        let name := rest.takeWhile fun c => !ends c
        let (attributes, rest) := attributesAt rest.length (rest.dropWhile fun c => !ends c)
        let tag := '<' :: name ++ attributes.flatMap HtmlAttribute.text ++ ['>']
        if plainElements.contains (String.ofList (name.map asciiLower)) then
          let (inside, rest) := cutBefore ('<' :: '/' :: name.map asciiLower) rest
          tag ++ inside ++ compactChars bound rest
        else tag ++ compactChars bound rest
      else c :: compactChars bound rest
    | c, rest => c :: compactChars bound rest

/-- A page without comments, its tags written anew. -/
def compact (page : String) : String :=
  String.ofList (compactChars page.length page.toList)

end AssetBundler.Html
