/-
  AssetBundler.Style.Reference
  ────────────────────────────────
  **REFERENCES IN A STYLESHEET.**

  A stylesheet refers to others by `@import` rules and to files by `url(…)`.
  Both are found by their shape alone, wherever they stand in the text: a rule
  reaches to the next semicolon, a file reference to its closing parenthesis.
-/
import AssetBundler.Text.Search

namespace AssetBundler.Style

open AssetBundler.Text

/-! ## §1. The shapes. -/

/-- A reference found at the head of a text: what it names, and how many characters it takes. -/
structure Found where
  target : List Char
  length : Nat

/-- A quotation mark. -/
def isQuote (c : Char) : Bool :=
  c == '"' || c == '\''

/-- The text behind a quotation mark, if one begins it. -/
def dropQuote (text : List Char) : List Char :=
  match text with
  | c :: rest => if isQuote c then rest else text
  | [] => []

/-- A character of the target of an import rule. -/
def isImportChar (c : Char) : Bool :=
  !(isQuote c || c == ')' || c == ';' || isSpace c)

/-- The target at the head of an import rule's argument, a quotation mark before it left out. -/
def importTarget (text : List Char) : List Char :=
  (dropQuote text).takeWhile isImportChar

/-- The import rule at the head of a text. The argument is read as `url(…)` if that gives a target,
else as it stands. -/
def importRule? (text : List Char) : Option Found :=
  match dropPrefix? "@import".toList text with
  | none => none
  | some rest =>
    let argument := rest.dropWhile isSpace
    if argument.length = rest.length then none
    else
      let inside := match dropPrefix? "url(".toList argument with
        | some inside => importTarget (inside.dropWhile isSpace)
        | none => []
      let target := if inside.isEmpty then importTarget argument else inside
      match argument.dropWhile (· != ';') with
      | _ :: behind => if target.isEmpty then none else some ⟨target, text.length - behind.length⟩
      | [] => none

/-- What is left behind blanks and a closing parenthesis. -/
def dropClosing? (text : List Char) : Option (List Char) :=
  match text.dropWhile isSpace with
  | ')' :: rest => some rest
  | _ => none

/-- A character of the target of a file reference. -/
def isUrlChar (c : Char) : Bool :=
  !(isQuote c || c == ')')

/-- The file reference at the head of a text. Blanks around the target do not belong to it; a target
that is blank throughout is empty. -/
def urlReference? (text : List Char) : Option Found :=
  match dropPrefix? "url(".toList text with
  | none => none
  | some rest =>
    let argument := rest.dropWhile isSpace
    let inner := dropQuote argument
    let target := inner.takeWhile isUrlChar
    let behind := inner.dropWhile isUrlChar
    let found (target behind : List Char) : Found :=
      ⟨trim target, text.length - behind.length⟩
    let closed := if target.isEmpty then none else dropClosing? (dropQuote behind)
    match closed with
    | some behind => some (found target behind)
    | none =>
      if argument.length < rest.length then
        (dropClosing? (dropQuote argument)).map (found [])
      else none

/-! ## §2. References that stay. -/

/-- The beginnings of addresses that lead out of the project. -/
def externalBeginnings : List String :=
  ["data:", "http:", "https:", "//", "/", "#"]

/-- The address leads out of the project, so it is left alone. -/
def isExternal (target : List Char) : Bool :=
  let lower := target.map asciiLower
  externalBeginnings.any fun b => startsWith b.toList lower

end AssetBundler.Style
