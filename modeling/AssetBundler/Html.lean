/-
  AssetBundler.Html
  ────────────────────────────────
  **PUTTING MARKUP INTO A PAGE.**
-/
import AssetBundler.Text.Search

namespace AssetBundler.Html

open AssetBundler.Text

/-- The text cut before the last place where a tag stands, letter case aside. -/
def cutAtLast? (tag : List Char) : List Char → Option (List Char × List Char)
  | [] => if tag.isEmpty then some ([], []) else none
  | c :: rest =>
    match cutAtLast? tag rest with
    | some (before, after) => some (c :: before, after)
    | none =>
      if startsWith tag (((c :: rest).take tag.length).map asciiLower) then some ([], c :: rest)
      else none

/-- A page with a snippet put before the last place of a tag, or at the end when the tag is missing.
The tag is given in lower case. -/
def insertBefore (page tag snippet : String) : String :=
  match cutAtLast? tag.toList page.toList with
  | some (before, after) => String.ofList before ++ snippet ++ String.ofList after
  | none => page ++ snippet

end AssetBundler.Html
