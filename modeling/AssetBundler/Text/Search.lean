/-
  AssetBundler.Text.Search
  ────────────────────────────────
  **FINDING AND CUTTING TEXT.**

  Plain operations on lists of characters: what stands behind a beginning,
  the first and last place of a pattern, replacement, splitting at a
  character, and trimming.
-/
import AssetBundler.Text.CharClass

namespace AssetBundler.Text

/-! ## §1. Beginnings. -/

/-- What is left behind a beginning, when the text starts with it. -/
def dropPrefix? : List Char → List Char → Option (List Char)
  | [], text => some text
  | a :: expected, b :: text => if a == b then dropPrefix? expected text else none
  | _ :: _, [] => none

/-- The text starts with a pattern. -/
def startsWith (pattern text : List Char) : Bool :=
  (dropPrefix? pattern text).isSome

/-- The text ends with a pattern. -/
def endsWith (pattern text : List Char) : Bool :=
  startsWith pattern.reverse text.reverse

/-- The pattern occurs somewhere in the text. -/
def contains (pattern : List Char) : List Char → Bool
  | [] => pattern.isEmpty
  | c :: rest => startsWith pattern (c :: rest) || contains pattern rest

/-! ## §2. Replacing. -/

/-- The text with every occurrence of a pattern replaced, from left to right; `skip` characters of an
occurrence are still to be passed over. -/
def replaceFrom (pattern replacement : List Char) : Nat → List Char → List Char
  | _, [] => []
  | skip + 1, _ :: rest => replaceFrom pattern replacement skip rest
  | 0, c :: rest =>
    if startsWith pattern (c :: rest) then
      replacement ++ replaceFrom pattern replacement (pattern.length - 1) rest
    else c :: replaceFrom pattern replacement 0 rest

/-- The text with every occurrence of a pattern that is not empty replaced. -/
def replaceAll (pattern replacement text : List Char) : List Char :=
  if pattern.isEmpty then text else replaceFrom pattern replacement 0 text

/-! ## §3. Splitting and trimming. -/

/-- The pieces between the characters that satisfy a test; there is always at least one piece. -/
def splitAt (isSeparator : Char → Bool) : List Char → List (List Char)
  | [] => [[]]
  | c :: rest =>
    if isSeparator c then [] :: splitAt isSeparator rest
    else match splitAt isSeparator rest with
      | piece :: pieces => (c :: piece) :: pieces
      | [] => [[c]]

/-- The text without the characters at its end that satisfy a test. -/
def trimEndWhile (test : Char → Bool) (text : List Char) : List Char :=
  (text.reverse.dropWhile test).reverse

/-- The text without white space at its end. -/
def trimEnd (text : List Char) : List Char :=
  trimEndWhile isSpace text

/-- The text without white space at its ends. -/
def trim (text : List Char) : List Char :=
  trimEnd (text.dropWhile isSpace)

end AssetBundler.Text
