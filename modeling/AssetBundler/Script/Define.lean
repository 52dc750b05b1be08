/-
  AssetBundler.Script.Define
  ────────────────────────────────
  **COMPILE-TIME CONSTANTS.**

  An occurrence of a key is replaced when it begins the text or follows a
  character that is no word character, dollar sign or dot, and when it ends
  at a word boundary.
-/
import AssetBundler.Text.Search

namespace AssetBundler.Script

open AssetBundler.Text

/-- A word boundary lies between what stands before and what follows. -/
def isBoundary (before : Option Char) (after : List Char) : Bool :=
  before.any isWord != after.head?.any isWord

/-- The key stands here and ends at a word boundary; `before` is the character before it. -/
def keyStandsAt (key : List Char) (before : Option Char) (text : List Char) : Bool :=
  match dropPrefix? key text with
  | some rest => isBoundary (key.getLast?.or before) rest
  | none => false

/-- A key may follow this character. -/
def mayPrecedeKey (c : Char) : Bool :=
  !(isWord c || c == '$' || c == '.')

/-- The text with a key replaced by its value; `skip` characters of an occurrence are still to be
passed over. -/
def replaceKeyFrom (key value : List Char) : Nat → List Char → List Char
  | _, [] => []
  | skip + 1, _ :: rest => replaceKeyFrom key value skip rest
  | 0, c :: rest =>
    if mayPrecedeKey c && keyStandsAt key (some c) rest then
      c :: value ++ replaceKeyFrom key value key.length rest
    else c :: replaceKeyFrom key value 0 rest

/-- The text with a key replaced by its value. -/
def replaceKey (key value text : List Char) : List Char :=
  if keyStandsAt key none text then value ++ replaceKeyFrom key value key.length text
  else replaceKeyFrom key value 0 text

/-- The text with all keys replaced, one after the other. -/
def applyDefines (defines : List (String × String)) (text : List Char) : List Char :=
  defines.foldl (fun text d => replaceKey d.1.toList d.2.toList text) text

end AssetBundler.Script
