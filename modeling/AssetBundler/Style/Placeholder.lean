/-
  AssetBundler.Style.Placeholder
  ────────────────────────────────
  **PLACEHOLDERS FOR ADDRESSES.**

  Until the files that a stylesheet refers to have been built, numbered
  placeholders stand for their addresses.
-/
import AssetBundler.Text.Search

namespace AssetBundler.Style.Placeholder

open AssetBundler.Text

/-- What a placeholder begins with. -/
def opening : List Char := "__weft_url_".toList

/-- What a placeholder ends with. -/
def closing : List Char := "__".toList

/-- The placeholder for the reference with a given index. -/
def text (index : Nat) : List Char :=
  opening ++ (toString index).toList ++ closing

/-- The digits of the placeholder at the head of a text; decimal digits of any script count. -/
def digitsAt? (text : List Char) : Option (List Char) :=
  match dropPrefix? opening text with
  | none => none
  | some rest =>
    let digits := rest.takeWhile isDecimalDigit
    if !digits.isEmpty && startsWith closing (rest.dropWhile isDecimalDigit) then some digits
    else none

/-- Why the digits of a placeholder are no index. -/
inductive IndexError where
  | tooLarge
  | invalidDigit
  deriving DecidableEq, Repr

/-- The error in words. -/
def IndexError.message : IndexError → String
  | tooLarge => "number too large to fit in target type"
  | invalidDigit => "invalid digit found in string"

/-- The index that digits denote: ASCII digits only, below two to the sixty-fourth. -/
def indexOf (digits : List Char) : Except IndexError Nat :=
  let ascii := digits.takeWhile isAsciiDigit
  let n := decimalNumber ascii
  if UInt64.size ≤ n then .error .tooLarge
  else if ascii.length < digits.length then .error .invalidDigit
  else .ok n

/-- Why placeholders could not be replaced. -/
inductive Failure (ε : Type) where
  | index (e : IndexError)
  | lookup (e : ε)

/-- The text with every placeholder replaced by what `lookup` gives for its index; `skip` characters
of a placeholder are still to be passed over. -/
def replaceFrom {ε : Type} (lookup : Nat → Except ε (List Char)) :
    Nat → List Char → Except (Failure ε) (List Char)
  | _, [] => .ok []
  | skip + 1, _ :: rest => replaceFrom lookup skip rest
  | 0, c :: rest =>
    match digitsAt? (c :: rest) with
    | none => (replaceFrom lookup 0 rest).map (c :: ·)
    | some digits =>
      match indexOf digits with
      | .error e => .error (.index e)
      | .ok index =>
        match lookup index with
        | .error e => .error (.lookup e)
        | .ok value =>
          let length := opening.length + digits.length + closing.length
          (replaceFrom lookup (length - 1) rest).map (value ++ ·)

/-- The text with every placeholder replaced, from left to right. -/
def replace {ε : Type} (lookup : Nat → Except ε (List Char)) (text : List Char) :
    Except (Failure ε) (List Char) :=
  replaceFrom lookup 0 text

end AssetBundler.Style.Placeholder
