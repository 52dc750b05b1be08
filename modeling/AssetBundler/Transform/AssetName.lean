/-
  AssetBundler.Transform.AssetName
  ────────────────────────────────
  **NAMES OF EMITTED FILES.**

  A name template holds tokens in brackets: `[name]`, `[ext]`, `[hash]` and
  `[hash:N]` with a number of digits.
-/
import AssetBundler.Digest.Sha256
import AssetBundler.Text.Search

namespace AssetBundler.AssetName

open AssetBundler.Text

/-- What a token stands for. -/
inductive Token where
  | name
  | extension
  | hash (length? : Option Nat)
  deriving DecidableEq, Repr

/-- The words of the tokens. -/
def words : List (List Char × Token) :=
  [("name".toList, .name), ("ext".toList, .extension), ("hash".toList, .hash none)]

/-- The number that digits denote, when they are ASCII digits and it is below two to the
sixty-fourth. -/
def numberOf? (digits : List Char) : Option Nat :=
  let n := decimalNumber digits
  if digits.all isAsciiDigit && n < UInt64.size then some n else none

/-- The token at the head of a template with what is left behind it. A number behind a colon counts
for hashes only. -/
def tokenAt? (text : List Char) : Option (Token × List Char) :=
  match text with
  | '[' :: rest =>
    words.findSome? fun (word, token) =>
      match dropPrefix? word rest with
      | some (']' :: rest) => some (token, rest)
      | some (':' :: rest) =>
        let digits := rest.takeWhile isDecimalDigit
        match digits, rest.dropWhile isDecimalDigit with
        | _ :: _, ']' :: rest =>
          some (if token = .hash none then .hash (numberOf? digits) else token, rest)
        | _, _ => none
      | _ => none
  | _ => none

/-- What is known of the file. -/
structure Subject where
  stem : String
  extension : String
  content : ByteArray

/-- The text of a token for a file. -/
def Token.expand (subject : Subject) : Token → String
  | .name => subject.stem
  | .extension => subject.extension
  | .hash (some length) => Digest.short subject.content length
  | .hash none => Digest.ofContent subject.content

/-- The template with its tokens expanded; `skip` characters of a token are still to be passed over. -/
def expandFrom (subject : Subject) : Nat → List Char → List Char
  | _, [] => []
  | skip + 1, _ :: rest => expandFrom subject skip rest
  | 0, c :: rest =>
    match tokenAt? (c :: rest) with
    | some (token, behind) =>
      (token.expand subject).toList ++ expandFrom subject (rest.length - behind.length) rest
    | none => c :: expandFrom subject 0 rest

/-- The name that a template gives a file. -/
def expand (template : String) (subject : Subject) : String :=
  String.ofList (expandFrom subject 0 template.toList)

end AssetBundler.AssetName
