/-
  AssetBundler.Data.Value
  ────────────────────────────────
  **VALUES OF DATA DOCUMENTS.**

  What configuration documents, package descriptions and messages hold,
  whatever format they are written in.
-/
namespace AssetBundler.Data

/-- A value of a document. -/
inductive Value where
  | null
  | boolean (b : Bool)
  | integer (n : Int)
  /-- A number that is no integer, as written. -/
  | real (spelling : String)
  | text (s : String)
  /-- A date, a time or both, as written. -/
  | moment (spelling : String)
  | list (items : List Value)
  /-- Members in the order in which they are written. -/
  | table (members : List (String × Value))
  deriving Inhabited

namespace Value

/-- The last member of a name. -/
def lastMember? (name : String) : List (String × Value) → Option Value
  | [] => none
  | (key, value) :: rest =>
    match lastMember? name rest with
    | some found => some found
    | none => if key == name then some value else none

/-- A member of a table. -/
def member? (name : String) : Value → Option Value
  | table members => lastMember? name members
  | _ => none

/-- The text of a value that is one. -/
def text? : Value → Option String
  | text s => some s
  | _ => none

end Value

end AssetBundler.Data
