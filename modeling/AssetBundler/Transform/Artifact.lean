/-
  AssetBundler.Transform.Artifact
  ────────────────────────────────
  **WHAT A MODULE IS TURNED INTO.**

  A module starts as raw bytes and ends as a script, a stylesheet or an asset
  with a public address.  Scripts and stylesheets carry the imports found in
  them.
-/
namespace AssetBundler

/-! ## §1. Imports. -/

/-- How a module refers to another. -/
inductive ImportKind where
  /-- Loaded together with the importing script. -/
  | static
  /-- Loaded when the importing script asks for it. -/
  | deferred
  /-- A stylesheet that another one imports. -/
  | style
  /-- A file that a stylesheet refers to by its address. -/
  | url
  deriving DecidableEq, Repr

/-- A reference to another module, as written. -/
structure Import where
  specifier : String
  kind : ImportKind
  deriving DecidableEq, Repr

/-- The import does not wait for a request at run time. -/
def Import.isSync (i : Import) : Bool :=
  i.kind ≠ .deferred

/-- The members of a list, each at its first place only. -/
def firstOccurrences {α : Type} [BEq α] : List α → List α
  | [] => []
  | x :: xs => x :: (firstOccurrences xs).filter fun y => !(y == x)

/-! ## §2. Artifacts. -/

/-- A file that is written beside the chunks. -/
structure AssetFile where
  /-- The path below the output directory. -/
  path : String
  bytes : ByteArray

/-- The result of the steps taken so far. -/
inductive Artifact where
  | raw (bytes : ByteArray)
  | script (code : String) (imports : List Import)
  | stylesheet (css : String) (imports : List Import)
  /-- An address, and the file that stands there unless the address holds the data itself. -/
  | asset (url : String) (file? : Option AssetFile)

/-- What an artifact is. -/
inductive ArtifactKind where
  | raw | script | stylesheet | asset
  deriving DecidableEq, Repr

namespace Artifact

/-- What the artifact is. -/
def kind : Artifact → ArtifactKind
  | raw _ => .raw
  | script .. => .script
  | stylesheet .. => .stylesheet
  | asset .. => .asset

/-- The imports that the artifact carries. -/
def imports : Artifact → List Import
  | script _ imports | stylesheet _ imports => imports
  | _ => []

end Artifact

end AssetBundler
