/-
  AssetBundler.Project.Identity
  ────────────────────────────────
  **MODULES BY THEIR FILES.**

  A module is known by the location of its file, links followed, so that all
  ways to one file lead to one module.
-/
import AssetBundler.Files.Tree

namespace AssetBundler

/-- A module by the location of its file. -/
structure Identity where
  location : Location
  deriving DecidableEq, Repr

namespace Identity

/-- The path of the file. -/
def path (m : Identity) : Path :=
  Path.ofNames m.location

/-- The extension of the file, without its dot. -/
def extension (m : Identity) : String :=
  ((m.location.getLast?.map Path.splitName).bind (·.2)).getD ""

/-- The name of the file without its extension. -/
def stem (m : Identity) : String :=
  (m.location.getLast?.map fun name => (Path.splitName name).1).getD "module"

/-- The path as patterns see it, with slashes for backslashes. -/
def matchText (m : Identity) : String :=
  String.ofList (m.path.text.toList.map fun c => if c == '\\' then '/' else c)

/-- The module at the end of a path. -/
def ofPath (files : FileTree) (path : Path) : Except FileError Identity :=
  (files.canonical path).map Identity.mk

end Identity

end AssetBundler
