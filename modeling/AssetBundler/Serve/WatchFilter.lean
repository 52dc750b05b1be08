/-
  AssetBundler.Serve.WatchFilter
  ────────────────────────────────
  **CHANGES THAT COUNT.**

  A change of a file leads to a new build unless the file is output, belongs
  to a package or to version control, or is ignored by the configuration.
-/
import AssetBundler.Config.Load
import AssetBundler.Pattern.Glob

namespace AssetBundler

open AssetBundler.Text

/-- Which changes lead to a new build. -/
structure WatchFilter where
  root : Path
  outdir : Path
  /-- Globs of files that do not count, by their names below the root. -/
  ignored : List Glob

namespace WatchFilter

/-- Directories whose files do not count, wherever they are. -/
def skippedDirectories : List String := ["node_modules", ".git"]

/-- What the name of a file that is being put together holds. -/
def stagingMark : String := ".weft-staging"

/-- The globs of a list; a text that is no glob is an error. -/
def globs : List String → Except SetupError (List Glob)
  | [] => .ok []
  | text :: rest =>
    match Glob.parse? text with
    | none => .error (.badIgnore text)
    | some glob => (globs rest).map (glob :: ·)

/-- The filter of a project. -/
def create (config : Config) (outdir : Path) : Except SetupError WatchFilter :=
  (globs config.dev.ignored).map fun ignored => { root := config.root, outdir, ignored }

/-- The path leads through a directory whose files do not count. -/
def isSkipped (path : Path) : Bool :=
  path.components.any fun c => match c with
    | .name text => skippedDirectories.contains text
    | _ => false

/-- A change of a file leads to a new build. -/
def isRelevant (filter : WatchFilter) (path : Path) : Bool :=
  let relative := path.moduleId filter.root
  !(path.startsWith filter.outdir) && !(isSkipped path)
    && !(contains stagingMark.toList relative.toList)
    && !(filter.ignored.any fun glob => glob.isMatch relative)

end WatchFilter

end AssetBundler
