/-
  AssetBundler.Project.Error
  ────────────────────────────────
  **WHY A BUILD FAILS.**

  Every cause with the part of the pipeline that it comes from, the module it
  is about, and its wording.
-/
import AssetBundler.Project.Identity
import AssetBundler.Transform.Step

namespace AssetBundler

/-- Why a specifier leads to no module. -/
inductive ResolutionFault where
  | emptySpecifier
  | url
  | noMatch
  | unreadablePackage (path : Path) (e : FileError)
  | malformedPackage (path : Path)
  | file (e : FileError)
  deriving DecidableEq, Repr

/-- The fault in words. -/
def ResolutionFault.message : ResolutionFault → String
  | emptySpecifier => "empty specifier"
  | url => "URL specifiers cannot be bundled"
  | noMatch => "no matching file"
  | unreadablePackage path e => "failed to read " ++ path.text ++ ": " ++ e.message
  | malformedPackage path => "failed to parse " ++ path.text
  | file e => e.message

/-- Why a module cannot be transformed. -/
inductive TransformFault where
  | step (step : Step) (e : StepError)
  /-- The steps leave the module raw. -/
  | noArtifact
  | placeholder (e : Style.Placeholder.IndexError)
  | danglingPlaceholder (index : Nat)
  /-- A stylesheet takes the address of a module that has none. -/
  | notAsset (specifier : String) (kind : ArtifactKind)
  | notBuilt (specifier : String)

/-- The fault in words. -/
def TransformFault.message : TransformFault → String
  | step s e => "step '" ++ s.name ++ "': " ++ e.message
  | noArtifact => "transform chain produced no emittable artifact"
  | placeholder e => e.message
  | danglingPlaceholder index => "dangling url placeholder " ++ toString index
  | notAsset specifier kind =>
    "url('" ++ specifier ++ "') must reference a static asset, got " ++ kind.text ++ " module"
  | notBuilt specifier => "url('" ++ specifier ++ "') was not built"

/-- Why a build fails. -/
inductive BuildError where
  | resolution (specifier : String) (importer : Path) (fault : ResolutionFault)
  | cyclicDependency (cycle : List Identity)
  | read (m : Identity) (e : FileError)
  | transform (rule : String) (m : Identity) (fault : TransformFault)
  | noMatchingRule (m : Identity)
  | optimization (chunk : String)
  | emission (path : Path) (e : FileError)
  | cancelled

namespace BuildError

/-- The part of the pipeline that an error comes from. -/
def component : BuildError → String
  | resolution .. => "resolver"
  | cyclicDependency _ | read .. => "graph"
  | transform .. | noMatchingRule _ => "transform"
  | optimization _ => "optimizer"
  | emission .. => "emitter"
  | cancelled => "pipeline"

/-- The file that an error is about, if it is about one. -/
def module? : BuildError → Option Path
  | resolution _ importer _ => some importer
  | cyclicDependency cycle => cycle.head?.map Identity.path
  | read m _ | transform _ m _ | noMatchingRule m => some m.path
  | optimization _ | emission .. | cancelled => none

/-- The build was told to stop. -/
def isCancelled : BuildError → Bool
  | cancelled => true
  | _ => false

/-- The error in words. -/
def message : BuildError → String
  | resolution specifier importer fault =>
    "cannot resolve '" ++ specifier ++ "' from " ++ importer.text ++ ": " ++ fault.message
  | cyclicDependency cycle =>
    "cyclic dependency: " ++ " -> ".intercalate (cycle.map fun m => m.path.text)
  | read m e => "failed to read module " ++ m.path.text ++ ": " ++ e.message
  | transform rule m fault =>
    "transform rule '" ++ rule ++ "' failed for " ++ m.path.text ++ ": " ++ fault.message
  | noMatchingRule m => "no transform rule matches " ++ m.path.text
  | optimization chunk => "failed to optimize chunk '" ++ chunk ++ "'"
  | emission path e => "failed to emit " ++ path.text ++ ": " ++ e.message
  | cancelled => "build cancelled"

end BuildError

end AssetBundler
