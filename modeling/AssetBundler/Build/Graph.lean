/-
  AssetBundler.Build.Graph
  ────────────────────────────────
  **THE MODULE GRAPH.**

  From the entries on, every module is read, transformed and recorded after
  the modules that it loads together with itself.  The targets of deferred
  imports wait until the entries are done and are visited like entries.
  Artifacts of the last build are used again for modules that have not
  changed.
-/
import AssetBundler.Build.Session
import AssetBundler.Project.Resolve
import AssetBundler.Project.Rules

namespace AssetBundler

/-! ## §1. Graphs. -/

/-- An import with the module that it leads to. -/
structure Dependency where
  specifier : String
  kind : ImportKind
  target : Identity
  deriving DecidableEq

namespace Dependency

/-- The target is loaded together with the importing module. -/
def isSync (d : Dependency) : Bool :=
  d.kind ≠ .deferred

end Dependency

/-- A module of the graph. -/
structure ModuleRecord where
  identity : Identity
  /-- The extension in lower case. -/
  contentType : String
  /-- The digest of the file. -/
  digest : String
  artifact : Artifact
  /-- One for each import of the artifact, in its order. -/
  dependencies : List Dependency
  /-- The source text of a script, for source maps in development. -/
  source? : Option String

/-- The dependencies that are loaded together with the module. -/
def ModuleRecord.syncDependencies (r : ModuleRecord) : List Dependency :=
  r.dependencies.filter Dependency.isSync

/-- The modules of a build. -/
structure ModuleGraph where
  /-- Every module after those that it loads together with itself. -/
  records : List ModuleRecord
  /-- The entries by name. -/
  entries : List (String × Identity)
  /-- The targets of deferred imports, in the order of their discovery. -/
  deferredRoots : List Identity

namespace ModuleGraph

/-- The record of a module. -/
def get? (g : ModuleGraph) (m : Identity) : Option ModuleRecord :=
  g.records.find? fun r => r.identity == m

/-- The artifact of a module. -/
def artifact? (g : ModuleGraph) (m : Identity) : Option Artifact :=
  (g.get? m).map fun r => r.artifact

/-- The modules in the order of their records. -/
def order (g : ModuleGraph) : List Identity :=
  g.records.map (·.identity)

end ModuleGraph

/-! ## §2. Artifacts of the last build. -/

/-- What the last build made of a module, and of which content. -/
structure CachedArtifact where
  identity : Identity
  digest : String
  artifact : Artifact

/-- The artifacts of the last build that succeeded. -/
abbrev TransformCache := List CachedArtifact

namespace TransformCache

/-- The artifacts of a graph. -/
def ofGraph (g : ModuleGraph) : TransformCache :=
  g.records.map fun r => ⟨r.identity, r.digest, r.artifact⟩

/-- The artifact of a module whose content has a given digest. -/
def lookup (cache : TransformCache) (m : Identity) (digest : String) : Option Artifact :=
  ((cache.find? fun c => c.identity == m).filter fun c => c.digest == digest).map (·.artifact)

end TransformCache

/-! ## §3. Visiting modules. -/

/-- What visiting starts from. -/
structure GraphInput where
  config : Config
  files : FileTree
  table : RuleTable
  cache : TransformCache

/-- What visiting has found. -/
structure GraphState where
  records : List ModuleRecord := []
  /-- Entries and targets of deferred imports met so far. -/
  seenRoots : List Identity := []
  /-- Targets of deferred imports that are to be visited. -/
  pendingRoots : List Identity := []

/-- An action that finds modules. -/
abbrev GraphM := StateT GraphState BuildM

namespace Graph

/-- The module has been recorded. -/
def isRecorded (m : Identity) : GraphM Bool := do
  return (← get).records.any fun r => r.identity == m

/-- Notes the target of a deferred import, if it is new. -/
def noteRoot (m : Identity) : GraphM Unit := modify fun s =>
  if s.seenRoots.contains m then s
  else { s with seenRoots := s.seenRoots ++ [m], pendingRoots := s.pendingRoots ++ [m] }

/-- Scripts keep their source text. -/
def isScriptSource (m : Identity) : Bool :=
  ["js", "jsx", "mjs", "cjs"].contains (ContentType.lowered m.extension)

/-- The cycle that a module closes which is being visited already; `path` holds the modules that are
being visited, the newest first. -/
def cycleOf? (path : List Identity) (m : Identity) : Option (List Identity) :=
  if path.contains m then
    some ((path.takeWhile (· != m) ++ [m]).reverse ++ [m])
  else none

/-- Reads a module: its content. -/
def readModule (input : GraphInput) (m : Identity) : BuildM ByteArray := do
  BuildM.record [.read m]
  match input.files.read m.path with
  | .ok content => return content
  | .error e => BuildM.fail (.read m e)

/-- The artifact of a module with a content, from the last build or from its rule. -/
def artifactOf (input : GraphInput) (m : Identity) (content : ByteArray) (digest : String) :
    BuildM Artifact := do
  match input.cache.lookup m digest with
  | some a => return a
  | none =>
    let (begun, result) := input.table.transform m content
    BuildM.record (begun.map (.step m))
    BuildM.ofExcept result

/-- The source text that a record keeps. -/
def sourceOf (mode : Mode) (m : Identity) (content : ByteArray) (a : Artifact) :
    Option String :=
  if mode = .development && isScriptSource m && a.kind = .script then
    String.fromUTF8? content
  else none

/-- The dependencies of a module, one import after the other; `visit` visits a target. -/
def visitImports (input : GraphInput) (visit : Identity → GraphM Unit) (m : Identity) :
    List Import → GraphM (List Dependency)
  | [] => return []
  | i :: rest => do
    let target ← (BuildM.ofExcept (Resolve.specifier input.config input.files i.specifier m))
    if i.isSync then visit target else noteRoot target
    return ⟨i.specifier, i.kind, target⟩ :: (← visitImports input visit m rest)

/-- Visits a module that is neither recorded nor being visited. -/
def visitNew (input : GraphInput) (visit : Identity → GraphM Unit) (m : Identity) :
    GraphM Unit := do
  BuildM.check
  let content ← readModule input m
  let digest := Digest.ofContent content
  let artifact ← artifactOf input m content digest
  let dependencies ← visitImports input visit m artifact.imports
  let mode ← BuildM.mode
  let r : ModuleRecord := {
    identity := m
    contentType := ContentType.lowered m.extension
    digest
    artifact
    dependencies
    source? := sourceOf mode m content artifact }
  modify fun s => { s with records := s.records ++ [r] }

/-- Visits a module; `path` holds the modules that are being visited, the newest first. A path repeats
no module, so `fuel` suffices when, together with the length of the path, it exceeds the length that a
path can have. -/
def visit (input : GraphInput) : Nat → List Identity → Identity → GraphM Unit
  | 0, path, m => BuildM.fail (.cyclicDependency (path.reverse ++ [m]))
  | fuel + 1, path, m => do
    if ← isRecorded m then return ()
    match cycleOf? path m with
    | some cycle => BuildM.fail (.cyclicDependency cycle)
    | none => visitNew input (visit input fuel (m :: path)) m

/-- A number that exceeds the length of every path: a path holds files, and at its start a module that
need not be given by the location of its file. -/
def fuelFor (input : GraphInput) : Nat :=
  input.files.entries.length + 2

/-- Visits the entries. -/
def visitEntries (input : GraphInput) : List (String × Identity) → GraphM Unit
  | [] => return ()
  | (_, m) :: rest => do
    modify fun s =>
      if s.seenRoots.contains m then s else { s with seenRoots := s.seenRoots ++ [m] }
    visit input (fuelFor input) [] m
    visitEntries input rest

/-- Visits the targets of deferred imports in the order of their discovery, and gives them. Each is
noted once, so `fuel` suffices when it exceeds the number of files. -/
def visitPending (input : GraphInput) : Nat → GraphM (List Identity)
  | 0 => return []
  | fuel + 1 => do
    match (← get).pendingRoots with
    | [] => return []
    | m :: rest =>
      modify fun s => { s with pendingRoots := rest }
      visit input (fuelFor input) [] m
      return m :: (← visitPending input fuel)

/-- The graph of some entries. -/
def build (input : GraphInput) (entries : List (String × Identity)) : BuildM ModuleGraph := do
  let action : GraphM (List Identity) := do
    visitEntries input entries
    visitPending input (fuelFor input)
  let (deferredRoots, s) ← action.run {}
  return { records := s.records, entries, deferredRoots }

end Graph

end AssetBundler
