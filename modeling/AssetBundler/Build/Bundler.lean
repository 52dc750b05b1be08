/-
  AssetBundler.Build.Bundler
  ────────────────────────────────
  **BUILDING A PROJECT.**

  A bundler takes a project through all phases of a build.  It keeps the
  artifacts of its last successful build for the next one.
-/
import AssetBundler.Build.Optimize
import AssetBundler.Build.Output

namespace AssetBundler

/-! ## §1. Bundlers. -/

/-- A project that can be built again and again. -/
structure Bundler where
  config : Config
  mode : Mode
  /-- The output directory, if it is not the configured one. -/
  outdir? : Option Path
  /-- The root of the project, links followed. -/
  root : Path
  table : RuleTable
  cache : TransformCache

namespace Bundler

/-- Where output is written. -/
def outputDir (b : Bundler) : Path :=
  b.outdir?.getD b.config.outputDir

/-- A path with links followed, or as it is when it leads nowhere. -/
def canonicalOr (files : FileTree) (path : Path) : Path :=
  match files.canonical path with
  | .ok location => Path.ofNames location
  | .error _ => path

/-- A bundler for a project. The output directory must not hold the root of the project. -/
def create (files : FileTree) (config : Config) (mode : Mode) (outdir? : Option Path) :
    Except SetupError Bundler := do
  let table ← RuleTable.compile config mode
  let b : Bundler :=
    { config, mode, outdir?, root := canonicalOr files config.root, table, cache := [] }
  let outdir := canonicalOr files b.outputDir
  if b.root.startsWith outdir then throw (.outputContainsRoot outdir)
  return b

/-! ## §2. The phases of a build. -/

/-- The modules of the configured entries. -/
def entries (b : Bundler) (files : FileTree) :
    Except BuildError (List (String × Identity)) :=
  b.config.entryPaths.mapM fun (name, path) => do
    return (name, ← Resolve.entry b.config files path)

/-- Makes every chunk ready for production, unless the build is told to stop. -/
def optimizeAll : List (Chunk × RenderedChunk) → BuildM (List RenderedChunk)
  | [] => return []
  | (chunk, rendered) :: rest => do
    BuildM.check
    let first ← BuildM.ofExcept (Optimize.chunk chunk rendered)
    return first :: (← optimizeAll rest)

/-- The graph of a project. -/
def graph (b : Bundler) (files : FileTree) : BuildM ModuleGraph := do
  BuildM.enter .resolving
  let entries ← BuildM.ofExcept (b.entries files)
  BuildM.enter .graphBuilding
  Graph.build { config := b.config, files, table := b.table, cache := b.cache } entries

/-- The text of every chunk of a plan. -/
def contents (b : Bundler) (g : ModuleGraph) (plan : ChunkPlan) :
    BuildM (List RenderedChunk) := do
  let rendered ← BuildM.ofExcept (plan.chunks.mapM (renderChunk g b.root b.mode))
  if b.mode = .production then
    BuildM.enter .optimizing
    optimizeAll (plan.chunks.zip rendered)
  else return rendered

/-- The graph and the output of a project. -/
def assemble (b : Bundler) (files : FileTree) : BuildM (ModuleGraph × BuildOutput) := do
  let g ← b.graph files
  BuildM.enter .splitting
  let plan := g.split
  let contents ← b.contents g plan
  BuildM.enter .emitting
  let o ← BuildM.ofExcept (Emit.output b.config b.mode files b.root g plan contents)
  return (g, o)

/-! ## §3. Whole builds. -/

/-- What a build leaves behind. -/
structure Outcome where
  result : Except BuildError BuildOutput
  session : Session
  /-- The bundler for the next build. -/
  bundler : Bundler
  files : FileTree

/-- The bundler with the artifacts of a graph for the next build. -/
def remember (b : Bundler) (g : ModuleGraph) : Bundler :=
  { b with cache := TransformCache.ofGraph g }

/-- Completes a build whose output is there: the signal may still discard it. -/
def finish (b : Bundler) (signal : CancelSignal) (s : Session) (files : FileTree)
    (o : BuildOutput) : Outcome :=
  match (BuildM.enter .done).exec signal s with
  | (.ok (), s) => ⟨.ok o, s, b, files⟩
  | (.error e, s) => ⟨.error e, s, b, files⟩

/-- Builds a project; `write` tells whether output is written. -/
def execute (b : Bundler) (signal : CancelSignal) (write : Bool) (files : FileTree) : Outcome :=
  match (b.assemble files).exec signal { mode := b.mode } with
  | (.error e, s) => ⟨.error e, s.fail, b, files⟩
  | (.ok (g, o), s) =>
    match if write then o.write b.outputDir b.mode files else (files, none) with
    | (files, some e) => ⟨.error e, s.fail, b, files⟩
    | (files, none) => (b.remember g).finish signal s files o

/-- Builds a project in memory. -/
def compile (b : Bundler) (signal : CancelSignal) (files : FileTree) : Outcome :=
  b.execute signal false files

/-- Builds a project and writes its output. -/
def build (b : Bundler) (files : FileTree) : Outcome :=
  b.execute CancelSignal.never true files

end Bundler

end AssetBundler
