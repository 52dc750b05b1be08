/-
  AssetBundler.CommandLine.Run
  ────────────────────────────────
  **RUNNING COMMANDS.**

  A command loads the configuration, sets the project up and does its work on
  the files of the project.
-/
import AssetBundler.Build.Bundler
import AssetBundler.CommandLine.Basic
import AssetBundler.Serve.Rebuild

namespace AssetBundler.CommandLine

/-- Why a command fails. -/
inductive CommandError where
  | setup (e : SetupError)
  | build (e : BuildError)

/-- The error in words. -/
def CommandError.message : CommandError → String
  | setup e => e.message
  | build e => e.message

/-! ## §1. Building. -/

/-- What a command leaves behind. -/
structure CommandOutcome (α : Type) where
  result : Except CommandError α
  files : FileTree

/-- Builds the project of a configuration file and writes its output. -/
def runBuild (files : FileTree) (config : Path) (outdir? : Option Path) (mode : Mode) :
    CommandOutcome BuildOutput :=
  let bundler := do Bundler.create files (← Config.load files config) mode outdir?
  match bundler with
  | .error e => ⟨.error (.setup e), files⟩
  | .ok b =>
    let outcome := b.build files
    ⟨outcome.result.mapError .build, outcome.files⟩

/-! ## §2. Serving. -/

/-- Where the development server listens and what it does. -/
structure ServeOptions where
  host : String
  port : Nat
  openBrowser : Bool
  liveReload : Bool
  deriving DecidableEq, Repr

/-- The options of the development server: those of the command line win over the configuration. -/
def serveOptions (config : Config) (port? : Option Nat) (host? : Option String)
    (openBrowser noReload : Bool) : ServeOptions :=
  { host := host?.getD config.dev.host
    port := port?.getD config.dev.port
    openBrowser := openBrowser || config.dev.openBrowser
    liveReload := config.dev.liveReload && !noReload }

/-- A development server that is ready to listen. -/
structure DevServer where
  options : ServeOptions
  loop : RebuildLoop
  filter : WatchFilter

/-- Sets a development server up and builds its project for the first time. -/
def startDev (files : FileTree) (config : Path) (port? : Option Nat) (host? : Option String)
    (openBrowser noReload : Bool) : Except SetupError DevServer := do
  let config ← Config.load files config
  let options := serveOptions config port? host? openBrowser noReload
  let loop ← RebuildLoop.create files config options.liveReload
  let filter ← WatchFilter.create config loop.bundler.outputDir
  return { options, loop := loop.buildNow CancelSignal.never files "initial build", filter }

/-- What a command does to the files of the project, and why it fails if it does. -/
def run (files : FileTree) (i : Invocation) : CommandOutcome Unit :=
  match i.command with
  | .build outdir? mode =>
    let outcome := runBuild files ⟨i.config⟩ outdir? mode
    ⟨outcome.result.map fun _ => (), outcome.files⟩
  | .dev port? host? openBrowser noReload =>
    match startDev files ⟨i.config⟩ port? host? openBrowser noReload with
    | .ok _ => ⟨.ok (), files⟩
    | .error e => ⟨.error (.setup e), files⟩

end AssetBundler.CommandLine
