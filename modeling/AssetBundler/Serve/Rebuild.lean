/-
  AssetBundler.Serve.Rebuild
  ────────────────────────────────
  **BUILDING ANEW ON CHANGES.**

  Changed files arrive in batches.  A batch starts a build task of its own and
  tells the one before to stop; a task builds, asks whether it is still the
  newest, and publishes its result.  The tasks run beside one another, so a
  run of the loop is a sequence of their steps in any order that keeps the
  order within each task.
-/
import AssetBundler.Build.Bundler
import AssetBundler.Serve.Server
import AssetBundler.Serve.WatchFilter

namespace AssetBundler

/-! ## §1. Tasks. -/

/-- How far a build task has come. -/
inductive TaskStage where
  | building
  | built (result : Except BuildError BuildOutput)
  /-- The task was the newest when it asked. -/
  | confirmed (result : Except BuildError BuildOutput)
  | ended

/-- A build task. -/
structure RebuildTask where
  generation : Nat
  /-- Why it builds, for the pages. -/
  reason : String
  /-- It has been told to stop. -/
  cancelled : Bool := false
  stage : TaskStage := .building

/-- The loop with its tasks, and the server that they publish to. -/
structure RebuildLoop where
  server : Server
  bundler : Bundler
  /-- The number of the newest task. -/
  generation : Nat := 0
  /-- Changed files that have been received and have started no task yet. -/
  received? : Option (List Path) := none
  tasks : List RebuildTask := []
  /-- The tasks that have published, in order. -/
  published : List Nat := []
  /-- What pages have been told, in order. -/
  sent : List ReloadMessage := []

/-! ## §2. Steps. -/

/-- A step of the loop or of one of its tasks. -/
inductive RebuildStep where
  /-- Changed files are received, all that have arrived together. -/
  | receive (batches : List (List Path))
  /-- What has been received starts a task, and the task before is told to stop. -/
  | launch
  /-- The build of a task ends. A task that has been told to stop may have noticed it at any point. -/
  | finish (generation : Nat) (signal : CancelSignal) (files : FileTree)
  /-- A task asks whether it is the newest. -/
  | confirm (generation : Nat)
  /-- A task publishes its result. -/
  | publish (generation : Nat)

/-- Some paths, of which those with the same components count once. -/
def distinctPaths (paths : List Path) : List (List PathComponent) :=
  firstOccurrences (paths.map Path.components)

/-- Why a task builds that some changed files have started. -/
def changeReason (paths : List Path) : String :=
  toString (distinctPaths paths).length ++ " file(s) changed"

namespace RebuildLoop

/-- The task of a generation. -/
def task? (l : RebuildLoop) (generation : Nat) : Option RebuildTask :=
  l.tasks.find? fun t => t.generation == generation

/-- The loop with the task of a generation changed. -/
def modifyTask (l : RebuildLoop) (generation : Nat) (f : RebuildTask → RebuildTask) :
    RebuildLoop :=
  { l with tasks := l.tasks.map fun t => if t.generation == generation then f t else t }

/-- The loop with a task at another stage. -/
def setStage (l : RebuildLoop) (generation : Nat) (stage : TaskStage) : RebuildLoop :=
  l.modifyTask generation fun t => { t with stage }

/-- The server of the loop takes over a result. -/
def publishResult (l : RebuildLoop) (result : Except BuildError BuildOutput) (reason : String) :
    RebuildLoop :=
  let (server, messages) := l.server.publish result reason
  { l with server, sent := l.sent ++ messages }

/-- A new task for changed files; the task before is told to stop. -/
def launch (l : RebuildLoop) (paths : List Path) : RebuildLoop :=
  let stopped := l.modifyTask l.generation fun t => { t with cancelled := true }
  let generation := l.generation + 1
  { stopped with
    generation
    received? := none
    tasks := stopped.tasks ++ [{ generation, reason := changeReason paths }] }

/-- Builds the project on files as they are, for a task. -/
def finish (l : RebuildLoop) (t : RebuildTask) (signal : CancelSignal) (files : FileTree) :
    RebuildLoop :=
  let signal := if t.cancelled then signal else CancelSignal.never
  let outcome := l.bundler.compile signal files
  { l with bundler := outcome.bundler }.setStage t.generation (.built outcome.result)

/-- A task that has built is confirmed if it is the newest, and ends otherwise. -/
def confirm (l : RebuildLoop) (t : RebuildTask) (result : Except BuildError BuildOutput) :
    RebuildLoop :=
  l.setStage t.generation
    (if l.generation = t.generation then .confirmed result else .ended)

/-- A task publishes its result and ends. -/
def publish (l : RebuildLoop) (t : RebuildTask) (result : Except BuildError BuildOutput) :
    RebuildLoop :=
  let l := (l.publishResult result t.reason).setStage t.generation .ended
  { l with published := l.published ++ [t.generation] }

/-- The loop behind a step, when the step can be taken. -/
def step? (l : RebuildLoop) : RebuildStep → Option RebuildLoop
  | .receive batches =>
    if l.received?.isNone then some { l with received? := some batches.flatten } else none
  | .launch => l.received?.map l.launch
  | .finish generation signal files =>
    match l.task? generation with
    | some t => match t.stage with
      | .building => some (l.finish t signal files)
      | _ => none
    | none => none
  | .confirm generation =>
    match l.task? generation with
    | some t => match t.stage with
      | .built result => some (l.confirm t result)
      | _ => none
    | none => none
  | .publish generation =>
    match l.task? generation with
    | some t => match t.stage with
      | .confirmed result => some (l.publish t result)
      | _ => none
    | none => none

/-- The loop behind some steps, when all of them can be taken in order. -/
def run? (l : RebuildLoop) : List RebuildStep → Option RebuildLoop
  | [] => some l
  | s :: rest => (l.step? s).bind fun l => l.run? rest

/-! ## §3. Runs without overlap. -/

/-- The loop of a project before its first build. -/
def create (files : FileTree) (config : Config) (liveReload : Bool) :
    Except SetupError RebuildLoop := do
  let bundler ← Bundler.create files config .development none
  return { server := Server.ofConfig config liveReload, bundler }

/-- Builds the project outside of any task. -/
def buildNow (l : RebuildLoop) (signal : CancelSignal) (files : FileTree) (reason : String) :
    RebuildLoop :=
  let outcome := l.bundler.compile signal files
  { l with bundler := outcome.bundler }.publishResult outcome.result reason

/-- The steps of changes that arrive together when no other task runs beside theirs. -/
def changeSteps (l : RebuildLoop) (batches : List (List Path)) (files : FileTree) :
    List RebuildStep :=
  let generation := l.generation + 1
  [.receive batches, .launch, .finish generation CancelSignal.never files, .confirm generation,
   .publish generation]

end RebuildLoop

end AssetBundler
