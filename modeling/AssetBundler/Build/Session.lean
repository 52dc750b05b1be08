/-
  AssetBundler.Build.Session
  ────────────────────────────────
  **ONE RUN OF A BUILD.**

  A session knows the phase that its build is in and what has happened so
  far.  Whether the build has been told to stop is asked at fixed points; a
  signal answers for every state of the session.
-/
import AssetBundler.Project.Error

namespace AssetBundler

/-! ## §1. Phases and events. -/

/-- The phases of a build. -/
inductive Phase where
  | idle | resolving | graphBuilding | splitting | optimizing | emitting | done | failed
  deriving DecidableEq, Repr

namespace Phase

/-- All phases with their names. -/
def table : List (String × Phase) :=
  [("idle", idle), ("resolving", resolving), ("graph-building", graphBuilding),
   ("splitting", splitting), ("optimizing", optimizing), ("emitting", emitting), ("done", done),
   ("failed", failed)]

/-- The phase of a name. -/
def ofText? (s : String) : Option Phase :=
  table.lookup s

/-- The name of a phase. -/
def text (p : Phase) : String :=
  ((table.find? fun e => e.2 == p).map (·.1)).getD ""

end Phase

/-- What happens to a module in a build. -/
inductive BuildEvent where
  | read (m : Identity)
  /-- A step of the rule table begins. -/
  | step (m : Identity) (s : Step)
  deriving DecidableEq

/-- The state of a build. -/
structure Session where
  mode : Mode
  phase : Phase := .idle
  /-- The phases entered so far. -/
  entered : List Phase := []
  /-- How often the signal has been asked. -/
  checks : Nat := 0
  events : List BuildEvent := []

namespace Session

/-- The steps begun so far, with their modules. -/
def steps (s : Session) : List (Identity × Step) :=
  s.events.filterMap fun
    | .step m step => some (m, step)
    | .read _ => none

/-- The modules read so far. -/
def reads (s : Session) : List Identity :=
  s.events.filterMap fun
    | .read m => some m
    | .step .. => none

/-- The session of a build that has failed. -/
def fail (s : Session) : Session :=
  { s with phase := .failed }

end Session

/-! ## §2. Actions of a build. -/

/-- Tells, at a state of a session, whether the build is to stop. -/
abbrev CancelSignal := Session → Bool

/-- No build is told to stop. -/
def CancelSignal.never : CancelSignal := fun _ => false

/-- An action of a build: it may fail, and what has happened stays known. -/
abbrev BuildM := ReaderT CancelSignal (ExceptT BuildError (StateM Session))

namespace BuildM

/-- Runs an action. -/
def exec {α : Type} (action : BuildM α) (signal : CancelSignal) (s : Session) :
    Except BuildError α × Session :=
  action signal s

/-- Fails with an error. -/
def fail {α : Type} (e : BuildError) : BuildM α :=
  fun _ s => (.error e, s)

/-- Goes on with a value or fails. -/
def ofExcept {α : Type} : Except BuildError α → BuildM α
  | .ok a => pure a
  | .error e => fail e

/-- Stops the build if it has been told to. -/
def check : BuildM Unit := fun signal s =>
  let asked := { s with checks := s.checks + 1 }
  if signal s then (.error .cancelled, asked) else (.ok (), asked)

/-- Enters a phase, and stops the build if it has been told to. -/
def enter (p : Phase) : BuildM Unit := fun signal s =>
  check signal { s with phase := p, entered := s.entered ++ [p] }

/-- Records events. -/
def record (events : List BuildEvent) : BuildM Unit := fun _ s =>
  (.ok (), { s with events := s.events ++ events })

/-- The mode of the build. -/
def mode : BuildM Mode := fun _ s => (.ok s.mode, s)

end BuildM

end AssetBundler
