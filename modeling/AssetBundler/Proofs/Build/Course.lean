/-
  AssetBundler.Proofs.Build.Course
  ────────────────────────────────
  **THE PHASES OF A BUILD, WHATEVER STOPS IT.**

  A build may be told to stop at any point, and every stage of it may fail.
  `Enters` says of an action which phases it goes through: all of a list when
  it succeeds, and the first of them when it fails.  It is put together along
  the actions of a build, so that neither the signal nor the place of a
  failure matters:

    • `BuildM.Enters` — the phases of an action,
    • `Graph.build_enters`, `Bundler.assemble_enters` — those of a build,
    • `Bundler.Outcome.Follows` — the session and the artifacts a build leaves,
    • `Bundler.execute_follows` — every build leaves them so,
    • `Bundler.discarded_build_keeps_phase` — a build told to stop when its
      last phase has begun.
-/
import AssetBundler.Proofs.Build.Incremental

namespace AssetBundler

/-! ## §1. The phases of an action. -/

namespace BuildM

variable {α β : Type}

/-- **The action goes through some phases**: through all of them when it succeeds, and through the first
of them when it fails. -/
def Enters (phases : List Phase) (action : BuildM α) : Prop :=
  ∀ signal s, Ensures signal s action (fun _ s' => s'.entered = s.entered ++ phases)
    (fun _ s' => ∃ first, first <+: phases ∧ s'.entered = s.entered ++ first)

variable {phases : List Phase}

theorem enters_pure (a : α) : Enters [] (pure a : BuildM α) :=
  fun _ _ => (List.append_nil _).symm

theorem enters_fail (e : BuildError) : Enters phases (fail e : BuildM α) :=
  fun _ _ => ⟨[], List.nil_prefix, (List.append_nil _).symm⟩

theorem enters_ofExcept (result : Except BuildError α) : Enters [] (ofExcept result) := by
  cases result with
  | ok a => exact enters_pure a
  | error e => exact enters_fail e

theorem enters_check : Enters [] check := by
  intro signal s
  rw [ensures_check]
  exact ⟨fun _ => (List.append_nil _).symm, fun _ => ⟨[], List.nil_prefix, (List.append_nil _).symm⟩⟩

theorem enters_record (events : List BuildEvent) : Enters [] (record events) :=
  fun _ _ => (List.append_nil _).symm

theorem enters_mode : Enters [] mode :=
  fun _ _ => (List.append_nil _).symm

/-- A phase is entered before it is asked whether the build is to stop. -/
theorem enters_enter (p : Phase) : Enters [p] (enter p) := by
  intro signal s
  rw [ensures_enter, ensures_check]
  exact ⟨fun _ => rfl, fun _ => ⟨[p], List.prefix_rfl, rfl⟩⟩

theorem Enters.bind {action : BuildM α} {next : α → BuildM β} {later : List Phase}
    (h : Enters phases action) (hnext : ∀ a, Enters later (next a)) :
    Enters (phases ++ later) (action >>= next) := by
  intro signal s
  rw [ensures_bind]
  refine (h signal s).mono (fun a s₁ hs₁ => ?_) ?_
  · refine (hnext a signal s₁).mono (fun _ s₂ hs₂ => ?_) ?_
    · rw [hs₂, hs₁, List.append_assoc]
    · rintro _ s₂ ⟨first, hfirst, hs₂⟩
      refine ⟨phases ++ first, (List.prefix_append_right_inj _).mpr hfirst, ?_⟩
      rw [hs₂, hs₁, List.append_assoc]
  · rintro _ s₁ ⟨first, hfirst, hs₁⟩
    exact ⟨first, hfirst.trans (List.prefix_append _ _), hs₁⟩

end BuildM

namespace GraphM

variable {α β : Type}

/-- The action stays in the phase of the build. -/
def StaysInPhase (action : GraphM α) : Prop :=
  ∀ st, BuildM.Enters [] (action.run st)

theorem staysInPhase_pure (a : α) : StaysInPhase (pure a : GraphM α) :=
  fun st => BuildM.enters_pure (a, st)

theorem staysInPhase_get : StaysInPhase (get : GraphM GraphState) :=
  fun st => BuildM.enters_pure (st, st)

theorem staysInPhase_modify (f : GraphState → GraphState) :
    StaysInPhase (modify f : GraphM PUnit) :=
  fun st => BuildM.enters_pure (PUnit.unit, f st)

theorem StaysInPhase.bind {action : GraphM α} {next : α → GraphM β} (h : StaysInPhase action)
    (hnext : ∀ a, StaysInPhase (next a)) : StaysInPhase (action >>= next) := by
  intro st
  rw [StateT.run_bind]
  exact (h st).bind fun found => hnext found.1 found.2

theorem staysInPhase_lift {action : BuildM α} (h : BuildM.Enters [] action) :
    StaysInPhase (liftM action : GraphM α) :=
  fun st => h.bind fun a => BuildM.enters_pure (a, st)

end GraphM

/-! ## §2. The traversal. -/

namespace Graph

open GraphM

variable {input : GraphInput}

theorem readModule_enters (m : Identity) : BuildM.Enters [] (readModule input m) := by
  unfold readModule
  refine (BuildM.enters_record _).bind fun _ => ?_
  cases input.files.read m.path with
  | ok content => exact BuildM.enters_pure content
  | error e => exact BuildM.enters_fail _

theorem artifactOf_enters (m : Identity) (content : ByteArray) (digest : String) :
    BuildM.Enters [] (artifactOf input m content digest) := by
  unfold artifactOf
  cases input.cache.lookup m digest with
  | some a => exact BuildM.enters_pure a
  | none => exact (BuildM.enters_record _).bind fun _ => BuildM.enters_ofExcept _

theorem visitImports_staysInPhase {visit : Identity → GraphM Unit}
    (hvisit : ∀ target, StaysInPhase (visit target)) (m : Identity) :
    ∀ imports : List Import, StaysInPhase (visitImports input visit m imports) := by
  intro imports
  induction imports with
  | nil => exact staysInPhase_pure []
  | cons i rest ih =>
      refine (staysInPhase_lift (BuildM.enters_ofExcept _)).bind fun target => ?_
      split
      next => exact (hvisit target).bind fun _ => ih.bind fun _ => staysInPhase_pure _
      next => exact (staysInPhase_modify _).bind fun _ => ih.bind fun _ => staysInPhase_pure _

theorem visitNew_staysInPhase {visit : Identity → GraphM Unit}
    (hvisit : ∀ target, StaysInPhase (visit target)) (m : Identity) :
    StaysInPhase (visitNew input visit m) := by
  unfold visitNew
  refine (staysInPhase_lift BuildM.enters_check).bind fun _ => ?_
  refine (staysInPhase_lift (readModule_enters m)).bind fun content => ?_
  refine (staysInPhase_lift (artifactOf_enters m content _)).bind fun artifact => ?_
  refine (visitImports_staysInPhase hvisit m artifact.imports).bind fun dependencies => ?_
  exact (staysInPhase_lift BuildM.enters_mode).bind fun _ => staysInPhase_modify _

theorem visit_staysInPhase :
    ∀ (fuel : Nat) (path : List Identity) (m : Identity), StaysInPhase (visit input fuel path m) := by
  intro fuel
  induction fuel with
  | zero => exact fun path m => staysInPhase_lift (BuildM.enters_fail _)
  | succ fuel ih =>
      intro path m
      refine (staysInPhase_get.bind fun _ => staysInPhase_pure _).bind fun recorded => ?_
      split
      next => exact staysInPhase_pure ()
      next =>
        split
        next => exact staysInPhase_lift (BuildM.enters_fail _)
        next => exact visitNew_staysInPhase (ih (m :: path)) m

theorem visitEntries_staysInPhase :
    ∀ entries : List (String × Identity), StaysInPhase (visitEntries input entries) := by
  intro entries
  induction entries with
  | nil => exact staysInPhase_pure ()
  | cons e rest ih =>
      refine (staysInPhase_modify _).bind fun _ => ?_
      exact (visit_staysInPhase (fuelFor input) [] e.2).bind fun _ => ih

theorem visitPending_staysInPhase : ∀ fuel : Nat, StaysInPhase (visitPending input fuel) := by
  intro fuel
  induction fuel with
  | zero => exact staysInPhase_pure []
  | succ fuel ih =>
      refine staysInPhase_get.bind fun st => ?_
      split
      next => exact staysInPhase_pure []
      next m _ _ =>
        refine (staysInPhase_modify _).bind fun _ => ?_
        refine (visit_staysInPhase (fuelFor input) [] m).bind fun _ => ?_
        exact ih.bind fun roots => staysInPhase_pure _

/-- **The traversal enters no phase.** -/
theorem build_enters (entries : List (String × Identity)) :
    BuildM.Enters [] (build input entries) := by
  have hwalk : StaysInPhase (visitEntries input entries >>= fun _ =>
      visitPending input (fuelFor input)) :=
    (visitEntries_staysInPhase entries).bind fun _ => visitPending_staysInPhase _
  exact (hwalk {}).bind fun found => BuildM.enters_pure _

end Graph

/-! ## §3. Whole builds. -/

namespace Phase

/-- The phases in which texts are made ready for production. -/
def minifying : Mode → List Phase
  | .production => [optimizing]
  | .development => []

/-- The phases in which the output of a build is put together. -/
def working (mode : Mode) : List Phase :=
  [resolving, graphBuilding, splitting] ++ minifying mode ++ [emitting]

/-- **The phases of a build.** -/
def course (mode : Mode) : List Phase :=
  working mode ++ [done]

theorem done_notMem_working (mode : Mode) : done ∉ working mode := by
  cases mode <;> decide

end Phase

/-- The session of a build that has come to its last phase. -/
def Session.completed (s : Session) : Session :=
  { s with phase := .done, entered := s.entered ++ [.done], checks := s.checks + 1 }

namespace Bundler

variable (b : Bundler) (files : FileTree)

theorem graph_enters : BuildM.Enters [.resolving, .graphBuilding] (b.graph files) := by
  refine (BuildM.enters_enter .resolving).bind fun _ => ?_
  refine (BuildM.enters_ofExcept _).bind fun entries => ?_
  exact (BuildM.enters_enter .graphBuilding).bind fun _ => Graph.build_enters entries

theorem optimizeAll_enters (chunks : List (Chunk × RenderedChunk)) :
    BuildM.Enters [] (optimizeAll chunks) := by
  induction chunks with
  | nil => exact BuildM.enters_pure []
  | cons c rest ih =>
      refine BuildM.enters_check.bind fun _ => ?_
      refine (BuildM.enters_ofExcept _).bind fun first => ?_
      exact ih.bind fun _ => BuildM.enters_pure _

theorem contents_enters (g : ModuleGraph) (plan : ChunkPlan) :
    BuildM.Enters (Phase.minifying b.mode) (b.contents g plan) := by
  refine (BuildM.enters_ofExcept _).bind fun rendered => ?_
  cases b.mode with
  | production => exact (BuildM.enters_enter .optimizing).bind fun _ => optimizeAll_enters _
  | development => exact BuildM.enters_pure rendered

/-- **The phases in which the output is put together.** -/
theorem assemble_enters : BuildM.Enters (Phase.working b.mode) (b.assemble files) := by
  have hassemble : BuildM.Enters ([.resolving, .graphBuilding] ++ ([.splitting]
      ++ (Phase.minifying b.mode ++ ([.emitting] ++ [])))) (b.assemble files) := by
    refine (b.graph_enters files).bind fun g => ?_
    refine (BuildM.enters_enter .splitting).bind fun _ => ?_
    refine (b.contents_enters g g.split).bind fun contents => ?_
    refine (BuildM.enters_enter .emitting).bind fun _ => ?_
    exact (BuildM.enters_ofExcept _).bind fun o => BuildM.enters_pure (g, o)
  simpa [Phase.working] using hassemble

/-- **What a build leaves behind**, told to stop by a signal at any point or not: `b` is the bundler
before. Only when the signal strikes in the last phase, the build fails without being marked so. -/
structure Outcome.Follows (b : Bundler) (signal : CancelSignal) (files : FileTree) (out : Outcome) :
    Prop where
  /-- A build that succeeds has gone through all phases, and its artifacts are kept. -/
  succeeded : ∀ o, out.result = .ok o →
    out.session.entered = Phase.course b.mode ∧ out.session.phase = .done
      ∧ ∃ g, b.Makes files g o ∧ out.bundler = b.remember g
  /-- A build that fails has gone through the first phases. -/
  entered : ∀ e, out.result = .error e → out.session.entered <+: Phase.course b.mode
  /-- If it has not come to the last one, it is marked as failed, and nothing of it is kept. -/
  failed : ∀ e, out.result = .error e → .done ∉ out.session.entered →
    out.session.phase = .failed ∧ out.bundler = b
  /-- If it has, the signal has struck there: the output had been put together, and the artifacts are
  kept although it is discarded. -/
  discarded : ∀ e, out.result = .error e → .done ∈ out.session.entered →
    e = .cancelled ∧ out.session.phase = .done
      ∧ (∃ s : Session, s.phase = .done ∧ signal s = true)
      ∧ ∃ g o, b.Makes files g o ∧ out.bundler = b.remember g

variable {b files} {signal : CancelSignal} {s : Session}

/-- A build that has failed before its last phase. -/
theorem Outcome.follows_of_fail {e : BuildError} {after : FileTree}
    (hentered : s.entered <+: Phase.working b.mode) :
    Outcome.Follows b signal files ⟨.error e, s.fail, b, after⟩ where
  succeeded _ h := by cases h
  entered _ _ := hentered.trans (List.prefix_append _ _)
  failed _ _ _ := ⟨rfl, rfl⟩
  discarded _ _ h := absurd (hentered.mem h) (Phase.done_notMem_working b.mode)

/-- A build whose output has been put together enters its last phase, where it may still be told to
stop. -/
theorem finish_eq (o : BuildOutput) (after : FileTree) :
    b.finish signal s after o
      = if signal { s with phase := .done, entered := s.entered ++ [.done] } then
          ⟨.error .cancelled, s.completed, b, after⟩
        else ⟨.ok o, s.completed, b, after⟩ := by
  unfold finish BuildM.exec BuildM.enter BuildM.check
  cases signal { s with phase := .done, entered := s.entered ++ [.done] } <;> rfl

theorem follows_finish {g : ModuleGraph} {o : BuildOutput} {after : FileTree}
    (hmakes : b.Makes files g o) (hentered : s.entered = Phase.working b.mode) :
    ((b.remember g).finish signal s after o).Follows b signal files := by
  have hcourse : s.completed.entered = Phase.course b.mode := by
    rw [Phase.course, ← hentered, Session.completed]
  rw [finish_eq]
  split
  next hsignal =>
    refine ⟨fun _ h => (by cases h), fun _ _ => ?_, fun _ _ h => ?_, fun _ h _ => ?_⟩
    · rw [hcourse]
    · exact absurd (by simp [Session.completed]) h
    · cases h
      exact ⟨rfl, rfl, ⟨_, rfl, hsignal⟩, g, o, hmakes, rfl⟩
  next =>
    refine ⟨fun o' ho => ?_, fun _ h => (by cases h), fun _ h => (by cases h),
      fun _ h => (by cases h)⟩
    cases ho
    exact ⟨hcourse, rfl, g, hmakes, rfl⟩

/-- **THE COURSE OF A BUILD**, written or not, and whenever it is told to stop. -/
theorem execute_follows (b : Bundler) (signal : CancelSignal) (write : Bool) (files : FileTree) :
    (b.execute signal write files).Follows b signal files := by
  have henters := b.assemble_enters files signal { mode := b.mode }
  have hmakes : BuildM.Ensures signal { mode := b.mode } (b.assemble files)
    (fun made _ => b.Makes files made.1 made.2) (fun _ _ => True) := assemble_ensures
  unfold execute
  unfold BuildM.Ensures at henters hmakes
  cases hmade : (b.assemble files).exec signal { mode := b.mode } with
  | mk result s =>
  rw [hmade] at henters hmakes
  cases result with
  | error e =>
      obtain ⟨first, hfirst, hs⟩ := henters
      exact Outcome.follows_of_fail (hs ▸ hfirst)
  | ok made =>
      have hs : s.entered = Phase.working b.mode := henters
      dsimp only
      split
      next => exact Outcome.follows_of_fail (hs ▸ List.prefix_rfl)
      next => exact follows_finish hmakes hs

/-- A build that is told to stop in its last phase is discarded. It is not marked as failed, and the
bundler has lost the artifacts that it had. -/
theorem discarded_build_keeps_phase :
    ∃ b, create (scriptsTree []) scriptsConfig .development none = .ok b
      ∧ (b.compile (fun s => s.phase == .done) (scriptsTree [("main.js", "")])).result.toOption.isNone
      ∧ (b.compile (fun s => s.phase == .done) (scriptsTree [("main.js", "")])).session.phase = .done
      ∧ b.cache.length = 0
      ∧ (b.compile (fun s => s.phase == .done)
          (scriptsTree [("main.js", "")])).bundler.cache.length = 1 :=
  exists_of_any_toOption (by decide +kernel)

end Bundler

end AssetBundler
