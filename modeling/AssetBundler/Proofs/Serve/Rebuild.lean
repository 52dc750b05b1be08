/-
  AssetBundler.Proofs.Serve.Rebuild
  ────────────────────────────────
  **IN WHICH ORDER REBUILDS ARE PUBLISHED.**

  The tasks of the rebuild loop run beside one another.  In whatever order
  their steps are taken, a task publishes at most once, and the newest one
  does not end without having published.  A task asks whether it is the newest
  before it publishes, but the two are separate steps: when a batch starts
  another task between them, that one may publish first and be overwritten.
  Only when no batch does is the order of the tasks kept:

    • `Bundler.isCancelled_of_compile` — a build that nothing stops,
    • `RebuildLoop.Takes` — what a step does,
    • `RebuildLoop.Counted` — what every run keeps,
    • `RebuildLoop.Ordered` — what a run keeps in which no task is disturbed,
    • `RebuildLoop.run_publishes_in_order` — the order, and what is served,
    • `RebuildLoop.overtaken_serves_superseded` — a run in which a task is.
-/
import AssetBundler.Proofs.Build.Incremental
import AssetBundler.Serve.Rebuild

namespace AssetBundler

/-! ## §1. Builds that nothing stops. -/

/-- No rule reports that a build was told to stop. -/
theorem RuleTable.isCancelled_of_transform {table : RuleTable} {m : Identity}
    {source : ByteArray} {e : BuildError} (h : (table.transform m source).2 = .error e) :
    e.isCancelled = false := by
  unfold transform at h
  split at h
  next rule _ =>
    dsimp only at h
    unfold finished at h
    split at h <;> cases h <;> rfl
  next =>
    split at h <;> cases h
    rfl

theorem Resolve.isCancelled_of_specifier {config : Config} {files : FileTree} {text : String}
    {m : Identity} {e : BuildError} (h : Resolve.specifier config files text m = .error e) :
    e.isCancelled = false := by
  unfold Resolve.specifier at h
  dsimp only at h
  split at h
  next => cases h; rfl
  next => cases h; rfl
  next => split at h <;> cases h; rfl

theorem Resolve.isCancelled_of_entry {config : Config} {files : FileTree} {path : Path}
    {e : BuildError} (h : Resolve.entry config files path = .error e) : e.isCancelled = false := by
  unfold Resolve.entry at h
  split at h <;> cases h
  rfl

/-- A graph that nothing stops is not given up because of a signal. -/
theorem GraphInput.Fault.isCancelled_never {input : GraphInput}
    {entries : List (String × Identity)} {e : BuildError}
    (h : input.Fault entries CancelSignal.never e) : e.isCancelled = false := by
  cases h with
  | cancelled s hs => cases hs
  | unreadable => rfl
  | untransformed m content _ _ _ hmade =>
      unfold artifactFor at hmade
      split at hmade
      next => cases hmade
      next => exact RuleTable.isCancelled_of_transform hmade
  | unresolved _ _ _ _ _ _ _ htarget => exact Resolve.isCancelled_of_specifier htarget
  | cyclic => rfl

theorem isCancelled_of_renderChunk {g : ModuleGraph} {root : Path} {mode : Mode} {chunk : Chunk}
    {e : BuildError} (h : renderChunk g root mode chunk = .error e) : e.isCancelled = false := by
  unfold renderChunk at h
  split at h
  next => cases h
  next =>
    have hsheet : Render.stylesheet g chunk = .error e := by
      cases hresult : Render.stylesheet g chunk with
      | ok code => rw [hresult] at h; cases h
      | error e' => rw [hresult] at h; cases h; rfl
    rcases error_or_of_bind_eq_error hsheet with hparts | ⟨_, _, h⟩
    · obtain ⟨r, _, hr⟩ := exists_of_mapM_error hparts
      unfold Render.rulesOf at hr
      split at hr
      next => split at hr <;> cases hr <;> rfl
      next => cases hr
    · cases h

theorem Emit.isCancelled_of_output {config : Config} {mode : Mode} {files : FileTree} {root : Path}
    {g : ModuleGraph} {plan : ChunkPlan} {contents : List RenderedChunk} {e : BuildError}
    (h : Emit.output config mode files root g plan contents = .error e) :
    e.isCancelled = false := by
  rcases error_or_of_bind_eq_error h with htemplate | ⟨_, _, h⟩
  · unfold Emit.template at htemplate
    dsimp only at htemplate
    split at htemplate
    next => cases htemplate
    next => split at htemplate <;> cases htemplate; rfl
  · cases h

namespace Bundler

variable {b : Bundler} {files : FileTree}

theorem optimizeAll_never (chunks : List (Chunk × RenderedChunk)) :
    ∀ s, BuildM.Ensures .never s (optimizeAll chunks) (fun _ _ => True)
      (fun e _ => e.isCancelled = false) := by
  induction chunks with
  | nil => exact fun _ => trivial
  | cons c rest ih =>
      intro s
      simp only [optimizeAll, BuildM.ensures_bind, BuildM.ensures_check, BuildM.ensures_ofExcept,
        BuildM.ensures_pure]
      refine ⟨fun _ => ⟨fun _ _ => ih _, fun e he => ?_⟩, fun hs => by cases hs⟩
      unfold Optimize.chunk at he
      split at he <;> cases he
      rfl

/-- Whatever a build that nothing stops may fail for, it is not the signal. -/
theorem assemble_never (s : Session) :
    BuildM.Ensures .never s (b.assemble files) (fun _ _ => True)
      (fun e _ => e.isCancelled = false) := by
  have hnever : ∀ s : Session, CancelSignal.never s = true → False := fun s hs => by cases hs
  simp only [assemble, graph, contents, BuildM.ensures_bind, BuildM.ensures_enter,
    BuildM.ensures_check, BuildM.ensures_ofExcept, BuildM.ensures_pure]
  refine ⟨fun _ => ⟨fun entries _ => ⟨fun _ => ?_, fun h => (hnever _ h).elim⟩, fun e he => ?_⟩,
    fun h => (hnever _ h).elim⟩
  · refine (Graph.build_ensures _).mono (fun g _ _ => ?_) (fun e _ he => he.isCancelled_never)
    refine ⟨fun _ => ⟨fun rendered _ => ?_, fun e he => ?_⟩, fun h => (hnever _ h).elim⟩
    · -- the texts are there, and what is left is to put the output together
      have hrest : ∀ (contents : List RenderedChunk) (s : Session),
          (CancelSignal.never s = false →
              (∀ o, Emit.output b.config b.mode files b.root g g.split contents = .ok o → True)
              ∧ ∀ e, Emit.output b.config b.mode files b.root g g.split contents = .error e →
                e.isCancelled = false)
            ∧ (CancelSignal.never s = true → BuildError.isCancelled .cancelled = false) :=
        fun contents s => ⟨fun _ => ⟨fun _ _ => trivial, fun e he => Emit.isCancelled_of_output he⟩,
          fun h => (hnever _ h).elim⟩
      split
      next =>
        simp only [BuildM.ensures_bind, BuildM.ensures_enter, BuildM.ensures_check]
        refine ⟨fun _ => ?_, fun h => (hnever _ h).elim⟩
        exact (optimizeAll_never _ _).mono (fun contents s _ => hrest contents _) (fun _ _ h => h)
      next => exact hrest rendered _
    · obtain ⟨chunk, _, hchunk⟩ := exists_of_mapM_error he
      exact isCancelled_of_renderChunk hchunk
  · obtain ⟨⟨name, path⟩, _, hentry⟩ := exists_of_mapM_error he
    rcases error_or_of_bind_eq_error hentry with hm | ⟨_, _, h⟩
    · exact Resolve.isCancelled_of_entry hm
    · cases h

/-- **A build that nothing stops** does not end as if it had been told to. -/
theorem isCancelled_of_compile {e : BuildError}
    (h : (b.compile .never files).result = .error e) : e.isCancelled = false := by
  have hrun : BuildM.Ensures .never { mode := b.mode }
      (b.assemble files >>= fun made => BuildM.enter .done >>= fun _ => pure made.2)
      (fun _ _ => True) (fun e _ => e.isCancelled = false) := by
    rw [BuildM.ensures_bind]
    refine (assemble_never _).mono (fun made s _ => ?_) (fun _ _ h => h)
    simp only [BuildM.ensures_bind, BuildM.ensures_enter, BuildM.ensures_check,
      BuildM.ensures_pure, implies_true, true_and]
    intro hs
    cases hs
  rw [compile_result] at h
  exact hrun.of_error h

end Bundler

/-- The server shows a result: it serves the output and has no error, or it has the error and serves
what it served before. -/
def Server.Shows (server before : Server) : Except BuildError BuildOutput → Prop
  | .ok o => server.output? = some o ∧ server.lastError? = none
  | .error e => server.output? = before.output? ∧ server.lastError? = some e.message

/-- What is published is shown, unless the build was told to stop. -/
theorem Server.shows_publish (server : Server) {result : Except BuildError BuildOutput}
    (reason : String) (h : ∀ e, result = .error e → e.isCancelled = false) :
    (server.publish result reason).1.Shows server result := by
  unfold publish
  cases result with
  | ok o => exact ⟨rfl, rfl⟩
  | error e =>
      dsimp only
      rw [h e rfl, if_neg Bool.false_ne_true]
      exact ⟨rfl, rfl⟩

namespace RebuildLoop

variable {l l' l₀ : RebuildLoop} {s : RebuildStep} {t : RebuildTask} {g g' : Nat}

/-! ## §2. What a step does. -/

/-- **What a step does**, and when it can be taken. -/
inductive Takes (l : RebuildLoop) : RebuildStep → RebuildLoop → Prop
  | receive (batches : List (List Path)) (h : l.received? = none) :
      Takes l (.receive batches) { l with received? := some batches.flatten }
  | launch (paths : List Path) (h : l.received? = some paths) : Takes l .launch (l.launch paths)
  | finish (g : Nat) (t : RebuildTask) (signal : CancelSignal) (files : FileTree)
      (h : l.task? g = some t) (hstage : t.stage = .building) :
      Takes l (.finish g signal files) (l.finish t signal files)
  | confirm (g : Nat) (t : RebuildTask) (result : Except BuildError BuildOutput)
      (h : l.task? g = some t) (hstage : t.stage = .built result) :
      Takes l (.confirm g) (l.confirm t result)
  | publish (g : Nat) (t : RebuildTask) (result : Except BuildError BuildOutput)
      (h : l.task? g = some t) (hstage : t.stage = .confirmed result) :
      Takes l (.publish g) (l.publish t result)

theorem takes_of_step? (h : l.step? s = some l') : l.Takes s l' := by
  cases s with
  | receive batches =>
      simp only [step?] at h
      split at h
      next hreceived =>
        cases h
        exact .receive batches (Option.isNone_iff_eq_none.mp hreceived)
      next => cases h
  | launch =>
      obtain ⟨paths, hpaths, rfl⟩ := Option.map_eq_some_iff.mp h
      exact .launch paths hpaths
  | finish g signal files =>
      simp only [step?] at h
      split at h
      next t ht =>
        split at h
        next hstage => cases h; exact .finish g t signal files ht hstage
        next => cases h
      next => cases h
  | confirm g =>
      simp only [step?] at h
      split at h
      next t ht =>
        split at h
        next result hstage => cases h; exact .confirm g t result ht hstage
        next => cases h
      next => cases h
  | publish g =>
      simp only [step?] at h
      split at h
      next t ht =>
        split at h
        next result hstage => cases h; exact .publish g t result ht hstage
        next => cases h
      next => cases h

/-! ## §3. The tasks behind a step. -/

theorem generation_of_task? (h : l.task? g = some t) : t.generation = g := by
  simpa using List.find?_some h

theorem mem_of_task? (h : l.task? g = some t) : t ∈ l.tasks :=
  List.mem_of_find?_eq_some h

/-- Only the task of the generation is changed. -/
theorem task?_modifyTask (l : RebuildLoop) (g g' : Nat) {f : RebuildTask → RebuildTask}
    (hf : ∀ t, (f t).generation = t.generation) :
    (l.modifyTask g f).task? g' = if g' = g then (l.task? g').map f else l.task? g' := by
  have hsame : ((fun t : RebuildTask => t.generation == g') ∘
      fun t => if t.generation == g then f t else t) = fun t => t.generation == g' := by
    funext t
    simp only [Function.comp_apply]
    split
    next => rw [hf]
    next => rfl
  simp only [task?, modifyTask, List.find?_map, hsame]
  cases h : l.tasks.find? fun t => t.generation == g' with
  | none => simp
  | some t =>
      have hgeneration : t.generation = g' := generation_of_task? h
      simp only [Option.map_some, hgeneration, beq_iff_eq]
      split <;> rfl

theorem task?_setStage (l : RebuildLoop) (g g' : Nat) (stage : TaskStage) :
    (l.setStage g stage).task? g'
      = if g' = g then (l.task? g').map fun t => { t with stage } else l.task? g' :=
  l.task?_modifyTask g g' fun _ => rfl

/-- The tasks there are, the newest of them told to stop, and a new one. -/
theorem task?_launch (l : RebuildLoop) (paths : List Path) (g : Nat) :
    (l.launch paths).task? g
      = ((if g = l.generation then (l.task? g).map fun t => { t with cancelled := true }
          else l.task? g)).or
        (if g = l.generation + 1 then
          some { generation := l.generation + 1, reason := changeReason paths } else none) := by
  rw [← l.task?_modifyTask l.generation g (f := fun t => { t with cancelled := true }) fun _ => rfl]
  simp only [launch, task?, List.find?_append, List.find?_singleton, beq_iff_eq]
  simp only [eq_comm]

/-- The stage of a task behind a step at which its task, and nothing but this stage, is changed. -/
theorem stage_of_task?_setStage {stage : TaskStage} (h : (l.setStage g stage).task? g' = some t) :
    (g' = g ∧ t.stage = stage ∧ ∃ before, l.task? g = some before
        ∧ t.cancelled = before.cancelled ∧ t.reason = before.reason)
      ∨ (g' ≠ g ∧ l.task? g' = some t) := by
  rw [task?_setStage] at h
  split at h
  next heq =>
    subst heq
    obtain ⟨before, hbefore, rfl⟩ := Option.map_eq_some_iff.mp h
    exact Or.inl ⟨rfl, rfl, before, hbefore, rfl, rfl⟩
  next hne => exact Or.inr ⟨hne, h⟩

/-! ## §4. What every run keeps. -/

/-- **The tasks are counted**: there is one for each generation, and those that have published have
ended.  The newest is not told to stop, and does not end without having published. -/
structure Counted (l : RebuildLoop) : Prop where
  tasks : ∀ g, (l.task? g).isSome ↔ 0 < g ∧ g ≤ l.generation
  published : ∀ g ∈ l.published, ∃ t, l.task? g = some t ∧ t.stage = .ended
  nodup : l.published.Nodup
  newest : ∀ t, l.task? l.generation = some t →
    t.cancelled = false ∧ (t.stage = .ended → l.generation ∈ l.published)

namespace Counted

theorem le_of_published (h : Counted l) (hg : g ∈ l.published) : g ≤ l.generation := by
  obtain ⟨t, ht, _⟩ := h.published g hg
  exact ((h.tasks g).mp (ht ▸ rfl)).2

/-- Another batch starts a task. -/
theorem launch (h : Counted l) (paths : List Path) : Counted (l.launch paths) where
  tasks g := by
    show _ ↔ 0 < g ∧ g ≤ l.generation + 1
    have hold := h.tasks g
    rw [task?_launch, Option.isSome_or]
    by_cases hnew : g = l.generation + 1
    · simp [hnew]
    · have hsame : (if g = l.generation then (l.task? g).map fun t => { t with cancelled := true }
          else l.task? g).isSome = (l.task? g).isSome := by
        split <;> simp
      rw [hsame, if_neg hnew, Option.isSome_none, Bool.or_false, hold]
      omega
  published g hg := by
    obtain ⟨t, ht, hended⟩ := h.published g hg
    rw [task?_launch, ht]
    split
    next => exact ⟨_, rfl, hended⟩
    next => exact ⟨t, rfl, hended⟩
  nodup := h.nodup
  newest t ht := by
    -- there was no task of this generation before
    have hnone : l.task? (l.generation + 1) = none := by
      rw [← Option.not_isSome_iff_eq_none, h.tasks]
      omega
    have hgeneration : (l.launch paths).generation = l.generation + 1 := rfl
    rw [hgeneration, task?_launch, hnone, if_neg (Nat.succ_ne_self _), if_pos rfl] at ht
    cases ht
    exact ⟨rfl, fun hended => by cases hended⟩

/-- A task that has not ended goes on to another stage: it ends as the newest only by publishing, and
publishes only by ending. -/
theorem setStage {stage : TaskStage} (h : Counted l) (ht : l.task? g = some t)
    (hstage : t.stage ≠ .ended) (hgeneration : l'.generation = l.generation)
    (htasks : l'.tasks = (l.setStage g stage).tasks)
    (hpublished : l'.published = l.published ∧ (stage = .ended → g ≠ l.generation)
      ∨ l'.published = l.published ++ [g] ∧ stage = .ended) : Counted l' := by
  have htask : ∀ g', l'.task? g' = (l.setStage g stage).task? g' := fun g' => by
    rw [task?, htasks]
    rfl
  have hfresh : g ∉ l.published := fun hg => by
    obtain ⟨t', ht', hended⟩ := h.published g hg
    rw [ht] at ht'
    cases ht'
    exact hstage hended
  have hold : ∀ g' ∈ l.published, ∃ t, l'.task? g' = some t ∧ t.stage = .ended := fun g' hg' => by
    have hne : g' ≠ g := ne_of_mem_of_not_mem hg' hfresh
    rw [htask, task?_setStage, if_neg hne]
    exact h.published g' hg'
  have hnew : ∀ t', l'.task? l.generation = some t' → t'.cancelled = false
      ∧ (t'.stage = .ended → (stage = .ended ∧ g = l.generation) ∨ l.generation ∈ l.published) := by
    intro t' ht'
    rw [htask] at ht'
    rcases stage_of_task?_setStage ht' with ⟨heq, hstage', before, hbefore, hcancelled, _⟩ | ⟨_, hsame⟩
    · exact ⟨hcancelled.trans (h.newest before (heq ▸ hbefore)).1,
        fun hended => Or.inl ⟨hstage'.symm.trans hended, heq.symm⟩⟩
    · exact ⟨(h.newest t' hsame).1, fun hended => Or.inr ((h.newest t' hsame).2 hended)⟩
  refine ⟨fun g' => ?_, ?_, ?_, ?_⟩
  · rw [htask, task?_setStage, hgeneration, ← h.tasks g']
    split <;> simp
  · rcases hpublished with ⟨hp, _⟩ | ⟨hp, hended⟩
    · exact hp ▸ hold
    · rw [hp]
      refine forall_mem_append_singleton.mpr ⟨hold, ?_⟩
      rw [htask, task?_setStage, if_pos rfl, ht]
      exact ⟨_, rfl, hended⟩
  · rcases hpublished with ⟨hp, _⟩ | ⟨hp, _⟩
    · exact hp ▸ h.nodup
    · exact hp ▸ nodup_append_singleton.mpr ⟨hfresh, h.nodup⟩
  · intro t' ht'
    rw [hgeneration] at ht' ⊢
    refine ⟨(hnew t' ht').1, fun hended => ?_⟩
    rcases hpublished with ⟨hp, hnot⟩ | ⟨hp, _⟩
    · rw [hp]
      exact ((hnew t' ht').2 hended).resolve_left fun ⟨hend, heq⟩ => hnot hend heq
    · rw [hp, List.mem_append, List.mem_singleton]
      exact ((hnew t' ht').2 hended).symm.imp_right fun ⟨_, heq⟩ => heq.symm

/-- **Every step keeps count.** -/
theorem step (h : Counted l) (hstep : l.Takes s l') : Counted l' := by
  cases hstep with
  | receive batches _ => exact ⟨h.tasks, h.published, h.nodup, h.newest⟩
  | launch paths _ => exact h.launch paths
  | finish g t signal files ht hstage =>
      obtain rfl := generation_of_task? ht
      exact h.setStage ht (by simp [hstage]) rfl rfl (Or.inl ⟨rfl, fun hended => by cases hended⟩)
  | confirm g t result ht hstage =>
      obtain rfl := generation_of_task? ht
      refine h.setStage ht (by simp [hstage]) rfl rfl (Or.inl ⟨rfl, fun hended heq => ?_⟩)
      rw [if_pos heq.symm] at hended
      cases hended
  | publish g t result ht hstage =>
      obtain rfl := generation_of_task? ht
      exact h.setStage ht (by simp [hstage]) rfl rfl (Or.inr ⟨rfl, rfl⟩)

end Counted

/-! ## §5. Runs. -/

/-- The loop before any change. -/
structure Unchanged (l : RebuildLoop) : Prop where
  generation : l.generation = 0
  received : l.received? = none
  tasks : l.tasks = []
  published : l.published = []

theorem unchanged_of_create {files : FileTree} {config : Config} {liveReload : Bool}
    (h : create files config liveReload = .ok l) : l.Unchanged := by
  obtain ⟨b, _, h⟩ := exists_of_bind_eq_ok h
  cases h
  exact ⟨rfl, rfl, rfl, rfl⟩

theorem Unchanged.task? (h : l.Unchanged) (g : Nat) : l.task? g = none := by
  rw [RebuildLoop.task?, h.tasks, List.find?_nil]

theorem Unchanged.counted (h : l.Unchanged) : Counted l := by
  refine ⟨fun g => ?_, ?_, ?_, fun t ht => ?_⟩
  · rw [h.task?, h.generation, Option.isSome_none]
    simp
    omega
  · simp [h.published]
  · simp [h.published]
  · rw [h.task?] at ht
    cases ht

/-- A property that every step keeps holds behind every run. -/
theorem run?_induction {motive : RebuildLoop → Prop}
    (hstep : ∀ l s l', motive l → l.Takes s l' → motive l') :
    ∀ (steps : List RebuildStep) {l l' : RebuildLoop}, motive l → l.run? steps = some l' →
      motive l'
  | [], l, l', hl, hrun => by
      cases hrun
      exact hl
  | s :: rest, l, l', hl, hrun => by
      obtain ⟨mid, hmid, hrun⟩ := Option.bind_eq_some_iff.mp hrun
      exact run?_induction hstep rest (hstep l s mid hl (takes_of_step? hmid)) hrun

theorem run?_append :
    ∀ (steps rest : List RebuildStep) (l : RebuildLoop),
      l.run? (steps ++ rest) = (l.run? steps).bind fun l => l.run? rest
  | [], _, _ => rfl
  | s :: steps, rest, l => by
      show (l.step? s).bind (fun l => l.run? (steps ++ rest)) = _
      cases h : l.step? s with
      | none => simp [run?, h]
      | some mid => simp [run?, h, run?_append steps rest mid]

/-- Every task has ended. -/
def AllEnded (l : RebuildLoop) : Prop :=
  ∀ t ∈ l.tasks, t.stage = .ended

/-- **In every run** each task publishes at most once, and when all have ended the newest has
published. -/
theorem run_publishes_newest {steps : List RebuildStep} (hstart : l₀.Unchanged)
    (hrun : l₀.run? steps = some l) :
    l.published.Nodup ∧ (l.AllEnded → 0 < l.generation → l.generation ∈ l.published) := by
  have h : Counted l := run?_induction (fun _ _ _ h hstep => h.step hstep) steps hstart.counted hrun
  refine ⟨h.nodup, fun hended hpos => ?_⟩
  obtain ⟨t, ht⟩ := Option.isSome_iff_exists.mp ((h.tasks l.generation).mpr ⟨hpos, le_rfl⟩)
  exact (h.newest t ht).2 (hended t (mem_of_task? ht))

/-! ## §6. Runs in which no task is disturbed. -/

/-- The task has asked whether it is the newest, and is about to publish. -/
def isConfirmed : TaskStage → Bool
  | .confirmed _ => true
  | _ => false

/-- The step starts a task for a batch. -/
def isLaunch : RebuildStep → Bool
  | .launch => true
  | _ => false

/-- No batch starts a task while another task is about to publish. -/
def undisturbed (l : RebuildLoop) : List RebuildStep → Bool
  | [] => true
  | s :: rest =>
    !(isLaunch s && l.tasks.any fun t => isConfirmed t.stage)
      && (l.step? s).all fun l => l.undisturbed rest

/-- In the course of some steps, one of them is taken in a state of the loop. -/
def TakenAt (l₀ : RebuildLoop) (steps : List RebuildStep) (s : RebuildStep) (l : RebuildLoop) :
    Prop :=
  ∃ before after, steps = before ++ s :: after ∧ l₀.run? before = some l

/-- In the course of some steps the build of a task ends with a result, without having been told to
stop. -/
def Builds (l₀ : RebuildLoop) (steps : List RebuildStep) (g : Nat)
    (result : Except BuildError BuildOutput) : Prop :=
  ∃ signal files l, l₀.TakenAt steps (.finish g signal files) l
    ∧ (l.bundler.compile .never files).result = result

/-- In the course of some steps, a task publishes what its build ended with, and that is what a server
shows. -/
def Serves (l₀ : RebuildLoop) (steps : List RebuildStep) (g : Nat) (server : Server) : Prop :=
  ∃ result l, l₀.Builds steps g result ∧ l₀.TakenAt steps (.publish g) l
    ∧ server.Shows l.server result

/-- **What a run keeps in which no task is disturbed.**  Only the newest task is about to publish, so
what has been published is in order, and the newest task, once it has published, is what is served. -/
structure Ordered (l₀ : RebuildLoop) (steps : List RebuildStep) (l : RebuildLoop) : Prop where
  counted : l.Counted
  increasing : l.published.Pairwise (· < ·)
  confirmed : ∀ g t result, l.task? g = some t → t.stage = .confirmed result → g = l.generation
  made : ∀ t result, l.task? l.generation = some t →
    t.stage = .built result ∨ t.stage = .confirmed result → l₀.Builds steps l.generation result
  served : l.generation ∈ l.published → l₀.Serves steps l.generation l.server

namespace Ordered

variable {steps : List RebuildStep}

/-- Another batch starts a task when no task is about to publish. -/
theorem launch (h : Ordered l₀ steps l) (paths : List Path)
    (hcalm : (l.tasks.any fun t => isConfirmed t.stage) = false) :
    Ordered l₀ steps (l.launch paths) where
  counted := h.counted.launch paths
  increasing := h.increasing
  confirmed g t result ht hstage := by
    -- a task that is about to publish would be an old one
    rw [task?_launch, Option.or_eq_some_iff] at ht
    rcases ht with ht | ⟨_, ht⟩
    · have hold : ∃ before, l.task? g = some before ∧ before.stage = .confirmed result := by
        split at ht
        next =>
          obtain ⟨before, hbefore, rfl⟩ := Option.map_eq_some_iff.mp ht
          exact ⟨before, hbefore, hstage⟩
        next => exact ⟨t, ht, hstage⟩
      obtain ⟨before, hbefore, hconfirmed⟩ := hold
      have hnot := List.any_eq_false.mp hcalm before (mem_of_task? hbefore)
      rw [hconfirmed] at hnot
      exact (hnot rfl).elim
    · split at ht <;> cases ht
      cases hstage
  made t result ht hstage := by
    have hnone : l.task? (l.generation + 1) = none := by
      rw [← Option.not_isSome_iff_eq_none, h.counted.tasks]
      omega
    have hgeneration : (l.launch paths).generation = l.generation + 1 := rfl
    rw [hgeneration, task?_launch, hnone, if_neg (Nat.succ_ne_self _), if_pos rfl] at ht
    cases ht
    rcases hstage with hstage | hstage <;> cases hstage
  served hpublished := by
    have hle := h.counted.le_of_published hpublished
    exact absurd hle (Nat.not_succ_le_self l.generation)

/-- The build of a task ends. -/
theorem finish {signal : CancelSignal} {files : FileTree} (h : Ordered l₀ steps l)
    (hstep : l.Takes (.finish g signal files) l') (hat : l₀.TakenAt steps (.finish g signal files) l) :
    Ordered l₀ steps l' := by
  have hcounted := h.counted.step hstep
  cases hstep with
  | finish _ t _ _ ht hstage =>
    obtain rfl := generation_of_task? ht
    refine ⟨hcounted, h.increasing, fun g' t' result ht' hstage' => ?_,
      fun t' result ht' hstage' => ?_, h.served⟩
    · rcases stage_of_task?_setStage ht' with ⟨_, hnew, _⟩ | ⟨_, hsame⟩
      · cases hnew.symm.trans hstage'
      · exact h.confirmed g' t' result hsame hstage'
    · rcases stage_of_task?_setStage ht' with ⟨heq, hnew, _⟩ | ⟨_, hsame⟩
      · -- the newest task has not been told to stop
        have hnever := (h.counted.newest t (heq ▸ ht)).1
        rw [hnew, hnever] at hstage'
        have hgeneration : l.generation = t.generation := heq
        rcases hstage' with hresult | hresult
        · exact ⟨signal, files, l, hgeneration ▸ hat, TaskStage.built.inj hresult⟩
        · cases hresult
      · exact h.made t' result hsame hstage'

/-- A task asks whether it is the newest. -/
theorem confirm (h : Ordered l₀ steps l) (hstep : l.Takes (.confirm g) l') :
    Ordered l₀ steps l' := by
  have hcounted := h.counted.step hstep
  cases hstep with
  | confirm _ t result ht hstage =>
    obtain rfl := generation_of_task? ht
    refine ⟨hcounted, h.increasing, fun g' t' result' ht' hstage' => ?_,
      fun t' result' ht' hstage' => ?_, h.served⟩
    · rcases stage_of_task?_setStage ht' with ⟨rfl, hnew, _⟩ | ⟨_, hsame⟩
      · rw [hnew] at hstage'
        split at hstage'
        next heq => exact heq.symm
        next => cases hstage'
      · exact h.confirmed g' t' result' hsame hstage'
    · rcases stage_of_task?_setStage ht' with ⟨heq, hnew, _⟩ | ⟨_, hsame⟩
      · have hgeneration : l.generation = t.generation := heq
        rw [hnew, if_pos hgeneration] at hstage'
        rcases hstage' with hresult | hresult
        · cases hresult
        · cases hresult
          exact h.made t result (hgeneration ▸ ht) (Or.inl hstage)
      · exact h.made t' result' hsame hstage'

/-- A task publishes. -/
theorem publish (h : Ordered l₀ steps l) (hstep : l.Takes (.publish g) l')
    (hat : l₀.TakenAt steps (.publish g) l) : Ordered l₀ steps l' := by
  have hcounted := h.counted.step hstep
  cases hstep with
  | publish _ t result ht hstage =>
    obtain rfl := generation_of_task? ht
    have hnewest : t.generation = l.generation := h.confirmed _ t result ht hstage
    have hfresh : t.generation ∉ l.published := fun hmem => by
      obtain ⟨t', ht', hended⟩ := h.counted.published _ hmem
      rw [ht] at ht'
      cases ht'
      cases hstage.symm.trans hended
    refine ⟨hcounted, ?_, fun g' t' result' ht' hstage' => ?_, fun t' result' ht' hstage' => ?_,
      fun _ => ?_⟩
    · -- it is the newest, so all that have published are older
      refine List.pairwise_append.mpr ⟨h.increasing, List.pairwise_singleton .., fun g' hg' n hn => ?_⟩
      rw [List.mem_singleton.mp hn, hnewest]
      refine (h.counted.le_of_published hg').lt_of_ne fun heq => hfresh ?_
      rw [hnewest, ← heq]
      exact hg'
    · rcases stage_of_task?_setStage ht' with ⟨_, hnew, _⟩ | ⟨_, hsame⟩
      · cases hnew.symm.trans hstage'
      · exact h.confirmed g' t' result' hsame hstage'
    · rcases stage_of_task?_setStage ht' with ⟨_, hnew, _⟩ | ⟨hne, _⟩
      · rw [hnew] at hstage'
        rcases hstage' with hresult | hresult <;> cases hresult
      · exact absurd hnewest.symm hne
    · have hbuilds := h.made t result (hnewest ▸ ht) (Or.inr hstage)
      refine ⟨result, l, hbuilds, hnewest ▸ hat, Server.shows_publish l.server t.reason fun e he => ?_⟩
      obtain ⟨_, files, at_, _, hresult⟩ := hbuilds
      exact Bundler.isCancelled_of_compile (hresult.trans he)

/-- **Every step keeps the order**, unless it starts a task while another is about to publish. -/
theorem step (h : Ordered l₀ steps l) (hstep : l.Takes s l') (hat : l₀.TakenAt steps s l)
    (hcalm : isLaunch s = true → (l.tasks.any fun t => isConfirmed t.stage) = false) :
    Ordered l₀ steps l' := by
  cases s with
  | receive batches =>
      have hcounted := h.counted.step hstep
      cases hstep
      exact ⟨hcounted, h.increasing, h.confirmed, h.made, h.served⟩
  | launch =>
      cases hstep with
      | launch paths _ => exact h.launch paths (hcalm rfl)
  | finish g signal files => exact h.finish hstep hat
  | confirm g => exact h.confirm hstep
  | publish g => exact h.publish hstep hat

end Ordered

theorem Unchanged.ordered (h : l₀.Unchanged) (steps : List RebuildStep) :
    Ordered l₀ steps l₀ := by
  refine ⟨h.counted, ?_, fun g t _ ht => ?_, fun t _ ht => ?_, fun hmem => ?_⟩
  · simp [h.published]
  · rw [h.task?] at ht
    cases ht
  · rw [h.task?] at ht
    cases ht
  · simp [h.published] at hmem

/-- A run in which no task is disturbed keeps the order, from any of its states on. -/
theorem ordered_of_run? {steps : List RebuildStep} :
    ∀ (rest before : List RebuildStep) {l l' : RebuildLoop}, steps = before ++ rest →
      l₀.run? before = some l → Ordered l₀ steps l → l.undisturbed rest = true →
      l.run? rest = some l' → Ordered l₀ steps l'
  | [], _, l, l', _, _, h, _, hrun => by
      cases hrun
      exact h
  | s :: rest, before, l, l', hsteps, hbefore, h, hcalm, hrun => by
      obtain ⟨mid, hmid, hrun⟩ := Option.bind_eq_some_iff.mp hrun
      rw [undisturbed, hmid, Option.all_some, Bool.and_eq_true] at hcalm
      have hlaunch : isLaunch s = true → (l.tasks.any fun t => isConfirmed t.stage) = false :=
        fun hs => by simpa [hs] using hcalm.1
      have hmid' : l₀.run? (before ++ [s]) = some mid := by
        rw [run?_append, hbefore]
        simp [run?, hmid]
      refine ordered_of_run? rest (before ++ [s]) (by simpa using hsteps) hmid' ?_ hcalm.2 hrun
      exact h.step (takes_of_step? hmid) ⟨before, rest, hsteps, hbefore⟩ hlaunch

/-- **REBUILDS ARE PUBLISHED IN ORDER** when no batch starts a task between the question of another
whether it is the newest and its publication: each that publishes is newer than those before, and once
every task has ended, the last that has published is the newest, and what its build gave is served. -/
theorem run_publishes_in_order {steps : List RebuildStep} (hstart : l₀.Unchanged)
    (hrun : l₀.run? steps = some l) (hcalm : l₀.undisturbed steps = true) :
    l.published.Pairwise (· < ·)
      ∧ (l.AllEnded → 0 < l.generation →
          l.published.getLast? = some l.generation
            ∧ l₀.Serves steps l.generation l.server) := by
  have h := ordered_of_run? steps [] rfl rfl (hstart.ordered steps) hcalm hrun
  refine ⟨h.increasing, fun hended hpos => ?_⟩
  have hnewest := (run_publishes_newest hstart hrun).2 hended hpos
  refine ⟨?_, h.served hnewest⟩
  -- the last is not older than the newest, as all others are older than the last
  obtain ⟨others, last, hpublished⟩ :=
    (List.eq_nil_or_concat' l.published).resolve_left (List.ne_nil_of_mem hnewest)
  have hle := h.counted.le_of_published (g := last) (by simp [hpublished])
  have hincreasing := h.increasing
  rw [hpublished] at hnewest hincreasing ⊢
  rw [List.getLast?_concat]
  rcases List.mem_append.mp hnewest with hmem | hmem
  · have hlt := (List.pairwise_append.mp hincreasing).2.2 _ hmem last (List.mem_singleton_self last)
    exact absurd hle hlt.not_ge
  · exact congrArg some (List.mem_singleton.mp hmem).symm

/-- The steps by which a changed file starts a task. -/
def changed : List RebuildStep :=
  [.receive [[⟨"/main.js"⟩]], .launch]

/-- A second change arrives while the first is being built, and its task is done before the other. -/
def overlapping (first second : FileTree) : List RebuildStep :=
  changed ++ changed
    ++ [.finish 2 .never second, .confirm 2, .publish 2, .finish 1 .never first, .confirm 1]

/-- A second change arrives when the task of the first has asked whether it is the newest; its task is
done before the other goes on. -/
def overtaken (first second : FileTree) : List RebuildStep :=
  changed ++ [.finish 1 .never first, .confirm 1]
    ++ changed ++ [.finish 2 .never second, .confirm 2, .publish 2] ++ [.publish 1]

/-- The second task publishes and the first does not; no task is disturbed. -/
theorem overlapping_run (hstart : l₀.Unchanged) (first second : FileTree) :
    l₀.undisturbed (overlapping first second) = true
      ∧ ∃ l, l₀.run? (overlapping first second) = some l ∧ l.AllEnded ∧ l.generation = 2 := by
  obtain ⟨server, bundler, generation, received?, tasks, published, sent⟩ := l₀
  obtain ⟨rfl, rfl, rfl, rfl⟩ := hstart
  simp [overlapping, changed, undisturbed, run?, step?, task?, launch, finish, confirm, publish,
    publishResult, setStage, modifyTask, isLaunch, isConfirmed, AllEnded]

/-- Both tasks publish, and the first is the last to do so: in any project, the server shows what the
superseded build gave. -/
theorem overtaken_run (hstart : l₀.Unchanged) (first second : FileTree) :
    ∃ l before, l₀.run? (overtaken first second) = some l ∧ l.AllEnded ∧ l.generation = 2
      ∧ l.published = [2, 1]
      ∧ l.server.Shows before (l₀.bundler.compile .never first).result := by
  have hshows : ∀ server : Server, (server.publish (l₀.bundler.compile .never first).result
      (changeReason [⟨"/main.js"⟩])).1.Shows server (l₀.bundler.compile .never first).result :=
    fun server => server.shows_publish _ fun e he => Bundler.isCancelled_of_compile he
  obtain ⟨server, bundler, generation, received?, tasks, published, sent⟩ := l₀
  obtain ⟨rfl, rfl, rfl, rfl⟩ := hstart
  simp [overtaken, changed, run?, step?, task?, launch, finish, confirm, publish,
    publishResult, setStage, modifyTask, AllEnded]
  exact ⟨_, hshows _⟩

/-- A project with one script. -/
def oneScript (text : String) : FileTree :=
  Bundler.scriptsTree [("main.js", text)]

theorem exists_oneScript_loop :
    ∃ l₀, create (oneScript "") Bundler.scriptsConfig false = .ok l₀
      ∧ ∃ o, (l₀.bundler.compile .never (oneScript "1;")).result = .ok o
        ∧ ∃ newer, (l₀.bundler.compile .never (oneScript "2;")).result = .ok newer
          ∧ o.chunks ≠ newer.chunks := by
  have hrun : ((create (oneScript "") Bundler.scriptsConfig false).toOption.any fun l₀ =>
      (l₀.bundler.compile .never (oneScript "1;")).result.toOption.any fun o =>
        (l₀.bundler.compile .never (oneScript "2;")).result.toOption.any fun newer =>
          decide (o.chunks ≠ newer.chunks)) = true := by
    decide +kernel
  obtain ⟨l₀, hl₀, hrun⟩ := exists_of_any hrun
  obtain ⟨o, ho, hrun⟩ := exists_of_any hrun
  exact ⟨l₀, hl₀, o, ho, exists_of_any_toOption hrun⟩

theorem overlapping_publishes_in_order :
    ∃ l₀ l, create (oneScript "") Bundler.scriptsConfig false = .ok l₀ ∧ l₀.Unchanged
      ∧ l₀.run? (overlapping (oneScript "1;") (oneScript "2;")) = some l
      ∧ l₀.undisturbed (overlapping (oneScript "1;") (oneScript "2;")) = true
      ∧ l.AllEnded ∧ l.generation = 2
      ∧ l.published.Pairwise (· < ·)
      ∧ (l.AllEnded → 0 < l.generation →
          l.published.getLast? = some l.generation
            ∧ l₀.Serves (overlapping (oneScript "1;") (oneScript "2;")) l.generation l.server) := by
  obtain ⟨l₀, hl₀, _⟩ := exists_oneScript_loop
  have hstart := unchanged_of_create hl₀
  obtain ⟨hcalm, l, hrun, hended, hgeneration⟩ := overlapping_run hstart
    (oneScript "1;") (oneScript "2;")
  exact ⟨l₀, l, hl₀, hstart, hrun, hcalm, hended, hgeneration,
    run_publishes_in_order hstart hrun hcalm⟩

/-- **A superseded build is served**: the newest task publishes first, and the one before it overwrites
what it has published. -/
theorem overtaken_serves_superseded :
    ∃ l₀ l o newer, create (oneScript "") Bundler.scriptsConfig false = .ok l₀
      ∧ l₀.run? (overtaken (oneScript "1;") (oneScript "2;")) = some l
      ∧ l.AllEnded ∧ l.generation = 2 ∧ l.published = [2, 1]
      ∧ (l₀.bundler.compile .never (oneScript "1;")).result = .ok o
      ∧ (l₀.bundler.compile .never (oneScript "2;")).result = .ok newer
      ∧ l.server.output? = some o ∧ o.chunks ≠ newer.chunks := by
  obtain ⟨l₀, hl₀, o, ho, newer, hnewer, hdiffer⟩ := exists_oneScript_loop
  obtain ⟨l, before, hrun, hended, hgeneration, hpublished, hshows⟩ := overtaken_run
    (unchanged_of_create hl₀) (oneScript "1;") (oneScript "2;")
  rw [ho] at hshows
  exact ⟨l₀, l, o, newer, hl₀, hrun, hended, hgeneration, hpublished, ho, hnewer, hshows.1,
    hdiffer⟩

end RebuildLoop

end AssetBundler
