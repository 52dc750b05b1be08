/-
  AssetBundler.Proofs.Build.Phases
  ────────────────────────────────
  **WHAT THE PHASES OF A BUILD HAND ON.**

  A build that succeeds has gone through all of its phases: its graph is that
  of the project, every chunk of the plan has its text, and the output has
  been put together from these.  What is proved of graphs, plans and texts
  holds of builds through this one specification:

    • `Bundler.Renders` — the text of a chunk in the mode of a build,
    • `Bundler.Makes` — the graph and the output of a project,
    • `Bundler.makes_of_assemble` — a build that succeeds gives these,
    • `Bundler.exists_assemble_of_execute` — every output comes from them.
-/
import AssetBundler.Build.Bundler
import AssetBundler.Proofs.Build.Graph

namespace AssetBundler

namespace BuildM

variable {α : Type} {signal : CancelSignal} {s : Session} {fault : BuildError → Session → Prop}

@[simp] theorem ensures_enter (p : Phase) {post : Unit → Session → Prop} :
    Ensures signal s (enter p) post fault
      ↔ Ensures signal { s with phase := p, entered := s.entered ++ [p] } check post fault :=
  Iff.rfl

end BuildM

namespace Bundler

/-! ## §1. The graph. -/

/-- What the traversal of a project starts from. -/
def graphInput (b : Bundler) (files : FileTree) : GraphInput :=
  { config := b.config, files, table := b.table, cache := b.cache }

variable {b : Bundler} {files : FileTree} {signal : CancelSignal} {s : Session}
  {g : ModuleGraph} {o : BuildOutput}

/-- The graph is that of the configured entries. -/
theorem graph_ensures :
    BuildM.Ensures signal s (b.graph files)
      (fun g _ => ∃ entries, b.entries files = .ok entries
        ∧ (b.graphInput files).Complete entries g)
      (fun _ _ => True) := by
  simp only [graph, BuildM.ensures_bind, BuildM.ensures_enter, BuildM.ensures_check,
    BuildM.ensures_ofExcept, implies_true, and_true]
  intro _ entries hentries _
  refine (Graph.build_ensures _).mono (fun g _ hg => ?_) (fun _ _ _ => trivial)
  exact ⟨entries, hentries, hg⟩

/-! ## §2. The texts of the chunks. -/

/-- The text of a chunk; for production it has been read once more. -/
def Renders (b : Bundler) (g : ModuleGraph) (chunk : Chunk) (rendered : RenderedChunk) : Prop :=
  ∃ first, renderChunk g b.root b.mode chunk = .ok first
    ∧ if b.mode = .production then Optimize.chunk chunk first = .ok rendered else rendered = first

/-- A chunk has one text. -/
theorem Renders.unique {chunk : Chunk} {rendered rendered' : RenderedChunk}
    (h : b.Renders g chunk rendered) (h' : b.Renders g chunk rendered') : rendered = rendered' := by
  obtain ⟨first, hfirst, h⟩ := h
  obtain ⟨first', hfirst', h'⟩ := h'
  obtain rfl := Except.ok.inj (hfirst.symm.trans hfirst')
  split at h
  next hmode =>
    rw [if_pos hmode] at h'
    exact Except.ok.inj (h.symm.trans h')
  next hmode =>
    rw [if_neg hmode] at h'
    exact h.trans h'.symm

theorem forall₂_of_mapM {α β ε : Type} {f : α → Except ε β} :
    ∀ {as : List α} {bs : List β}, as.mapM f = .ok bs → List.Forall₂ (fun a b => f a = .ok b) as bs
  | [], bs, h => by
      cases h
      exact List.Forall₂.nil
  | a :: as, bs, h => by
      rw [List.mapM_cons] at h
      obtain ⟨b, hb, h⟩ := exists_of_bind_eq_ok h
      obtain ⟨rest, hrest, h⟩ := exists_of_bind_eq_ok h
      cases h
      exact .cons hb (forall₂_of_mapM hrest)

/-- For production every chunk is read once more. -/
theorem optimizeAll_ensures (hmode : b.mode = .production) {chunks : List Chunk}
    {rendered : List RenderedChunk}
    (h : List.Forall₂ (fun c r => renderChunk g b.root b.mode c = .ok r) chunks rendered) :
    ∀ s, BuildM.Ensures signal s (optimizeAll (chunks.zip rendered))
      (fun contents _ => List.Forall₂ (b.Renders g) chunks contents) (fun _ _ => True) := by
  induction h with
  | nil =>
      intro s
      simp [optimizeAll]
  | cons hfirst _ ih =>
      intro s
      simp only [List.zip_cons_cons, optimizeAll, BuildM.ensures_bind, BuildM.ensures_check,
        BuildM.ensures_ofExcept, BuildM.ensures_pure, implies_true, and_true]
      intro _ r hr
      refine (ih _).mono (fun contents _ h => ?_) (fun _ _ h => h)
      exact .cons ⟨_, hfirst, by rw [if_pos hmode]; exact hr⟩ h

theorem contents_ensures (plan : ChunkPlan) :
    BuildM.Ensures signal s (b.contents g plan)
      (fun contents _ => List.Forall₂ (b.Renders g) plan.chunks contents) (fun _ _ => True) := by
  simp only [contents, BuildM.ensures_bind, BuildM.ensures_ofExcept, implies_true, and_true]
  intro rendered hrendered
  have hfirst := forall₂_of_mapM hrendered
  split
  next hmode =>
    simp only [BuildM.ensures_bind, BuildM.ensures_enter, BuildM.ensures_check, implies_true,
      and_true]
    exact fun _ => optimizeAll_ensures hmode hfirst _
  next hmode =>
    rw [BuildM.ensures_pure]
    exact hfirst.imp fun c r h => ⟨r, h, by rw [if_neg hmode]⟩

/-! ## §3. The output. -/

/-- **The graph and the output of a project**: the graph is that of the configured entries, and the
output is put together from the texts of the chunks of its plan. -/
structure Makes (b : Bundler) (files : FileTree) (g : ModuleGraph) (o : BuildOutput) : Prop where
  graph : ∃ entries, b.entries files = .ok entries ∧ (b.graphInput files).Complete entries g
  output : ∃ contents, List.Forall₂ (b.Renders g) g.split.chunks contents
    ∧ Emit.output b.config b.mode files b.root g g.split contents = .ok o

theorem assemble_ensures :
    BuildM.Ensures signal s (b.assemble files) (fun made _ => b.Makes files made.1 made.2)
      (fun _ _ => True) := by
  simp only [assemble, BuildM.ensures_bind]
  refine graph_ensures.mono (fun g _ hg => ?_) (fun _ _ h => h)
  simp only [BuildM.ensures_enter, BuildM.ensures_check, implies_true, and_true]
  refine fun _ => (contents_ensures g.split).mono (fun contents _ hcontents => ?_) (fun _ _ h => h)
  simp only [BuildM.ensures_ofExcept, BuildM.ensures_pure, implies_true, and_true]
  exact fun _ o ho => ⟨hg, contents, hcontents, ho⟩

/-- **A build that succeeds** has gone through all phases. -/
theorem makes_of_assemble (h : ((b.assemble files).exec signal s).1 = .ok (g, o)) :
    b.Makes files g o :=
  assemble_ensures.of_ok h

/-- An output that a build gives, written or not, is the one that has been put together. -/
theorem exists_assemble_of_execute {write : Bool}
    (h : (b.execute signal write files).result = .ok o) :
    ∃ g, ((b.assemble files).exec signal { mode := b.mode }).1 = .ok (g, o) := by
  unfold execute at h
  split at h
  next => cases h
  next g o' s hmade =>
    split at h
    next => cases h
    next =>
      unfold finish at h
      split at h
      next =>
        obtain rfl : o' = o := Except.ok.inj h
        exact ⟨g, congrArg Prod.fst hmade⟩
      next => cases h

/-! ## §4. First builds. -/

/-- The first build of a bundler that has just been created: it is for development, and nothing stops
it. -/
structure FirstBuild (files : FileTree) (config : Config) (b : Bundler) (g : ModuleGraph)
    (o : BuildOutput) : Prop where
  created : create files config .development none = .ok b
  assembled : ((b.assemble files).exec .never { mode := b.mode }).1 = .ok (g, o)
  built : (b.execute .never false files).result = .ok o

/-- Runs a first build. -/
def runFirst (files : FileTree) (config : Config) : Option (Bundler × ModuleGraph × BuildOutput) :=
  match create files config .development none with
  | .error _ => none
  | .ok b =>
    match ((b.assemble files).exec .never { mode := b.mode }).1 with
    | .error _ => none
    | .ok (g, o) => some (b, g, o)

/-- A build that nothing stops gives the output that has been put together. -/
theorem execute_of_assemble
    (h : ((b.assemble files).exec .never { mode := b.mode }).1 = .ok (g, o)) :
    (b.execute .never false files).result = .ok o := by
  unfold execute
  rcases hmade : (b.assemble files).exec .never { mode := b.mode } with ⟨result, s⟩
  obtain rfl : result = .ok (g, o) := by
    rw [hmade] at h
    exact h
  rfl

/-- The first build of a bundler that has just been created for a mode, with nothing to stop it. -/
structure BuiltFor (mode : Mode) (files : FileTree) (config : Config) (b : Bundler) (g : ModuleGraph)
    (o : BuildOutput) : Prop where
  created : create files config mode none = .ok b
  assembled : ((b.assemble files).exec .never { mode := b.mode }).1 = .ok (g, o)
  built : (b.execute .never false files).result = .ok o

/-- Runs a first build for a mode. -/
def runFor (mode : Mode) (files : FileTree) (config : Config) :
    Option (Bundler × ModuleGraph × BuildOutput) :=
  match create files config mode none with
  | .error _ => none
  | .ok b =>
    match ((b.assemble files).exec .never { mode := b.mode }).1 with
    | .error _ => none
    | .ok (g, o) => some (b, g, o)

theorem builtFor_of_runFor {mode : Mode} {config : Config}
    (h : runFor mode files config = some (b, g, o)) : BuiltFor mode files config b g o := by
  unfold runFor at h
  split at h
  next => cases h
  next b' hb =>
    split at h
    next => cases h
    next g' o' hmade =>
      cases h
      exact ⟨hb, hmade, execute_of_assemble hmade⟩

/-- What a build for a mode is like can be seen by running it. -/
theorem exists_builtFor {mode : Mode} {config : Config}
    {p : Bundler → ModuleGraph → BuildOutput → Prop} [∀ b g o, Decidable (p b g o)]
    (h : (runFor mode files config).any (fun (b, g, o) => decide (p b g o)) = true) :
    ∃ b g o, BuiltFor mode files config b g o ∧ p b g o := by
  obtain ⟨⟨b, g, o⟩, hrun, hp⟩ := (Option.any_eq_true _ _).mp h
  exact ⟨b, g, o, builtFor_of_runFor hrun, of_decide_eq_true hp⟩

theorem firstBuild_of_runFirst {config : Config} (h : runFirst files config = some (b, g, o)) :
    FirstBuild files config b g o :=
  let hbuilt : BuiltFor .development files config b g o := builtFor_of_runFor h
  ⟨hbuilt.created, hbuilt.assembled, hbuilt.built⟩

/-- What a first build is like can be seen by running it. -/
theorem exists_firstBuild {config : Config} {p : Bundler → ModuleGraph → BuildOutput → Prop}
    [∀ b g o, Decidable (p b g o)]
    (h : (runFirst files config).any (fun (b, g, o) => decide (p b g o)) = true) :
    ∃ b g o, FirstBuild files config b g o ∧ p b g o := by
  obtain ⟨⟨b, g, o⟩, hrun, hp⟩ := (Option.any_eq_true _ _).mp h
  exact ⟨b, g, o, firstBuild_of_runFirst hrun, of_decide_eq_true hp⟩

end Bundler

end AssetBundler
