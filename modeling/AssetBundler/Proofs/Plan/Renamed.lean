/-
  AssetBundler.Proofs.Plan.Renamed
  ────────────────────────────────
  **A GRAPH UNDER OTHER NAMES.**

  When every module of a graph gets another name and nothing else changes, the
  graph is divided in the same way: the chunks are the same, with the modules
  under their new names.

    • `ModuleGraph.rename` — the graph under other names,
    • `ModuleGraph.renames_rename` — it has the shape of the graph,
    • `ModuleGraph.split_rename` — its plan.
-/
import AssetBundler.Proofs.Plan.Rename

namespace AssetBundler

variable {f : Identity → Identity}

/-! ## §1. Other names. -/

/-- The dependency with its target under another name. -/
def Dependency.rename (f : Identity → Identity) (d : Dependency) : Dependency :=
  { d with target := f d.target }

/-- The record with all modules under other names. -/
def ModuleRecord.rename (f : Identity → Identity) (r : ModuleRecord) : ModuleRecord :=
  { r with identity := f r.identity, dependencies := r.dependencies.map (Dependency.rename f) }

/-- **The graph under other names**, one for each module. -/
def ModuleGraph.rename (f : Identity → Identity) (g : ModuleGraph) : ModuleGraph where
  records := g.records.map (ModuleRecord.rename f)
  entries := g.entries.map fun e => (e.1, f e.2)
  deferredRoots := g.deferredRoots.map f

/-- The chunk with its modules under other names. -/
def Chunk.rename (f : Identity → Identity) (c : Chunk) : Chunk :=
  { c with modules := c.modules.map f, entryModule? := c.entryModule?.map f }

/-- The plan with all modules under other names. -/
def ChunkPlan.rename (f : Identity → Identity) (plan : ChunkPlan) : ChunkPlan where
  chunks := plan.chunks.map (Chunk.rename f)
  groups := plan.groups.map (ChunkGroup.rename f)

@[simp] theorem Dependency.isSync_rename (d : Dependency) : (d.rename f).isSync = d.isSync :=
  rfl

theorem ModuleRecord.syncTargets_rename (r : ModuleRecord) :
    (r.rename f).syncTargets = r.syncTargets.map f := by
  unfold syncTargets syncDependencies rename
  rw [List.filter_map, List.map_map, List.map_map]
  rfl

namespace ModuleGraph

variable {g : ModuleGraph}

/-- **It has the shape of the graph**, when deferred roots keep their stems. -/
theorem renames_rename (hf : f.Injective) (hstems : ∀ m ∈ g.deferredRoots, (f m).stem = m.stem) :
    g.Renames f (g.rename f) := by
  refine ⟨hf, List.forall₂_map_right_iff.mpr (List.forall₂_same.mpr fun r _ => ?_), rfl, rfl, hstems⟩
  exact ⟨rfl, r.syncTargets_rename⟩

theorem get?_rename (hf : f.Injective) (m : Identity) :
    (g.rename f).get? (f m) = (g.get? m).map (ModuleRecord.rename f) := by
  unfold get? rename
  rw [List.find?_map]
  congr 2
  funext r
  exact hf.beq_eq

theorem artifact?_rename (hf : f.Injective) (m : Identity) :
    (g.rename f).artifact? (f m) = g.artifact? m := by
  unfold artifact?
  rw [get?_rename hf, Option.map_map]
  rfl

end ModuleGraph

/-! ## §2. Chunks. -/

namespace Plan

variable {g : ModuleGraph}

theorem contains_map (hf : f.Injective) (ms : List Identity) (m : Identity) :
    (ms.map f).contains (f m) = ms.contains m := by
  rw [Bool.eq_iff_iff, List.contains_iff_mem, List.contains_iff_mem, List.mem_map_of_injective hf]

theorem scriptImported_rename (g : ModuleGraph) :
    scriptImported (g.rename f) = (scriptImported g).map f := by
  have hdependencies : (g.rename f).records.flatMap (·.dependencies)
      = (g.records.flatMap (·.dependencies)).map (Dependency.rename f) := by
    simp [ModuleGraph.rename, ModuleRecord.rename, List.flatMap_map, List.map_flatMap]
  unfold scriptImported
  rw [hdependencies, List.filterMap_map, List.map_filterMap]
  refine List.filterMap_congr fun d _ => ?_
  show (if d.kind = .static || d.kind = .deferred then some (f d.target) else none) = _
  split <;> rfl

theorem chunkKindOf_rename (hf : f.Injective) (imported : List Identity) (r : ModuleRecord) :
    chunkKindOf (imported.map f) (r.rename f) = chunkKindOf imported r := by
  unfold chunkKindOf ModuleRecord.rename
  dsimp only
  rw [contains_map hf]

/-- **The modules of a group for one kind of chunk.** -/
theorem members_rename (hf : f.Injective) (index : GroupIndex) (imported : List Identity)
    (group : Nat) (kind : ChunkKind) :
    members (g.rename f) (index.map fun e => (f e.1, e.2)) (imported.map f) group kind
      = (members g index imported group kind).map f := by
  unfold members ModuleGraph.rename
  rw [List.filter_map, List.map_map, List.map_map]
  congr 1
  refine List.filter_congr fun r _ => ?_
  show (List.lookup (f r.identity) (index.map fun e => (f e.1, e.2)) == some group
    && decide (chunkKindOf (imported.map f) (r.rename f) = kind)) = _
  rw [lookup_rename hf, chunkKindOf_rename hf]

theorem entryModule?_rename (hf : f.Injective) (group : ChunkGroup) (scripts : List Identity) :
    entryModule? (group.rename f) (scripts.map f) = (entryModule? group scripts).map f := by
  unfold entryModule?
  show (if group.role = .entry then (group.root?.map f).filter fun m => (scripts.map f).contains m
    else none) = _
  split
  next =>
    cases group.root? with
    | none => rfl
    | some m =>
        rw [Option.map_some, Option.filter_some, Option.filter_some, contains_map hf]
        split <;> rfl
  next => rfl

/-- **A group with its chunks.** -/
theorem addChunks_rename (hf : f.Injective) (plan : ChunkPlan) (group : ChunkGroup)
    (scripts stylesheets : List Identity) :
    addChunks (plan.rename f) (group.rename f) (scripts.map f) (stylesheets.map f)
      = (addChunks plan group scripts stylesheets).rename f := by
  unfold addChunks
  rw [entryModule?_rename hf]
  cases scripts <;> cases stylesheets <;>
    simp [ChunkPlan.rename, ChunkGroup.rename, Chunk.rename]

/-- **The chunks of the groups**, one group after the other. -/
theorem assemble_rename (h : g.Renames f (g.rename f)) (index : GroupIndex) (count : Nat) :
    ∀ (i : Nat) (groups : List ChunkGroup) (plan : ChunkPlan),
      assemble (g.rename f) (index.map fun e => (f e.1, e.2)) count i
          (groups.map (ChunkGroup.rename f)) (plan.rename f)
        = (assemble g index count i groups plan).rename f := by
  have hdirect : directDependencies (g.rename f) (index.map fun e => (f e.1, e.2))
      = directDependencies g index := funext fun group => directDependencies_rename h index group
  intro i groups
  induction groups generalizing i with
  | nil => exact fun _ => rfl
  | cons group rest ih =>
      intro plan
      rw [List.map_cons, assemble, assemble, hdirect, scriptImported_rename,
        members_rename h.injective, members_rename h.injective, ← ih,
        ← addChunks_rename h.injective]
      rfl

end Plan

/-- **THE PLAN OF A GRAPH UNDER OTHER NAMES** is that of the graph, under the same names. -/
theorem ModuleGraph.split_rename {g : ModuleGraph} (h : g.Renames f (g.rename f)) :
    (g.rename f).split = g.split.rename f := by
  unfold split
  rw [Plan.grouping_rename h]
  dsimp only
  rw [List.length_map]
  exact Plan.assemble_rename h _ _ 0 _ ⟨[], []⟩

end AssetBundler
