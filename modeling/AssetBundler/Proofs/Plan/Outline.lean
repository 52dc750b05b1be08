/-
  AssetBundler.Proofs.Plan.Outline
  ────────────────────────────────
  **THE PLAN SEES NO TEXT.**

  How a graph is divided depends on what its modules are and on where their
  imports lead, and not on what is written in them.  The outline of a graph
  has its modules without their texts.  Each function of the plan reads an
  outline as it reads the graph:

    • `Plan.reachedFrom_outline` — what a root reaches,
    • `Plan.grouping_outline` — the groups,
    • `ModuleGraph.split_outline` — the plan,
    • `ModuleGraph.split_eq_of_outline_eq` — graphs of one outline.
-/
import AssetBundler.Build.Plan

namespace AssetBundler

/-! ## §1. Outlines. -/

/-- An artifact without its text. -/
def Artifact.outline : Artifact → Artifact
  | .raw _ => .raw .empty
  | .script .. => .script "" []
  | .stylesheet .. => .stylesheet "" []
  | .asset .. => .asset "" none

/-- A record without the text of its module. -/
def ModuleRecord.outline (r : ModuleRecord) : ModuleRecord :=
  { r with contentType := "", digest := "", artifact := r.artifact.outline, source? := none }

/-- A graph without the texts of its modules. -/
def ModuleGraph.outline (g : ModuleGraph) : ModuleGraph :=
  { g with records := g.records.map ModuleRecord.outline }

/-- An outline tells what an artifact is, and nothing else. -/
theorem Artifact.outline_eq_iff {a a' : Artifact} : a.outline = a'.outline ↔ a.kind = a'.kind := by
  cases a <;> cases a' <;> simp [outline, kind]

namespace ModuleRecord

@[simp] theorem identity_outline (r : ModuleRecord) : r.outline.identity = r.identity := rfl

@[simp] theorem dependencies_outline (r : ModuleRecord) :
    r.outline.dependencies = r.dependencies := rfl

@[simp] theorem syncDependencies_outline (r : ModuleRecord) :
    r.outline.syncDependencies = r.syncDependencies := rfl

end ModuleRecord

namespace ModuleGraph

@[simp] theorem records_outline (g : ModuleGraph) :
    g.outline.records = g.records.map ModuleRecord.outline := rfl

@[simp] theorem order_outline (g : ModuleGraph) : g.outline.order = g.order := by
  simp [order, Function.comp_def]

@[simp] theorem get?_outline (g : ModuleGraph) (m : Identity) :
    g.outline.get? m = (g.get? m).map ModuleRecord.outline := by
  simp [get?, List.find?_map, Function.comp_def]

end ModuleGraph

namespace Plan

/-! ## §2. Groups. -/

@[simp] theorem rootGroups_outline (g : ModuleGraph) : rootGroups g.outline = rootGroups g := rfl

@[simp] theorem syncTargets_outline (g : ModuleGraph) : syncTargets g.outline = syncTargets g := by
  funext m
  unfold syncTargets
  rw [ModuleGraph.get?_outline]
  cases g.get? m <;> rfl

theorem reachable_outline (g : ModuleGraph) :
    ∀ (n : Nat) (found : List Identity), reachable g.outline n found = reachable g n found
  | 0, _ => rfl
  | n + 1, found => by
      unfold reachable
      rw [syncTargets_outline, reachable_outline g n]

@[simp] theorem reachedFrom_outline (g : ModuleGraph) : reachedFrom g.outline = reachedFrom g := by
  funext root
  unfold reachedFrom
  rw [reachable_outline, ModuleGraph.records_outline, List.length_map]

@[simp] theorem sharedModules_outline (g : ModuleGraph) (roots : List Identity)
    (reached : List (List Identity)) :
    sharedModules g.outline roots reached = sharedModules g roots reached := by
  unfold sharedModules
  rw [ModuleGraph.order_outline]

/-- **The groups** are those of the outline. -/
theorem grouping_outline (g : ModuleGraph) : grouping g.outline = grouping g := by
  simp only [grouping, rootGroups_outline, reachedFrom_outline, sharedModules_outline,
    ModuleGraph.order_outline]

/-! ## §3. Chunks. -/

@[simp] theorem directDependencies_outline (g : ModuleGraph) (index : GroupIndex) :
    directDependencies g.outline index = directDependencies g index := by
  funext group
  simp only [directDependencies, ModuleGraph.records_outline, List.filter_map, List.foldl_map,
    Function.comp_def, ModuleRecord.identity_outline, ModuleRecord.syncDependencies_outline]

@[simp] theorem scriptImported_outline (g : ModuleGraph) :
    scriptImported g.outline = scriptImported g := by
  simp only [scriptImported, ModuleGraph.records_outline, List.flatMap_map,
    ModuleRecord.dependencies_outline]

@[simp] theorem chunkKindOf_outline (imported : List Identity) (r : ModuleRecord) :
    chunkKindOf imported r.outline = chunkKindOf imported r := by
  obtain ⟨_, _, _, artifact, _, _⟩ := r
  cases artifact <;> rfl

@[simp] theorem members_outline (g : ModuleGraph) (index : GroupIndex) (imported : List Identity)
    (group : Nat) (kind : ChunkKind) :
    members g.outline index imported group kind = members g index imported group kind := by
  simp only [members, ModuleGraph.records_outline, List.filter_map, List.map_map,
    Function.comp_def, ModuleRecord.identity_outline, chunkKindOf_outline]

theorem assemble_outline (g : ModuleGraph) (index : GroupIndex) (count : Nat) :
    ∀ (i : Nat) (groups : List ChunkGroup) (plan : ChunkPlan),
      assemble g.outline index count i groups plan = assemble g index count i groups plan
  | _, [], _ => rfl
  | i, group :: rest, plan => by
      simp only [assemble, directDependencies_outline, scriptImported_outline, members_outline,
        assemble_outline g index count (i + 1) rest]

end Plan

/-! ## §4. Plans. -/

namespace ModuleGraph

/-- **The plan of a graph is that of its outline.** -/
theorem split_outline (g : ModuleGraph) : g.outline.split = g.split := by
  unfold split
  rw [Plan.grouping_outline]
  exact Plan.assemble_outline ..

/-- Two graphs of one outline are divided alike. -/
theorem split_eq_of_outline_eq {g g' : ModuleGraph} (h : g.outline = g'.outline) :
    g.split = g'.split := by
  rw [← split_outline g, h, split_outline]

end ModuleGraph

end AssetBundler
