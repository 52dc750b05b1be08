/-
  AssetBundler.Proofs.Plan.Chunks
  ────────────────────────────────
  **WHICH CHUNK HOLDS A MODULE.**

  Every module of a group is in one of the two chunks of the group, and what
  it is and who imports it say in which.  A script imports nothing but what
  stands in script chunks and extracted stylesheets:

    • `Plan.mem_recordsOf` — the modules of a chunk,
    • `Plan.chunkKindOf_of_imported` — what a script imports,
    • `Plan.exists_script_chunk` — what a script loads is in a script chunk of
      its load sequence, unless it is an extracted stylesheet.
-/
import AssetBundler.Build.Render
import AssetBundler.Proofs.Plan.Split
import AssetBundler.Proofs.Transform.Imports

namespace AssetBundler

/-! ## §1. The modules of a chunk. -/

namespace Plan

variable {g : ModuleGraph} {i j : Nat} {kind : ChunkKind} {chunk : Chunk} {r : ModuleRecord}
  {m : Identity}

theorem mem_modulesOf_split :
    m ∈ g.split.modulesOf i kind
      ↔ groupOf g m = some i
        ∧ ∃ r ∈ g.records, r.identity = m ∧ chunkKindOf (scriptImported g) r = kind := by
  obtain ⟨hplan, hlength⟩ := assembled_split g
  by_cases hi : i < g.split.groups.length
  · rw [hplan.modules i hi kind, mem_members]
    constructor
    · rintro ⟨r, hr, hidentity, hgroup, hkind⟩
      exact ⟨hgroup, r, hr, hidentity, hkind⟩
    · rintro ⟨hgroup, r, hr, hidentity, hkind⟩
      exact ⟨r, hr, hidentity, hgroup, hkind⟩
  · -- a number without a group has neither chunks nor modules
    have hnone : g.split.groups[i]? = none := List.getElem?_eq_none (not_lt.mp hi)
    have hempty : m ∉ g.split.modulesOf i kind := by
      simp [ChunkPlan.modulesOf, ChunkPlan.chunkOf?, ChunkPlan.chunkIndex?, hnone]
    refine iff_of_false hempty fun h => hi ?_
    rw [hlength]
    exact groupOf_lt h.1

/-- The records of a chunk are those of its group with its kind. -/
theorem mem_recordsOf (hg : g.WellFormed) (hchunk : g.split.chunkOf? i kind = some chunk) :
    r ∈ Render.recordsOf g chunk
      ↔ r ∈ g.records ∧ groupOf g r.identity = some i
        ∧ chunkKindOf (scriptImported g) r = kind := by
  have hmodules : chunk.modules = g.split.modulesOf i kind := by
    rw [ChunkPlan.modulesOf, hchunk]
    rfl
  rw [Render.recordsOf, List.mem_filterMap, hmodules]
  constructor
  · rintro ⟨m, hm, hget⟩
    obtain ⟨hr, rfl⟩ := ModuleGraph.mem_of_get? hget
    obtain ⟨hgroup, r', hr', hidentity, hkind⟩ := mem_modulesOf_split.mp hm
    obtain rfl := List.inj_on_of_nodup_map hg.nodup hr' hr hidentity
    exact ⟨hr, hgroup, hkind⟩
  · rintro ⟨hr, hgroup, hkind⟩
    exact ⟨r.identity, mem_modulesOf_split.mpr ⟨hgroup, r, hr, rfl, hkind⟩,
      ModuleGraph.get?_of_mem hg.nodup hr⟩

/-- A group has a chunk for every kind of module in it. -/
theorem exists_chunk (hg : g.WellFormed) (hr : r ∈ g.records)
    (hgroup : groupOf g r.identity = some i)
    (hkind : chunkKindOf (scriptImported g) r = kind) :
    ∃ chunk, g.split.chunkOf? i kind = some chunk ∧ r ∈ Render.recordsOf g chunk := by
  have hm : r.identity ∈ g.split.modulesOf i kind :=
    mem_modulesOf_split.mpr ⟨hgroup, r, hr, rfl, hkind⟩
  cases hchunk : g.split.chunkOf? i kind with
  | none => simp [ChunkPlan.modulesOf, hchunk] at hm
  | some chunk => exact ⟨chunk, rfl, (mem_recordsOf hg hchunk).mpr ⟨hr, hgroup, hkind⟩⟩

/-! ## §2. What scripts import. -/

/-- **What a script imports** is in a script chunk, unless it is an extracted stylesheet. -/
theorem chunkKindOf_of_imported {t : ModuleRecord} (hr : r ∈ g.records) {d : Dependency}
    (hd : d ∈ r.dependencies) (hkind : d.kind.IsScript) (ht : t.identity = d.target) :
    chunkKindOf (scriptImported g) t
      = if t.artifact.kind = .stylesheet then .stylesheet else .script := by
  have himported : t.identity ∈ scriptImported g := by
    refine List.mem_filterMap.mpr ⟨d, List.mem_flatMap.mpr ⟨r, hr, hd⟩, ?_⟩
    rw [ht]
    rcases hkind with hkind | hkind <;> simp [hkind]
  unfold chunkKindOf
  cases t.artifact with
  | raw | script | stylesheet => rfl
  | asset => exact if_pos (List.contains_iff_mem.mpr himported)

/-- A module in a script chunk has the imports of a script. -/
theorem isScript_of_mem_dependencies {input : GraphInput} {imported : List Identity}
    (hdescribed : input.Describes r) (hfinished : r.artifact.Finished)
    (hkind : chunkKindOf imported r = .script) {d : Dependency} (hd : d ∈ r.dependencies) :
    d.kind.IsScript := by
  obtain ⟨i, hi, hfollows⟩ := exists_mem_right_of_forall₂ hdescribed.follows.flip d hd
  obtain ⟨hfitting, hraw⟩ := hfinished
  unfold chunkKindOf at hkind
  cases hartifact : r.artifact with
  | raw => exact absurd (congrArg Artifact.kind hartifact) hraw
  | script code imports =>
      rw [hartifact] at hi hfitting
      exact hfollows.2.1 ▸ hfitting i hi
  | stylesheet css imports =>
      rw [hartifact] at hkind
      cases hkind
  | asset url file? =>
      -- an asset imports nothing
      rw [hartifact] at hi
      cases hi

/-- **What a module loads** is in a script chunk of the load sequence of its group, unless it is an
extracted stylesheet. -/
theorem exists_script_chunk (hg : g.WellFormed) (hr : r ∈ g.records)
    (hgroup : groupOf g r.identity = some i) {d : Dependency} (hd : d ∈ r.syncDependencies)
    (hkind : d.kind.IsScript) {t : ModuleRecord} (ht : g.get? d.target = some t)
    (hstyle : t.artifact.kind ≠ .stylesheet) :
    ∃ j ∈ g.split.loadSequence i, ∃ chunk, g.split.chunkOf? j .script = some chunk
      ∧ t ∈ Render.recordsOf g chunk := by
  obtain ⟨htarget, hidentity⟩ := ModuleGraph.mem_of_get? ht
  have hlink : g.Loads r.identity d.target := ⟨r, ModuleGraph.get?_of_mem hg.nodup hr, d, hd, rfl⟩
  obtain ⟨j, hj, hpath⟩ := exists_groupPath_of_loads hg hgroup hlink
  have hi : i < g.split.groups.length := (assembled_split g).2 ▸ groupOf_lt hgroup
  have hscript := chunkKindOf_of_imported hr (List.mem_filter.mp hd).1 hkind hidentity
  rw [if_neg hstyle] at hscript
  exact ⟨j, (mem_loadSequence_split hg hi).mpr hpath,
    exists_chunk hg htarget (hidentity.symm ▸ hj) hscript⟩

end Plan

end AssetBundler
