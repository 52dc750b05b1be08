/-
  AssetBundler.Proofs.Plan.Partition
  ────────────────────────────────
  **EVERY MODULE IS IN ONE CHUNK.**

  The modules of a graph are regrouped three times: by the roots that reach
  them, into groups, and within a group into scripts and stylesheets.  Nothing
  is lost, since every module of a graph is reached by a root, and nothing
  comes twice, since a chunk belongs to one group and holds one kind of
  module:

    • `Plan.Filed.addChunks`, `Plan.filed_split` — chunks and their groups,
    • `Plan.exists_groupOf_of_mem` — every module has a group,
    • `ModuleGraph.split_partitions_modules` — where the modules are.
-/
import AssetBundler.Proofs.Plan.Chunks
import AssetBundler.Proofs.Plan.Roles

namespace AssetBundler

open Relation

namespace Plan

variable {g : ModuleGraph} {plan : ChunkPlan} {group : ChunkGroup}
  {scripts stylesheets : List Identity} {kind kind' : ChunkKind} {i j k : Nat} {m : Identity}

/-! ## §1. Chunks and their groups. -/

/-- The chunk is that of a group: it has its name and its role, and holds something. -/
def IsChunkOf (plan : ChunkPlan) (k : Nat) (chunk : Chunk) (i : Nat) : Prop :=
  plan.chunkIndex? i chunk.kind = some k
    ∧ (∃ c, plan.groups[i]? = some c ∧ chunk.name = c.name ∧ chunk.role = c.role)
    ∧ chunk.modules ≠ []

/-- **The chunks of a plan and its groups fit together.** -/
structure Filed (plan : ChunkPlan) : Prop where
  exists_group : ∀ k chunk, plan.chunks[k]? = some chunk → ∃ i, IsChunkOf plan k chunk i
  exists_chunk : ∀ i kind k, plan.chunkIndex? i kind = some k →
    ∃ chunk, plan.chunks[k]? = some chunk ∧ chunk.kind = kind
  /-- A chunk belongs to one group. -/
  unique : ∀ i j kind kind' k, plan.chunkIndex? i kind = some k →
    plan.chunkIndex? j kind' = some k → i = j

theorem lt_length_of_chunkIndex? (h : plan.chunkIndex? i kind = some k) :
    i < plan.groups.length := by
  obtain ⟨c, hc, _⟩ := Option.bind_eq_some_iff.mp h
  exact (List.getElem?_eq_some_iff.mp hc).1

/-- The place of a new chunk: scripts come first, stylesheets behind them. -/
theorem chunkIndex?_addChunks_last :
    (addChunks plan group scripts stylesheets).chunkIndex? plan.groups.length kind
      = match kind with
        | .script => if scripts.isEmpty then none else some plan.chunks.length
        | .stylesheet => if stylesheets.isEmpty then none
            else some (plan.chunks.length + if scripts.isEmpty then 0 else 1) := by
  cases scripts <;> cases stylesheets <;> cases kind <;>
    simp [ChunkPlan.chunkIndex?, addChunks]

/-- A group has a chunk from before, or it is the new one. -/
theorem chunkIndex?_addChunks_cases
    (h : (addChunks plan group scripts stylesheets).chunkIndex? i kind = some k) :
    plan.chunkIndex? i kind = some k
      ∨ i = plan.groups.length
        ∧ (addChunks plan group scripts stylesheets).chunkIndex? plan.groups.length kind
          = some k := by
  have hi := lt_length_of_chunkIndex? h
  rw [length_groups_addChunks] at hi
  rcases Nat.lt_succ_iff_lt_or_eq.mp hi with hi | rfl
  · exact Or.inl (chunkIndex?_addChunks hi ▸ h)
  · exact Or.inr ⟨rfl, h⟩

/-- A new chunk has a place behind those from before. -/
theorem length_le_of_chunkIndex?_last
    (h : (addChunks plan group scripts stylesheets).chunkIndex? plan.groups.length kind
      = some k) : plan.chunks.length ≤ k := by
  rw [chunkIndex?_addChunks_last] at h
  cases kind <;> simp only at h <;> split at h <;> cases h <;> omega

theorem Filed.lt_length (h : Filed plan) (hk : plan.chunkIndex? i kind = some k) :
    k < plan.chunks.length := by
  obtain ⟨chunk, hchunk, _⟩ := h.exists_chunk i kind k hk
  exact (List.getElem?_eq_some_iff.mp hchunk).1

/-- What a chunk from before is stays so. -/
theorem IsChunkOf.addChunks {chunk : Chunk} (h : IsChunkOf plan k chunk i) :
    IsChunkOf (addChunks plan group scripts stylesheets) k chunk i := by
  obtain ⟨hk, ⟨c, hc, hname⟩, hmodules⟩ := h
  have hi := lt_length_of_chunkIndex? hk
  refine ⟨(chunkIndex?_addChunks hi).trans hk, ⟨c, ?_, hname⟩, hmodules⟩
  simp only [Plan.addChunks, List.getElem?_append_left hi]
  exact hc

/-- The new chunks are those of the new group. -/
theorem isChunkOf_addChunks_last {chunk : Chunk} (hk : plan.chunks.length ≤ k)
    (h : (addChunks plan group scripts stylesheets).chunks[k]? = some chunk) :
    IsChunkOf (addChunks plan group scripts stylesheets) k chunk plan.groups.length := by
  obtain ⟨n, rfl⟩ := Nat.exists_eq_add_of_le hk
  have hnew : (addChunks plan group scripts stylesheets).chunks[plan.chunks.length + n]?
      = ((addChunks ⟨[], []⟩ group scripts stylesheets).chunks)[n]? := by
    simp only [addChunks, List.append_assoc, List.nil_append]
    rw [List.getElem?_append_right (Nat.le_add_right _ _), Nat.add_sub_cancel_left]
  rw [hnew] at h
  -- there are two places at most, and the second is that of the stylesheets
  cases scripts <;> cases stylesheets <;> rcases n with _ | _ | n <;>
    simp [addChunks] at h <;> subst h <;>
    simp [IsChunkOf, ChunkPlan.chunkIndex?, addChunks]

theorem exists_chunk_addChunks_last
    (h : (addChunks plan group scripts stylesheets).chunkIndex? plan.groups.length kind
      = some k) :
    ∃ chunk, (addChunks plan group scripts stylesheets).chunks[k]? = some chunk
      ∧ chunk.kind = kind := by
  rw [chunkIndex?_addChunks_last] at h
  cases scripts <;> cases stylesheets <;> cases kind <;> simp at h <;> subst h <;>
    simp [addChunks]

/-- **One more group with its chunks.** -/
theorem Filed.addChunks (h : Filed plan) :
    Filed (addChunks plan group scripts stylesheets) := by
  refine ⟨fun k chunk hk => ?_, fun i kind k hk => ?_, fun i j kind kind' k hi hj => ?_⟩
  · rcases lt_or_ge k plan.chunks.length with hlt | hge
    · have hold : plan.chunks[k]? = some chunk := by
        rw [← hk]
        simp only [Plan.addChunks, List.append_assoc, List.getElem?_append_left hlt]
      obtain ⟨i, hi⟩ := h.exists_group k chunk hold
      exact ⟨i, hi.addChunks⟩
    · exact ⟨_, isChunkOf_addChunks_last hge hk⟩
  · rcases chunkIndex?_addChunks_cases hk with hold | ⟨_, hnew⟩
    · obtain ⟨chunk, hchunk, hkind⟩ := h.exists_chunk i kind k hold
      refine ⟨chunk, ?_, hkind⟩
      simp only [Plan.addChunks, List.append_assoc,
        List.getElem?_append_left (h.lt_length hold)]
      exact hchunk
    · exact exists_chunk_addChunks_last hnew
  · -- the chunks from before and the new ones have different places
    rcases chunkIndex?_addChunks_cases hi with hi | ⟨rfl, hi⟩ <;>
      rcases chunkIndex?_addChunks_cases hj with hj | ⟨rfl, hj⟩
    · exact h.unique i j kind kind' k hi hj
    · exact absurd (h.lt_length hi) (Nat.not_lt.mpr (length_le_of_chunkIndex?_last hj))
    · exact absurd (h.lt_length hj) (Nat.not_lt.mpr (length_le_of_chunkIndex?_last hi))
    · rfl

theorem Filed.assemble {index : GroupIndex} {count : Nat} : ∀ (groups : List ChunkGroup) (i : Nat)
    {plan : ChunkPlan}, Filed plan → Filed (assemble g index count i groups plan)
  | [], _, _, h => h
  | _ :: groups, i, _, h => Filed.assemble groups (i + 1) h.addChunks

/-- **The chunks of the plan of a graph.** -/
theorem filed_split (g : ModuleGraph) : Filed g.split := by
  refine Filed.assemble (grouping g).1 0 ⟨?_, ?_, ?_⟩ <;> simp [ChunkPlan.chunkIndex?]

/-- A chunk holds the modules of its kind in its group. -/
theorem exists_modulesOf {chunk : Chunk} (h : g.split.chunks[k]? = some chunk) :
    ∃ i, IsChunkOf g.split k chunk i ∧ chunk.modules = g.split.modulesOf i chunk.kind := by
  obtain ⟨i, hi⟩ := (filed_split g).exists_group k chunk h
  refine ⟨i, hi, ?_⟩
  rw [ChunkPlan.modulesOf, ChunkPlan.chunkOf?, hi.1, Option.bind_some, h]
  rfl

/-- The modules of a chunk stand in the order of the graph. -/
theorem modulesOf_sublist_order : (g.split.modulesOf i kind).Sublist g.order := by
  obtain ⟨hplan, _⟩ := assembled_split g
  by_cases hi : i < g.split.groups.length
  · rw [hplan.modules i hi kind]
    exact List.filter_sublist.map _
  · have hnone : g.split.groups[i]? = none := List.getElem?_eq_none (not_lt.mp hi)
    simp [ChunkPlan.modulesOf, ChunkPlan.chunkOf?, ChunkPlan.chunkIndex?, hnone]

/-! ## §2. Every module has a group. -/

section

variable {input : GraphInput} {entries : List (String × Identity)}

/-- **A root reaches every module of a graph**: the last deferred import on the way to it leads to one. -/
theorem exists_root_of_mem (hg : input.Complete entries g) (hm : m ∈ g.order) :
    ∃ root ∈ roots g, ReflTransGen g.Loads root m := by
  obtain ⟨e, he, hpath⟩ := hg.exists_dependsOn_path (hg.mem_order_iff.mp hm)
  clear hm
  induction hpath with
  | refl => exact ⟨e.2, mem_roots.mpr (Or.inl (List.mem_map_of_mem he)), ReflTransGen.refl⟩
  | @tail m target _ hlink ih =>
      obtain ⟨root, hroot, hreach⟩ := ih
      obtain ⟨r, hr, d, hd, rfl⟩ := hlink
      by_cases hkind : d.kind = .deferred
      · have htarget := hg.rooted r (ModuleGraph.mem_of_get? hr).1 d hd hkind
        exact ⟨d.target, mem_roots.mpr htarget, ReflTransGen.refl⟩
      · have hsync : d ∈ r.syncDependencies :=
          List.mem_filter.mpr ⟨hd, by simpa [Dependency.isSync] using hkind⟩
        exact ⟨root, hroot, hreach.tail ⟨r, hr, d, hsync, rfl⟩⟩

/-- **Every module of a graph has a group.** -/
theorem exists_groupOf_of_mem (hg : input.Complete entries g) (hm : m ∈ g.order) :
    ∃ i, groupOf g m = some i := by
  obtain ⟨root, hroot, hpath⟩ := exists_root_of_mem hg hm
  obtain ⟨i, hi, _⟩ := exists_groupPath hg.toWellFormed hroot hpath
  exact ⟨i, hi⟩

end

/-- A root is the root of its own group. -/
theorem exists_group_of_root (hg : g.WellFormed) (hm : m ∈ roots g) :
    ∃ c, g.split.groups[(roots g).idxOf m]? = some c ∧ c.root? = some m := by
  -- the groups with roots come first, in the order of the roots
  have hall : g.split.groups.map (·.root?)
      = (roots g).map some ++ List.replicate (sharedSets g).length none := by
    have hsignatures := congrArg (List.map Prod.snd) (signatures_split hg)
    simpa [ChunkGroup.signature, Function.comp_def, roots_eq hg] using hsignatures
  have hget : (g.split.groups.map (·.root?))[(roots g).idxOf m]? = some (some m) := by
    have hlt : (roots g).idxOf m < ((roots g).map some).length := by
      rw [List.length_map]
      exact List.idxOf_lt_length_of_mem hm
    rw [hall, List.getElem?_append_left hlt, List.getElem?_map, List.getElem?_idxOf hm]
    rfl
  rw [List.getElem?_map] at hget
  exact Option.map_eq_some_iff.mp hget

/-! ## §3. The kinds of chunks. -/

theorem mem_scriptImported :
    m ∈ scriptImported g
      ↔ ∃ r ∈ g.records, ∃ d ∈ r.dependencies, d.kind.IsScript ∧ d.target = m := by
  simp only [scriptImported, List.mem_filterMap, List.mem_flatMap, ImportKind.IsScript]
  constructor
  · rintro ⟨d, ⟨r, hr, hd⟩, htarget⟩
    split at htarget
    next hkind => exact ⟨r, hr, d, hd, by simpa using hkind, Option.some.inj htarget⟩
    next => cases htarget
  · rintro ⟨r, hr, d, hd, hkind, rfl⟩
    exact ⟨d, ⟨r, hr, hd⟩, if_pos (by simpa using hkind)⟩

/-- What kind of chunk a module needs. -/
theorem chunkKindOf_cases (imported : List Identity) (r : ModuleRecord) :
    (r.artifact.kind = .stylesheet → chunkKindOf imported r = .stylesheet)
      ∧ (r.artifact.kind = .script → chunkKindOf imported r = .script)
      ∧ (r.artifact.kind = .asset →
          (chunkKindOf imported r = .script ↔ r.identity ∈ imported)) := by
  unfold chunkKindOf
  cases r.artifact <;> simp [Artifact.kind]

end Plan

/-! ## §4. The modules of a plan. -/

namespace ModuleGraph

open Plan

variable {input : GraphInput} {entries : List (String × Identity)} {signal : CancelSignal}
  {s : Session} {g : ModuleGraph}

/-- **EVERY MODULE IS IN ONE CHUNK.**  Each module of a graph is listed in the modules of exactly one
chunk of the plan, and there once.  Every chunk lists its modules in the order of the graph, stylesheets
in stylesheet chunks, scripts in script chunks, and an asset in a script chunk just if a script import
or a deferred import leads to it.  An entry or deferred root is in a group of which it is the root. -/
theorem split_partitions_modules (h : ((Graph.build input entries).exec signal s).1 = .ok g) :
    (∀ m ∈ g.order, ∃ (k : Nat) (chunk : Chunk), g.split.chunks[k]? = some chunk
        ∧ chunk.modules.count m = 1
        ∧ ∀ (k' : Nat) (chunk' : Chunk), g.split.chunks[k']? = some chunk' → m ∈ chunk'.modules →
            k' = k)
      ∧ (∀ chunk ∈ g.split.chunks, chunk.modules.Sublist g.order)
      ∧ (∀ r ∈ g.records, ∀ chunk ∈ g.split.chunks, r.identity ∈ chunk.modules →
          (r.artifact.kind = .stylesheet → chunk.kind = .stylesheet)
          ∧ (r.artifact.kind = .script → chunk.kind = .script)
          ∧ (r.artifact.kind = .asset →
              (chunk.kind = .script ↔ ∃ importer ∈ g.records, ∃ d ∈ importer.dependencies,
                (d.kind = .static ∨ d.kind = .deferred) ∧ d.target = r.identity)))
      ∧ ∀ root, root ∈ g.entries.map (·.2) ∨ root ∈ g.deferredRoots →
          ∃ i c, g.split.groups[i]? = some c ∧ c.root? = some root ∧ g.split.Holds i root := by
  have hg : input.Complete entries g := Graph.complete_of_build h
  have hwf : g.WellFormed := hg.toWellFormed
  -- the chunk that lists a module is that of its group and of its kind
  have hlisted : ∀ {k : Nat} {chunk : Chunk}, g.split.chunks[k]? = some chunk → ∀ r ∈ g.records,
      r.identity ∈ chunk.modules → chunkKindOf (scriptImported g) r = chunk.kind
        ∧ ∃ i, groupOf g r.identity = some i ∧ g.split.chunkIndex? i chunk.kind = some k := by
    intro k chunk hchunk r hr hm
    obtain ⟨i, hi, hmodules⟩ := exists_modulesOf hchunk
    obtain ⟨hgroup, r', hr', hidentity, hkind⟩ := mem_modulesOf_split.mp (hmodules ▸ hm)
    obtain rfl := List.inj_on_of_nodup_map hwf.nodup hr' hr hidentity
    exact ⟨hkind, i, hgroup, hi.1⟩
  refine ⟨fun m hm => ?_, fun chunk hchunk => ?_, fun r hr chunk hchunk hm => ?_,
    fun root hroot => ?_⟩
  · obtain ⟨r, hr, rfl, _⟩ := exists_record_of_mem_order hm
    obtain ⟨i, hi⟩ := exists_groupOf_of_mem hg hm
    have hmem : r.identity ∈ g.split.modulesOf i (chunkKindOf (scriptImported g) r) :=
      mem_modulesOf_split.mpr ⟨hi, r, hr, rfl, rfl⟩
    obtain ⟨k, chunk, hindex, hchunk, hmodules⟩ :
        ∃ k chunk, g.split.chunkIndex? i (chunkKindOf (scriptImported g) r) = some k
          ∧ g.split.chunks[k]? = some chunk ∧ r.identity ∈ chunk.modules := by
      cases hfound : g.split.chunkOf? i (chunkKindOf (scriptImported g) r) with
      | none => simp [ChunkPlan.modulesOf, hfound] at hmem
      | some chunk =>
          obtain ⟨k, hindex, hchunk⟩ := Option.bind_eq_some_iff.mp hfound
          rw [ChunkPlan.modulesOf, hfound] at hmem
          exact ⟨k, chunk, hindex, hchunk, hmem⟩
    obtain ⟨_, _, hown⟩ := exists_modulesOf hchunk
    have hnodup : chunk.modules.Nodup :=
      hown ▸ modulesOf_sublist_order.nodup hwf.nodup
    refine ⟨k, chunk, hchunk, List.count_eq_one_of_mem hnodup hmodules, ?_⟩
    intro k' chunk' hchunk' hm'
    obtain ⟨hkind, j, hj, hindex'⟩ := hlisted hchunk' r hr hm'
    obtain rfl := Option.some.inj (hj.symm.trans hi)
    rw [← hkind] at hindex'
    exact Option.some.inj (hindex'.symm.trans hindex)
  · obtain ⟨k, hk⟩ := List.mem_iff_getElem?.mp hchunk
    obtain ⟨_, _, hmodules⟩ := exists_modulesOf hk
    exact hmodules ▸ modulesOf_sublist_order
  · obtain ⟨k, hk⟩ := List.mem_iff_getElem?.mp hchunk
    obtain ⟨hkind, _⟩ := hlisted hk r hr hm
    rw [← hkind]
    obtain ⟨hstylesheet, hscript, hasset⟩ := chunkKindOf_cases (scriptImported g) r
    exact ⟨hstylesheet, hscript, fun h => (hasset h).trans mem_scriptImported⟩
  · have hmem : root ∈ roots g := mem_roots.mpr hroot
    obtain ⟨c, hc, hcroot⟩ := exists_group_of_root hwf hmem
    exact ⟨_, c, hc, hcroot, holds_split.mpr (groupOf_root hwf hmem)⟩

theorem twoPages_partition :
    ∃ g, ((Graph.build Graph.twoPages Graph.twoPagesEntries).exec .never
        { mode := .development }).1 = .ok g
      ∧ (∀ m ∈ g.order, ∃ (k : Nat) (chunk : Chunk), g.split.chunks[k]? = some chunk
          ∧ chunk.modules.count m = 1
          ∧ ∀ (k' : Nat) (chunk' : Chunk), g.split.chunks[k']? = some chunk' → m ∈ chunk'.modules →
              k' = k)
      ∧ (∀ chunk ∈ g.split.chunks, chunk.modules.Sublist g.order)
      ∧ (∀ r ∈ g.records, ∀ chunk ∈ g.split.chunks, r.identity ∈ chunk.modules →
          (r.artifact.kind = .stylesheet → chunk.kind = .stylesheet)
          ∧ (r.artifact.kind = .script → chunk.kind = .script)
          ∧ (r.artifact.kind = .asset →
              (chunk.kind = .script ↔ ∃ importer ∈ g.records, ∃ d ∈ importer.dependencies,
                (d.kind = .static ∨ d.kind = .deferred) ∧ d.target = r.identity)))
      ∧ ∀ root, root ∈ g.entries.map (·.2) ∨ root ∈ g.deferredRoots →
          ∃ i c, g.split.groups[i]? = some c ∧ c.root? = some root ∧ g.split.Holds i root := by
  obtain ⟨g, hg, _⟩ := Graph.exists_twoPages_graph
  exact ⟨g, hg, split_partitions_modules hg⟩

end ModuleGraph

end AssetBundler
