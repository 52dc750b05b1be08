/-
  AssetBundler.Proofs.Plan.Split
  ────────────────────────────────
  **WHAT IS LOADED FOR A ROOT.**

  A plan holds the modules of every group in its chunks, together with the
  load order of the groups.  For the group of a root it loads what the root
  reaches and nothing else, every group once and behind those that it needs:

    • `Plan.holds_split` — the modules of a group,
    • `ModuleGraph.split_loads_reachable_modules` — what is loaded for a root,
    • `ModuleGraph.split_orders_groups` — in which order.
-/
import AssetBundler.Proofs.Plan.Links
import AssetBundler.Proofs.Plan.LoadOrder

namespace AssetBundler

open Relation

namespace ChunkPlan

/-- The module is in a chunk of the group. -/
def Holds (plan : ChunkPlan) (group : Nat) (m : Identity) : Prop :=
  ∃ kind chunk, plan.chunkOf? group kind = some chunk ∧ m ∈ chunk.modules

/-- A module of the one group loads a module of the other. -/
def Loads (plan : ChunkPlan) (g : ModuleGraph) (group other : Nat) : Prop :=
  group ≠ other ∧ ∃ m target, plan.Holds group m ∧ plan.Holds other target ∧ g.Loads m target

/-- The modules of a kind in the chunk of a group. -/
def modulesOf (plan : ChunkPlan) (group : Nat) (kind : ChunkKind) : List Identity :=
  ((plan.chunkOf? group kind).map (·.modules)).getD []

theorem holds_iff {plan : ChunkPlan} {group : Nat} {m : Identity} :
    plan.Holds group m ↔ ∃ kind, m ∈ plan.modulesOf group kind := by
  unfold Holds modulesOf
  refine exists_congr fun kind => ?_
  cases plan.chunkOf? group kind <;> simp

end ChunkPlan

namespace Plan

variable {g : ModuleGraph} {index : GroupIndex} {count i j : Nat} {m : Identity}

/-! ## §1. Chunks. -/

/-- What holds of the groups that have got their chunks. -/
structure Assembled (g : ModuleGraph) (index : GroupIndex) (count : Nat) (plan : ChunkPlan) :
    Prop where
  loadSequence : ∀ i < plan.groups.length,
    plan.loadSequence i = loadOrder (directDependencies g index) count i ++ [i]
  modules : ∀ i < plan.groups.length, ∀ kind,
    plan.modulesOf i kind = members g index (scriptImported g) i kind
  /-- The chunk of a group exists. -/
  inRange : ∀ i < plan.groups.length, ∀ kind k,
    plan.chunkIndex? i kind = some k → k < plan.chunks.length

section

variable {plan : ChunkPlan} {group : ChunkGroup} {scripts stylesheets : List Identity}

theorem length_groups_addChunks :
    (addChunks plan group scripts stylesheets).groups.length = plan.groups.length + 1 := by
  simp [addChunks]

theorem chunkIndex?_addChunks {kind : ChunkKind} (h : i < plan.groups.length) :
    (addChunks plan group scripts stylesheets).chunkIndex? i kind = plan.chunkIndex? i kind := by
  simp only [ChunkPlan.chunkIndex?, addChunks, List.getElem?_append_left h]

theorem loadSequence_addChunks (h : i < plan.groups.length) :
    (addChunks plan group scripts stylesheets).loadSequence i = plan.loadSequence i := by
  simp only [ChunkPlan.loadSequence, addChunks, List.getElem?_append_left h]

/-- The chunks of the groups before stay the same. -/
theorem modulesOf_addChunks {kind : ChunkKind} (h : i < plan.groups.length)
    (hrange : ∀ k, plan.chunkIndex? i kind = some k → k < plan.chunks.length) :
    (addChunks plan group scripts stylesheets).modulesOf i kind = plan.modulesOf i kind := by
  unfold ChunkPlan.modulesOf ChunkPlan.chunkOf?
  rw [chunkIndex?_addChunks h]
  cases hk : plan.chunkIndex? i kind with
  | none => rfl
  | some k =>
      simp only [Option.bind_some, addChunks, List.append_assoc,
        List.getElem?_append_left (hrange k hk)]

/-- The new group has its modules in its chunks. -/
theorem modulesOf_addChunks_last {kind : ChunkKind} :
    (addChunks plan group scripts stylesheets).modulesOf plan.groups.length kind
      = match kind with
        | .script => scripts
        | .stylesheet => stylesheets := by
  -- a kind without modules has no chunk, and the stylesheets come behind the scripts
  cases scripts <;> cases stylesheets <;> cases kind <;>
    simp [ChunkPlan.modulesOf, ChunkPlan.chunkOf?, ChunkPlan.chunkIndex?, addChunks]

theorem inRange_addChunks_last {kind : ChunkKind} {k : Nat}
    (h : (addChunks plan group scripts stylesheets).chunkIndex? plan.groups.length kind = some k) :
    k < (addChunks plan group scripts stylesheets).chunks.length := by
  revert h
  cases scripts <;> cases stylesheets <;> cases kind <;>
    simp [ChunkPlan.chunkIndex?, addChunks] <;> omega

/-- One more group gets its chunks. -/
theorem Assembled.addChunks (h : Assembled g index count plan)
    (horder : group.loadOrder
      = loadOrder (directDependencies g index) count plan.groups.length) :
    Assembled g index count (addChunks plan group
      (members g index (scriptImported g) plan.groups.length .script)
      (members g index (scriptImported g) plan.groups.length .stylesheet)) := by
  refine ⟨fun i hi => ?_, fun i hi kind => ?_, fun i hi kind k hk => ?_⟩
  · rw [length_groups_addChunks] at hi
    rcases Nat.lt_succ_iff_lt_or_eq.mp hi with hi | rfl
    · rw [loadSequence_addChunks hi, h.loadSequence i hi]
    · simp [ChunkPlan.loadSequence, Plan.addChunks, horder]
  · rw [length_groups_addChunks] at hi
    rcases Nat.lt_succ_iff_lt_or_eq.mp hi with hi | rfl
    · rw [modulesOf_addChunks hi (h.inRange i hi kind), h.modules i hi kind]
    · rw [modulesOf_addChunks_last]
      cases kind <;> rfl
  · rw [length_groups_addChunks] at hi
    rcases Nat.lt_succ_iff_lt_or_eq.mp hi with hi | rfl
    · rw [chunkIndex?_addChunks hi] at hk
      have hlt := h.inRange i hi kind k hk
      simp only [Plan.addChunks, List.length_append]
      omega
    · exact inRange_addChunks_last hk

/-- All groups get their chunks. -/
theorem Assembled.assemble : ∀ (groups : List ChunkGroup) {plan : ChunkPlan},
    Assembled g index count plan →
      Assembled g index count (assemble g index count plan.groups.length groups plan)
        ∧ (assemble g index count plan.groups.length groups plan).groups.length
            = plan.groups.length + groups.length
  | [], plan, h => ⟨h, rfl⟩
  | group :: groups, plan, h => by
      let ordered : ChunkGroup := { group with
        loadOrder := loadOrder (directDependencies g index) count plan.groups.length }
      have hordered : ordered.loadOrder
          = loadOrder (directDependencies g index) count plan.groups.length := rfl
      have hnext := Assembled.assemble groups (h.addChunks hordered)
      rw [length_groups_addChunks] at hnext
      refine ⟨hnext.1, hnext.2.trans ?_⟩
      rw [List.length_cons]
      omega

end

/-! ## §2. The plan of a graph. -/

theorem length_grouping : (grouping g).1.length = (roots g).length + (sharedSets g).length := by
  have hadd : ∀ (shared : SharedModules) (groups : List ChunkGroup),
      (shared.foldl (fun groups _ => addGroup groups "common" .shared none) groups).length
        = groups.length + shared.length := by
    intro shared
    induction shared with
    | nil => exact fun _ => rfl
    | cons _ shared ih =>
        intro groups
        rw [List.foldl_cons, ih, length_addGroup, List.length_cons]
        omega
  show (List.foldl _ (rootGroups g) (sharedOf g)).length = _
  rw [hadd, length_rootGroups, sharedSets, List.length_map]

/-- The group of a module is one of the groups. -/
theorem groupOf_lt (h : groupOf g m = some i) : i < (grouping g).1.length := by
  rw [length_grouping]
  cases (groupOf_eq_some_iff.mp h).2 with
  | root hroot => exact Nat.lt_add_right _ (List.idxOf_lt_length_of_mem hroot)
  | only _ hset =>
      exact Nat.lt_add_right _ (lt_length_of_mem_rootSetOf (hset ▸ List.mem_singleton.mpr rfl))
  | shared _ _ hk => exact Nat.add_lt_add_left (List.getElem?_eq_some_iff.mp hk).1 _

theorem assembled_split (g : ModuleGraph) :
    Assembled g (grouping g).2 (grouping g).1.length g.split
      ∧ g.split.groups.length = (grouping g).1.length := by
  have hempty : Assembled g (grouping g).2 (grouping g).1.length ⟨[], []⟩ := by
    refine ⟨?_, ?_, ?_⟩ <;> simp
  have hall := Assembled.assemble (grouping g).1 hempty
  exact ⟨hall.1, hall.2.trans (Nat.zero_add _)⟩

theorem mem_members {imported : List Identity} {kind : ChunkKind} :
    m ∈ members g index imported i kind
      ↔ ∃ r ∈ g.records, r.identity = m ∧ index.lookup m = some i ∧ chunkKindOf imported r = kind := by
  simp only [members, List.mem_map, List.mem_filter, Bool.and_eq_true, beq_iff_eq, decide_eq_true_eq]
  constructor
  · rintro ⟨r, ⟨hr, hlookup, hkind⟩, rfl⟩
    exact ⟨r, hr, rfl, hlookup, hkind⟩
  · rintro ⟨r, hr, rfl, hlookup, hkind⟩
    exact ⟨r, ⟨hr, hlookup, hkind⟩, rfl⟩

/-- **The chunks of a group hold its modules.** -/
theorem holds_split : g.split.Holds i m ↔ groupOf g m = some i := by
  obtain ⟨hplan, hlength⟩ := assembled_split g
  rw [ChunkPlan.holds_iff]
  constructor
  · rintro ⟨kind, hm⟩
    -- a number without a group has no chunks
    by_cases hi : i < g.split.groups.length
    · rw [hplan.modules i hi kind] at hm
      obtain ⟨r, _, _, hlookup, _⟩ := mem_members.mp hm
      exact hlookup
    · have hnone : g.split.groups[i]? = none := List.getElem?_eq_none (not_lt.mp hi)
      simp [ChunkPlan.modulesOf, ChunkPlan.chunkOf?, ChunkPlan.chunkIndex?, hnone] at hm
  · intro hm
    obtain ⟨r, hr, hidentity, _⟩ :=
      ModuleGraph.exists_record_of_mem_order (groupOf_eq_some_iff.mp hm).1
    refine ⟨chunkKindOf (scriptImported g) r, ?_⟩
    rw [hplan.modules i (hlength ▸ groupOf_lt hm)]
    exact mem_members.mpr ⟨r, hr, hidentity, hm, rfl⟩

theorem loads_split : g.split.Loads g i j ↔ GroupLoads g i j := by
  simp only [ChunkPlan.Loads, GroupLoads, holds_split]

/-! ## §3. What is loaded for a group. -/

theorem needs_directDependencies (hg : g.WellFormed) :
    Needs (directDependencies g (grouping g).2) = GroupLoads g := by
  funext i j
  exact propext (mem_directDependencies hg)

theorem directDependencies_lt (hg : g.WellFormed) (i j : Nat)
    (h : j ∈ directDependencies g (grouping g).2 i) : j < (grouping g).1.length := by
  obtain ⟨_, _, _, _, hj, _⟩ := (mem_directDependencies hg).mp h
  exact groupOf_lt hj

theorem not_transGen_needs (hg : g.WellFormed) (i : Nat) :
    ¬ TransGen (Needs (directDependencies g (grouping g).2)) i i := by
  rw [needs_directDependencies hg]
  exact not_transGen_groupLoads hg

theorem mem_loadSequence_split (hg : g.WellFormed) (hi : i < g.split.groups.length) :
    j ∈ g.split.loadSequence i ↔ ReflTransGen (GroupLoads g) i j := by
  obtain ⟨hplan, hlength⟩ := assembled_split g
  rw [hplan.loadSequence i hi, ← needs_directDependencies hg]
  exact mem_loadOrder_concat (not_transGen_needs hg) (directDependencies_lt hg) (hlength ▸ hi)

theorem loadSequence_split_needsFirst (hg : g.WellFormed) (hi : i < g.split.groups.length) :
    (g.split.loadSequence i).Nodup
      ∧ NeedsFirst id (directDependencies g (grouping g).2) (g.split.loadSequence i) := by
  obtain ⟨hplan, hlength⟩ := assembled_split g
  rw [hplan.loadSequence i hi]
  exact loadOrder_concat_needsFirst (not_transGen_needs hg) (directDependencies_lt hg)
    (hlength ▸ hi)

end Plan

/-! ## §4. The plan of a project. -/

namespace ModuleGraph

open Plan

variable {input : GraphInput} {entries : List (String × Identity)} {signal : CancelSignal}
  {s : Session} {g : ModuleGraph}

/-- **WHAT IS LOADED FOR A ROOT.**  An entry or a target of deferred imports is in the chunks of one
group, and the groups of its load sequence hold the modules that it loads, directly or through others,
itself among them, and no other module. -/
theorem split_loads_reachable_modules
    (h : ((Graph.build input entries).exec signal s).1 = .ok g) {root : Identity}
    (hroot : root ∈ g.entries.map (·.2) ∨ root ∈ g.deferredRoots) :
    (∃! i, g.split.Holds i root)
      ∧ ∀ i, g.split.Holds i root →
          ∀ m, (∃ j ∈ g.split.loadSequence i, g.split.Holds j m) ↔ ReflTransGen g.Loads root m := by
  have hg : g.WellFormed := (Graph.complete_of_build h).toWellFormed
  have hroot : root ∈ roots g := mem_roots.mpr hroot
  have hgroup := groupOf_root hg hroot
  refine ⟨⟨_, holds_split.mpr hgroup, fun i hi => ?_⟩, fun i hi m => ?_⟩
  · exact Option.some.inj ((holds_split.mp hi).symm.trans hgroup)
  · obtain rfl : (roots g).idxOf root = i :=
      Option.some.inj (hgroup.symm.trans (holds_split.mp hi))
    have hlt : (roots g).idxOf root < g.split.groups.length :=
      (assembled_split g).2 ▸ groupOf_lt hgroup
    constructor
    · rintro ⟨j, hj, hm⟩
      exact reaches_of_groupPath hg hroot ((mem_loadSequence_split hg hlt).mp hj)
        (holds_split.mp hm)
    · intro hpath
      obtain ⟨j, hj, hgroups⟩ := exists_groupPath hg hroot hpath
      exact ⟨j, (mem_loadSequence_split hg hlt).mpr hgroups, holds_split.mpr hj⟩

theorem twoPages_page_loads :
    ∃ g, ((Graph.build Graph.twoPages Graph.twoPagesEntries).exec .never
        { mode := .development }).1 = .ok g
      ∧ (∃! i, g.split.Holds i ⟨["page.js"]⟩)
      ∧ ∀ i, g.split.Holds i ⟨["page.js"]⟩ → ∀ m,
          (∃ j ∈ g.split.loadSequence i, g.split.Holds j m)
            ↔ ReflTransGen g.Loads ⟨["page.js"]⟩ m := by
  obtain ⟨g, hg, _, hdeferred⟩ := Graph.exists_twoPages_graph
  exact ⟨g, hg, split_loads_reachable_modules hg (Or.inr (by simp [hdeferred]))⟩

/-- **THE ORDER OF GROUPS.**  No group loads itself, directly or through others, and the load sequence
of a group has each group once and strictly behind those that it loads. -/
theorem split_orders_groups (h : ((Graph.build input entries).exec signal s).1 = .ok g) :
    (∀ i, ¬ TransGen (g.split.Loads g) i i)
      ∧ ∀ i < g.split.groups.length, (g.split.loadSequence i).Nodup
          ∧ ∀ j ∈ g.split.loadSequence i, ∀ k, g.split.Loads g j k →
              k ∈ g.split.loadSequence i
                ∧ (g.split.loadSequence i).idxOf k < (g.split.loadSequence i).idxOf j := by
  have hg : g.WellFormed := (Graph.complete_of_build h).toWellFormed
  have hloads : g.split.Loads g = GroupLoads g := by
    funext i j
    exact propext loads_split
  rw [hloads]
  refine ⟨fun i => not_transGen_groupLoads hg, fun i hi => ?_⟩
  obtain ⟨hnodup, horder⟩ := loadSequence_split_needsFirst hg hi
  refine ⟨hnodup, fun j hj k hlink => ?_⟩
  have hneed := (mem_directDependencies hg).mpr hlink
  have hmem := horder.mem hj hneed
  have hlt := horder.idxOf_lt (by rwa [List.map_id]) hj hneed
  rw [List.map_id] at hmem hlt
  exact ⟨hmem, hlt⟩

theorem twoPages_orders_groups :
    ∃ g, ((Graph.build Graph.twoPages Graph.twoPagesEntries).exec .never
        { mode := .development }).1 = .ok g
      ∧ (∀ i, ¬ TransGen (g.split.Loads g) i i)
      ∧ ∀ i < g.split.groups.length, (g.split.loadSequence i).Nodup
          ∧ ∀ j ∈ g.split.loadSequence i, ∀ k, g.split.Loads g j k →
              k ∈ g.split.loadSequence i
                ∧ (g.split.loadSequence i).idxOf k < (g.split.loadSequence i).idxOf j := by
  obtain ⟨g, hg, _⟩ := Graph.exists_twoPages_graph
  exact ⟨g, hg, split_orders_groups hg⟩

end ModuleGraph

end AssetBundler
