/-
  AssetBundler.Proofs.Plan.Rename
  ────────────────────────────────
  **THE PLAN SEES NO NAMES.**

  How a graph is divided into groups depends on the shape of its links and on
  the stems of its deferred roots, and not on how modules are called.  When
  the modules of a graph get other names, one for each, every function of the
  plan gives what it gave before, under the new names:

    • `Plan.reachedFrom_rename` — what a root reaches,
    • `Plan.grouping_rename` — the groups and their modules,
    • `Plan.directDependencies_rename` — the links between groups,
    • `ModuleGraph.Renames.loadSequence_eq` — what is loaded for a group.
-/
import AssetBundler.Proofs.Plan.Roles

namespace AssetBundler

/-! ## §1. Renamed graphs. -/

/-- The group with its root under another name. -/
def ChunkGroup.rename (f : Identity → Identity) (c : ChunkGroup) : ChunkGroup :=
  { c with root? := c.root?.map f }

/-- The modules that a record loads together with itself. -/
def ModuleRecord.syncTargets (r : ModuleRecord) : List Identity :=
  r.syncDependencies.map (·.target)

/-- **The second graph has the shape of the first**, with other names for its modules: its records come
in the same order and load the same modules. What is written in them may be different. -/
structure ModuleGraph.Renames (f : Identity → Identity) (g g' : ModuleGraph) : Prop where
  injective : f.Injective
  records : List.Forall₂ (fun r r' => r'.identity = f r.identity
    ∧ r'.syncTargets = r.syncTargets.map f) g.records g'.records
  entries : g'.entries = g.entries.map fun e => (e.1, f e.2)
  deferredRoots : g'.deferredRoots = g.deferredRoots.map f
  stems : ∀ m ∈ g.deferredRoots, (f m).stem = m.stem

namespace ModuleGraph.Renames

variable {f : Identity → Identity} {g g' : ModuleGraph} {m : Identity}

theorem order_eq (h : Renames f g g') : g'.order = g.order.map f := by
  have hall : ∀ (rs rs' : List ModuleRecord), List.Forall₂ (fun r r' => r'.identity = f r.identity
      ∧ r'.syncTargets = r.syncTargets.map f) rs rs' →
      rs'.map (·.identity) = (rs.map (·.identity)).map f := by
    intro rs rs' hrs
    induction hrs with
    | nil => rfl
    | cons hfirst _ ih => rw [List.map_cons, List.map_cons, List.map_cons, ih, hfirst.1]
  exact hall _ _ h.records

theorem length_eq (h : Renames f g g') : g'.records.length = g.records.length :=
  h.records.length_eq.symm

end ModuleGraph.Renames

namespace Plan

variable {f : Identity → Identity} {g g' : ModuleGraph} {m : Identity}

/-- A module loads the same modules under their new names. -/
theorem syncTargets_rename (h : g.Renames f g') (m : Identity) :
    syncTargets g' (f m) = (syncTargets g m).map f := by
  have hall : ∀ (rs rs' : List ModuleRecord), List.Forall₂ (fun r r' => r'.identity = f r.identity
      ∧ r'.syncTargets = r.syncTargets.map f) rs rs' →
      ((rs'.find? fun r => r.identity == f m).map ModuleRecord.syncTargets).getD []
        = (((rs.find? fun r => r.identity == m).map ModuleRecord.syncTargets).getD []).map f := by
    intro rs rs' hrs
    induction hrs with
    | nil => rfl
    | @cons r r' _ _ hfirst _ ih =>
        have hsame : (r'.identity == f m) = (r.identity == m) := by
          rw [hfirst.1, h.injective.beq_eq]
        rw [List.find?_cons, List.find?_cons, hsame]
        cases r.identity == m with
        | true => exact hfirst.2
        | false => exact ih
  have htargets : ∀ (g : ModuleGraph) (m : Identity),
      syncTargets g m = ((g.get? m).map ModuleRecord.syncTargets).getD [] := by
    intro g m
    unfold syncTargets
    cases g.get? m <;> rfl
  rw [htargets, htargets]
  exact hall _ _ h.records

/-! ## §2. Roots and what they reach. -/

theorem addGroup_rename (groups : List ChunkGroup) (base : String) (role : ChunkRole)
    (root? : Option Identity) :
    addGroup (groups.map (ChunkGroup.rename f)) base role (root?.map f)
      = (addGroup groups base role root?).map (ChunkGroup.rename f) := by
  simp [addGroup, ChunkGroup.rename, Function.comp_def]

theorem rootsOf_rename (groups : List ChunkGroup) :
    rootsOf (groups.map (ChunkGroup.rename f)) = (rootsOf groups).map f := by
  simp [rootsOf, ChunkGroup.rename, List.filterMap_map, List.map_filterMap, Function.comp_def]

theorem foldl_entries_rename (entries : List (String × Identity)) : ∀ groups : List ChunkGroup,
    (entries.map fun e => (e.1, f e.2)).foldl (fun groups (name, m) =>
        addGroup groups name .entry (some m)) (groups.map (ChunkGroup.rename f))
      = (entries.foldl (fun groups (name, m) =>
        addGroup groups name .entry (some m)) groups).map (ChunkGroup.rename f) := by
  induction entries with
  | nil => intro groups; rfl
  | cons e entries ih =>
      intro groups
      have hfirst : addGroup (groups.map (ChunkGroup.rename f)) e.1 .entry (some (f e.2))
          = (addGroup groups e.1 .entry (some e.2)).map (ChunkGroup.rename f) :=
        addGroup_rename groups e.1 .entry (some e.2)
      simp only [List.map_cons, List.foldl_cons]
      rw [hfirst]
      exact ih _

theorem foldl_deferred_rename (hf : f.Injective) (deferred : List Identity)
    (hstems : ∀ m ∈ deferred, (f m).stem = m.stem) : ∀ groups : List ChunkGroup,
    (deferred.map f).foldl (fun groups m => if (rootsOf groups).contains m then groups
        else addGroup groups m.stem .async (some m)) (groups.map (ChunkGroup.rename f))
      = (deferred.foldl (fun groups m => if (rootsOf groups).contains m then groups
        else addGroup groups m.stem .async (some m)) groups).map (ChunkGroup.rename f) := by
  induction deferred with
  | nil => intro groups; rfl
  | cons a deferred ih =>
      intro groups
      have hrest := ih fun m hm => hstems m (List.mem_cons_of_mem _ hm)
      have hmem : ((rootsOf groups).map f).contains (f a) = (rootsOf groups).contains a := by
        rw [Bool.eq_iff_iff, List.contains_iff_mem, List.contains_iff_mem,
          List.mem_map_of_injective hf]
      have hnew : addGroup (groups.map (ChunkGroup.rename f)) a.stem .async (some (f a))
          = (addGroup groups a.stem .async (some a)).map (ChunkGroup.rename f) :=
        addGroup_rename groups a.stem .async (some a)
      rw [List.map_cons, List.foldl_cons, List.foldl_cons, rootsOf_rename, hmem,
        hstems a List.mem_cons_self]
      split
      next => exact hrest groups
      next =>
        rw [hnew]
        exact hrest _

theorem rootGroups_rename (h : g.Renames f g') :
    rootGroups g' = (rootGroups g).map (ChunkGroup.rename f) := by
  unfold rootGroups
  rw [h.entries, h.deferredRoots]
  have hentries := foldl_entries_rename (f := f) g.entries []
  rw [List.map_nil] at hentries
  rw [hentries]
  exact foldl_deferred_rename h.injective g.deferredRoots h.stems _

theorem roots_rename (h : g.Renames f g') : roots g' = (roots g).map f := by
  unfold roots
  rw [rootGroups_rename h, rootsOf_rename]

theorem firstOccurrences_map (hf : f.Injective) :
    ∀ ms : List Identity, firstOccurrences (ms.map f) = (firstOccurrences ms).map f
  | [] => rfl
  | m :: ms => by
      simp [firstOccurrences, firstOccurrences_map hf ms, List.filter_map, Function.comp_def,
        hf.beq_eq]

theorem reachable_rename (h : g.Renames f g') : ∀ (n : Nat) (found : List Identity),
    reachable g' n (found.map f) = (reachable g n found).map f
  | 0, _ => rfl
  | n + 1, found => by
      have hround : found.map f ++ (found.map f).flatMap (syncTargets g')
          = (found ++ found.flatMap (syncTargets g)).map f := by
        simp [List.flatMap_map, List.map_flatMap, syncTargets_rename h]
      unfold reachable
      rw [hround, firstOccurrences_map h.injective, reachable_rename h n]

/-- **A root reaches the same modules.** -/
theorem reachedFrom_rename (h : g.Renames f g') (root : Identity) :
    reachedFrom g' (f root) = (reachedFrom g root).map f := by
  have hsame := reachable_rename h g.records.length [root]
  unfold reachedFrom
  rw [h.length_eq]
  exact hsame

theorem reached_rename (h : g.Renames f g') :
    (roots g').map (reachedFrom g') = ((roots g).map (reachedFrom g)).map (List.map f) := by
  rw [roots_rename h, List.map_map, List.map_map]
  exact List.map_congr_left fun root _ => reachedFrom_rename h root

theorem rootSet_rename (hf : f.Injective) (reached : List (List Identity)) (m : Identity) :
    rootSet (reached.map (List.map f)) (f m) = rootSet reached m := by
  unfold rootSet
  rw [List.length_map]
  refine List.filter_congr fun i _ => ?_
  rw [List.getElem?_map, Option.any_map]
  congr 1
  funext found
  simp [hf.eq_iff]

theorem ownGroup?_rename (hf : f.Injective) (roots : List Identity)
    (reached : List (List Identity)) (m : Identity) :
    ownGroup? (roots.map f) (reached.map (List.map f)) (f m) = ownGroup? roots reached m := by
  have hplace : (roots.map f).idxOf? (f m) = roots.idxOf? m := by
    simp [List.idxOf?, List.findIdx?_map, Function.comp_def, hf.beq_eq]
  unfold ownGroup?
  rw [hplace, rootSet_rename hf]

/-! ## §3. Groups. -/

/-- Modules by their sets, under other names. -/
def renameShared (f : Identity → Identity) (shared : SharedModules) : SharedModules :=
  shared.map fun e => (e.1, e.2.map f)

theorem addShared_rename (set : List Nat) (m : Identity) : ∀ shared : SharedModules,
    addShared set (f m) (renameShared f shared) = renameShared f (addShared set m shared)
  | [] => rfl
  | (s, ms) :: rest => by
      have hrest := addShared_rename set m rest
      unfold renameShared at *
      rw [List.map_cons, addShared, addShared]
      split
      · simp
      · split
        · simp
        · rw [hrest, List.map_cons]

/-- One module more among those of its set of roots, if it is shared. -/
def addReached (reached : List (List Identity)) (shared : SharedModules) (m : Identity) :
    SharedModules :=
  match rootSet reached m with
  | [] => shared
  | set => addShared set m shared

theorem addReached_rename (hf : f.Injective) (reached : List (List Identity))
    (shared : SharedModules) (m : Identity) :
    addReached (reached.map (List.map f)) (renameShared f shared) (f m)
      = renameShared f (addReached reached shared m) := by
  unfold addReached
  rw [rootSet_rename hf]
  split
  · rfl
  · exact addShared_rename _ m shared

theorem foldl_addReached_rename (hf : f.Injective) (reached : List (List Identity)) :
    ∀ (ms : List Identity) (shared : SharedModules),
      (ms.map f).foldl (addReached (reached.map (List.map f))) (renameShared f shared)
        = renameShared f (ms.foldl (addReached reached) shared)
  | [], _ => rfl
  | m :: ms, shared => by
      rw [List.map_cons, List.foldl_cons, List.foldl_cons, addReached_rename hf,
        foldl_addReached_rename hf reached ms]

theorem sharedModules_rename (h : g.Renames f g') (roots : List Identity)
    (reached : List (List Identity)) :
    sharedModules g' (roots.map f) (reached.map (List.map f))
      = renameShared f (sharedModules g roots reached) := by
  have hfilter : (g'.order.filter fun m =>
      (ownGroup? (roots.map f) (reached.map (List.map f)) m).isNone)
        = (g.order.filter fun m => (ownGroup? roots reached m).isNone).map f := by
    rw [h.order_eq, List.filter_map]
    congr 1
    exact List.filter_congr fun m _ => by
      rw [Function.comp_apply, ownGroup?_rename h.injective]
  unfold sharedModules
  rw [hfilter]
  exact foldl_addReached_rename h.injective reached _ []

theorem indexShared_rename : ∀ (shared : SharedModules) (first : Nat),
    indexShared first (renameShared f shared)
      = (indexShared first shared).map fun e => (f e.1, e.2)
  | [], _ => rfl
  | (_, ms) :: rest, first => by
      have hrest := indexShared_rename rest (first + 1)
      unfold renameShared at *
      rw [List.map_cons, indexShared, indexShared, hrest, List.map_append, List.map_map,
        List.map_map]
      rfl

theorem foldl_shared_rename (shared : SharedModules) : ∀ groups : List ChunkGroup,
    (renameShared f shared).foldl (fun groups _ => addGroup groups "common" .shared none)
        (groups.map (ChunkGroup.rename f))
      = (shared.foldl (fun groups _ => addGroup groups "common" .shared none) groups).map
          (ChunkGroup.rename f) := by
  induction shared with
  | nil => intro groups; rfl
  | cons e shared ih =>
      intro groups
      have hfirst : addGroup (groups.map (ChunkGroup.rename f)) "common" .shared none
          = (addGroup groups "common" .shared none).map (ChunkGroup.rename f) :=
        addGroup_rename groups "common" .shared none
      show List.foldl _ (addGroup (groups.map (ChunkGroup.rename f)) "common" .shared none)
        (renameShared f shared) = _
      rw [hfirst]
      exact ih _

/-- **The groups and their modules.** -/
theorem grouping_rename (h : g.Renames f g') :
    grouping g' = ((grouping g).1.map (ChunkGroup.rename f),
      (grouping g).2.map fun e => (f e.1, e.2)) := by
  have hshared : sharedOf g' = renameShared f (sharedOf g) := by
    unfold sharedOf
    rw [reached_rename h, roots_rename h, sharedModules_rename h]
  have hown : (g'.order.filterMap fun m => (own? g' m).map fun i => (m, i))
      = (g.order.filterMap fun m => (own? g m).map fun i => (m, i)).map fun e => (f e.1, e.2) := by
    have hsame : ∀ m, own? g' (f m) = own? g m := by
      intro m
      unfold own?
      rw [reached_rename h, roots_rename h, ownGroup?_rename h.injective]
    rw [h.order_eq, List.filterMap_map, List.map_filterMap]
    refine List.filterMap_congr fun m _ => ?_
    rw [Function.comp_apply, hsame]
    cases own? g m <;> rfl
  have hgroups : (sharedOf g').foldl (fun groups _ => addGroup groups "common" .shared none)
        (rootGroups g')
      = ((sharedOf g).foldl (fun groups _ => addGroup groups "common" .shared none)
          (rootGroups g)).map (ChunkGroup.rename f) := by
    rw [hshared, rootGroups_rename h]
    exact foldl_shared_rename _ _
  have hindex : (g'.order.filterMap fun m => (own? g' m).map fun i => (m, i))
        ++ indexShared (rootGroups g').length (sharedOf g')
      = ((g.order.filterMap fun m => (own? g m).map fun i => (m, i))
          ++ indexShared (rootGroups g).length (sharedOf g)).map fun e => (f e.1, e.2) := by
    rw [hown, hshared, rootGroups_rename h, List.length_map, indexShared_rename, List.map_append]
  exact Prod.ext hgroups hindex

theorem lookup_rename (hf : f.Injective) (index : GroupIndex) (m : Identity) :
    List.lookup (f m) (index.map fun e => (f e.1, e.2)) = List.lookup m index := by
  induction index with
  | nil => rfl
  | cons e index ih =>
      rw [List.map_cons, List.lookup_cons, List.lookup_cons, hf.beq_eq, ih]

theorem groupOf_rename (h : g.Renames f g') (m : Identity) : groupOf g' (f m) = groupOf g m := by
  unfold groupOf
  rw [grouping_rename h]
  exact lookup_rename h.injective _ m

/-- One number more: that of the group of a module, if it is another group. -/
def addTarget (index : GroupIndex) (group : Nat) (found : List Nat) (target : Identity) : List Nat :=
  match index.lookup target with
  | some other => if other = group then found else insertNumber other found
  | none => found

/-- A dependency counts by its target alone. -/
theorem foldl_addDependency (index : GroupIndex) (group : Nat) (ds : List Dependency)
    (found : List Nat) :
    ds.foldl (addDependency index group) found
      = (ds.map (·.target)).foldl (addTarget index group) found := by
  rw [List.foldl_map]
  rfl

theorem addTarget_rename (hf : f.Injective) (index : GroupIndex) (group : Nat) (found : List Nat)
    (target : Identity) :
    addTarget (index.map fun e => (f e.1, e.2)) group found (f target)
      = addTarget index group found target := by
  unfold addTarget
  rw [lookup_rename hf]

/-- **The links between groups.** -/
theorem directDependencies_rename (h : g.Renames f g') (index : GroupIndex) (group : Nat) :
    directDependencies g' (index.map fun e => (f e.1, e.2)) group
      = directDependencies g index group := by
  have hfold : ∀ (r r' : ModuleRecord) (found : List Nat),
      r'.syncTargets = r.syncTargets.map f →
      r'.syncDependencies.foldl (addDependency (index.map fun e => (f e.1, e.2)) group) found
        = r.syncDependencies.foldl (addDependency index group) found := by
    intro r r' found hsame
    have hsame : r'.syncDependencies.map (·.target) = (r.syncDependencies.map (·.target)).map f :=
      hsame
    rw [foldl_addDependency, foldl_addDependency, hsame, List.foldl_map]
    simp only [addTarget_rename h.injective]
  have hall : ∀ (rs rs' : List ModuleRecord) (found : List Nat),
      List.Forall₂ (fun r r' => r'.identity = f r.identity
        ∧ r'.syncTargets = r.syncTargets.map f) rs rs' →
      (rs'.filter fun r => (index.map fun e => (f e.1, e.2)).lookup r.identity == some group).foldl
          (fun found r => r.syncDependencies.foldl
            (addDependency (index.map fun e => (f e.1, e.2)) group) found) found
        = (rs.filter fun r => index.lookup r.identity == some group).foldl (fun found r =>
            r.syncDependencies.foldl (addDependency index group) found) found := by
    intro rs rs' found hrs
    induction hrs generalizing found with
    | nil => rfl
    | @cons r r' _ _ hfirst _ ih =>
        have hlookup : (index.map fun e => (f e.1, e.2)).lookup r'.identity
            = index.lookup r.identity := by
          rw [hfirst.1, lookup_rename h.injective]
        rw [List.filter_cons, List.filter_cons, hlookup]
        split
        next => rw [List.foldl_cons, List.foldl_cons, hfold r r' found hfirst.2, ih]
        next => exact ih found
  rw [directDependencies_eq, directDependencies_eq]
  exact hall _ _ [] h.records

end Plan

/-! ## §4. Plans. -/

namespace ModuleGraph.Renames

open Plan

variable {f : Identity → Identity} {g g' : ModuleGraph}

theorem length_groups (h : Renames f g g') : g'.split.groups.length = g.split.groups.length := by
  rw [(assembled_split g').2, (assembled_split g).2, grouping_rename h, List.length_map]

/-- **What is loaded for a group.** -/
theorem loadSequence_eq (h : Renames f g g') (i : Nat) :
    g'.split.loadSequence i = g.split.loadSequence i := by
  by_cases hi : i < g.split.groups.length
  · have hdirect : directDependencies g' (grouping g').2 = directDependencies g (grouping g).2 := by
      funext group
      rw [grouping_rename h]
      exact directDependencies_rename h _ group
    have hlength : (grouping g').1.length = (grouping g).1.length := by
      rw [grouping_rename h, List.length_map]
    rw [(assembled_split g').1.loadSequence i (h.length_groups ▸ hi),
      (assembled_split g).1.loadSequence i hi, hdirect, hlength]
  · have hnone : ∀ plan : ChunkPlan, plan.groups.length ≤ i → plan.loadSequence i = [] := by
      intro plan hle
      rw [ChunkPlan.loadSequence, List.getElem?_eq_none hle]
    rw [hnone _ (not_lt.mp hi), hnone _ (h.length_groups ▸ not_lt.mp hi)]

/-- The groups of a role. -/
theorem groupsOf_eq (h : Renames f g g') (role : ChunkRole) :
    g'.split.groupsOf role = g.split.groupsOf role := by
  have hroles : ∀ g : ModuleGraph,
      g.split.groups.map (·.role) = (grouping g).1.map (·.role) := by
    intro g
    have hsignatures := signatures_assemble (g := g) (grouping g).2 (grouping g).1.length
      (grouping g).1 0 ⟨[], []⟩
    have hfirst := congrArg (List.map Prod.fst) hsignatures
    show (assemble g (grouping g).2 (grouping g).1.length 0 (grouping g).1 ⟨[], []⟩).groups.map _ = _
    simpa [ChunkGroup.signature, Function.comp_def] using hfirst
  have hsame : g'.split.groups.map (·.role) = g.split.groups.map (·.role) := by
    rw [hroles, hroles, grouping_rename h, List.map_map]
    rfl
  have hany : ∀ (plan : ChunkPlan) (i : Nat), (plan.groups[i]?.any fun c => c.role = role)
      = ((plan.groups.map (·.role))[i]?).any (· = role) := by
    intro plan i
    rw [List.getElem?_map, Option.any_map]
  unfold ChunkPlan.groupsOf
  rw [h.length_groups]
  refine List.filter_congr fun i _ => ?_
  rw [hany, hany, hsame]

end ModuleGraph.Renames

end AssetBundler
