/-
  AssetBundler.Proofs.Plan.Roles
  ────────────────────────────────
  **ENTRIES, DEFERRED ROOTS AND SHARED GROUPS.**

  The groups of a plan come in three parts: those of the entries, those of the
  targets of deferred imports that are no entries, and those of modules that
  several roots reach.  Only the groups of the second part are loaded on
  demand:

    • `Plan.signatures_split` — roles and roots of all groups,
    • `Plan.isAsync_iff` — which modules are roots of groups loaded on demand.
-/
import AssetBundler.Proofs.Plan.Split

namespace AssetBundler

theorem ChunkPlan.mem_groupsOf {plan : ChunkPlan} {role : ChunkRole} {i : Nat} :
    i ∈ plan.groupsOf role ↔ ∃ c, plan.groups[i]? = some c ∧ c.role = role := by
  rw [groupsOf, List.mem_filter, List.mem_range]
  constructor
  · rintro ⟨_, hrole⟩
    simpa [Option.any_eq_true] using hrole
  · rintro ⟨c, hc, rfl⟩
    exact ⟨(List.getElem?_eq_some_iff.mp hc).1, by simp [hc]⟩

/-- The role of a group with its root. -/
def ChunkGroup.signature (c : ChunkGroup) : ChunkRole × Option Identity :=
  (c.role, c.root?)

namespace Plan

variable {g : ModuleGraph} {m : Identity} {i : Nat}

/-! ## §1. Groups with roots. -/

/-- The targets of deferred imports that are no entries. -/
def asyncRoots (g : ModuleGraph) : List Identity :=
  g.deferredRoots.filter fun m => !(g.entries.map (·.2)).contains m

theorem mem_asyncRoots :
    m ∈ asyncRoots g ↔ m ∈ g.deferredRoots ∧ m ∉ g.entries.map (·.2) := by
  simp [asyncRoots]

theorem signatures_addGroup (groups : List ChunkGroup) (base : String) (role : ChunkRole)
    (root? : Option Identity) :
    (addGroup groups base role root?).map ChunkGroup.signature
      = groups.map ChunkGroup.signature ++ [(role, root?)] := by
  simp [addGroup, ChunkGroup.signature]

theorem signatures_entries (entries : List (String × Identity)) : ∀ groups : List ChunkGroup,
    (entries.foldl (fun groups (name, m) => addGroup groups name .entry (some m)) groups).map
        ChunkGroup.signature
      = groups.map ChunkGroup.signature ++ entries.map fun e => (.entry, some e.2) := by
  induction entries with
  | nil => intro groups; simp
  | cons e entries ih =>
      intro groups
      rw [List.foldl_cons, ih, signatures_addGroup, List.append_assoc]
      rfl

/-- Each deferred root that is no root yet gets a group. -/
theorem signatures_deferred (deferred : List Identity) : ∀ groups : List ChunkGroup,
    deferred.Nodup →
    (deferred.foldl (fun groups m =>
        if (rootsOf groups).contains m then groups
        else addGroup groups m.stem .async (some m)) groups).map ChunkGroup.signature
      = groups.map ChunkGroup.signature
        ++ (deferred.filter fun m => !(rootsOf groups).contains m).map fun m =>
          (.async, some m) := by
  induction deferred with
  | nil => intro groups _; simp
  | cons a deferred ih =>
      intro groups hnodup
      obtain ⟨ha, hrest⟩ := List.nodup_cons.mp hnodup
      rw [List.foldl_cons]
      split
      next hroot =>
        rw [ih groups hrest, List.filter_cons_of_neg (by simpa using hroot)]
      next hroot =>
        -- the new root is none of those that follow
        have hsame : (deferred.filter fun m => !(rootsOf groups ++ [a]).contains m)
            = deferred.filter fun m => !(rootsOf groups).contains m := by
          refine List.filter_congr fun m hm => ?_
          have hne : m ≠ a := fun h => ha (h ▸ hm)
          simp [hne]
        rw [ih _ hrest, signatures_addGroup, rootsOf_addGroup, hsame,
          List.filter_cons_of_pos (by simpa using hroot), List.append_assoc]
        rfl

theorem signatures_rootGroups (hg : g.WellFormed) :
    (rootGroups g).map ChunkGroup.signature
      = g.entries.map (fun e => (.entry, some e.2))
        ++ (asyncRoots g).map fun m => (.async, some m) := by
  have hroots := (foldl_addGroup_entries g.entries [] rfl).2
  unfold rootGroups asyncRoots
  rw [signatures_deferred _ _ hg.rootsNodup, signatures_entries, hroots]
  rfl

/-- The roots are the entries and then the other targets of deferred imports. -/
theorem roots_eq (hg : g.WellFormed) : roots g = g.entries.map (·.2) ++ asyncRoots g := by
  have hsame : roots g = ((rootGroups g).map ChunkGroup.signature).filterMap (·.2) := by
    rw [List.filterMap_map]
    rfl
  rw [hsame, signatures_rootGroups hg, List.filterMap_append, List.filterMap_map,
    List.filterMap_map]
  congr 1
  · exact congrFun List.filterMap_eq_map' g.entries
  · exact List.filterMap_some

/-! ## §2. All groups. -/

theorem signatures_shared (shared : SharedModules) : ∀ groups : List ChunkGroup,
    (shared.foldl (fun groups _ => addGroup groups "common" .shared none) groups).map
        ChunkGroup.signature
      = groups.map ChunkGroup.signature ++ List.replicate shared.length (.shared, none) := by
  induction shared with
  | nil => intro groups; simp
  | cons _ shared ih =>
      intro groups
      rw [List.foldl_cons, ih, signatures_addGroup, List.append_assoc]
      rfl

/-- The chunks of a group do not change its role and its root. -/
theorem signatures_assemble (index : GroupIndex) (count : Nat) :
    ∀ (groups : List ChunkGroup) (i : Nat) (plan : ChunkPlan),
      (assemble g index count i groups plan).groups.map ChunkGroup.signature
        = plan.groups.map ChunkGroup.signature ++ groups.map ChunkGroup.signature
  | [], i, plan => by
      simp [assemble]
  | group :: groups, i, plan => by
      unfold assemble
      rw [signatures_assemble index count groups (i + 1)]
      simp [addChunks, ChunkGroup.signature]

/-- **The roles and roots of all groups**, in order. -/
theorem signatures_split (hg : g.WellFormed) :
    g.split.groups.map ChunkGroup.signature
      = g.entries.map (fun e => (.entry, some e.2))
        ++ (asyncRoots g).map (fun m => (.async, some m))
        ++ List.replicate (sharedSets g).length (.shared, none) := by
  have hgroups : (grouping g).1.map ChunkGroup.signature
      = (rootGroups g).map ChunkGroup.signature
        ++ List.replicate (sharedOf g).length (.shared, none) :=
    signatures_shared (sharedOf g) (rootGroups g)
  show (assemble g (grouping g).2 _ 0 (grouping g).1 ⟨[], []⟩).groups.map _ = _
  rw [signatures_assemble, hgroups, signatures_rootGroups hg, sharedSets, List.length_map]
  rfl

/-! ## §3. Groups that are loaded on demand. -/

/-- The group of a plan is loaded on demand and has a module as its root. -/
def IsAsync (plan : ChunkPlan) (i : Nat) (m : Identity) : Prop :=
  ∃ c, plan.groups[i]? = some c ∧ c.role = .async ∧ c.root? = some m

theorem isAsync_iff_signature {plan : ChunkPlan} :
    IsAsync plan i m
      ↔ (plan.groups.map ChunkGroup.signature)[i]? = some (.async, some m) := by
  simp [IsAsync, ChunkGroup.signature, List.getElem?_map, Option.map_eq_some_iff]

theorem isAsync_iff_getElem? (hg : g.WellFormed) :
    IsAsync g.split i m
      ↔ g.entries.length ≤ i ∧ (asyncRoots g)[i - g.entries.length]? = some m := by
  rw [isAsync_iff_signature, signatures_split hg, List.append_assoc]
  rcases lt_or_ge i g.entries.length with hi | hi
  · -- an entry
    rw [List.getElem?_append_left (by simpa using hi), List.getElem?_map]
    refine iff_of_false ?_ fun h => absurd h.1 (Nat.not_le.mpr hi)
    simp [Option.map_eq_some_iff]
  · rw [List.getElem?_append_right (by simpa using hi), List.length_map,
      and_iff_right hi]
    rcases lt_or_ge (i - g.entries.length) (asyncRoots g).length with hk | hk
    · rw [List.getElem?_append_left (by simpa using hk), List.getElem?_map,
        List.getElem?_eq_getElem hk]
      simp
    · -- a shared group
      rw [List.getElem?_append_right (by simpa using hk), List.getElem?_replicate,
        List.getElem?_eq_none hk]
      split <;> simp

/-- **The groups that are loaded on demand** are those of the targets of deferred imports that are no
entries. -/
theorem isAsync_iff (hg : g.WellFormed) :
    IsAsync g.split i m ↔ m ∈ asyncRoots g ∧ groupOf g m = some i := by
  have hnodup : (asyncRoots g).Nodup := hg.rootsNodup.filter _
  -- the place of such a root is its place behind the entries
  have hplace : m ∈ asyncRoots g →
      groupOf g m = some (g.entries.length + (asyncRoots g).idxOf m) := by
    intro hm
    obtain ⟨hdeferred, hentry⟩ := mem_asyncRoots.mp hm
    rw [groupOf_root hg (mem_roots.mpr (Or.inr hdeferred)), roots_eq hg,
      List.idxOf_append_of_notMem hentry, List.length_map]
  rw [isAsync_iff_getElem? hg]
  constructor
  · rintro ⟨hi, hk⟩
    have hm := List.mem_of_getElem? hk
    obtain ⟨hlt, hget⟩ := List.getElem?_eq_some_iff.mp hk
    refine ⟨hm, ?_⟩
    rw [hplace hm, ← hget, hnodup.idxOf_getElem _ hlt]
    congr 1
    omega
  · rintro ⟨hm, hgroup⟩
    obtain rfl := Option.some.inj ((hplace hm).symm.trans hgroup)
    refine ⟨Nat.le_add_right _ _, ?_⟩
    rw [Nat.add_sub_cancel_left]
    exact List.getElem?_idxOf hm

end Plan

end AssetBundler
