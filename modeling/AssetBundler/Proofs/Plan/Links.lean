/-
  AssetBundler.Proofs.Plan.Links
  ────────────────────────────────
  **LINKS BETWEEN GROUPS.**

  A group loads another when one of its modules loads a module of the other.
  The set of roots of a group can only grow along such a link, and when it
  stays the same, the link leads from the group of a root to a shared one:
  the root of the group that a link leads to is the module that is loaded, and
  it reaches all modules with its root set.  So links between groups never
  close a circle, and follow the links between modules both ways:

    • `Plan.not_transGen_groupLoads` — no group loads itself,
    • `Plan.reaches_of_groupPath`, `Plan.exists_groupPath` — what the group
      of a root loads is what the root reaches.
-/
import AssetBundler.Proofs.Plan.Groups

namespace AssetBundler.Plan

open Relation

variable {g : ModuleGraph} {m target root : Identity} {i j : Nat}

/-! ## §1. The roots of a group. -/

/-- The set of roots of a group; it reaches each of its modules. -/
def groupSet (g : ModuleGraph) (i : Nat) : List Nat :=
  ((roots g).map (rootSetOf g) ++ sharedSets g).getD i []

theorem groupSet_of_root (h : (roots g)[i]? = some root) : groupSet g i = rootSetOf g root := by
  have hlt : i < ((roots g).map (rootSetOf g)).length := by
    rw [List.length_map]
    exact (List.getElem?_eq_some_iff.mp h).1
  rw [groupSet, List.getD_eq_getElem?_getD, List.getElem?_append_left hlt, List.getElem?_map, h]
  rfl

theorem groupSet_of_shared {k : Nat} {set : List Nat} (h : (sharedSets g)[k]? = some set) :
    groupSet g ((roots g).length + k) = set := by
  rw [groupSet, List.getD_eq_getElem?_getD, List.getElem?_append_right (by simp),
    List.length_map, Nat.add_sub_cancel_left, h]
  rfl

namespace Member

/-- The roots of a group reach its modules. -/
theorem groupSet_sublist (hg : g.WellFormed) (h : Member g m i) :
    (groupSet g i).Sublist (rootSetOf g m) := by
  cases h with
  | root hroot => rw [groupSet_of_root (List.getElem?_idxOf hroot)]
  | only _ hset =>
      -- whatever reaches the root reaches the module
      obtain ⟨root, hroot, hpath⟩ := (mem_rootSetOf hg).mp (hset ▸ List.mem_singleton.mpr rfl)
      rw [groupSet_of_root hroot]
      exact rootSetOf_sublist hg hpath
  | shared _ _ hk => rw [groupSet_of_shared hk]

theorem rootSetOf_ne_nil (hg : g.WellFormed) (h : Member g m i) : rootSetOf g m ≠ [] := by
  cases h with
  | root hroot => exact List.ne_nil_of_mem (idxOf_mem_rootSetOf hg hroot)
  | only _ hset => simp [hset]
  | shared _ _ hk =>
      obtain ⟨m', hm'⟩ := (sorted_sharedOf g).keys _ (List.mem_of_getElem? hk)
      exact (holding_sharedOf.mp hm').2.2

/-- A module that the root of a group alone reaches is in it. -/
theorem eq_of_rootSetOf (hg : g.WellFormed) (h : Member g m i) (hset : rootSetOf g m = [j]) :
    i = j := by
  cases h with
  | root hroot => exact List.mem_singleton.mp (hset ▸ idxOf_mem_rootSetOf hg hroot)
  | only _ hset' => exact List.singleton_inj.mp (hset'.symm.trans hset)
  | shared _ hmany => exact absurd hset (hmany j)

end Member

/-! ## §2. Links. -/

/-- A module of the one group loads a module of the other. -/
def GroupLoads (g : ModuleGraph) (i j : Nat) : Prop :=
  i ≠ j ∧ ∃ m target, groupOf g m = some i ∧ groupOf g target = some j ∧ g.Loads m target

/-- How a link enters a group: to its root, or to a module of its root set. -/
theorem Member.of_groupLoads (hg : g.WellFormed) (hne : i ≠ j) (hi : Member g m i)
    (hj : Member g target j) (hlink : g.Loads m target) :
    (target ∈ roots g ∧ j = (roots g).idxOf target)
      ∨ ∃ k, j = (roots g).length + k ∧ (sharedSets g)[k]? = some (rootSetOf g target) := by
  cases hj with
  | root hroot => exact Or.inl ⟨hroot, rfl⟩
  | only hroot hset =>
      -- the module that loads it would have no other root, and the same group
      have hgrow := rootSetOf_sublist hg (ReflTransGen.single hlink)
      rw [hset] at hgrow
      rcases List.sublist_singleton.mp hgrow with hnil | hsame
      · exact absurd hnil (hi.rootSetOf_ne_nil hg)
      · exact absurd (hi.eq_of_rootSetOf hg hsame) hne
  | shared _ _ hk => exact Or.inr ⟨_, rfl, hk⟩

theorem groupSet_of_groupLoads (hg : g.WellFormed) (hne : i ≠ j) (hi : Member g m i)
    (hj : Member g target j) (hlink : g.Loads m target) : groupSet g j = rootSetOf g target := by
  rcases Member.of_groupLoads hg hne hi hj hlink with ⟨hroot, rfl⟩ | ⟨k, rfl, hk⟩
  · exact groupSet_of_root (List.getElem?_idxOf hroot)
  · exact groupSet_of_shared hk

/-- **The set of a group grows along links.** -/
theorem GroupLoads.groupSet_sublist (hg : g.WellFormed) (h : GroupLoads g i j) :
    (groupSet g i).Sublist (groupSet g j) := by
  obtain ⟨hne, m, target, hi, hj, hlink⟩ := h
  have hi := (groupOf_eq_some_iff.mp hi).2
  have hj := (groupOf_eq_some_iff.mp hj).2
  rw [groupSet_of_groupLoads hg hne hi hj hlink]
  exact (hi.groupSet_sublist hg).trans (rootSetOf_sublist hg (ReflTransGen.single hlink))

/-! ## §3. No circles. -/

/-- Larger for larger sets of roots, and for the same set larger for shared groups. -/
def rank (g : ModuleGraph) (i : Nat) : Nat :=
  2 * (groupSet g i).length + if i < (roots g).length then 0 else 1

/-- **Links lead to groups of higher rank.** -/
theorem GroupLoads.rank_lt (hg : g.WellFormed) (h : GroupLoads g i j) : rank g i < rank g j := by
  have hgrow := h.groupSet_sublist hg
  obtain ⟨hne, m, target, hi, hj, hlink⟩ := h
  have hi := (groupOf_eq_some_iff.mp hi).2
  have hj := (groupOf_eq_some_iff.mp hj).2
  have hset := groupSet_of_groupLoads hg hne hi hj hlink
  unfold rank
  rcases hgrow.length_le.lt_or_eq with hlt | heq
  · split <;> split <;> omega
  · -- all modules concerned have the root set of the two groups
    have hsame : groupSet g i = groupSet g j := hgrow.eq_of_length heq
    have hm : rootSetOf g m = rootSetOf g target :=
      (rootSetOf_sublist hg (ReflTransGen.single hlink)).antisymm
        (hset ▸ hsame ▸ hi.groupSet_sublist hg)
    rcases Member.of_groupLoads hg hne hi hj hlink with ⟨hroot, rfl⟩ | ⟨k, rfl, hk⟩
    · -- the target is a root that reaches the module that loads it
      obtain ⟨root, hroot', hpath⟩ :=
        (mem_rootSetOf hg).mp (hm ▸ idxOf_mem_rootSetOf hg hroot)
      obtain rfl : target = root :=
        Option.some.inj ((List.getElem?_idxOf hroot).symm.trans hroot')
      exact absurd (TransGen.tail' hpath hlink) hg.not_transGen_loads
    · -- two shared groups with the same set would be one, so the link comes from a root's group
      have hfirst : i < (roots g).length := by
        cases hi with
        | root hroot => exact List.idxOf_lt_length_of_mem hroot
        | only _ honly => exact lt_length_of_mem_rootSetOf (honly ▸ List.mem_singleton.mpr rfl)
        | @shared k' _ _ hk' =>
            obtain rfl := sharedSets_inj hk (hm ▸ hk')
            exact absurd rfl hne
      rw [if_pos hfirst, if_neg (by omega), heq]
      omega

theorem rank_lt_of_transGen (hg : g.WellFormed) (h : TransGen (GroupLoads g) i j) :
    rank g i < rank g j := by
  induction h with
  | single hlink => exact hlink.rank_lt hg
  | tail _ hlink ih => exact ih.trans (hlink.rank_lt hg)

/-- **NO GROUP LOADS ITSELF**, directly or through others. -/
theorem not_transGen_groupLoads (hg : g.WellFormed) : ¬ TransGen (GroupLoads g) i i :=
  fun h => Nat.lt_irrefl _ (rank_lt_of_transGen hg h)

/-! ## §4. Groups and what roots reach. -/

/-- The group of a root is its own. -/
theorem groupOf_root (hg : g.WellFormed) (h : m ∈ roots g) :
    groupOf g m = some ((roots g).idxOf m) :=
  groupOf_eq_some_iff.mpr ⟨mem_order_of_mem_roots hg h, Member.root h⟩

/-- The root of a group reaches the modules of every group that this loads. -/
theorem reaches_of_groupPath_at {k : Nat} (hg : g.WellFormed) (hroot : (roots g)[k]? = some root)
    (hpath : ReflTransGen (GroupLoads g) k i) (hm : groupOf g m = some i) :
    ReflTransGen g.Loads root m := by
  -- the root is in the set of its own group, and sets grow along links
  have hmem : k ∈ groupSet g i := by
    clear hm
    induction hpath with
    | refl =>
        rw [groupSet_of_root hroot]
        exact (mem_rootSetOf hg).mpr ⟨root, hroot, ReflTransGen.refl⟩
    | tail _ hlink ih => exact (hlink.groupSet_sublist hg).subset ih
  have hmember := (groupOf_eq_some_iff.mp hm).2
  obtain ⟨root', hroot', hreach⟩ :=
    (mem_rootSetOf hg).mp ((hmember.groupSet_sublist hg).subset hmem)
  obtain rfl : root = root' := Option.some.inj (hroot.symm.trans hroot')
  exact hreach

/-- The root reaches the modules of every group that its own loads. -/
theorem reaches_of_groupPath (hg : g.WellFormed) (hroot : root ∈ roots g)
    (hpath : ReflTransGen (GroupLoads g) ((roots g).idxOf root) i) (hm : groupOf g m = some i) :
    ReflTransGen g.Loads root m :=
  reaches_of_groupPath_at hg (List.getElem?_idxOf hroot) hpath hm

/-- What a module loads is in its own group or in one that its group loads. -/
theorem exists_groupPath_of_loads (hg : g.WellFormed) (hi : groupOf g m = some i)
    (hlink : g.Loads m target) :
    ∃ j, groupOf g target = some j ∧ ReflTransGen (GroupLoads g) i j := by
  have hset : rootSetOf g target ≠ [] := by
    intro hnil
    have hgrow := rootSetOf_sublist hg (ReflTransGen.single hlink)
    rw [hnil, List.sublist_nil] at hgrow
    exact (groupOf_eq_some_iff.mp hi).2.rootSetOf_ne_nil hg hgrow
  obtain ⟨j, hj⟩ := exists_groupOf (hg.mem_order_of_loads hlink) hset
  refine ⟨j, hj, ?_⟩
  -- a link within a group is no link between groups
  by_cases hsame : i = j
  · exact hsame ▸ ReflTransGen.refl
  · exact ReflTransGen.single ⟨hsame, m, target, hi, hj, hlink⟩

/-- What a module reaches is in a group that its own loads. -/
theorem exists_groupPath_at (hg : g.WellFormed) (hi : groupOf g m = some i)
    (h : ReflTransGen g.Loads m target) :
    ∃ j, groupOf g target = some j ∧ ReflTransGen (GroupLoads g) i j := by
  induction h with
  | refl => exact ⟨i, hi, ReflTransGen.refl⟩
  | tail _ hlink ih =>
      obtain ⟨j, hj, hpath⟩ := ih
      obtain ⟨k, hk, hstep⟩ := exists_groupPath_of_loads hg hj hlink
      exact ⟨k, hk, hpath.trans hstep⟩

/-- What the root reaches is in a group that its own loads. -/
theorem exists_groupPath (hg : g.WellFormed) (hroot : root ∈ roots g)
    (h : ReflTransGen g.Loads root m) :
    ∃ i, groupOf g m = some i ∧ ReflTransGen (GroupLoads g) ((roots g).idxOf root) i :=
  exists_groupPath_at hg (groupOf_root hg hroot) h

/-! ## §5. The links that a plan records. -/

theorem mem_insertNumber {n k : Nat} : ∀ {ns : List Nat},
    k ∈ insertNumber n ns ↔ k = n ∨ k ∈ ns
  | [] => by simp [insertNumber]
  | a :: ns => by
      unfold insertNumber
      split
      next => simp
      next =>
        split
        next heq => simp [heq]
        next =>
          rw [List.mem_cons, mem_insertNumber, List.mem_cons]
          tauto

/-- What a fold collects, when a step adds what belongs to its element. -/
theorem mem_foldl_iff {α : Type} {step : List Nat → α → List Nat} {adds : α → Prop} {k : Nat}
    (hstep : ∀ found x, k ∈ step found x ↔ k ∈ found ∨ adds x) :
    ∀ (xs : List α) (found : List Nat), k ∈ xs.foldl step found ↔ k ∈ found ∨ ∃ x ∈ xs, adds x
  | [], found => by simp
  | x :: xs, found => by
      rw [List.foldl_cons, mem_foldl_iff hstep xs, hstep, or_assoc]
      simp

/-- The groups found, with the group of the target of a dependency unless it is the group itself. -/
def addDependency (index : GroupIndex) (group : Nat) (found : List Nat) (d : Dependency) :
    List Nat :=
  match index.lookup d.target with
  | some other => if other = group then found else insertNumber other found
  | none => found

theorem directDependencies_eq (index : GroupIndex) (group : Nat) :
    directDependencies g index group
      = (g.records.filter fun r => index.lookup r.identity == some group).foldl (fun found r =>
          r.syncDependencies.foldl (addDependency index group) found) [] :=
  rfl

theorem mem_addDependency {index : GroupIndex} {found : List Nat} {d : Dependency} :
    j ∈ addDependency index i found d
      ↔ j ∈ found ∨ (i ≠ j ∧ index.lookup d.target = some j) := by
  unfold addDependency
  split
  next other hother =>
    rw [hother, Option.some.injEq]
    split
    next hsame =>
      refine ⟨Or.inl, ?_⟩
      rintro (hj | ⟨hne, rfl⟩)
      · exact hj
      · exact absurd hsame.symm hne
    next hother' =>
      rw [mem_insertNumber, or_comm]
      refine or_congr_right ⟨?_, fun h => h.2.symm⟩
      rintro rfl
      exact ⟨Ne.symm hother', rfl⟩
  next hnone => simp [hnone]

/-- **The direct dependencies of a group are the groups that it loads.** -/
theorem mem_directDependencies (hg : g.WellFormed) :
    j ∈ directDependencies g (grouping g).2 i ↔ GroupLoads g i j := by
  have hdependency : ∀ (found : List Nat) (d : Dependency),
      j ∈ addDependency (grouping g).2 i found d
        ↔ j ∈ found ∨ (i ≠ j ∧ groupOf g d.target = some j) :=
    fun _ _ => mem_addDependency
  have hrecord : ∀ (found : List Nat) (r : ModuleRecord),
      j ∈ r.syncDependencies.foldl (addDependency (grouping g).2 i) found
        ↔ j ∈ found ∨ ∃ d ∈ r.syncDependencies, i ≠ j ∧ groupOf g d.target = some j :=
    fun found r => mem_foldl_iff hdependency r.syncDependencies found
  rw [directDependencies_eq, mem_foldl_iff hrecord]
  constructor
  · rintro (h | ⟨r, hr, d, hd, hne, hj⟩)
    · cases h
    · obtain ⟨hr, hi⟩ := List.mem_filter.mp hr
      exact ⟨hne, r.identity, d.target, eq_of_beq hi, hj, r, ModuleGraph.get?_of_mem hg.nodup hr,
        d, hd, rfl⟩
  · rintro ⟨hne, m, target, hi, hj, r, hget, d, hd, rfl⟩
    obtain ⟨hr, rfl⟩ := ModuleGraph.mem_of_get? hget
    exact Or.inr ⟨r, List.mem_filter.mpr ⟨hr, beq_iff_eq.mpr hi⟩, d, hd, hne, hj⟩

end AssetBundler.Plan
