/-
  AssetBundler.Proofs.Plan.Groups
  ────────────────────────────────
  **THE GROUP OF A MODULE.**

  A module is in the group of the root that it is, or of the only root that
  reaches it, or else in the group shared by the modules of its root set.
  Every group therefore has a set of roots of its own, which reach all of its
  modules:

    • `Plan.sharedSets_pairwise` — no set is shared twice,
    • `Plan.groupOf_eq_some_iff` — the group of a module,
    • `Plan.exists_groupOf` — every module that a root reaches has one.
-/
import AssetBundler.Proofs.Plan.Roots

namespace AssetBundler.Plan

open Relation

variable {g : ModuleGraph} {m : Identity}

/-! ## §1. Modules by sets. -/

/-- The order of sets is the lexicographic one. -/
theorem setBefore_iff : ∀ {s t : List Nat}, setBefore s t = true ↔ s < t
  | _, [] => by simp [setBefore]
  | [], _ :: _ => by simp [setBefore]
  | a :: as, b :: bs => by
      simp [setBefore, setBefore_iff, List.cons_lt_cons_iff]

/-- The modules of a set. -/
def Holding (shared : SharedModules) (set : List Nat) (m : Identity) : Prop :=
  ∃ ms, (set, ms) ∈ shared ∧ m ∈ ms

theorem holding_cons {entry : List Nat × List Identity} {rest : SharedModules} {set : List Nat} :
    Holding (entry :: rest) set m ↔ (set = entry.1 ∧ m ∈ entry.2) ∨ Holding rest set m := by
  obtain ⟨s, ms⟩ := entry
  constructor
  · rintro ⟨ms', hmem, hm⟩
    rcases List.mem_cons.mp hmem with heq | hmem
    · obtain ⟨rfl, rfl⟩ := Prod.mk.inj heq
      exact Or.inl ⟨rfl, hm⟩
    · exact Or.inr ⟨ms', hmem, hm⟩
  · rintro (⟨rfl, hm⟩ | ⟨ms', hmem, hm⟩)
    · exact ⟨ms, List.mem_cons_self, hm⟩
    · exact ⟨ms', List.mem_cons_of_mem _ hmem, hm⟩

theorem holding_addShared {set set' : List Nat} {m' : Identity} : ∀ {shared : SharedModules},
    Holding (addShared set m shared) set' m' ↔ (set' = set ∧ m' = m) ∨ Holding shared set' m'
  | [] => by simp [addShared, Holding]
  | (s, ms) :: rest => by
      unfold addShared
      split
      next heq =>
        obtain rfl := eq_of_beq heq
        rw [holding_cons, holding_cons, List.mem_append, List.mem_singleton]
        tauto
      next =>
        split
        next => rw [holding_cons, List.mem_singleton]
        next =>
          rw [holding_cons, holding_cons, holding_addShared]
          tauto

theorem mem_keys_addShared {set set' : List Nat} : ∀ {shared : SharedModules},
    set' ∈ (addShared set m shared).map (·.1) ↔ set' = set ∨ set' ∈ shared.map (·.1)
  | [] => by simp [addShared]
  | (s, ms) :: rest => by
      unfold addShared
      split
      next heq =>
        obtain rfl := eq_of_beq heq
        simp
      next =>
        split
        next => simp
        next =>
          simp only [List.map_cons, List.mem_cons, mem_keys_addShared]
          tauto

/-- Adding a module keeps the sets in order. -/
theorem pairwise_addShared {set : List Nat} : ∀ {shared : SharedModules},
    (shared.map (·.1)).Pairwise (· < ·) → ((addShared set m shared).map (·.1)).Pairwise (· < ·)
  | [], _ => by simp [addShared]
  | (s, ms) :: rest, h => by
      obtain ⟨hfirst, hrest⟩ := List.pairwise_cons.mp h
      unfold addShared
      split
      next => exact List.pairwise_cons.mpr ⟨hfirst, hrest⟩
      next hne =>
        split
        -- the new set comes first, and before all that follow
        next hbefore =>
          rw [setBefore_iff] at hbefore
          refine List.pairwise_cons.mpr ⟨fun t ht => ?_, h⟩
          rcases List.mem_cons.mp ht with rfl | ht
          · exact hbefore
          · exact hbefore.trans (hfirst t ht)
        -- neither equal to the first set nor before it: the new set comes later
        next hbefore =>
          rw [setBefore_iff] at hbefore
          refine List.pairwise_cons.mpr ⟨fun t ht => ?_, pairwise_addShared hrest⟩
          rcases mem_keys_addShared.mp ht with rfl | ht
          · exact lt_of_le_of_ne (not_lt.mp hbefore) (by simpa using hne)
          · exact hfirst t ht

/-- The modules of a list by some sets, with every set at most once. -/
structure Sorted (setOf : Identity → List Nat) (ms : List Identity) (shared : SharedModules) :
    Prop where
  pairwise : (shared.map (·.1)).Pairwise (· < ·)
  holding : ∀ set m, Holding shared set m ↔ m ∈ ms ∧ setOf m = set ∧ set ≠ []
  keys : ∀ set ∈ shared.map (·.1), ∃ m, Holding shared set m

theorem foldl_addShared {setOf : Identity → List Nat} : ∀ (ms : List Identity)
    {done : List Identity} {shared : SharedModules}, Sorted setOf done shared →
      Sorted setOf (done ++ ms) (ms.foldl (fun shared m => match setOf m with
        | [] => shared
        | set => addShared set m shared) shared)
  | [], done, shared, h => by simpa using h
  | a :: ms, done, shared, h => by
      -- one step takes the module over to those that are done
      rw [List.append_cons, List.foldl_cons]
      refine foldl_addShared ms ?_
      split
      next hset =>
        refine ⟨h.pairwise, fun set m => ?_, h.keys⟩
        rw [h.holding, List.mem_append, List.mem_singleton]
        constructor
        · rintro ⟨hm, hrest⟩
          exact ⟨Or.inl hm, hrest⟩
        · rintro ⟨hm | rfl, heq, hne⟩
          · exact ⟨hm, heq, hne⟩
          · exact absurd (heq.symm.trans hset) hne
      next hset =>
        refine ⟨pairwise_addShared h.pairwise, fun set m => ?_, fun set hmem => ?_⟩
        · rw [holding_addShared, h.holding, List.mem_append, List.mem_singleton]
          constructor
          · rintro (⟨rfl, rfl⟩ | ⟨hm, hrest⟩)
            · exact ⟨Or.inr rfl, rfl, hset⟩
            · exact ⟨Or.inl hm, hrest⟩
          · rintro ⟨hm | rfl, heq, hne⟩
            · exact Or.inr ⟨hm, heq, hne⟩
            · exact Or.inl ⟨heq.symm, rfl⟩
        · rcases mem_keys_addShared.mp hmem with rfl | hmem
          · exact ⟨a, holding_addShared.mpr (Or.inl ⟨rfl, rfl⟩)⟩
          · obtain ⟨m, hm⟩ := h.keys set hmem
            exact ⟨m, holding_addShared.mpr (Or.inr hm)⟩

/-! ## §2. The groups of shared modules. -/

/-- The modules of a graph without a group of their own root, by their sets. -/
def sharedOf (g : ModuleGraph) : SharedModules :=
  sharedModules g (roots g) ((roots g).map (reachedFrom g))

/-- The root sets with a group of their own. -/
def sharedSets (g : ModuleGraph) : List (List Nat) :=
  (sharedOf g).map (·.1)

/-- The module is a root, or only one root reaches it. -/
def own? (g : ModuleGraph) (m : Identity) : Option Nat :=
  ownGroup? (roots g) ((roots g).map (reachedFrom g)) m

theorem sorted_sharedOf (g : ModuleGraph) :
    Sorted (rootSetOf g) (g.order.filter fun m => (own? g m).isNone) (sharedOf g) :=
  @foldl_addShared (rootSetOf g) _ [] [] ⟨List.Pairwise.nil, by simp [Holding], by simp⟩

theorem sharedSets_pairwise (g : ModuleGraph) : (sharedSets g).Pairwise (· < ·) :=
  (sorted_sharedOf g).pairwise

/-- A set has one place. -/
theorem sharedSets_inj {set : List Nat} {k k' : Nat} (h : (sharedSets g)[k]? = some set)
    (h' : (sharedSets g)[k']? = some set) : k = k' := by
  have hnodup : (sharedSets g).Nodup := (sharedSets_pairwise g).imp ne_of_lt
  exact (List.getElem?_inj (List.getElem?_eq_some_iff.mp h).1 hnodup).mp (h.trans h'.symm)

theorem holding_sharedOf {set : List Nat} :
    Holding (sharedOf g) set m
      ↔ (m ∈ g.order ∧ own? g m = none) ∧ rootSetOf g m = set ∧ set ≠ [] := by
  rw [(sorted_sharedOf g).holding, List.mem_filter, Option.isNone_iff_eq_none]

theorem mem_indexShared {i : Nat} : ∀ {shared : SharedModules} {first : Nat},
    (m, i) ∈ indexShared first shared
      ↔ ∃ k set ms, shared[k]? = some (set, ms) ∧ m ∈ ms ∧ i = first + k
  | [], first => by simp [indexShared]
  | (s, ms) :: rest, first => by
      rw [indexShared, List.mem_append, mem_indexShared]
      constructor
      · rintro (h | ⟨k, set, ms', hk, hm, rfl⟩)
        · obtain ⟨m', hm, heq⟩ := List.mem_map.mp h
          obtain ⟨rfl, rfl⟩ := Prod.mk.inj heq
          exact ⟨0, s, ms, rfl, hm, rfl⟩
        · exact ⟨k + 1, set, ms', hk, hm, by omega⟩
      · rintro ⟨k, set, ms', hk, hm, rfl⟩
        -- the set stands first, or one place earlier among the others
        cases k with
        | zero =>
            obtain ⟨rfl, rfl⟩ := Prod.mk.inj (Option.some.inj hk)
            exact Or.inl (List.mem_map.mpr ⟨m, hm, rfl⟩)
        | succ k => exact Or.inr ⟨k, set, ms', hk, hm, by omega⟩

/-- The group of a shared module has the place of its set. -/
theorem mem_indexShared_sharedOf {first i : Nat} :
    (m, i) ∈ indexShared first (sharedOf g)
      ↔ (m ∈ g.order ∧ own? g m = none)
          ∧ ∃ k, (sharedSets g)[k]? = some (rootSetOf g m) ∧ i = first + k := by
  have hsorted := sorted_sharedOf g
  rw [mem_indexShared]
  constructor
  · rintro ⟨k, set, ms, hk, hm, rfl⟩
    have hholding := holding_sharedOf.mp ⟨ms, List.mem_of_getElem? hk, hm⟩
    refine ⟨hholding.1, k, ?_, rfl⟩
    rw [sharedSets, List.getElem?_map, hk, hholding.2.1]
    rfl
  · rintro ⟨hm, k, hk, rfl⟩
    rw [sharedSets, List.getElem?_map] at hk
    obtain ⟨⟨set, ms⟩, hentry, hset⟩ := Option.map_eq_some_iff.mp hk
    have hmem := List.mem_of_getElem? hentry
    -- no set stands twice, so the modules of the set are those of this entry
    obtain ⟨m', hm'⟩ := hsorted.keys set (List.mem_map.mpr ⟨_, hmem, rfl⟩)
    obtain ⟨ms', hmem', hms'⟩ :=
      holding_sharedOf.mpr ⟨hm, hset.symm, (holding_sharedOf.mp hm').2.2⟩
    have hnodup : ((sharedOf g).map (·.1)).Nodup := hsorted.pairwise.imp ne_of_lt
    obtain ⟨_, rfl⟩ := Prod.mk.inj (List.inj_on_of_nodup_map hnodup hmem hmem' rfl)
    exact ⟨k, set, ms, hentry, hms', rfl⟩

/-! ## §3. The group of a module. -/

/-- The group of a module. -/
def groupOf (g : ModuleGraph) (m : Identity) : Option Nat :=
  (grouping g).2.lookup m

/-- How a module comes to its group. -/
inductive Member (g : ModuleGraph) (m : Identity) : Nat → Prop where
  /-- It is the root. -/
  | root : m ∈ roots g → Member g m ((roots g).idxOf m)
  /-- The root alone reaches it. -/
  | only {i : Nat} : m ∉ roots g → rootSetOf g m = [i] → Member g m i
  /-- The group is that of its root set. -/
  | shared {k : Nat} : m ∉ roots g → (∀ i, rootSetOf g m ≠ [i]) →
      (sharedSets g)[k]? = some (rootSetOf g m) → Member g m ((roots g).length + k)

theorem own?_of_mem (h : m ∈ roots g) : own? g m = some ((roots g).idxOf m) := by
  obtain ⟨i, hi⟩ := Option.isSome_iff_exists.mp (List.isSome_idxOf?.mpr h)
  rw [List.idxOf_eq_getD_idxOf?, hi]
  simp only [own?, ownGroup?, hi, Option.getD_some]

theorem own?_of_notMem (h : m ∉ roots g) :
    own? g m = match rootSetOf g m with
      | [only] => some only
      | _ => none := by
  simp only [own?, ownGroup?, List.idxOf?_eq_none_iff.mpr h]
  rfl

theorem own?_eq_none_iff : own? g m = none ↔ m ∉ roots g ∧ ∀ i, rootSetOf g m ≠ [i] := by
  by_cases h : m ∈ roots g
  · simp [own?_of_mem h, h]
  · rw [own?_of_notMem h]
    split <;> simp_all

theorem member_of_own? {i : Nat} (h : own? g m = some i) : Member g m i := by
  by_cases hm : m ∈ roots g
  · rw [own?_of_mem hm] at h
    exact Option.some.inj h ▸ Member.root hm
  · rw [own?_of_notMem hm] at h
    split at h
    next only hset => exact Option.some.inj h ▸ Member.only hm hset
    next => cases h

theorem mem_grouping {i : Nat} : (m, i) ∈ (grouping g).2 ↔ m ∈ g.order ∧ Member g m i := by
  have hparts : (grouping g).2 = (g.order.filterMap fun m => (own? g m).map fun i => (m, i))
      ++ indexShared (rootGroups g).length (sharedOf g) := rfl
  have hown : (m, i) ∈ (g.order.filterMap fun m => (own? g m).map fun i => (m, i))
      ↔ m ∈ g.order ∧ own? g m = some i := by
    simp [List.mem_filterMap]
  rw [hparts, List.mem_append, hown, mem_indexShared_sharedOf, length_rootGroups]
  constructor
  · rintro (⟨hm, hi⟩ | ⟨⟨hm, hnone⟩, k, hk, rfl⟩)
    · exact ⟨hm, member_of_own? hi⟩
    · obtain ⟨hroot, hset⟩ := own?_eq_none_iff.mp hnone
      exact ⟨hm, Member.shared hroot hset hk⟩
  · rintro ⟨hm, hmember⟩
    cases hmember with
    | root hroot => exact Or.inl ⟨hm, own?_of_mem hroot⟩
    | only hroot hset => exact Or.inl ⟨hm, by rw [own?_of_notMem hroot, hset]⟩
    | shared hroot hset hk => exact Or.inr ⟨⟨hm, own?_eq_none_iff.mpr ⟨hroot, hset⟩⟩, _, hk, rfl⟩

/-- A module has one group at most. -/
theorem Member.unique {i j : Nat} (hi : Member g m i) (hj : Member g m j) : i = j := by
  cases hi with
  | root hroot =>
      cases hj with
      | root => rfl
      | only hroot' => exact absurd hroot hroot'
      | shared hroot' => exact absurd hroot hroot'
  | only hroot hset =>
      cases hj with
      | root hroot' => exact absurd hroot' hroot
      | only _ hset' => exact List.singleton_inj.mp (hset.symm.trans hset')
      | shared _ hset' => exact absurd hset (hset' _)
  | shared hroot hset hk =>
      cases hj with
      | root hroot' => exact absurd hroot' hroot
      | only _ hset' => exact absurd hset' (hset _)
      | shared _ _ hk' => rw [sharedSets_inj hk hk']

/-- **THE GROUP OF A MODULE.** -/
theorem groupOf_eq_some_iff {i : Nat} : groupOf g m = some i ↔ m ∈ g.order ∧ Member g m i := by
  have hfound : ∀ {j : Nat}, groupOf g m = some j → (m, j) ∈ (grouping g).2 := by
    intro j hj
    obtain ⟨before, after, heq, _⟩ := List.lookup_eq_some_iff.mp hj
    rw [heq]
    exact List.mem_append_right _ List.mem_cons_self
  -- the list may be searched from either end, since a module has one group in it
  constructor
  · exact fun h => mem_grouping.mp (hfound h)
  · intro h
    obtain ⟨j, hj⟩ := Option.isSome_iff_exists.mp
      (List.lookup_isSome_iff.mpr ⟨(m, i), mem_grouping.mpr h, beq_self_eq_true m⟩)
    rw [(mem_grouping.mp (hfound hj)).2.unique h.2] at hj
    exact hj

/-- Every module that a root reaches has a group. -/
theorem exists_groupOf (hm : m ∈ g.order) (hset : rootSetOf g m ≠ []) :
    ∃ i, groupOf g m = some i := by
  cases hown : own? g m with
  | some i => exact ⟨i, groupOf_eq_some_iff.mpr ⟨hm, member_of_own? hown⟩⟩
  | none =>
      obtain ⟨hroot, hmany⟩ := own?_eq_none_iff.mp hown
      obtain ⟨ms, hmem, _⟩ := holding_sharedOf.mpr ⟨⟨hm, hown⟩, rfl, hset⟩
      obtain ⟨k, hk⟩ := List.mem_iff_getElem?.mp hmem
      have hplace : (sharedSets g)[k]? = some (rootSetOf g m) := by
        rw [sharedSets, List.getElem?_map, hk]
        rfl
      exact ⟨_, groupOf_eq_some_iff.mpr ⟨hm, Member.shared hroot hmany hplace⟩⟩

end AssetBundler.Plan
