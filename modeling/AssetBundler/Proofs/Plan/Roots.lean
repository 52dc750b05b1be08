/-
  AssetBundler.Proofs.Plan.Roots
  ────────────────────────────────
  **ROOTS AND WHAT THEY REACH.**

  The roots of groups are the entries and the targets of deferred imports.  A
  round of the search adds the modules one link further away; as a link leads
  to an earlier place in the graph, there are rounds enough, and a root
  reaches exactly what a chain of links leads to:

    • `Plan.mem_reachedFrom` — the search is reachability,
    • `Plan.mem_rootSetOf` — the root set of a module,
    • `Plan.rootSetOf_sublist` — root sets grow along links.
-/
import AssetBundler.Build.Plan
import AssetBundler.Proofs.Build.Graph

namespace AssetBundler.Plan

open Relation

variable {g : ModuleGraph} {m target root : Identity}

/-! ## §1. The roots. -/

/-- The roots of the groups of a graph. -/
def roots (g : ModuleGraph) : List Identity :=
  rootsOf (rootGroups g)

theorem rootsOf_addGroup (groups : List ChunkGroup) (base : String) (role : ChunkRole)
    (m : Identity) : rootsOf (addGroup groups base role (some m)) = rootsOf groups ++ [m] := by
  simp [rootsOf, addGroup]

theorem length_addGroup (groups : List ChunkGroup) (base : String) (role : ChunkRole)
    (root? : Option Identity) :
    (addGroup groups base role root?).length = groups.length + 1 := by
  simp [addGroup]

/-- A group with a root keeps the groups in step with the roots. -/
theorem length_rootsOf_addGroup {groups : List ChunkGroup} (base : String) (role : ChunkRole)
    (m : Identity) (h : groups.length = (rootsOf groups).length) :
    (addGroup groups base role (some m)).length
      = (rootsOf (addGroup groups base role (some m))).length := by
  rw [length_addGroup, rootsOf_addGroup, List.length_append, h]
  rfl

theorem foldl_addGroup_entries (entries : List (String × Identity)) :
    ∀ (groups : List ChunkGroup), groups.length = (rootsOf groups).length →
      let all := entries.foldl (fun groups (name, m) => addGroup groups name .entry (some m)) groups
      all.length = (rootsOf all).length ∧ rootsOf all = rootsOf groups ++ entries.map (·.2) := by
  induction entries with
  | nil => intro groups h; simpa using h
  | cons e entries ih =>
      intro groups h
      have hnext := ih (addGroup groups e.1 .entry (some e.2))
        (length_rootsOf_addGroup e.1 .entry e.2 h)
      rw [rootsOf_addGroup, List.append_assoc] at hnext
      exact hnext

theorem foldl_addGroup_deferred (deferred : List Identity) :
    ∀ (groups : List ChunkGroup), groups.length = (rootsOf groups).length →
      let all := deferred.foldl (fun groups m =>
        if (rootsOf groups).contains m then groups
        else addGroup groups m.stem .async (some m)) groups
      all.length = (rootsOf all).length
        ∧ ∀ m, m ∈ rootsOf all ↔ m ∈ rootsOf groups ∨ m ∈ deferred := by
  induction deferred with
  | nil => intro groups h; simpa using h
  | cons a deferred ih =>
      intro groups h
      simp only [List.foldl_cons]
      split
      next ha =>
        obtain ⟨hlength, hmem⟩ := ih groups h
        refine ⟨hlength, fun m => ?_⟩
        rw [hmem m, List.mem_cons]
        constructor
        · exact Or.imp_right Or.inr
        · rintro (hm | rfl | hm)
          · exact Or.inl hm
          · exact Or.inl (List.contains_iff_mem.mp ha)
          · exact Or.inr hm
      next ha =>
        obtain ⟨hlength, hmem⟩ := ih (addGroup groups a.stem .async (some a))
          (length_rootsOf_addGroup a.stem .async a h)
        refine ⟨hlength, fun m => ?_⟩
        rw [hmem m, rootsOf_addGroup, List.mem_append, List.mem_singleton, List.mem_cons, or_assoc]

/-- Every group of a root has its root. -/
theorem length_rootGroups (g : ModuleGraph) : (rootGroups g).length = (roots g).length :=
  (foldl_addGroup_deferred g.deferredRoots _ (foldl_addGroup_entries g.entries [] rfl).1).1

theorem mem_roots : m ∈ roots g ↔ m ∈ g.entries.map (·.2) ∨ m ∈ g.deferredRoots := by
  have hentries := foldl_addGroup_entries g.entries [] rfl
  have hall := (foldl_addGroup_deferred g.deferredRoots _ hentries.1).2 m
  rw [hentries.2] at hall
  exact hall

theorem mem_order_of_mem_roots (hg : g.WellFormed) (h : m ∈ roots g) : m ∈ g.order := by
  rcases mem_roots.mp h with h | h
  · obtain ⟨e, he, rfl⟩ := List.mem_map.mp h
    exact hg.entriesRecorded e he
  · exact hg.rootsRecorded m h

/-! ## §2. The search. -/

theorem mem_firstOccurrences {α : Type} [BEq α] [LawfulBEq α] {x : α} :
    ∀ {xs : List α}, x ∈ firstOccurrences xs ↔ x ∈ xs
  | [] => Iff.rfl
  | y :: ys => by
      by_cases hxy : x = y <;>
        simp [firstOccurrences, mem_firstOccurrences, hxy]

theorem mem_syncTargets : target ∈ syncTargets g m ↔ g.Loads m target := by
  unfold syncTargets ModuleGraph.Loads
  cases g.get? m <;> simp

theorem mem_round {found : List Identity} :
    target ∈ firstOccurrences (found ++ found.flatMap (syncTargets g))
      ↔ target ∈ found ∨ ∃ m ∈ found, g.Loads m target := by
  simp [mem_firstOccurrences, mem_syncTargets]

/-- What the search finds is reached. -/
theorem exists_path_of_mem_reachable :
    ∀ (n : Nat) (found : List Identity), target ∈ reachable g n found →
      ∃ m ∈ found, ReflTransGen g.Loads m target := by
  intro n
  induction n with
  | zero => intro found h; exact ⟨target, h, ReflTransGen.refl⟩
  | succ n ih =>
      intro found h
      obtain ⟨m, hm, hpath⟩ := ih _ h
      rcases mem_round.mp hm with hm | ⟨m', hm', hlink⟩
      · exact ⟨m, hm, hpath⟩
      · exact ⟨m', hm', ReflTransGen.head hlink hpath⟩

/-- What is reached is found, in as many rounds as lie between the two places in the graph. -/
theorem mem_reachable_of_path (hg : g.WellFormed) :
    ∀ (n : Nat) (found : List Identity) (m : Identity), m ∈ found →
      g.order.idxOf m ≤ n + g.order.idxOf target → ReflTransGen g.Loads m target →
      target ∈ reachable g n found := by
  intro n
  induction n with
  | zero =>
      intro found m hm hplace hpath
      rcases ReflTransGen.cases_head hpath with rfl | ⟨next, hlink, hrest⟩
      · exact hm
      · have hlt := hg.idxOf_lt_of_transGen (TransGen.head' hlink hrest)
        omega
  | succ n ih =>
      intro found m hm hplace hpath
      -- every link goes back by one place or more, and a round follows one link
      rcases ReflTransGen.cases_head hpath with rfl | ⟨next, hlink, hrest⟩
      · exact ih _ m (mem_round.mpr (Or.inl hm)) (by omega) ReflTransGen.refl
      · have hlt := hg.idxOf_lt_of_loads hlink
        exact ih _ next (mem_round.mpr (Or.inr ⟨m, hm, hlink⟩)) (by omega) hrest

/-- **The search finds what the root reaches.** -/
theorem mem_reachedFrom (hg : g.WellFormed) :
    m ∈ reachedFrom g root ↔ ReflTransGen g.Loads root m := by
  constructor
  · intro h
    obtain ⟨root', hroot', hpath⟩ := exists_path_of_mem_reachable _ _ h
    rwa [List.mem_singleton.mp hroot'] at hpath
  · intro hpath
    -- there are as many rounds as records, so the first place is in reach
    have hplace : g.order.idxOf root ≤ g.records.length := by
      have hle : g.order.idxOf root ≤ g.order.length := List.idxOf_le_length
      simpa [ModuleGraph.order] using hle
    exact mem_reachable_of_path hg _ _ root (List.mem_singleton.mpr rfl) (by omega) hpath

/-! ## §3. Root sets. -/

/-- The indices of the roots that reach a module. -/
def rootSetOf (g : ModuleGraph) (m : Identity) : List Nat :=
  rootSet ((roots g).map (reachedFrom g)) m

theorem mem_rootSetOf (hg : g.WellFormed) {i : Nat} :
    i ∈ rootSetOf g m ↔ ∃ root, (roots g)[i]? = some root ∧ ReflTransGen g.Loads root m := by
  simp only [rootSetOf, rootSet, List.mem_filter, List.mem_range, List.length_map,
    List.getElem?_map]
  cases hroot : (roots g)[i]? with
  | none => simp
  | some root =>
      obtain ⟨hi, _⟩ := List.getElem?_eq_some_iff.mp hroot
      simp [hi, mem_reachedFrom hg]

theorem lt_length_of_mem_rootSetOf {i : Nat} (h : i ∈ rootSetOf g m) : i < (roots g).length := by
  simp only [rootSetOf, rootSet, List.mem_filter, List.mem_range, List.length_map] at h
  exact h.1

/-- **Root sets grow along links.** -/
theorem rootSetOf_sublist (hg : g.WellFormed) (h : ReflTransGen g.Loads m target) :
    (rootSetOf g m).Sublist (rootSetOf g target) := by
  refine List.monotone_filter_right _ fun i hi => ?_
  simp only [List.getElem?_map] at hi ⊢
  cases hroot : (roots g)[i]? with
  | none => simp [hroot] at hi
  | some root =>
      simp only [hroot, Option.map_some, Option.any_some, List.contains_iff_mem,
        mem_reachedFrom hg] at hi ⊢
      exact hi.trans h

/-- A root reaches itself. -/
theorem idxOf_mem_rootSetOf (hg : g.WellFormed) (h : m ∈ roots g) :
    (roots g).idxOf m ∈ rootSetOf g m :=
  (mem_rootSetOf hg).mpr ⟨m, List.getElem?_idxOf h, ReflTransGen.refl⟩

end AssetBundler.Plan
