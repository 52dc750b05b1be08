/-
  AssetBundler.Proofs.Page.Cascade
  ────────────────────────────────
  **THE ORDER OF STYLESHEETS.**

  In development a stylesheet is applied when its module runs; for production
  it is extracted into a chunk, and the page links the chunks in the order of
  its groups.  A stylesheet that several roots share is hoisted into a group of
  its own, which stands in front of the groups that need it and among others
  by its number, whatever the order of the imports.  Short of this, production
  keeps the order of development:

    • `ModuleGraph.KeepsOrder` — what keeps two stylesheets in order,
    • `Plan.Starts.sublist_linkedStyles` — the order of a plan, for each reason,
    • `Bundler.production_keeps_cascade` — the builds of a project in the two
      modes.
-/
import AssetBundler.Proofs.Build.Alike
import AssetBundler.Proofs.Page.Execution
import Mathlib.Data.List.Flatten

namespace AssetBundler

open Relation

/-! ## §1. Stylesheets of a page. -/

/-- The stylesheets that a page links, chunk after chunk. -/
def Page.linkedStyles (plan : ChunkPlan) : List Identity :=
  (Emit.initialGroups plan).flatMap fun i => plan.modulesOf i .stylesheet

/-- The artifact of the module is an extracted stylesheet. -/
def ModuleGraph.IsStylesheet (g : ModuleGraph) (m : Identity) : Prop :=
  ∃ r, g.get? m = some r ∧ r.artifact.kind = .stylesheet

theorem ModuleGraph.isStylesheet_iff {g : ModuleGraph} {m : Identity} :
    g.IsStylesheet m ↔ (g.artifact? m).map (·.kind) = some .stylesheet := by
  simp [IsStylesheet, artifact?]

/-- **Why a plan keeps two stylesheets in order**, the first of which is applied before the second when
modules run. -/
inductive ModuleGraph.KeepsOrder (g : ModuleGraph) (s t : Identity) : Prop
  /-- The second loads the first, directly or through others. -/
  | loads (h : TransGen g.Loads t s)
  /-- An entry loads the first, and neither it nor an entry before it loads the second. -/
  | earlier (before after : List (String × Identity)) (e : String × Identity)
      (hentries : g.entries = before ++ e :: after) (hs : ReflTransGen g.Loads e.2 s)
      (ht : ∀ e' ∈ before ++ [e], ¬ ReflTransGen g.Loads e'.2 t)
  /-- The second stays in the chunk of an entry. -/
  | own (i : Nat) (hi : i ∈ g.split.groupsOf .entry) (h : g.split.Holds i t)
  /-- Both are in one group, and no entry that loads the second is loaded by a module. -/
  | together (i : Nat) (hs : g.split.Holds i s) (ht : g.split.Holds i t)
      (h : ∀ e ∈ g.entries, ReflTransGen g.Loads e.2 t → ∀ m, ¬ g.Loads m e.2)

/-! ## §2. The first of a list with a property. -/

section

variable {α β : Type}

/-- When only one element of a list has a property, the others may be left out. -/
theorem exists_filter_eq_cons {p : α → Bool} {x : α} {xs : List α} (hx : x ∈ xs)
    (hpx : p x = true) (honly : ∀ y ∈ xs, p y = true → y = x) :
    ∃ rest, xs.filter p = x :: rest := by
  cases hfilter : xs.filter p with
  | nil => exact absurd hpx (List.filter_eq_nil_iff.mp hfilter x hx)
  | cons y rest =>
      have hy : y ∈ xs.filter p := hfilter ▸ List.mem_cons_self
      obtain ⟨hmem, hpy⟩ := List.mem_filter.mp hy
      exact ⟨rest, by rw [honly y hmem hpy]⟩

/-- What is kept of a list of images is the images of what is kept. -/
theorem filter_filterMap_eq {f : β → Option α} {p : α → Bool} (xs : List β) :
    (xs.filterMap f).filter p = (xs.filter fun x => (f x).any p).filterMap f := by
  induction xs with
  | nil => rfl
  | cons x xs ih =>
      rw [List.filterMap_cons]
      cases hx : f x with
      | none => simp [hx, ih]
      | some y =>
          by_cases hy : p y = true <;> simp [hx, hy, ih]

theorem idxOf_le_of_getElem? [BEq α] [LawfulBEq α] {x : α} {xs : List α} {i : Nat}
    (h : xs[i]? = some x) : xs.idxOf x ≤ i := by
  obtain ⟨_, rfl⟩ := List.getElem?_eq_some_iff.mp h
  by_contra hlt
  have hdiffers := List.not_of_lt_findIdx (not_le.mp hlt)
  simp at hdiffers

/-- Images of the places of a list, some of which may be missing: the first with a property is that of
the list, if all elements with the property are there. -/
theorem exists_filter_range_eq_cons [BEq α] [LawfulBEq α] {f : Nat → Option α} {p : α → Bool}
    {x : α} {xs rest : List α} (hplace : ∀ i y, f i = some y → xs[i]? = some y)
    (hall : ∀ y ∈ xs, p y = true → f (xs.idxOf y) = some y) (hfirst : xs.filter p = x :: rest) :
    ∃ rest', ((List.range xs.length).filterMap f).filter p = x :: rest' := by
  obtain ⟨before, after, rfl, hbefore, hx, _⟩ := List.filter_eq_cons_iff.mp hfirst
  have hnew : x ∉ before := fun hmem => hbefore x hmem hx
  have hplacex : f before.length = some x := by
    have hat := hall x (by simp) hx
    rwa [List.idxOf_append_of_notMem hnew, List.idxOf_cons_self, Nat.add_zero] at hat
  have hnone : ((List.range before.length).filterMap f).filter p = [] := by
    refine List.filter_eq_nil_iff.mpr fun y hy => hbefore y ?_
    obtain ⟨i, hi, hy⟩ := List.mem_filterMap.mp hy
    have hget := hplace i y hy
    rw [List.getElem?_append_left (List.mem_range.mp hi)] at hget
    exact List.mem_of_getElem? hget
  refine ⟨(((List.range after.length).map fun i => before.length + (i + 1)).filterMap f).filter p,
    ?_⟩
  rw [List.length_append, List.length_cons, List.range_add, List.range_succ_eq_map,
    List.filterMap_append, List.filter_append, hnone, List.nil_append, List.map_cons,
    Nat.add_zero, List.filterMap_cons_some hplacex, List.filter_cons_of_pos hx, List.map_map]
  rfl

end

/-! ## §3. Stylesheets and groups. -/

namespace Plan

open Emit

variable {g : ModuleGraph} {i j k : Nat} {m s t root : Identity}

theorem loads_eq (g : ModuleGraph) : (fun m target => target ∈ syncTargets g m) = g.Loads := by
  funext m target
  exact propext mem_syncTargets

theorem mem_modulesOf_stylesheet (hs : g.IsStylesheet s) (hi : groupOf g s = some i) :
    s ∈ g.split.modulesOf i .stylesheet := by
  obtain ⟨r, hr, hkind⟩ := hs
  obtain ⟨hmem, rfl⟩ := ModuleGraph.mem_of_get? hr
  exact mem_modulesOf_split.mpr
    ⟨hi, r, hmem, rfl, (chunkKindOf_cases (scriptImported g) r).1 hkind⟩

section

variable (hs : g.IsStylesheet s) (ht : g.IsStylesheet t)

include hs ht

/-- Stylesheets of two groups stand in the order of these. -/
theorem sublist_linkedStyles_of_groups (hi : groupOf g s = some i) (hj : groupOf g t = some j)
    (h : [i, j].Sublist (initialGroups g.split)) :
    [s, t].Sublist (Page.linkedStyles g.split) := by
  have hboth : [s, t].Sublist ([i, j].flatMap fun i => g.split.modulesOf i .stylesheet) := by
    simp only [List.flatMap_cons, List.flatMap_nil, List.append_nil]
    exact (List.singleton_sublist.mpr (mem_modulesOf_stylesheet hs hi)).append
      (List.singleton_sublist.mpr (mem_modulesOf_stylesheet ht hj))
  exact hboth.trans (List.Sublist.flatMap h _)

/-- Stylesheets of one group stand in the order of the graph. -/
theorem sublist_linkedStyles_of_order (hg : g.WellFormed) (hi : groupOf g s = some i)
    (hj : groupOf g t = some i) (hpage : i ∈ initialGroups g.split)
    (h : [s, t].Sublist g.order) : [s, t].Sublist (Page.linkedStyles g.split) := by
  have hinner := sublist_of_sublist modulesOf_sublist_order hg.nodup
    (mem_modulesOf_stylesheet hs hi) (mem_modulesOf_stylesheet ht hj) h
  exact hinner.trans (List.sublist_flatten_of_mem (List.mem_map_of_mem hpage))

end

/-! ## §4. The groups of a page. -/

/-- The group of an entry is of the page. -/
theorem idxOf_mem_initialGroups (hg : g.WellFormed) (hm : m ∈ g.entries.map (·.2)) :
    (roots g).idxOf m ∈ initialGroups g.split := by
  have hgroup := groupOf_root hg (mem_roots.mpr (Or.inl hm))
  refine mem_initialGroups.mpr ⟨_, (mem_groupsOf_entry hg).mpr (idxOf_roots_lt hg hm), ?_⟩
  exact (mem_loadSequence_split hg ((assembled_split g).2 ▸ groupOf_lt hgroup)).mpr .refl

/-- What a module of the page reaches is in a group of the page, and not behind the module. -/
theorem exists_initialGroup (hg : g.WellFormed) (hi : groupOf g m = some i)
    (hpage : i ∈ initialGroups g.split) (hpath : ReflTransGen g.Loads m s) :
    ∃ j, groupOf g s = some j ∧ j ∈ initialGroups g.split
      ∧ (initialGroups g.split).idxOf j ≤ (initialGroups g.split).idxOf i := by
  obtain ⟨j, hj, hgroups⟩ := exists_groupPath_at hg hi hpath
  refine ⟨j, hj, ?_⟩
  rcases reflTransGen_iff_eq_or_transGen.mp hgroups with rfl | hgroups
  · exact ⟨hpage, le_rfl⟩
  · obtain ⟨hmem, hlt⟩ := idxOf_initialGroups_lt hg hpage
      (TransGen.mono (fun _ _ h => loads_split.mpr h) _ _ hgroups)
    exact ⟨hmem, hlt.le⟩

/-- Groups at different places stand in the order of the places. -/
theorem sublist_initialGroups (hj : j ∈ initialGroups g.split) (hne : i ≠ j)
    (hle : (initialGroups g.split).idxOf i ≤ (initialGroups g.split).idxOf j)
    (hi : i ∈ initialGroups g.split) : [i, j].Sublist (initialGroups g.split) := by
  refine sublist_of_idxOf_lt hj (lt_of_le_of_ne hle fun heq => hne ?_)
  exact (List.idxOf_inj hi).mp heq

/-- **What loads another stylesheet comes behind it.** -/
theorem sublist_linkedStyles_of_loads (hg : g.WellFormed) (hs : g.IsStylesheet s)
    (ht : g.IsStylesheet t) (hi : groupOf g t = some i) (hpage : i ∈ initialGroups g.split)
    (h : TransGen g.Loads t s) : [s, t].Sublist (Page.linkedStyles g.split) := by
  obtain ⟨j, hj, hpage', hle⟩ := exists_initialGroup hg hi hpage h.to_reflTransGen
  by_cases hsame : j = i
  · have horder : t ∈ g.order := (groupOf_eq_some_iff.mp hi).1
    refine sublist_linkedStyles_of_order hs ht hg (hsame ▸ hj) hi hpage ?_
    exact sublist_of_idxOf_lt horder (hg.idxOf_lt_of_transGen h)
  · exact sublist_linkedStyles_of_groups hs ht hj hi (sublist_initialGroups hpage hsame hle hpage')

/-- The groups of the first entries come first. -/
theorem prefix_initialGroups (hg : g.WellFormed) (h : k ≤ g.entries.length) :
    firstOccurrences ((List.range k).flatMap g.split.loadSequence) <+: initialGroups g.split := by
  obtain ⟨rest, hrest⟩ := Nat.exists_eq_add_of_le h
  rw [initialGroups, groupsOf_entry hg, hrest, List.range_add, List.flatMap_append]
  exact firstOccurrences_prefix _ _

theorem getElem?_roots_of_entries (hg : g.WellFormed) (hk : k < g.entries.length) :
    (roots g)[k]? = some g.entries[k].2 := by
  rw [roots_eq hg, List.getElem?_append_left (by simpa using hk), List.getElem?_map,
    List.getElem?_eq_getElem hk]
  rfl

/-- A group is loaded for the first entries when one of them reaches its modules. -/
theorem mem_firstGroups (hg : g.WellFormed) (hk : k ≤ g.entries.length)
    (hm : groupOf g m = some i) :
    i ∈ firstOccurrences ((List.range k).flatMap g.split.loadSequence)
      ↔ ∃ e ∈ g.entries.take k, ReflTransGen g.Loads e.2 m := by
  have hlength : ∀ l, l < g.entries.length → l < g.split.groups.length := by
    intro l hl
    have hentry := (mem_groupsOf_entry hg).mpr hl
    obtain ⟨c, hc, _⟩ := ChunkPlan.mem_groupsOf.mp hentry
    exact (List.getElem?_eq_some_iff.mp hc).1
  simp only [mem_firstOccurrences, List.mem_flatMap, List.mem_range]
  constructor
  · rintro ⟨l, hl, hi⟩
    have hentry : l < g.entries.length := Nat.lt_of_lt_of_le hl hk
    rw [mem_loadSequence_split hg (hlength l hentry)] at hi
    refine ⟨g.entries[l], List.mem_take_iff_getElem.mpr ⟨l, by omega, rfl⟩, ?_⟩
    exact reaches_of_groupPath_at hg (getElem?_roots_of_entries hg hentry) hi hm
  · rintro ⟨e, he, hpath⟩
    obtain ⟨l, hl, rfl⟩ := List.mem_take_iff_getElem.mp he
    have hentry : g.entries[l].2 ∈ g.entries.map (·.2) :=
      List.mem_map_of_mem (List.getElem_mem _)
    obtain ⟨i', hi', hgroups⟩ := exists_groupPath hg (mem_roots.mpr (Or.inl hentry)) hpath
    obtain rfl := Option.some.inj (hi'.symm.trans hm)
    -- an entry with the same module may come even earlier
    have hfirst : (roots g).idxOf g.entries[l].2 ≤ l := by
      exact idxOf_le_of_getElem? (getElem?_roots_of_entries hg (by omega))
    refine ⟨_, by omega, (mem_loadSequence_split hg (hlength _ ?_)).mpr hgroups⟩
    omega

/-- **A stylesheet of an earlier entry comes first.** -/
theorem sublist_linkedStyles_of_earlier (hg : g.WellFormed) (hs : g.IsStylesheet s)
    (ht : g.IsStylesheet t) {before after : List (String × Identity)} {e : String × Identity}
    (hentries : g.entries = before ++ e :: after) (hpath : ReflTransGen g.Loads e.2 s)
    (hnot : ∀ e' ∈ before ++ [e], ¬ ReflTransGen g.Loads e'.2 t) (hi : groupOf g s = some i)
    (hj : groupOf g t = some j) (hpage : j ∈ initialGroups g.split) :
    [s, t].Sublist (Page.linkedStyles g.split) := by
  have htake : g.entries.take (before.length + 1) = before ++ [e] := by
    rw [hentries, List.take_length_add_append]
    rfl
  have hk : before.length + 1 ≤ g.entries.length := by
    rw [hentries, List.length_append, List.length_cons]
    omega
  obtain ⟨rest, hrest⟩ := prefix_initialGroups hg hk
  have hifirst := (mem_firstGroups hg hk hi).mpr ⟨e, by rw [htake]; simp, hpath⟩
  have hjrest : j ∈ rest := by
    rw [← hrest, List.mem_append, mem_firstGroups hg hk hj, htake] at hpage
    exact hpage.resolve_left fun ⟨e', he', hpath'⟩ => hnot e' he' hpath'
  refine sublist_linkedStyles_of_groups hs ht hi hj (hrest ▸ ?_)
  exact (List.singleton_sublist.mpr hifirst).append (List.singleton_sublist.mpr hjrest)

/-! ## §5. Modules of one group. -/

section

variable (hg : g.WellFormed) (hroot : (roots g)[k]? = some root)

include hroot

/-- A module in the group of a root is the root, or this root alone reaches it. -/
theorem Member.eq_root_or (h : Member g m k) : m = root ∨ rootSetOf g m = [k] := by
  have hlt : k < (roots g).length := (List.getElem?_eq_some_iff.mp hroot).1
  cases h with
  | root hm => exact Or.inl (Option.some.inj ((List.getElem?_idxOf hm).symm.trans hroot))
  | only _ hset => exact Or.inr hset
  | shared => omega

include hg

theorem reaches_of_rootSetOf (hset : rootSetOf g m = [k]) : ReflTransGen g.Loads root m := by
  have hmem : k ∈ rootSetOf g m := hset ▸ List.mem_singleton.mpr rfl
  obtain ⟨root', hroot', hpath⟩ := (mem_rootSetOf hg).mp hmem
  obtain rfl := Option.some.inj (hroot.symm.trans hroot')
  exact hpath

theorem eq_root_of_rootSetOf (hset : rootSetOf g m = [k]) {r : Identity} (hr : r ∈ roots g)
    (hpath : ReflTransGen g.Loads r m) : r = root := by
  have hmem := (mem_rootSetOf hg).mpr ⟨r, List.getElem?_idxOf hr, hpath⟩
  have hplace : (roots g).idxOf r = k := List.mem_singleton.mp (hset ▸ hmem)
  exact Option.some.inj ((List.getElem?_idxOf hr).symm.trans (hplace ▸ hroot))

/-- A group with modules has the first place of its root. -/
theorem Member.idxOf_root (h : Member g m k) : (roots g).idxOf root = k := by
  have hmem : root ∈ roots g := List.mem_of_getElem? hroot
  rcases h.eq_root_or hroot with rfl | hset
  · exact (Member.root hmem).unique h
  · have hfirst := (mem_rootSetOf hg).mpr
      ⟨root, List.getElem?_idxOf hmem, reaches_of_rootSetOf hg hroot hset⟩
    exact List.mem_singleton.mp (hset ▸ hfirst)

/-- **Two modules in the group of a root**: no other root reaches one of them. -/
theorem eq_root_of_reaches (hs : Member g s k) (ht : Member g t k) (hne : s ≠ t) {r : Identity}
    (hr : r ∈ roots g) (hreach : ReflTransGen g.Loads r s ∨ ReflTransGen g.Loads r t) :
    r = root := by
  -- when one of them is the root, what reaches it reaches the other
  rcases hs.eq_root_or hroot with rfl | hsset
  · have htset := (ht.eq_root_or hroot).resolve_left hne.symm
    have hpath := reaches_of_rootSetOf hg hroot htset
    exact eq_root_of_rootSetOf hg hroot htset hr (hreach.elim (·.trans hpath) id)
  · rcases ht.eq_root_or hroot with rfl | htset
    · have hpath := reaches_of_rootSetOf hg hroot hsset
      exact eq_root_of_rootSetOf hg hroot hsset hr (hreach.elim id (·.trans hpath))
    · exact hreach.elim (eq_root_of_rootSetOf hg hroot hsset hr)
        (eq_root_of_rootSetOf hg hroot htset hr)

end

/-- The same roots reach the modules of a shared group. -/
theorem Member.rootSetOf_eq (hs : Member g s i) (ht : Member g t i)
    (hi : (roots g).length ≤ i) : rootSetOf g s = rootSetOf g t := by
  have hset : ∀ {x}, Member g x i → (sharedSets g)[i - (roots g).length]? = some (rootSetOf g x) := by
    intro x hx
    cases hx with
    | root hmem => exact absurd (List.idxOf_lt_length_of_mem hmem) (not_lt.mpr hi)
    | only _ honly =>
        have hmem : i ∈ rootSetOf g x := honly ▸ List.mem_singleton.mpr rfl
        exact absurd (lt_length_of_mem_rootSetOf hmem) (not_lt.mpr hi)
    | shared _ _ hk => rwa [Nat.add_sub_cancel_left]
  exact Option.some.inj ((hset hs).symm.trans (hset ht))

theorem reaches_of_shared (hg : g.WellFormed) (hs : Member g s i) (ht : Member g t i)
    (hi : (roots g).length ≤ i) (hroot : root ∈ roots g) (hpath : ReflTransGen g.Loads root s) :
    ReflTransGen g.Loads root t := by
  have hplace := List.getElem?_idxOf hroot
  obtain ⟨root', hroot', hpath'⟩ :=
    (mem_rootSetOf hg).mp (hs.rootSetOf_eq ht hi ▸ (mem_rootSetOf hg).mpr ⟨root, hplace, hpath⟩)
  obtain rfl := Option.some.inj (hplace.symm.trans hroot')
  exact hpath'

/-! ## §6. The order of the scripts. -/

/-- What the scripts of a page start with: each is the module of an entry in its group, and every entry
that leads to a stylesheet is among them. -/
structure Starts (g : ModuleGraph) (start? : Nat → Option Identity) : Prop where
  entry : ∀ i m, start? i = some m → (g.entries[i]?).map (·.2) = some m
  group : ∀ i m, start? i = some m → groupOf g m = some i
  styled : ∀ m ∈ g.entries.map (·.2), ∀ s, g.IsStylesheet s → ReflTransGen g.Loads m s →
    start? ((roots g).idxOf m) = some m

theorem nodup_of_runs (hg : g.WellFormed) {ms done : List Identity}
    (h : Page.Runs (syncTargets g) [] ms done) : done.Nodup :=
  h.nodup (fun _ hpath => hg.not_transGen_loads (loads_eq g ▸ hpath)) List.nodup_nil

/-- Two runs apply two modules in one order when the first that leads to one of them is the same. -/
theorem sublist_of_heads (hg : g.WellFormed) {p : Identity → Bool}
    {ms ms' done done' rest rest' : List Identity}
    (hp : ∀ x, p x = true ↔ ReflTransGen g.Loads x s ∨ ReflTransGen g.Loads x t)
    (h : Page.Runs (syncTargets g) [] ms done) (h' : Page.Runs (syncTargets g) [] ms' done')
    (hfirst : ms.filter p = m :: rest) (hfirst' : ms'.filter p = m :: rest')
    (ht : ReflTransGen g.Loads m t) (horder : [s, t].Sublist done) : [s, t].Sublist done' := by
  refine h.sublist_of_same_start ?_ ?_ h' hfirst hfirst' ?_ horder
  · rw [loads_eq]
    exact fun _ hpath => hg.not_transGen_loads hpath
  · rwa [loads_eq]
  · rwa [loads_eq]

section

variable {start? : Nat → Option Identity} {order : List Identity} (hg : g.WellFormed)
  (hstarts : Starts g start?)
  (hrun : Page.Runs (syncTargets g) [] ((initialGroups g.split).filterMap start?) order)

include hstarts

theorem Starts.mem_entries (h : start? i = some m) : m ∈ g.entries.map (·.2) :=
  List.mem_of_getElem? (List.getElem?_map ▸ hstarts.entry i m h)

include hrun

/-- What runs is reached from an entry of the page. -/
theorem Starts.exists_start (hm : m ∈ order) :
    ∃ e ∈ g.entries.map (·.2), e ∈ (initialGroups g.split).filterMap start?
      ∧ ReflTransGen g.Loads e m := by
  obtain ⟨e, he, hpath⟩ := hrun.mem_iff.mp hm
  rw [loads_eq] at hpath
  obtain ⟨i, _, hi⟩ := List.mem_filterMap.mp he
  exact ⟨e, hstarts.mem_entries hi, he, hpath⟩

include hg

/-- What runs is in a group of the page. -/
theorem Starts.exists_group (hm : m ∈ order) :
    ∃ i, groupOf g m = some i ∧ i ∈ initialGroups g.split := by
  obtain ⟨e, he, _, hpath⟩ := hstarts.exists_start hrun hm
  obtain ⟨i, hi, hpage, _⟩ := exists_initialGroup hg (groupOf_root hg (mem_roots.mpr (Or.inl he)))
    (idxOf_mem_initialGroups hg he) hpath
  exact ⟨i, hi, hpage⟩

/-- **A stylesheet in the group of an entry comes behind all that ran before it** and is in another
group. -/
theorem Starts.sublist_of_own (ht : g.IsStylesheet t) (hk : k < g.entries.length)
    (hi : groupOf g s = some i) (hj : groupOf g t = some k) (hne : i ≠ k)
    (h : [s, t].Sublist order) : [i, k].Sublist (initialGroups g.split) := by
  have hroot := getElem?_roots_of_entries hg hk
  set root := g.entries[k].2
  have hentry : root ∈ g.entries.map (·.2) := List.mem_map_of_mem (List.getElem_mem _)
  have hplace := ((groupOf_eq_some_iff.mp hj).2.idxOf_root hg hroot)
  have hreach : ReflTransGen g.Loads root t := reaches_of_groupPath_at hg hroot .refl hj
  have hstart : start? k = some root := hplace ▸ hstarts.styled root hentry t ht hreach
  have hpage : k ∈ initialGroups g.split := hplace ▸ idxOf_mem_initialGroups hg hentry
  -- the second has run when the script of its own group has, and so the first has
  obtain ⟨before, after, hsplit, hnew⟩ := List.eq_append_cons_of_mem hpage
  have hrun' := hrun
  rw [hsplit, List.append_cons, List.filterMap_append] at hrun'
  obtain ⟨done, hfirst, hrest⟩ := hrun'.exists_of_append
  obtain ⟨later, hlater⟩ := hrest.isPrefix
  have htdone : t ∈ done := by
    refine hfirst.mem_iff.mpr ⟨root, List.mem_filterMap.mpr ⟨k, by simp, hstart⟩, ?_⟩
    rwa [loads_eq]
  have hnodup : (done ++ later).Nodup := hlater ▸ nodup_of_runs hg hrun
  have hinner : [s, t].Sublist done := sublist_left_of_append hnodup htdone (hlater ▸ h)
  obtain ⟨e, he, hpath⟩ := hfirst.mem_iff.mp (hinner.subset List.mem_cons_self)
  rw [loads_eq] at hpath
  obtain ⟨l, hl, hstart'⟩ := List.mem_filterMap.mp he
  -- so it is reached from an entry whose group does not come behind the own one
  have hle : (initialGroups g.split).idxOf l ≤ (initialGroups g.split).idxOf k := by
    rw [hsplit, List.idxOf_append_of_notMem hnew, List.idxOf_cons_self, Nat.add_zero]
    rcases List.mem_append.mp hl with hl | hl
    · rw [List.idxOf_append_of_mem hl]
      exact List.idxOf_le_length
    · rw [List.mem_singleton.mp hl, List.idxOf_append_of_notMem hnew, List.idxOf_cons_self]
      rfl
  have hlpage : l ∈ initialGroups g.split := by
    rw [hsplit, List.append_cons]
    exact List.mem_append_left _ hl
  obtain ⟨i', hi', hipage, hile⟩ :=
    exists_initialGroup hg (hstarts.group l e hstart') hlpage hpath
  obtain rfl := Option.some.inj (hi'.symm.trans hi)
  exact sublist_initialGroups hpage hne (hile.trans hle) hipage

variable {loaded : List Identity}
  (hloaded : Page.Runs (syncTargets g) [] (g.entries.map (·.2)) loaded)

include hloaded

/-- **Stylesheets in the group of a root** keep their order. -/
theorem Starts.sublist_of_root (hs : groupOf g s = some k) (ht : groupOf g t = some k)
    (hk : k < (roots g).length) (h : [s, t].Sublist order) : [s, t].Sublist loaded := by
  classical
  have hne : s ≠ t := by
    have hnodup := (nodup_of_runs hg hrun).sublist h
    simpa using hnodup
  have hroot := List.getElem?_eq_getElem hk
  set root := (roots g)[k]
  have honly : ∀ e ∈ g.entries.map (·.2), ReflTransGen g.Loads e s ∨ ReflTransGen g.Loads e t →
      e = root := by
    intro e he hreach
    exact eq_root_of_reaches hg hroot (groupOf_eq_some_iff.mp hs).2 (groupOf_eq_some_iff.mp ht).2
      hne (mem_roots.mpr (Or.inl he)) hreach
  obtain ⟨e, hentry, hestart, hpath⟩ := hstarts.exists_start hrun (h.subset List.mem_cons_self)
  obtain rfl := honly e hentry (Or.inl hpath)
  let p : Identity → Bool := fun x =>
    decide (ReflTransGen g.Loads x s ∨ ReflTransGen g.Loads x t)
  obtain ⟨rest, hrest⟩ := exists_filter_eq_cons (p := p) hestart (by simp [p, hpath]) fun y hy hpy => by
    obtain ⟨i, _, hi⟩ := List.mem_filterMap.mp hy
    exact honly y (hstarts.mem_entries hi) (by simpa [p] using hpy)
  obtain ⟨rest', hrest'⟩ := exists_filter_eq_cons (p := p) hentry (by simp [p, hpath]) fun y hy hpy =>
    honly y hy (by simpa [p] using hpy)
  have hreach := reaches_of_groupPath_at hg hroot .refl ht
  exact sublist_of_heads hg (by simp [p]) hrun hloaded hrest hrest' hreach h

omit hrun hloaded in
/-- Groups of entries that no module loads stand in the order of the entries. -/
theorem Starts.initialGroups_filter {p : Identity → Bool}
    (hnot : ∀ e ∈ g.entries.map (·.2), p e = true → ∀ m, ¬ g.Loads m e) :
    (initialGroups g.split).filter (fun i => (start? i).any p)
      = (List.range g.entries.length).filter fun i => (start? i).any p := by
  set q : Nat → Bool := fun i => (start? i).any p
  -- such a group is loaded for its own entry alone
  have hsequence : ∀ i ∈ List.range g.entries.length,
      (g.split.loadSequence i).filter q = [i].filter q := by
    intro i hi
    obtain ⟨c, hc, _⟩ := ChunkPlan.mem_groupsOf.mp
      ((mem_groupsOf_entry hg).mpr (List.mem_range.mp hi))
    have hlt : i < g.split.groups.length := (List.getElem?_eq_some_iff.mp hc).1
    obtain ⟨hplan, hlength⟩ := assembled_split g
    rw [hplan.loadSequence i hlt, List.filter_append]
    refine List.append_left_eq_self.mpr (List.filter_eq_nil_iff.mpr fun j hj hq => ?_)
    rw [mem_loadOrder (not_transGen_needs hg) (directDependencies_lt hg) (hlength ▸ hlt),
      needs_directDependencies hg] at hj
    obtain ⟨e, hstart, hpe⟩ := (Option.any_eq_true _ _).mp hq
    -- a link into the group of an entry leads to the entry
    obtain ⟨c', _, hne, m, target, hm, htarget, hlink⟩ := TransGen.tail'_iff.mp hj
    have hentry := hstarts.mem_entries hstart
    have hroot := mem_roots.mpr (Or.inl hentry)
    have hplace : (roots g).idxOf e = j :=
      Option.some.inj ((groupOf_root hg hroot).symm.trans (hstarts.group j e hstart))
    rcases Member.of_groupLoads hg hne (groupOf_eq_some_iff.mp hm).2
      (groupOf_eq_some_iff.mp htarget).2 hlink with ⟨htroot, hj⟩ | ⟨k, hj, _⟩
    · obtain rfl : e = target := (List.idxOf_inj hroot).mp (hplace.trans hj)
      exact hnot e hentry hpe m hlink
    · have hbound := List.idxOf_lt_length_of_mem hroot
      omega
  rw [initialGroups, firstOccurrences_filter, groupsOf_entry hg, List.filter_flatMap,
    List.flatMap_congr hsequence, ← List.filter_flatMap, List.flatMap_singleton',
    firstOccurrences_of_nodup (List.nodup_range.filter q)]

omit hrun hloaded in
/-- The first entry with a property is the first that runs, if no module loads such an entry. -/
theorem Starts.exists_filter_eq_cons_of_entries {p : Identity → Bool} {first : Identity}
    {rest : List Identity}
    (hall : ∀ e ∈ g.entries.map (·.2), p e = true → start? ((roots g).idxOf e) = some e)
    (hnot : ∀ e ∈ g.entries.map (·.2), p e = true → ∀ m, ¬ g.Loads m e)
    (hfirst : (g.entries.map (·.2)).filter p = first :: rest) :
    ∃ rest', ((initialGroups g.split).filterMap start?).filter p = first :: rest' := by
  have hplace : ∀ i m, start? i = some m → (g.entries.map (·.2))[i]? = some m := by
    intro i m hm
    rw [List.getElem?_map]
    exact hstarts.entry i m hm
  have hpresent : ∀ e ∈ g.entries.map (·.2), p e = true →
      start? ((g.entries.map (·.2)).idxOf e) = some e := by
    intro e he hpe
    have hstart := hall e he hpe
    rwa [roots_eq hg, List.idxOf_append_of_mem he] at hstart
  have hrange := exists_filter_range_eq_cons hplace hpresent hfirst
  rwa [List.length_map, filter_filterMap_eq, ← hstarts.initialGroups_filter hg hnot,
    ← filter_filterMap_eq] at hrange

/-- **Stylesheets in one group** keep their order when no entry that leads to the second is loaded by a
module. -/
theorem Starts.sublist_of_together (hsheet : g.IsStylesheet t) (hs : groupOf g s = some i)
    (ht : groupOf g t = some i)
    (hnot : ∀ e ∈ g.entries, ReflTransGen g.Loads e.2 t → ∀ m, ¬ g.Loads m e.2)
    (h : [s, t].Sublist order) : [s, t].Sublist loaded := by
  classical
  by_cases hi : i < (roots g).length
  · exact hstarts.sublist_of_root hg hrun hloaded hs ht hi h
  · -- the same entries lead to both
    have hreach : ∀ e ∈ g.entries.map (·.2),
        ReflTransGen g.Loads e s ∨ ReflTransGen g.Loads e t → ReflTransGen g.Loads e t := by
      rintro e he (hpath | hpath)
      · exact reaches_of_shared hg (groupOf_eq_some_iff.mp hs).2 (groupOf_eq_some_iff.mp ht).2
          (not_lt.mp hi) (mem_roots.mpr (Or.inl he)) hpath
      · exact hpath
    let p : Identity → Bool := fun x =>
      decide (ReflTransGen g.Loads x s ∨ ReflTransGen g.Loads x t)
    have hp : ∀ x, p x = true ↔ ReflTransGen g.Loads x s ∨ ReflTransGen g.Loads x t := by simp [p]
    obtain ⟨e, hentry, _, hpath⟩ := hstarts.exists_start hrun (h.subset List.mem_cons_self)
    cases hfirst : (g.entries.map (·.2)).filter p with
    | nil => exact absurd ((hp e).mpr (Or.inl hpath)) (List.filter_eq_nil_iff.mp hfirst e hentry)
    | cons first rest =>
        have hmem : first ∈ (g.entries.map (·.2)).filter p := hfirst ▸ List.mem_cons_self
        obtain ⟨hmem, hpfirst⟩ := List.mem_filter.mp hmem
        have hpresent : ∀ m ∈ g.entries.map (·.2), p m = true →
            start? ((roots g).idxOf m) = some m := fun m hm hpm =>
          hstarts.styled m hm t hsheet (hreach m hm ((hp m).mp hpm))
        have hunloaded : ∀ m ∈ g.entries.map (·.2), p m = true → ∀ m', ¬ g.Loads m' m := by
          intro m hm hpm
          obtain ⟨entry, hentry, rfl⟩ := List.mem_map.mp hm
          exact hnot entry hentry (hreach _ hm ((hp _).mp hpm))
        obtain ⟨_, hrest⟩ :=
          hstarts.exists_filter_eq_cons_of_entries hg hpresent hunloaded hfirst
        exact sublist_of_heads hg hp hrun hloaded hrest hfirst
          (hreach first hmem ((hp first).mp hpfirst)) h

omit hloaded in
/-- **THE ORDER OF STYLESHEETS**: a page links two in the order in which they are applied when modules
run, if something keeps them in order. -/
theorem Starts.sublist_linkedStyles (hs : g.IsStylesheet s) (ht : g.IsStylesheet t)
    (hloaded : ∃ loaded, Page.Runs (syncTargets g) [] (g.entries.map (·.2)) loaded
      ∧ loaded <+: g.order)
    (h : [s, t].Sublist order) (hkeeps : g.KeepsOrder s t) :
    [s, t].Sublist (Page.linkedStyles g.split) := by
  obtain ⟨loaded, hloaded, hprefix⟩ := hloaded
  obtain ⟨i, hi, hipage⟩ := hstarts.exists_group hg hrun (h.subset (by simp : s ∈ [s, t]))
  obtain ⟨j, hj, hjpage⟩ := hstarts.exists_group hg hrun (h.subset (by simp : t ∈ [s, t]))
  cases hkeeps with
  | loads hpath => exact sublist_linkedStyles_of_loads hg hs ht hj hjpage hpath
  | earlier before after e hentries hpath hnot =>
      exact sublist_linkedStyles_of_earlier hg hs ht hentries hpath hnot hi hj hjpage
  | own k hk hholds =>
      obtain rfl := Option.some.inj ((holds_split.mp hholds).symm.trans hj)
      have hlt := (mem_groupsOf_entry hg).mp hk
      by_cases hsame : i = k
      · subst hsame
        have hroots := (List.getElem?_eq_some_iff.mp (getElem?_roots_of_entries hg hlt)).1
        refine sublist_linkedStyles_of_order hs ht hg hi hj hipage ?_
        exact (hstarts.sublist_of_root hg hrun hloaded hi hj hroots h).trans hprefix.sublist
      · exact sublist_linkedStyles_of_groups hs ht hi hj
          (hstarts.sublist_of_own hg hrun ht hlt hi hj hsame h)
  | together k hk hk' hnot =>
      obtain rfl := Option.some.inj ((holds_split.mp hk).symm.trans hi)
      have hk' := holds_split.mp hk'
      refine sublist_linkedStyles_of_order hs ht hg hi hk' hipage ?_
      exact (hstarts.sublist_of_together hg hrun hloaded ht hi hk' hnot h).trans hprefix.sublist

end

end Plan

/-! ## §7. The two modes. -/

/-- Graphs of one shape have the same groups of the page. -/
theorem ModuleGraph.Renames.initialGroups_eq {f : Identity → Identity} {g g' : ModuleGraph}
    (h : g.Renames f g') : Emit.initialGroups g'.split = Emit.initialGroups g.split := by
  unfold Emit.initialGroups
  rw [h.groupsOf_eq, funext h.loadSequence_eq]

namespace Plan

open Emit

variable {g : ModuleGraph}

/-- **No stylesheet is linked twice.** -/
theorem nodup_linkedStyles (hg : g.WellFormed) : (Page.linkedStyles g.split).Nodup := by
  refine List.nodup_flatMap.mpr ⟨fun i _ => modulesOf_sublist_order.nodup hg.nodup, ?_⟩
  refine (nodup_initialGroups g.split).imp fun {i j} hne m hi hj => hne ?_
  exact Option.some.inj ((mem_modulesOf_split.mp hi).1.symm.trans (mem_modulesOf_split.mp hj).1)

end Plan

namespace Bundler

open Plan

variable {config : Config} {files : FileTree} {outdir? outdir?' : Option Path} {bd bp : Bundler}
  {gd gp : ModuleGraph} {od op : BuildOutput}

section

variable (hrules : config.ownRules = []) (himports : config.ImportsAgree files)
  (hd : create files config .development outdir? = .ok bd)
  (hp : create files config .production outdir?' = .ok bp)

include hrules himports hd hp

/-- In development a script stands for every module that leads to a stylesheet. -/
theorem script_of_reaches {entries entries' : List (String × Identity)}
    (hgd : (bd.graphInput files).Complete entries gd)
    (hgp : (bp.graphInput files).Complete entries' gp) {m s : Identity} (hm : m ∈ gd.order)
    (hs : gp.IsStylesheet s) (hpath : ReflTransGen gp.Loads m s) :
    ∃ r ∈ gd.records, r.identity = m ∧ r.artifact.kind = .script := by
  obtain ⟨r, hr, rfl, _⟩ := ModuleGraph.exists_record_of_mem_order hm
  refine ⟨r, hr, rfl, ?_⟩
  have htwins : ∀ r', gp.get? r.identity = some r' → RuleTable.Twins r.artifact r'.artifact := by
    intro r' hget
    obtain ⟨hr', hidentity⟩ := ModuleGraph.mem_of_get? hget
    exact twins_of_makes hrules himports hd hp (hgd.described r hr).makes
      (hidentity ▸ (hgp.described r' hr').makes)
  rcases ReflTransGen.cases_head hpath with rfl | ⟨target, hlink, _⟩
  · obtain ⟨r', hget, hkind⟩ := hs
    exact (htwins r' hget).extracted hkind
  · -- what loads another module imports it, and an asset imports nothing
    obtain ⟨r', hget, d, hsync, _⟩ := hlink
    have htwin := htwins r' hget
    obtain ⟨i', hi', _⟩ := exists_mem_right_of_forall₂
      (hgp.described r' (ModuleGraph.mem_of_get? hget).1).follows.flip d (List.mem_filter.mp hsync).1
    obtain ⟨i, hi, _⟩ := exists_mem_right_of_forall₂ htwin.imports.flip i' hi'
    have hinjected := htwin.injected
    cases hartifact : r.artifact with
    | script => rfl
    | stylesheet => simp [hartifact, Artifact.kind] at hinjected
    | raw | asset => simp [hartifact, Artifact.imports] at hi

/-- The scripts of the page start with the entries. -/
theorem starts_of_modes {entries : List (String × Identity)}
    (hgd : (bd.graphInput files).Complete entries gd)
    (hgp : (bp.graphInput files).Complete entries gp) (hsame : gd.Renames id gp) :
    Starts gp gd.split.startOf? where
  entry i m hm := by
    have hentries : gp.entries = gd.entries := by simp [hsame.entries]
    exact hentries ▸ ((startOf?_eq_some hgd.toWellFormed).mp hm).1
  group i m hm := by
    have hscript := ((startOf?_eq_some hgd.toWellFormed).mp hm).2
    exact (groupOf_rename hsame m).trans (mem_modulesOf_split.mp hscript).1
  styled m hm s hs hpath := by
    have hentries : gp.entries = gd.entries := by simp [hsame.entries]
    have hroots : roots gp = roots gd := by simp [roots_rename hsame]
    rw [hentries] at hm
    have hroot : m ∈ roots gd := mem_roots.mpr (Or.inl hm)
    have hgroup := groupOf_root hgd.toWellFormed hroot
    obtain ⟨r, hr, hidentity, hkind⟩ := script_of_reaches hrules himports hd hp hgd hgp
      (groupOf_eq_some_iff.mp hgroup).1 hs hpath
    refine (startOf?_eq_some hgd.toWellFormed).mpr ⟨?_, ?_⟩
    · rw [hroots, roots_eq hgd.toWellFormed, List.idxOf_append_of_mem hm, ← List.getElem?_map]
      exact List.getElem?_idxOf hm
    · refine mem_modulesOf_split.mpr ⟨hroots ▸ hgroup, r, hr, hidentity, ?_⟩
      exact (chunkKindOf_cases (scriptImported gd) r).2.1 hkind

/-- **PRODUCTION KEEPS THE CASCADE**: of two stylesheets that the scripts of the page apply one after the
other in development, the page for production links the first one first, if something keeps them in
order. The rules are the default ones, and modules import the same in both modes. -/
theorem production_keeps_cascade {signal signal' : CancelSignal} {write write' : Bool}
    (hbuild : (bd.execute signal write files).result = .ok od)
    (hbuild' : (bp.execute signal' write' files).result = .ok op) :
    ∃ gd gp, ((bd.assemble files).exec signal { mode := bd.mode }).1 = .ok (gd, od)
      ∧ ((bp.assemble files).exec signal' { mode := bp.mode }).1 = .ok (gp, op)
      ∧ (Page.linkedStyles gp.split).Nodup
      ∧ ∃ order, Page.Runs (syncTargets gd) [] (Page.starts gd.split) order
        ∧ order.Nodup
        ∧ ∀ s t, gp.IsStylesheet s → gp.IsStylesheet t → [s, t].Sublist order →
            gp.KeepsOrder s t → [s, t].Sublist (Page.linkedStyles gp.split) := by
  obtain ⟨gd, hmade⟩ := exists_assemble_of_execute hbuild
  obtain ⟨gp, hmade'⟩ := exists_assemble_of_execute hbuild'
  obtain ⟨entries, _, hentries, hgraph⟩ := exists_build_of_assemble hmade
  obtain ⟨entries', _, hentries', hgraph'⟩ := exists_build_of_assemble hmade'
  -- the entries are resolved in the same way
  have hconfig : bp.config = bd.config :=
    (graphInput_of_create hp).choose_spec.2.2.trans (graphInput_of_create hd).choose_spec.2.2.symm
  obtain rfl : entries = entries' := by
    refine Except.ok.inj (hentries.symm.trans (Eq.trans ?_ hentries'))
    unfold Bundler.entries
    rw [hconfig]
  have hgd := Graph.complete_of_build hgraph
  have hgp := Graph.complete_of_build hgraph'
  have hsame := (alike_of_create hrules himports hd hp).renames hgraph hgraph'
  have htargets : syncTargets gp = syncTargets gd := by
    funext m
    simpa using syncTargets_rename hsame m
  have hstarts := starts_of_modes hrules himports hd hp hgd hgp hsame
  -- every module loads modules with earlier places, so a run comes to an end
  have hrank : ∀ m, ∀ y ∈ syncTargets gd m, gd.order.idxOf y < gd.order.idxOf m :=
    fun m y hy => hgd.toWellFormed.idxOf_lt_of_loads (mem_syncTargets.mp hy)
  obtain ⟨order, hrun⟩ := Page.Runs.exists_run hrank (gd.order.length + 1)
    (Page.starts gd.split) [] fun m _ => Nat.lt_succ_of_le List.idxOf_le_length
  have hrun' : Page.Runs (syncTargets gp) []
      ((Emit.initialGroups gp.split).filterMap gd.split.startOf?) order := by
    rw [htargets, hsame.initialGroups_eq]
    exact hrun
  refine ⟨gd, gp, hmade, hmade', nodup_linkedStyles hgp.toWellFormed, order, hrun,
    nodup_of_runs hgd.toWellFormed hrun, fun s t hs ht h hkeeps => ?_⟩
  exact hstarts.sublist_linkedStyles hgp.toWellFormed hrun' hs ht (Graph.exists_runs_prefix hgraph')
    h hkeeps

end

/-- The stylesheets of three entries: the first shares one with each of the others. -/
def layers : List (String × String) :=
  [("a.css", "@import './y.css';@import './z.css';"), ("b.css", "@import './z.css';"),
    ("c.css", "@import './y.css';"), ("y.css", "p{top:0}"), ("z.css", "p{top:1px}")]

def layersTree : FileTree :=
  (Graph.projectOf layers).files

def layersConfig : Config :=
  { (Graph.projectOf layers).config with
    entrypoints := [("a", "a.css"), ("b", "b.css"), ("c", "c.css")] }

theorem layers_importsAgree : layersConfig.ImportsAgree layersTree := by
  have hsame : ∀ e ∈ layers,
      Script.applyDefines (layersConfig.defines .development) e.2.toList
        = Script.applyDefines (layersConfig.defines .production) e.2.toList := by
    decide +kernel
  refine Config.importsAgree_of_texts fun content hcontent text htext => ?_
  obtain ⟨e, he, rfl⟩ : ∃ e ∈ layers, content = e.2.toUTF8 := by
    simpa [FileTree.contents, layersTree, Graph.projectOf, layers] using hcontent
  rw [Text.Utf8.decode_toUTF8] at htext
  exact Except.ok.inj htext ▸ hsame e he

/-- The two builds of the stylesheets: the order in which they run, and that in which they are linked. -/
theorem exists_layers_builds :
    ∃ bd gd od bp gp op, BuiltFor .development layersTree layersConfig bd gd od
      ∧ BuiltFor .production layersTree layersConfig bp gp op
      ∧ Page.Runs (syncTargets gd) [] (Page.starts gd.split)
          [⟨["y.css"]⟩, ⟨["z.css"]⟩, ⟨["a.css"]⟩, ⟨["b.css"]⟩, ⟨["c.css"]⟩]
      ∧ Page.linkedStyles gp.split
          = [⟨["z.css"]⟩, ⟨["y.css"]⟩, ⟨["a.css"]⟩, ⟨["b.css"]⟩, ⟨["c.css"]⟩]
      ∧ (∀ e ∈ layers, gp.IsStylesheet ⟨[e.1]⟩)
      ∧ gp.split.groupsOf .entry = [0, 1, 2]
      ∧ gp.split.modulesOf 1 .stylesheet = [⟨["b.css"]⟩] := by
  obtain ⟨bd, gd, od, hbuilt, hstarts, ha, hb, hc, hy, hz⟩ :
      ∃ b g o, BuiltFor .development layersTree layersConfig b g o
        ∧ Page.starts g.split = [⟨["a.css"]⟩, ⟨["b.css"]⟩, ⟨["c.css"]⟩]
        ∧ syncTargets g ⟨["a.css"]⟩ = [⟨["y.css"]⟩, ⟨["z.css"]⟩]
        ∧ syncTargets g ⟨["b.css"]⟩ = [⟨["z.css"]⟩]
        ∧ syncTargets g ⟨["c.css"]⟩ = [⟨["y.css"]⟩]
        ∧ syncTargets g ⟨["y.css"]⟩ = [] ∧ syncTargets g ⟨["z.css"]⟩ = [] :=
    exists_builtFor (by decide +kernel)
  obtain ⟨bp, gp, op, hbuilt', hlinked, hkinds, hentry, hown⟩ :
      ∃ b g o, BuiltFor .production layersTree layersConfig b g o
        ∧ Page.linkedStyles g.split
            = [⟨["z.css"]⟩, ⟨["y.css"]⟩, ⟨["a.css"]⟩, ⟨["b.css"]⟩, ⟨["c.css"]⟩]
        ∧ (∀ e ∈ layers, (g.artifact? ⟨[e.1]⟩).map (·.kind) = some .stylesheet)
        ∧ g.split.groupsOf .entry = [0, 1, 2]
        ∧ g.split.modulesOf 1 .stylesheet = [⟨["b.css"]⟩] :=
    exists_builtFor (by decide +kernel)
  refine ⟨bd, gd, od, bp, gp, op, hbuilt, hbuilt', ?_, hlinked,
    fun e he => ModuleGraph.isStylesheet_iff.mpr (hkinds e he), hentry, hown⟩
  -- a module that has not run yet runs behind what it loads
  have hnext : ∀ {done done' targets : List Identity} {m : Identity}, syncTargets gd m = targets →
      Page.Runs (syncTargets gd) done targets done' → m ∉ done →
      Page.Runs (syncTargets gd) done [m] (done' ++ [m]) :=
    fun heq htargets hnew => .run hnew (heq ▸ htargets) (.nil _)
  have hleaves := (hnext hy (.nil []) (by decide)).append (hnext hz (.nil _) (by decide))
  have hfirst := hnext ha hleaves (by decide)
  have hsecond := hfirst.append (hnext hb (.again (by decide) (.nil _)) (by decide))
  rw [hstarts]
  exact hsecond.append (hnext hc (.again (by decide) (.nil _)) (by decide))

/-- What the first entry loads comes before the second entry, which stays in its own chunk. -/
theorem layers_keep_order :
    ∃ bd gd od bp gp op, BuiltFor .development layersTree layersConfig bd gd od
      ∧ BuiltFor .production layersTree layersConfig bp gp op
      ∧ layersConfig.ownRules = [] ∧ layersConfig.ImportsAgree layersTree
      ∧ gp.IsStylesheet ⟨["y.css"]⟩ ∧ gp.IsStylesheet ⟨["b.css"]⟩
      ∧ gp.KeepsOrder ⟨["y.css"]⟩ ⟨["b.css"]⟩
      ∧ ∃ order, Page.Runs (syncTargets gd) [] (Page.starts gd.split) order
        ∧ [⟨["y.css"]⟩, ⟨["b.css"]⟩].Sublist order
        ∧ [⟨["y.css"]⟩, ⟨["b.css"]⟩].Sublist (Page.linkedStyles gp.split) := by
  obtain ⟨bd, gd, od, bp, gp, op, hbuilt, hbuilt', hrun, _, hkinds, hentry, hown⟩ :=
    exists_layers_builds
  have hy := hkinds ("y.css", "p{top:0}") (by simp [layers])
  have hb := hkinds ("b.css", "@import './z.css';") (by simp [layers])
  have hkeeps : gp.KeepsOrder ⟨["y.css"]⟩ ⟨["b.css"]⟩ := by
    refine .own 1 (hentry ▸ by decide) (ChunkPlan.holds_iff.mpr ⟨.stylesheet, ?_⟩)
    rw [hown]
    exact List.mem_singleton.mpr rfl
  obtain ⟨gd', gp', hmade, hmade', _, order, hrun', _, hcascade⟩ :=
    production_keeps_cascade rfl layers_importsAgree hbuilt.created hbuilt'.created hbuilt.built
      hbuilt'.built
  obtain rfl : gd' = gd := congrArg Prod.fst (Except.ok.inj (hmade.symm.trans hbuilt.assembled))
  obtain rfl : gp' = gp := congrArg Prod.fst (Except.ok.inj (hmade'.symm.trans hbuilt'.assembled))
  obtain rfl := hrun'.unique hrun
  have horder : [(⟨["y.css"]⟩ : Identity), ⟨["b.css"]⟩].Sublist
      [⟨["y.css"]⟩, ⟨["z.css"]⟩, ⟨["a.css"]⟩, ⟨["b.css"]⟩, ⟨["c.css"]⟩] := by decide
  exact ⟨bd, gd', od, bp, gp', op, hbuilt, hbuilt', rfl, layers_importsAgree, hy, hb, hkeeps, _,
    hrun, horder, hcascade _ _ hy hb horder hkeeps⟩

/-- **The cascade can change**: of two stylesheets that the first entry imports, the one that it shares
with the second entry is linked first, and the one that it shares with the third entry is applied first in
development. -/
theorem layers_lose_order :
    ∃ bd gd od bp gp op, BuiltFor .development layersTree layersConfig bd gd od
      ∧ BuiltFor .production layersTree layersConfig bp gp op
      ∧ layersConfig.ownRules = [] ∧ layersConfig.ImportsAgree layersTree
      ∧ gp.IsStylesheet ⟨["y.css"]⟩ ∧ gp.IsStylesheet ⟨["z.css"]⟩
      ∧ ∃ order, Page.Runs (syncTargets gd) [] (Page.starts gd.split) order
        ∧ [⟨["y.css"]⟩, ⟨["z.css"]⟩].Sublist order
        ∧ ¬ [⟨["y.css"]⟩, ⟨["z.css"]⟩].Sublist (Page.linkedStyles gp.split)
        ∧ [⟨["z.css"]⟩, ⟨["y.css"]⟩].Sublist (Page.linkedStyles gp.split) := by
  obtain ⟨bd, gd, od, bp, gp, op, hbuilt, hbuilt', hrun, hlinked, hkinds, _⟩ :=
    exists_layers_builds
  refine ⟨bd, gd, od, bp, gp, op, hbuilt, hbuilt', rfl, layers_importsAgree,
    hkinds ("y.css", "p{top:0}") (by simp [layers]), hkinds ("z.css", "p{top:1px}") (by simp [layers]),
    _, hrun, by decide, ?_⟩
  rw [hlinked]
  decide

end Bundler

end AssetBundler
