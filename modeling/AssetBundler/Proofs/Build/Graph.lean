/-
  AssetBundler.Proofs.Build.Graph
  ────────────────────────────────
  **WHAT THE GRAPH OF A PROJECT HOLDS.**

  A graph that the traversal gives is acyclic where modules are loaded
  together, because every module stands behind those that it loads.  It holds
  exactly what the entries reach, and the traversal gives it unless such
  modules load each other in a circle:

    • `ModuleGraph.WellFormed.not_transGen_loads` — no module loads itself,
    • `Graph.build_records_reachable_modules` — the records of a graph,
    • `Graph.build_cyclicDependency_iff` — when there is no graph.
-/
import AssetBundler.Proofs.Build.Visit

namespace AssetBundler

open Relation

/-! ## §1. Links between records. -/

namespace ModuleGraph

/-- A dependency of the one module leads to the other. -/
def DependsOn (g : ModuleGraph) (m target : Identity) : Prop :=
  ∃ r, g.get? m = some r ∧ ∃ d ∈ r.dependencies, d.target = target

/-- The one module loads the other together with itself. -/
def Loads (g : ModuleGraph) (m target : Identity) : Prop :=
  ∃ r, g.get? m = some r ∧ ∃ d ∈ r.syncDependencies, d.target = target

theorem mem_order_of_mem {g : ModuleGraph} {r : ModuleRecord} (hr : r ∈ g.records) :
    r.identity ∈ g.order :=
  List.mem_map.mpr ⟨r, hr, rfl⟩

theorem mem_of_get? {g : ModuleGraph} {m : Identity} {r : ModuleRecord} (h : g.get? m = some r) :
    r ∈ g.records ∧ r.identity = m :=
  ⟨List.mem_of_find?_eq_some h, by simpa using List.find?_some h⟩

theorem get?_isSome_iff {g : ModuleGraph} {m : Identity} : (g.get? m).isSome ↔ m ∈ g.order := by
  simp [get?, order]

/-- In a graph without repetition every record is found under its module. -/
theorem get?_of_mem {g : ModuleGraph} (hnodup : g.order.Nodup) {r : ModuleRecord}
    (hr : r ∈ g.records) : g.get? r.identity = some r := by
  obtain ⟨r', hr'⟩ := Option.isSome_iff_exists.mp (get?_isSome_iff.mpr (mem_order_of_mem hr))
  obtain ⟨hmem, hidentity⟩ := mem_of_get? hr'
  rw [hr', List.inj_on_of_nodup_map hnodup hmem hr hidentity]

theorem exists_record_of_mem_order {g : ModuleGraph} {m : Identity} (hm : m ∈ g.order) :
    ∃ r ∈ g.records, r.identity = m ∧ g.get? m = some r := by
  obtain ⟨r, hr⟩ := Option.isSome_iff_exists.mp (get?_isSome_iff.mpr hm)
  exact ⟨r, (mem_of_get? hr).1, (mem_of_get? hr).2, hr⟩

namespace WellFormed

variable {g : ModuleGraph} {m target : Identity}

theorem mem_order_of_loads (hg : g.WellFormed) (h : g.Loads m target) : target ∈ g.order := by
  obtain ⟨r, hr, d, hd, rfl⟩ := h
  exact NeedsFirst.mem hg.placed (mem_of_get? hr).1 (List.mem_map_of_mem hd)

/-- **A module stands strictly behind each of those that it loads.** -/
theorem idxOf_target_lt (hg : g.WellFormed) {r : ModuleRecord} (hr : r ∈ g.records)
    {d : Dependency} (hd : d ∈ r.syncDependencies) :
    g.order.idxOf d.target < g.order.idxOf r.identity :=
  NeedsFirst.idxOf_lt hg.placed hg.nodup hr (List.mem_map_of_mem hd)

theorem idxOf_lt_of_loads (hg : g.WellFormed) (h : g.Loads m target) :
    g.order.idxOf target < g.order.idxOf m := by
  obtain ⟨r, hr, d, hd, rfl⟩ := h
  obtain ⟨hmem, rfl⟩ := mem_of_get? hr
  exact hg.idxOf_target_lt hmem hd

theorem idxOf_lt_of_transGen (hg : g.WellFormed) (h : TransGen g.Loads m target) :
    g.order.idxOf target < g.order.idxOf m := by
  induction h with
  | single hlink => exact hg.idxOf_lt_of_loads hlink
  | tail _ hlink ih => exact (hg.idxOf_lt_of_loads hlink).trans ih

/-- **No module loads itself**, directly or through others. -/
theorem not_transGen_loads (hg : g.WellFormed) : ¬ TransGen g.Loads m m :=
  fun h => Nat.lt_irrefl _ (hg.idxOf_lt_of_transGen h)

end WellFormed

end ModuleGraph

/-! ## §2. The graph and the project. -/

theorem exists_mem_right_of_forall₂ {α β : Type} {R : α → β → Prop} :
    ∀ {as : List α} {bs : List β}, List.Forall₂ R as bs → ∀ a ∈ as, ∃ b ∈ bs, R a b
  | _, _, .cons hab hrest, a, ha => by
      rcases List.mem_cons.mp ha with rfl | ha
      · exact ⟨_, List.mem_cons_self, hab⟩
      · obtain ⟨b, hb, hR⟩ := exists_mem_right_of_forall₂ hrest a ha
        exact ⟨b, List.mem_cons_of_mem _ hb, hR⟩

namespace GraphInput

variable {input : GraphInput} {entries : List (String × Identity)} {g : ModuleGraph}

/-- A dependency is loaded together with its module when the import is. -/
theorem Follows.isSync_eq {m : Identity} {i : Import} {d : Dependency}
    (h : input.Follows m i d) : d.isSync = i.isSync := by
  simp [Dependency.isSync, Import.isSync, h.2.1]

namespace Complete

/-- An import of a recorded module that leads somewhere is among its dependencies. -/
theorem exists_dependency (hg : input.Complete entries g) {m target : Identity}
    (hm : m ∈ g.order) {a : Artifact} (ha : input.Makes m a) {i : Import} (hi : i ∈ a.imports)
    (htarget : input.Resolves m i target) :
    ∃ r, g.get? m = some r ∧ ∃ d ∈ r.dependencies, d.isSync = i.isSync ∧ d.target = target := by
  obtain ⟨r, hr, rfl, hget⟩ := ModuleGraph.exists_record_of_mem_order hm
  have hdescribed := hg.described r hr
  -- the artifact of the record is the one that the project gives
  obtain rfl := ha.unique hdescribed.makes
  obtain ⟨d, hd, hfollows⟩ := exists_mem_right_of_forall₂ hdescribed.follows i hi
  have hsame : d.target = target := Except.ok.inj (hfollows.2.2.symm.trans htarget)
  exact ⟨r, hget, d, hd, hfollows.isSync_eq, hsame⟩

theorem dependsOn_of_imports (hg : input.Complete entries g) {m target : Identity}
    (hm : m ∈ g.order) (h : input.Imports m target) : g.DependsOn m target := by
  obtain ⟨a, ha, i, hi, htarget⟩ := h
  obtain ⟨r, hget, d, hd, _, hsame⟩ := hg.exists_dependency hm ha hi htarget
  exact ⟨r, hget, d, hd, hsame⟩

theorem loads_of_loads (hg : input.Complete entries g) {m target : Identity}
    (hm : m ∈ g.order) (h : input.Loads m target) : g.Loads m target := by
  obtain ⟨a, ha, i, hi, hsync, htarget⟩ := h
  obtain ⟨r, hget, d, hd, hsame, rfl⟩ := hg.exists_dependency hm ha hi htarget
  exact ⟨r, hget, d, List.mem_filter.mpr ⟨hd, hsame.trans hsync⟩, rfl⟩

theorem mem_order_of_dependsOn (hg : input.Complete entries g) {m target : Identity}
    (h : g.DependsOn m target) : target ∈ g.order := by
  obtain ⟨r, hr, d, hd, rfl⟩ := h
  exact hg.closed r (ModuleGraph.mem_of_get? hr).1 d hd

/-- **The recorded modules are those that the entries reach.** -/
theorem mem_order_iff (hg : input.Complete entries g) {m : Identity} :
    m ∈ g.order ↔ input.Reachable entries m := by
  constructor
  · intro hm
    obtain ⟨r, hr, rfl, _⟩ := ModuleGraph.exists_record_of_mem_order hm
    exact hg.reachable r hr
  · intro hm
    refine Reachable.induction ?_ ?_ hm
    · intro e he
      exact hg.entriesRecorded e (hg.entries_eq ▸ he)
    · intro m' target hm' hlink
      exact hg.mem_order_of_dependsOn (hg.dependsOn_of_imports hm' hlink)

/-- What the entries reach in the project they reach in the graph. -/
theorem exists_dependsOn_path (hg : input.Complete entries g) {m : Identity}
    (hm : input.Reachable entries m) : ∃ e ∈ g.entries, ReflTransGen g.DependsOn e.2 m := by
  obtain ⟨e, he, hpath⟩ := hm
  have hentry : e ∈ g.entries := hg.entries_eq ▸ he
  refine ⟨e, hentry, ?_⟩
  clear he
  induction hpath with
  | refl => exact ReflTransGen.refl
  | @tail m' target hpath hlink ih =>
      have hm' : m' ∈ g.order :=
        hg.mem_order_iff.mpr ⟨e, hg.entries_eq ▸ hentry, hpath⟩
      exact ih.tail (hg.dependsOn_of_imports hm' hlink)

theorem mem_order_of_path (hg : input.Complete entries g) {e : String × Identity}
    (he : e ∈ g.entries) {m : Identity} (h : ReflTransGen g.DependsOn e.2 m) : m ∈ g.order := by
  induction h with
  | refl => exact hg.entriesRecorded e he
  | tail _ hlink _ => exact hg.mem_order_of_dependsOn hlink

/-- **Modules that the entries reach do not load each other in a circle** when there is a graph. -/
theorem not_transGen_loads (hg : input.Complete entries g) {m : Identity}
    (hm : input.Reachable entries m) : ¬ TransGen input.Loads m m := by
  -- the links of the project are links of the graph as long as modules are recorded
  have hpath : ∀ target, TransGen input.Loads m target →
      TransGen g.Loads m target ∧ target ∈ g.order := by
    intro target h
    induction h with
    | single hlink =>
        have hlink' := hg.loads_of_loads (hg.mem_order_iff.mpr hm) hlink
        exact ⟨TransGen.single hlink', hg.mem_order_of_loads hlink'⟩
    | tail _ hlink ih =>
        have hlink' := hg.loads_of_loads ih.2 hlink
        exact ⟨ih.1.tail hlink', hg.mem_order_of_loads hlink'⟩
  exact fun h => hg.toWellFormed.not_transGen_loads (hpath m h).1

end Complete

end GraphInput

/-! ## §3. The records of a graph. -/

namespace Graph

variable {input : GraphInput} {entries : List (String × Identity)} {signal : CancelSignal}
  {s : Session}

theorem complete_of_build {g : ModuleGraph}
    (h : ((build input entries).exec signal s).1 = .ok g) : input.Complete entries g :=
  (build_ensures s).of_ok h

theorem fault_of_build {e : BuildError}
    (h : ((build input entries).exec signal s).1 = .error e) : input.Fault entries signal e :=
  (build_ensures s).of_error h

/-- **THE GRAPH OF A PROJECT.**  It has a record for exactly the modules that the entries reach, in the
project as well as through the recorded dependencies.  Its order lists each of them once, strictly
behind those that it loads; each record has what the project says of its module, one dependency for
each import; and the target of a deferred import is an entry or listed once among the deferred
roots. -/
theorem build_records_reachable_modules {g : ModuleGraph}
    (h : ((build input entries).exec signal s).1 = .ok g) :
    g.entries = entries
      ∧ (∀ m, (g.get? m).isSome ↔ input.Reachable entries m)
      ∧ (∀ m, (g.get? m).isSome ↔ ∃ e ∈ g.entries, ReflTransGen g.DependsOn e.2 m)
      ∧ (∀ m, g.order.count m = if (g.get? m).isSome then 1 else 0)
      ∧ (∀ r ∈ g.records, ∀ d ∈ r.syncDependencies,
          g.order.idxOf d.target < g.order.idxOf r.identity)
      ∧ (∀ r ∈ g.records, input.Describes r)
      ∧ ∀ r ∈ g.records, ∀ d ∈ r.dependencies, d.kind = .deferred →
          d.target ∈ g.entries.map (·.2) ∨ g.deferredRoots.count d.target = 1 := by
  have hg : input.Complete entries g := complete_of_build h
  refine ⟨hg.entries_eq, fun m => ?_, fun m => ?_, fun m => ?_, fun r hr d hd => ?_,
    hg.described, fun r hr d hd hkind => ?_⟩
  · rw [ModuleGraph.get?_isSome_iff]
    exact hg.mem_order_iff
  · rw [ModuleGraph.get?_isSome_iff]
    constructor
    · exact fun hm => hg.exists_dependsOn_path (hg.mem_order_iff.mp hm)
    · rintro ⟨e, he, hpath⟩
      exact hg.mem_order_of_path he hpath
  · split
    next hm => exact List.count_eq_one_of_mem hg.nodup (ModuleGraph.get?_isSome_iff.mp hm)
    next hm => exact List.count_eq_zero.mpr fun h => hm (ModuleGraph.get?_isSome_iff.mpr h)
  · exact hg.toWellFormed.idxOf_target_lt hr hd
  · exact (hg.rooted r hr d hd hkind).imp_right (List.count_eq_one_of_mem hg.rootsNodup)

/-- A project whose scripts lie in the root directory, with everything left as it is by default. -/
def projectOf (scripts : List (String × String)) : GraphInput where
  config :=
    { project := ⟨"demo", "0.1.0"⟩, entrypoints := [], output := {}, resolution := {},
      assets := {}, define := [], dev := {}, ownRules := [], root := ⟨"/"⟩ }
  files := { entries := scripts.map fun (name, text) => ([name], .file text.toUTF8) }
  table :=
    { rules := Config.defaultRules.filterMap fun rule => (TransformRule.compile {} rule).toOption
      mode := .development, publicPath := "/", defines := [], assetName := "[name].[ext]" }
  cache := []

/-- An entry that loads a script and asks for a page, which loads the entry. -/
def twoPages : GraphInput :=
  projectOf [("main.js", "import './util';import('./page');"), ("util.js", ""),
    ("page.js", "import './main';")]

/-- Its entries. -/
def twoPagesEntries : List (String × Identity) :=
  [("main", ⟨["main.js"]⟩)]

theorem exists_twoPages_graph :
    ∃ g, ((build twoPages twoPagesEntries).exec .never { mode := .development }).1 = .ok g
      ∧ g.order = [⟨["util.js"]⟩, ⟨["main.js"]⟩, ⟨["page.js"]⟩]
      ∧ g.deferredRoots = [⟨["page.js"]⟩] :=
  exists_of_any_toOption (by decide +kernel)

theorem twoPages_records :
    ∃ g, ((build twoPages twoPagesEntries).exec .never { mode := .development }).1 = .ok g
      ∧ g.entries = twoPagesEntries
      ∧ (∀ m, (g.get? m).isSome ↔ twoPages.Reachable twoPagesEntries m)
      ∧ (∀ m, (g.get? m).isSome ↔ ∃ e ∈ g.entries, ReflTransGen g.DependsOn e.2 m)
      ∧ (∀ m, g.order.count m = if (g.get? m).isSome then 1 else 0)
      ∧ (∀ r ∈ g.records, ∀ d ∈ r.syncDependencies,
          g.order.idxOf d.target < g.order.idxOf r.identity)
      ∧ (∀ r ∈ g.records, twoPages.Describes r)
      ∧ ∀ r ∈ g.records, ∀ d ∈ r.dependencies, d.kind = .deferred →
          d.target ∈ g.entries.map (·.2) ∨ g.deferredRoots.count d.target = 1 := by
  obtain ⟨g, hg, _⟩ := exists_twoPages_graph
  exact ⟨g, hg, build_records_reachable_modules hg⟩

/-! ## §4. Builds that fail. -/

/-- A build of sound modules ends in one of three ways. -/
theorem build_ends (hsound : ∀ m, input.Reachable entries m → input.Sound m) :
    (∃ g, ((build input entries).exec signal s).1 = .ok g)
      ∨ (((build input entries).exec signal s).1 = .error .cancelled ∧ ∃ s', signal s' = true)
      ∨ ∃ cycle, ((build input entries).exec signal s).1 = .error (.cyclicDependency cycle)
          ∧ SimpleCycle input.Loads cycle ∧ ∀ m ∈ cycle, input.Reachable entries m := by
  cases houtcome : ((build input entries).exec signal s).1 with
  | ok g => exact Or.inl ⟨g, rfl⟩
  | error e =>
      rcases (fault_of_build houtcome).of_sound hsound with ⟨rfl, hstop⟩ | ⟨cycle, rfl, hcycle⟩
      · exact Or.inr (Or.inl ⟨rfl, hstop⟩)
      · exact Or.inr (Or.inr ⟨cycle, rfl, hcycle⟩)

/-- **WHEN MODULES LOAD EACH OTHER.**  When every module that the entries reach can be read and
transformed and its specifiers lead somewhere, a build that is not told to stop fails with a cycle just
if one of these modules loads itself, directly or through others.  The cycle that it gives is one of
them, and without any there is a graph, whatever the deferred imports are like. -/
theorem build_cyclicDependency_iff
    (hsound : ∀ m, input.Reachable entries m → input.Sound m) :
    (((build input entries).exec signal s).1 = .error .cancelled → ∃ s', signal s' = true)
      ∧ (((build input entries).exec signal s).1 ≠ .error .cancelled →
        ((∃ cycle, ((build input entries).exec signal s).1 = .error (.cyclicDependency cycle))
            ↔ ∃ m, input.Reachable entries m ∧ TransGen input.Loads m m)
          ∧ (∀ cycle, ((build input entries).exec signal s).1 = .error (.cyclicDependency cycle) →
              SimpleCycle input.Loads cycle ∧ ∀ m ∈ cycle, input.Reachable entries m)
          ∧ ((¬ ∃ m, input.Reachable entries m ∧ TransGen input.Loads m m) →
              ∃ g, ((build input entries).exec signal s).1 = .ok g)) := by
  -- the three ends of a build exclude each other
  rcases @build_ends input entries signal s hsound with
    ⟨g, hg⟩ | ⟨hcancelled, hstop⟩ | ⟨cycle, herror, hsimple, hreach⟩
  · have hnone : ¬ ∃ m, input.Reachable entries m ∧ TransGen input.Loads m m := by
      rintro ⟨m, hm, hpath⟩
      exact (complete_of_build hg).not_transGen_loads hm hpath
    rw [hg]
    exact ⟨nofun, fun _ => ⟨⟨nofun, fun h => absurd h hnone⟩, nofun, fun _ => ⟨g, rfl⟩⟩⟩
  · rw [hcancelled]
    exact ⟨fun _ => hstop, fun h => absurd rfl h⟩
  · have hloop : ∃ m, input.Reachable entries m ∧ TransGen input.Loads m m := by
      obtain ⟨m, hm, hpath⟩ := hsimple.exists_transGen
      exact ⟨m, hreach m hm, hpath⟩
    rw [herror]
    refine ⟨nofun, fun _ => ⟨⟨fun _ => hloop, fun _ => ⟨cycle, rfl⟩⟩, ?_, fun h => absurd hloop h⟩⟩
    intro cycle' h
    injection h with h
    injection h with h
    exact h ▸ ⟨hsimple, hreach⟩

/-- The imports of a module, when it can be read and transformed. -/
def importsOf? (input : GraphInput) (m : Identity) : Option (List Import) := do
  let content ← (input.files.read m.path).toOption
  let a ← (input.artifactFor m content).toOption
  return a.imports

theorem exists_makes_of_importsOf? {m : Identity} {imports : List Import}
    (h : importsOf? input m = some imports) : ∃ a, input.Makes m a ∧ a.imports = imports := by
  unfold importsOf? at h
  cases hread : input.files.read m.path with
  | error e => simp [hread, Except.toOption] at h
  | ok content =>
      cases hmade : input.artifactFor m content with
      | error e => simp [hread, hmade, Except.toOption] at h
      | ok a => exact ⟨a, ⟨content, hread, hmade⟩, by simpa [hread, hmade, Except.toOption] using h⟩

/-- A module with one import. -/
theorem sound_of_importsOf? {m target : Identity} {i : Import}
    (h : importsOf? input m = some [i]) (htarget : input.Resolves m i target) :
    input.Sound m ∧ ∀ target', input.Imports m target' → target' = target := by
  obtain ⟨a, ha, himports⟩ := exists_makes_of_importsOf? h
  refine ⟨⟨a, ha, ?_⟩, ?_⟩
  · intro j hj
    obtain rfl : j = i := by simpa [himports] using hj
    exact ⟨target, htarget⟩
  · rintro target' ⟨b, hb, j, hj, htarget'⟩
    obtain rfl := hb.unique ha
    obtain rfl : j = i := by simpa [himports] using hj
    exact Except.ok.inj (htarget'.symm.trans htarget)

/-- An entry that asks for a script; this one and another load each other. -/
def circle : GraphInput :=
  projectOf [("main.js", "import('./a');"), ("a.js", "import './b';"), ("b.js", "import './a';")]

theorem circle_importsOf? :
    importsOf? circle ⟨["main.js"]⟩ = some [⟨"./a", .deferred⟩]
      ∧ importsOf? circle ⟨["a.js"]⟩ = some [⟨"./b", .static⟩]
      ∧ importsOf? circle ⟨["b.js"]⟩ = some [⟨"./a", .static⟩] := by
  decide +kernel

theorem circle_resolves :
    circle.Resolves ⟨["main.js"]⟩ ⟨"./a", .deferred⟩ ⟨["a.js"]⟩
      ∧ circle.Resolves ⟨["a.js"]⟩ ⟨"./b", .static⟩ ⟨["b.js"]⟩
      ∧ circle.Resolves ⟨["b.js"]⟩ ⟨"./a", .static⟩ ⟨["a.js"]⟩ :=
  ⟨rfl, rfl, rfl⟩

theorem circle_sound {m : Identity} (h : circle.Reachable [("main", ⟨["main.js"]⟩)] m) :
    circle.Sound m := by
  have hmain := sound_of_importsOf? circle_importsOf?.1 circle_resolves.1
  have ha := sound_of_importsOf? circle_importsOf?.2.1 circle_resolves.2.1
  have hb := sound_of_importsOf? circle_importsOf?.2.2 circle_resolves.2.2
  -- nothing but the three scripts is reached
  have hmem : m = ⟨["main.js"]⟩ ∨ m = ⟨["a.js"]⟩ ∨ m = ⟨["b.js"]⟩ := by
    refine GraphInput.Reachable.induction (motive := fun m =>
      m = ⟨["main.js"]⟩ ∨ m = ⟨["a.js"]⟩ ∨ m = ⟨["b.js"]⟩) (by simp) ?_ h
    rintro _ target (rfl | rfl | rfl) hlink
    · exact Or.inr (Or.inl (hmain.2 target hlink))
    · exact Or.inr (Or.inr (ha.2 target hlink))
    · exact Or.inr (Or.inl (hb.2 target hlink))
  rcases hmem with rfl | rfl | rfl
  · exact hmain.1
  · exact ha.1
  · exact hb.1

/-- The script that the entry asks for loads itself through the other. -/
theorem circle_transGen_loads : TransGen circle.Loads ⟨["a.js"]⟩ ⟨["a.js"]⟩ := by
  obtain ⟨a, ha, haImports⟩ := exists_makes_of_importsOf? circle_importsOf?.2.1
  obtain ⟨b, hb, hbImports⟩ := exists_makes_of_importsOf? circle_importsOf?.2.2
  have hab : circle.Loads ⟨["a.js"]⟩ ⟨["b.js"]⟩ :=
    ⟨a, ha, _, haImports ▸ List.mem_cons_self, rfl, circle_resolves.2.1⟩
  have hba : circle.Loads ⟨["b.js"]⟩ ⟨["a.js"]⟩ :=
    ⟨b, hb, _, hbImports ▸ List.mem_cons_self, rfl, circle_resolves.2.2⟩
  exact TransGen.head hab (TransGen.single hba)

theorem circle_reachable : circle.Reachable [("main", ⟨["main.js"]⟩)] ⟨["a.js"]⟩ := by
  obtain ⟨a, ha, himports⟩ := exists_makes_of_importsOf? circle_importsOf?.1
  refine ⟨_, List.mem_cons_self, ReflTransGen.single ⟨a, ha, _, himports ▸ List.mem_cons_self, ?_⟩⟩
  exact circle_resolves.1

theorem circle_fails :
    (∀ m, circle.Reachable [("main", ⟨["main.js"]⟩)] m → circle.Sound m)
      ∧ ∃ cycle, ((build circle [("main", ⟨["main.js"]⟩)]).exec .never
            { mode := .development }).1 = .error (.cyclicDependency cycle)
          ∧ SimpleCycle circle.Loads cycle := by
  refine ⟨fun _ => circle_sound, ?_⟩
  obtain ⟨hstop, hrun⟩ := @build_cyclicDependency_iff circle [("main", ⟨["main.js"]⟩)] .never
    { mode := .development } (fun _ => circle_sound)
  have hgoesOn : ((build circle [("main", ⟨["main.js"]⟩)]).exec .never
      { mode := .development }).1 ≠ .error .cancelled := by
    intro h
    obtain ⟨s', hs'⟩ := hstop h
    cases hs'
  obtain ⟨hiff, hcycle, _⟩ := hrun hgoesOn
  obtain ⟨cycle, herror⟩ := hiff.mpr ⟨_, circle_reachable, circle_transGen_loads⟩
  exact ⟨cycle, herror, (hcycle cycle herror).1⟩

end Graph

end AssetBundler
