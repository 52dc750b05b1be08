/-
  AssetBundler.Proofs.Build.GraphBelow
  ────────────────────────────────
  **THE GRAPH OF A PROJECT WHEREVER IT IS.**

  A tree that has a project at a location reads the same files, transforms
  them in the same way and resolves the same specifiers as the project does at
  the root.  So its modules are those of the project under other names, and
  its graph is the graph of the project under these names:

    • `GraphInput.Moved` — a project, and a tree that has it at a location,
    • `Moved.makes_iff`, `Moved.resolves_iff` — one module,
    • `Moved.reachable_iff`, `Moved.sound_iff`, `Moved.transGen_loads_iff` — all
      that the entries reach,
    • `Moved.exists_build_iff` — when there is a graph,
    • `Moved.rename_eq` — the graph.
-/
import AssetBundler.Proofs.Build.Source
import AssetBundler.Proofs.Build.Trace
import AssetBundler.Proofs.Pattern.Suffix
import AssetBundler.Proofs.Plan.Renamed
import AssetBundler.Proofs.Project.Below

namespace AssetBundler

open FileTree Relation

/-! ## §1. When there is a graph. -/

/-- Whatever the entries of a graph reach can be read, transformed and resolved. -/
theorem GraphInput.Complete.sound {input : GraphInput} {entries : List (String × Identity)}
    {g : ModuleGraph} {m : Identity} (hg : input.Complete entries g)
    (hm : input.Reachable entries m) : input.Sound m := by
  obtain ⟨r, hr, rfl, _⟩ := ModuleGraph.exists_record_of_mem_order (hg.mem_order_iff.mpr hm)
  have hdescribed := hg.described r hr
  refine ⟨r.artifact, hdescribed.makes, fun i hi => ?_⟩
  obtain ⟨d, _, _, _, htarget⟩ := exists_mem_right_of_forall₂ hdescribed.follows i hi
  exact ⟨d.target, htarget⟩

/-- There is a graph of modules that can be handled and do not load each other in a circle. -/
theorem Graph.exists_build {input : GraphInput} {entries : List (String × Identity)}
    (hsound : ∀ m, input.Reachable entries m → input.Sound m)
    (hacyclic : ∀ m, input.Reachable entries m → ¬ TransGen input.Loads m m) (s : Session) :
    ∃ g, ((build input entries).exec .never s).1 = .ok g := by
  obtain ⟨hstop, hgoesOn⟩ := @build_cyclicDependency_iff input entries .never s hsound
  have hne : ((build input entries).exec .never s).1 ≠ .error .cancelled := by
    intro h
    obtain ⟨_, hs⟩ := hstop h
    cases hs
  refine (hgoesOn hne).2.2 ?_
  rintro ⟨m, hm, hcycle⟩
  exact hacyclic m hm hcycle

/-! ## §2. A project and a tree that has it. -/

/-- Every specifier of a project means something inside, whatever module it is in. -/
def Config.SpecifiersInside (config : Config) (table : RuleTable) (project : FileTree) : Prop :=
  ∀ l content, project.entry? l = some (.file content) →
    ∀ a, (table.transform ⟨l⟩ content).2 = .ok a → ∀ i ∈ a.imports,
      Resolve.requestInside config.resolution.extensions project (Resolve.request i.specifier)
        l.dropLast = true

/-- **A project with the default rules, and a tree that has it at a location**, each as a traversal starts
from it. -/
structure GraphInput.Moved (root : Location) (input input' : GraphInput) : Prop where
  rules : input.config.ownRules = []
  compiled : ∃ mode, RuleTable.compile input.config mode = .ok input.table
  config : input.config.placedAt [] = input.config
  config' : input'.config = input.config.placedAt root
  table : input'.table = input.table
  cache : input.cache = []
  cache' : input'.cache = []
  ordinary : input.files.Ordinary
  inside : input.config.SpecifiersInside input.table input.files
  holds : input'.files.Holds input.files root

/-- The names of the module are such as files have. -/
def Identity.IsNamed (m : Identity) : Prop :=
  ∀ n ∈ m.location, IsFileName n

/-- The entries of a project in a tree that has it at a location. -/
def entriesBelow (root : Location) (entries : List (String × Identity)) :
    List (String × Identity) :=
  entries.map fun e => (e.1, e.2.below root)

namespace GraphInput.Moved

variable {root : Location} {input input' : GraphInput} {m m' target target' : Identity}
  {a : Artifact} {i : Import} {entries : List (String × Identity)} {g g' : ModuleGraph}

/-- A module that is made into an artifact is a file. -/
theorem entry?_of_makes (h : input.Moved root input') (hm : m.IsNamed) (ha : input.Makes m a) :
    ∃ content, input.files.entry? m.location = some (.file content)
      ∧ (input.table.transform m content).2 = .ok a := by
  obtain ⟨content, hread, hmade⟩ := ha
  refine ⟨content, h.ordinary.entry?_of_read hm hread, ?_⟩
  unfold artifactFor at hmade
  rwa [h.cache] at hmade

theorem ne_nil_of_makes (h : input.Moved root input') (hm : m.IsNamed) (ha : input.Makes m a) :
    m.location ≠ [] := by
  obtain ⟨content, hentry, _⟩ := h.entry?_of_makes hm ha
  rintro hnil
  rw [hnil] at hentry
  cases hentry

/-- **A module is made into the same artifact.** -/
theorem makes_iff (h : input.Moved root input') (hm : m.IsNamed) :
    input'.Makes (m.below root) a ↔ input.Makes m a := by
  have hread : input'.files.read (m.below root).path = input.files.read m.path :=
    h.holds.read_ofNames h.ordinary.linkFree hm
  have hartifact : ∀ content, input.files.read m.path = .ok content →
      (input'.artifactFor (m.below root) content = .ok a
        ↔ input.artifactFor m content = .ok a) := by
    intro content hcontent
    have hne : m.location ≠ [] := by
      intro hnil
      have hentry := h.ordinary.entry?_of_read hm hcontent
      rw [hnil] at hentry
      cases hentry
    obtain ⟨mode, htable⟩ := h.compiled
    have hsame : (input.table.transform (m.below root) content).2.toOption
        = (input.table.transform m content).2.toOption :=
      RuleTable.transform_below h.rules htable hne content
    unfold artifactFor
    rw [h.cache, h.cache', h.table]
    show (input.table.transform (m.below root) content).2 = .ok a
      ↔ (input.table.transform m content).2 = .ok a
    rw [← toOption_eq_some, hsame, toOption_eq_some]
  constructor
  · rintro ⟨content, hcontent, hmade⟩
    rw [hread] at hcontent
    exact ⟨content, hcontent, (hartifact content hcontent).mp hmade⟩
  · rintro ⟨content, hcontent, hmade⟩
    exact ⟨content, hread.trans hcontent, (hartifact content hcontent).mpr hmade⟩

/-- **A specifier of a module means the same module.** -/
theorem resolves_iff (h : input.Moved root input') (hm : m.IsNamed) (ha : input.Makes m a)
    (hi : i ∈ a.imports) :
    input'.Resolves (m.below root) i target' ↔ ∃ target, input.Resolves m i target
      ∧ target' = target.below root := by
  obtain ⟨content, hentry, hmade⟩ := h.entry?_of_makes hm ha
  have hinside := h.inside m.location content hentry a hmade i hi
  have hsame := Resolve.specifier_below h.holds h.ordinary.linkFree (h.ne_nil_of_makes hm ha) hm
    hinside
  rw [h.config, ← h.config'] at hsame
  unfold Resolves
  rw [← toOption_eq_some, hsame, Option.map_eq_some_iff]
  exact exists_congr fun target => and_congr toOption_eq_some eq_comm

theorem isNamed_of_resolves (h : input.Moved root input') (htarget : input.Resolves m i target) :
    target.IsNamed := by
  obtain ⟨e, he, hlocation⟩ := List.mem_map.mp (Resolve.target_mem_locations htarget)
  intro n hn
  rw [← hlocation] at hn
  exact h.ordinary.names e he n hn

/-! ## §3. All that the entries reach. -/

/-- **The links of a project** lead to the same modules. -/
theorem imports_iff (h : input.Moved root input') (hm : m.IsNamed) :
    input'.Imports (m.below root) target' ↔ ∃ target, input.Imports m target
      ∧ target' = target.below root := by
  constructor
  · rintro ⟨a, ha, i, hi, htarget'⟩
    have hmakes := (h.makes_iff hm).mp ha
    obtain ⟨target, htarget, rfl⟩ := (h.resolves_iff hm hmakes hi).mp htarget'
    exact ⟨target, ⟨a, hmakes, i, hi, htarget⟩, rfl⟩
  · rintro ⟨target, ⟨a, ha, i, hi, htarget⟩, rfl⟩
    exact ⟨a, (h.makes_iff hm).mpr ha, i, hi, (h.resolves_iff hm ha hi).mpr ⟨target, htarget, rfl⟩⟩

theorem loads_iff (h : input.Moved root input') (hm : m.IsNamed) :
    input'.Loads (m.below root) target' ↔ ∃ target, input.Loads m target
      ∧ target' = target.below root := by
  constructor
  · rintro ⟨a, ha, i, hi, hsync, htarget'⟩
    have hmakes := (h.makes_iff hm).mp ha
    obtain ⟨target, htarget, rfl⟩ := (h.resolves_iff hm hmakes hi).mp htarget'
    exact ⟨target, ⟨a, hmakes, i, hi, hsync, htarget⟩, rfl⟩
  · rintro ⟨target, ⟨a, ha, i, hi, hsync, htarget⟩, rfl⟩
    exact ⟨a, (h.makes_iff hm).mpr ha, i, hi, hsync,
      (h.resolves_iff hm ha hi).mpr ⟨target, htarget, rfl⟩⟩

theorem isNamed_of_imports (h : input.Moved root input') (hlink : input.Imports m target) :
    target.IsNamed := by
  obtain ⟨_, _, _, _, htarget⟩ := hlink
  exact h.isNamed_of_resolves htarget

theorem isNamed_of_reachable (h : input.Moved root input') (hentries : ∀ e ∈ entries, e.2.IsNamed)
    (hm : input.Reachable entries m) : m.IsNamed :=
  Reachable.induction hentries (fun _ _ _ hlink => h.isNamed_of_imports hlink) hm

/-- **The entries reach the same modules.** -/
theorem reachable_iff (h : input.Moved root input') (hentries : ∀ e ∈ entries, e.2.IsNamed) :
    input'.Reachable (entriesBelow root entries) m' ↔ ∃ m, input.Reachable entries m
      ∧ m' = m.below root := by
  constructor
  · refine Reachable.induction (motive := fun m' => ∃ m, input.Reachable entries m
      ∧ m' = m.below root) (fun e he => ?_) fun m' target' hm' hlink => ?_
    · obtain ⟨entry, hentry, rfl⟩ := List.mem_map.mp he
      exact ⟨entry.2, .entry input hentry, rfl⟩
    · obtain ⟨m, hm, rfl⟩ := hm'
      obtain ⟨target, hfrom, rfl⟩ := (h.imports_iff (h.isNamed_of_reachable hentries hm)).mp hlink
      exact ⟨target, hm.step hfrom, rfl⟩
  · rintro ⟨m, ⟨e, he, hpath⟩, rfl⟩
    induction hpath with
    | refl => exact .entry input' (List.mem_map.mpr ⟨e, he, rfl⟩)
    | @tail m target hpath hlink ih =>
        have hm := h.isNamed_of_reachable hentries ⟨e, he, hpath⟩
        exact ih.step ((h.imports_iff hm).mpr ⟨target, hlink, rfl⟩)

/-- **The same modules can be handled.** -/
theorem sound_iff (h : input.Moved root input') (hm : m.IsNamed) :
    input'.Sound (m.below root) ↔ input.Sound m := by
  constructor
  · rintro ⟨a, ha, hresolved⟩
    have hmakes := (h.makes_iff hm).mp ha
    refine ⟨a, hmakes, fun i hi => ?_⟩
    obtain ⟨target', htarget'⟩ := hresolved i hi
    obtain ⟨target, htarget, _⟩ := (h.resolves_iff hm hmakes hi).mp htarget'
    exact ⟨target, htarget⟩
  · rintro ⟨a, ha, hresolved⟩
    refine ⟨a, (h.makes_iff hm).mpr ha, fun i hi => ?_⟩
    obtain ⟨target, htarget⟩ := hresolved i hi
    exact ⟨target.below root, (h.resolves_iff hm ha hi).mpr ⟨target, htarget, rfl⟩⟩

/-- **The same modules load each other**, directly or through others. -/
theorem transGen_loads_iff (h : input.Moved root input') (hm : m.IsNamed) :
    TransGen input'.Loads (m.below root) target' ↔ ∃ target, TransGen input.Loads m target
      ∧ target' = target.below root := by
  have hnamed : ∀ {target}, TransGen input.Loads m target → target.IsNamed := by
    intro target hpath
    obtain ⟨_, _, hlink⟩ := TransGen.tail'_iff.mp hpath
    exact h.isNamed_of_imports hlink.imports
  constructor
  · intro hpath
    induction hpath with
    | single hlink =>
        obtain ⟨target, hload, rfl⟩ := (h.loads_iff hm).mp hlink
        exact ⟨target, .single hload, rfl⟩
    | tail _ hlink ih =>
        obtain ⟨middle, hpath, rfl⟩ := ih
        obtain ⟨target, hload, rfl⟩ := (h.loads_iff (hnamed hpath)).mp hlink
        exact ⟨target, hpath.tail hload, rfl⟩
  · rintro ⟨target, hpath, rfl⟩
    induction hpath with
    | single hlink => exact .single ((h.loads_iff hm).mpr ⟨_, hlink, rfl⟩)
    | tail hpath hlink ih =>
        exact ih.tail ((h.loads_iff (hnamed hpath)).mpr ⟨_, hlink, rfl⟩)

/-- **There is a graph of the project just if there is one of the tree.** -/
theorem exists_build_iff (h : input.Moved root input') (hentries : ∀ e ∈ entries, e.2.IsNamed)
    (s s' : Session) :
    (∃ g, ((Graph.build input' (entriesBelow root entries)).exec .never s').1 = .ok g)
      ↔ ∃ g, ((Graph.build input entries).exec .never s).1 = .ok g := by
  constructor
  · rintro ⟨g', hg'⟩
    have hcomplete := Graph.complete_of_build hg'
    refine Graph.exists_build (fun m hm => ?_) (fun m hm hcycle => ?_) s
    · have hnamed := h.isNamed_of_reachable hentries hm
      exact (h.sound_iff hnamed).mp
        (hcomplete.sound ((h.reachable_iff hentries).mpr ⟨m, hm, rfl⟩))
    · have hnamed := h.isNamed_of_reachable hentries hm
      exact hcomplete.not_transGen_loads ((h.reachable_iff hentries).mpr ⟨m, hm, rfl⟩)
        ((h.transGen_loads_iff hnamed).mpr ⟨m, hcycle, rfl⟩)
  · rintro ⟨g, hg⟩
    have hcomplete := Graph.complete_of_build hg
    refine Graph.exists_build (fun m' hm' => ?_) (fun m' hm' hcycle => ?_) s'
    · obtain ⟨m, hm, rfl⟩ := (h.reachable_iff hentries).mp hm'
      exact (h.sound_iff (h.isNamed_of_reachable hentries hm)).mpr (hcomplete.sound hm)
    · obtain ⟨m, hm, rfl⟩ := (h.reachable_iff hentries).mp hm'
      obtain ⟨target, hpath, heq⟩ :=
        (h.transGen_loads_iff (h.isNamed_of_reachable hentries hm)).mp hcycle
      obtain rfl := Identity.below_injective root heq
      exact hcomplete.not_transGen_loads hm hpath

/-! ## §4. The graph. -/

/-- **The dependencies of a module** lead to the same modules. -/
theorem dependencies_eq (h : input.Moved root input') (hm : m.IsNamed) (ha : input.Makes m a)
    {imports : List Import} {ds ds' : List Dependency} (hsub : ∀ i ∈ imports, i ∈ a.imports)
    (hfollows : List.Forall₂ (input.Follows m) imports ds)
    (hfollows' : List.Forall₂ (input'.Follows (m.below root)) imports ds') :
    ds' = ds.map (Dependency.rename (Identity.below root)) := by
  induction hfollows generalizing ds' with
  | nil =>
      cases hfollows'
      rfl
  | @cons i d _ _ hd _ ih =>
      cases hfollows' with
      | @cons _ d' _ _ hd' hrest' =>
          obtain ⟨hi, hsub⟩ := List.forall_mem_cons.mp hsub
          obtain ⟨target, htarget, hsame⟩ := (h.resolves_iff hm ha hi).mp hd'.2.2
          obtain rfl : target = d.target := Except.ok.inj (htarget.symm.trans hd.2.2)
          have hdependency : d' = d.rename (Identity.below root) := by
            obtain ⟨specifier', kind', target'⟩ := d'
            rw [Dependency.rename, Dependency.mk.injEq]
            exact ⟨hd'.1.trans hd.1.symm, hd'.2.1.trans hd.2.1.symm, hsame⟩
          rw [ih hsub hrest', hdependency, List.map_cons]

/-- **The record of a module** is that of the project, under other names. -/
theorem record_eq (h : input.Moved root input') {mode : Mode} {r r' : ModuleRecord}
    (hm : r.identity.IsNamed) (hr : input.Describes r) (hr' : input'.Describes r')
    (hkeeps : input.Keeps mode r) (hkeeps' : input'.Keeps mode r')
    (hsame : r'.identity = r.identity.below root) : r' = r.rename (Identity.below root) := by
  have hne := h.ne_nil_of_makes hm hr.makes
  have hread : input'.files.read r'.identity.path = input.files.read r.identity.path := by
    rw [hsame]
    exact h.holds.read_ofNames h.ordinary.linkFree hm
  have hextension : r'.identity.extension = r.identity.extension := by
    rw [hsame, Identity.extension_below hne]
  have hartifact : r'.artifact = r.artifact := by
    have hmakes' := hr'.makes
    rw [hsame] at hmakes'
    exact ((h.makes_iff hm).mp hmakes').unique hr.makes
  have hdigest : r'.digest = r.digest := by
    obtain ⟨content, hcontent, hdigest, _⟩ := hr.made
    obtain ⟨content', hcontent', hdigest', _⟩ := hr'.made
    obtain rfl := Except.ok.inj (hcontent.symm.trans (hread.symm.trans hcontent'))
    exact hdigest'.trans hdigest.symm
  have hsource : r'.source? = r.source? := by
    obtain ⟨_, content, hcontent, hsource⟩ := hkeeps
    obtain ⟨_, content', hcontent', hsource'⟩ := hkeeps'
    obtain rfl := Except.ok.inj (hcontent.symm.trans (hread.symm.trans hcontent'))
    rw [hsource', hsource, hartifact, Graph.sourceOf, Graph.isScriptSource, hextension]
    rfl
  have hdependencies := h.dependencies_eq hm hr.makes (fun _ hi => hi) hr.follows
    (hartifact ▸ hsame ▸ hr'.follows)
  have hcontentType : r'.contentType = r.contentType := by
    rw [hkeeps'.1, hkeeps.1, hextension]
  obtain ⟨identity', contentType', digest', artifact', dependencies', source?'⟩ := r'
  rw [ModuleRecord.rename, ModuleRecord.mk.injEq]
  exact ⟨hsame, hcontentType, hdigest, hartifact, hdependencies, hsource⟩

/-- A module is found in the tree under its name there. -/
theorem get?_eq (h : input.Moved root input') (hentries : ∀ e ∈ entries, e.2.IsNamed)
    (hg : input.Complete entries g) (hg' : input'.Complete (entriesBelow root entries) g')
    {mode : Mode} (hkeeps : ∀ r ∈ g.records, input.Keeps mode r)
    (hkeeps' : ∀ r' ∈ g'.records, input'.Keeps mode r') (m : Identity) :
    g'.get? (m.below root) = (g.get? m).map (ModuleRecord.rename (Identity.below root)) := by
  have horder : m.below root ∈ g'.order ↔ m ∈ g.order := by
    rw [hg'.mem_order_iff, hg.mem_order_iff, h.reachable_iff hentries]
    constructor
    · rintro ⟨m', hm', heq⟩
      exact Identity.below_injective root heq ▸ hm'
    · exact fun hm => ⟨m, hm, rfl⟩
  cases hr : g.get? m with
  | none =>
      rw [Option.map_none, ← Option.not_isSome_iff_eq_none, ModuleGraph.get?_isSome_iff, horder,
        ← ModuleGraph.get?_isSome_iff, hr]
      exact Bool.false_ne_true
  | some r =>
      obtain ⟨hmem, rfl⟩ := ModuleGraph.mem_of_get? hr
      have hnamed : r.identity.IsNamed := h.isNamed_of_reachable hentries (hg.reachable r hmem)
      obtain ⟨r', hmem', hidentity, hget⟩ :=
        ModuleGraph.exists_record_of_mem_order (horder.mpr (ModuleGraph.mem_order_of_mem hmem))
      rw [hget, h.record_eq hnamed (hg.described r hmem) (hg'.described r' hmem') (hkeeps r hmem)
        (hkeeps' r' hmem') hidentity]
      rfl

/-- **The graph of the tree** is that of the project, under other names. -/
theorem rename_eq (h : input.Moved root input') (hentries : ∀ e ∈ entries, e.2.IsNamed)
    {signal signal' : CancelSignal} {s s' : Session} (hmode : s.mode = s'.mode)
    (hbuild : ((Graph.build input entries).exec signal s).1 = .ok g)
    (hbuild' : ((Graph.build input' (entriesBelow root entries)).exec signal' s').1 = .ok g') :
    g' = g.rename (Identity.below root) := by
  have hg := Graph.complete_of_build hbuild
  have hg' := Graph.complete_of_build hbuild'
  have hkeeps := ((Graph.build_keeps entries signal s).of_ok hbuild).2
  have hkeeps' := ((Graph.build_keeps _ signal' s').of_ok hbuild').2
  rw [← hmode] at hkeeps'
  have hget := h.get?_eq hentries hg hg' hkeeps hkeeps'
  -- the links are those of the project, and so is the walk along them
  have hlinks : ∀ m, g'.links (m.below root) = (g.links m).map (Link.map (Identity.below root)) := by
    intro m
    unfold ModuleGraph.links
    rw [hget]
    cases g.get? m with
    | none => rfl
    | some r =>
        show (r.dependencies.map _).map Dependency.link = (r.dependencies.map Dependency.link).map _
        rw [List.map_map, List.map_map]
        rfl
  have hwalked' := Graph.walked_of_build hbuild'
  have hstart : g'.entries.map (·.2) = (g.entries.map (·.2)).map (Identity.below root) := by
    rw [hg'.entries_eq, hg.entries_eq, entriesBelow, List.map_map, List.map_map]
    rfl
  rw [hstart] at hwalked'
  obtain ⟨order, roots, horder, hroots, hwalked⟩ :=
    hwalked'.of_map (Identity.below_injective root) hlinks
  obtain ⟨rfl, rfl⟩ := (Graph.walked_of_build hbuild).unique hwalked
  -- the records follow from their order
  have hrecords : ∀ {input : GraphInput} {entries} {g : ModuleGraph}, input.Complete entries g →
      g.order.filterMap g.get? = g.records := by
    intro input entries g hg
    unfold ModuleGraph.order
    rw [List.filterMap_map]
    refine (List.filterMap_congr fun r hr => ?_).trans List.filterMap_some
    exact ModuleGraph.get?_of_mem hg.nodup hr
  have hsame : g'.records = g.records.map (ModuleRecord.rename (Identity.below root)) := by
    rw [← hrecords hg', horder, List.filterMap_map, ← hrecords hg, List.map_filterMap]
    exact List.filterMap_congr fun m _ => hget m
  obtain ⟨records', entries', roots'⟩ := g'
  rw [ModuleGraph.rename, ModuleGraph.mk.injEq]
  refine ⟨hsame, ?_, hroots⟩
  rw [hg.entries_eq]
  exact hg'.entries_eq

end GraphInput.Moved

end AssetBundler
