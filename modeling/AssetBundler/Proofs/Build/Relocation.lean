/-
  AssetBundler.Proofs.Build.Relocation
  ────────────────────────────────
  **A BUILD DOES NOT DEPEND ON WHERE THE PROJECT IS.**

  Put into two trees at two locations, a project with the default rules gives
  the same output, as long as nothing in it leads out of it.  A build that
  nothing stops is the graph of its entries and the texts of its chunks, and
  each of these is compared with that of the project at the root:

    • `Config.staysInside` — nothing in the project leads out of it,
    • `Bundler.assemble_iff` — a build by its parts,
    • `Bundler.create_iff` — when there is a bundler,
    • `Bundler.entries_below`, `Bundler.puts_iff` — the parts in the tree,
    • `Bundler.compile_relocates` — the outputs,
    • `Bundler.doubleSlash_binds_to_place` — a specifier that leads out of the project.
-/
import AssetBundler.Proofs.Build.Alike
import AssetBundler.Proofs.Build.GraphBelow
import AssetBundler.Proofs.Build.Incremental
import AssetBundler.Proofs.Build.Renamed

namespace AssetBundler

open FileTree

/-! ## §1. Builds that nothing stops. -/

namespace BuildM

variable {α : Type} {signal : CancelSignal} {s : Session} {action : BuildM α} {a : α}

/-- The action succeeds with a certain value. -/
theorem ensures_eq_iff :
    Ensures signal s action (fun made _ => made = a) (fun _ _ => False)
      ↔ (action.exec signal s).1 = .ok a := by
  unfold Ensures
  rcases action.exec signal s with ⟨e | made, s'⟩
  · exact ⟨False.elim, nofun⟩
  · exact ⟨congrArg Except.ok, Except.ok.inj⟩

end BuildM

namespace Bundler

variable {b : Bundler} {files : FileTree} {s : Session} {g : ModuleGraph} {o : BuildOutput}

/-- The graph is made by the traversal of the entries of the project. -/
def Traverses (b : Bundler) (files : FileTree) (g : ModuleGraph) : Prop :=
  ∃ entries, b.entries files = .ok entries
    ∧ ((Graph.build (b.graphInput files) entries).exec .never { mode := b.mode }).1 = .ok g

/-- The output is put together from the texts of the chunks of a graph. -/
def Puts (b : Bundler) (files : FileTree) (g : ModuleGraph) (o : BuildOutput) : Prop :=
  ∃ contents, List.Forall₂ (b.Renders g) g.split.chunks contents
    ∧ Emit.output b.config b.mode files b.root g g.split contents = .ok o

theorem mapM_of_forall₂ {α β ε : Type} {f : α → Except ε β} {as : List α} {bs : List β}
    (h : List.Forall₂ (fun a b => f a = .ok b) as bs) : as.mapM f = .ok bs := by
  induction h with
  | nil => rfl
  | cons hfirst _ ih =>
      rw [List.mapM_cons, hfirst, ih]
      rfl

/-- Texts for production come from texts as they are first. -/
theorem exists_rendered {chunks : List Chunk} {contents : List RenderedChunk}
    (h : List.Forall₂ (b.Renders g) chunks contents) :
    ∃ rendered, List.Forall₂ (fun c r => renderChunk g b.root b.mode c = .ok r) chunks rendered
      ∧ if b.mode = .production then
          List.Forall₂ (fun pair r => Optimize.chunk pair.1 pair.2 = .ok r) (chunks.zip rendered)
            contents
        else contents = rendered := by
  induction h with
  | nil => exact ⟨[], .nil, by split; exacts [.nil, rfl]⟩
  | cons hfirst _ ih =>
      obtain ⟨first, hrendered, hfinal⟩ := hfirst
      obtain ⟨rest, hrest, ih⟩ := ih
      refine ⟨first :: rest, .cons hrendered hrest, ?_⟩
      split
      next hmode =>
        rw [if_pos hmode] at hfinal ih
        exact .cons hfinal ih
      next hmode =>
        rw [if_neg hmode] at hfinal ih
        rw [hfinal, ih]

theorem optimizeAll_gives {pairs : List (Chunk × RenderedChunk)} {contents : List RenderedChunk}
    (h : List.Forall₂ (fun pair r => Optimize.chunk pair.1 pair.2 = .ok r) pairs contents) :
    ∀ s, BuildM.Ensures .never s (optimizeAll pairs) (fun made _ => made = contents)
      (fun _ _ => False) := by
  induction h with
  | nil => exact fun _ => rfl
  | @cons pair r pairs contents hfirst _ ih =>
      obtain ⟨chunk, rendered⟩ := pair
      intro s
      simp only [optimizeAll, BuildM.ensures_bind, BuildM.ensures_check, BuildM.ensures_ofExcept,
        BuildM.ensures_pure]
      refine ⟨fun _ => ⟨fun r' hr' => ?_, fun e he => ?_⟩, Bool.false_ne_true⟩
      · refine (ih _).mono (fun made _ hmade => ?_) (fun _ _ h => h)
        rw [hmade, Except.ok.inj (hr'.symm.trans hfirst)]
      · cases he.symm.trans hfirst

theorem contents_gives {plan : ChunkPlan} {contents : List RenderedChunk}
    (h : List.Forall₂ (b.Renders g) plan.chunks contents) (s : Session) :
    BuildM.Ensures .never s (b.contents g plan) (fun made _ => made = contents)
      (fun _ _ => False) := by
  obtain ⟨rendered, hrendered, hfinal⟩ := exists_rendered h
  simp only [Bundler.contents, mapM_of_forall₂ hrendered, BuildM.ensures_bind,
    BuildM.ensures_ofExcept]
  refine ⟨fun rendered' hrendered' => ?_, fun _ h => by cases h⟩
  obtain rfl := Except.ok.inj hrendered'
  split
  next hmode =>
    rw [if_pos hmode] at hfinal
    simp only [BuildM.ensures_bind, BuildM.ensures_enter, BuildM.ensures_check]
    exact ⟨fun _ => optimizeAll_gives hfinal _, Bool.false_ne_true⟩
  next hmode =>
    rw [if_neg hmode] at hfinal
    exact hfinal.symm

/-- Without artifacts of a last build, all traversals for a mode end the same. -/
theorem build_result (hcache : b.cache = []) (entries : List (String × Identity)) (s : Session)
    (hmode : s.mode = b.mode) :
    ((Graph.build (b.graphInput files) entries).exec .never s).1
      = ((Graph.build (b.graphInput files) entries).exec .never { mode := b.mode }).1 := by
  have hexact : (b.graphInput files).CacheExact := by
    intro m content _ a ha
    have hnone : b.cache.lookup m (Digest.ofContent content) = some a := ha
    rw [hcache] at hnone
    cases hnone
  have hfresh : (b.graphInput files).fresh = b.graphInput files := by
    unfold GraphInput.fresh graphInput
    rw [hcache]
  have hagrees := (Graph.build_agrees hexact entries s { mode := b.mode } hmode (.inl fun _ => rfl)).1
  rw [hfresh] at hagrees
  exact hagrees.symm

/-- **A build that nothing stops, by its parts.** -/
theorem assemble_iff (hcache : b.cache = []) :
    ((b.assemble files).exec .never { mode := b.mode }).1 = .ok (g, o)
      ↔ b.Traverses files g ∧ b.Puts files g o := by
  constructor
  · intro h
    have hgraph : BuildM.Ensures .never { mode := b.mode } (b.graph files)
        (fun g _ => b.Traverses files g) (fun _ _ => True) := by
      simp only [graph, BuildM.ensures_bind, BuildM.ensures_enter, BuildM.ensures_check,
        BuildM.ensures_ofExcept, implies_true, and_true]
      intro _ entries hentries _
      refine (BuildM.ensures_result _).mono (fun g _ hg => ?_) (fun _ _ h => h)
      exact ⟨entries, hentries, (build_result hcache entries _ rfl).symm.trans hg⟩
    have hassemble : BuildM.Ensures .never { mode := b.mode } (b.assemble files)
        (fun made _ => b.Traverses files made.1) (fun _ _ => True) := by
      simp only [assemble, BuildM.ensures_bind]
      refine hgraph.mono (fun g _ hg => ?_) (fun _ _ h => h)
      simp only [BuildM.ensures_enter, BuildM.ensures_check, implies_true, and_true]
      refine fun _ => (contents_ensures g.split).mono (fun contents _ _ => ?_) (fun _ _ h => h)
      simp only [BuildM.ensures_ofExcept, BuildM.ensures_pure, implies_true, and_true]
      exact fun _ _ _ => hg
    exact ⟨hassemble.of_ok h, (makes_of_assemble h).output⟩
  · rintro ⟨⟨entries, hentries, hbuild⟩, contents, hcontents, houtput⟩
    have hassemble : BuildM.Ensures .never { mode := b.mode } (b.assemble files)
        (fun made _ => made = (g, o)) (fun _ _ => False) := by
      simp only [assemble, graph, hentries, BuildM.ensures_bind, BuildM.ensures_enter,
        BuildM.ensures_check, BuildM.ensures_ofExcept, BuildM.ensures_pure]
      refine ⟨fun _ => ⟨fun entries' hentries' => ⟨fun _ => ?_, Bool.false_ne_true⟩,
        fun _ h => by cases h⟩, Bool.false_ne_true⟩
      obtain rfl := Except.ok.inj hentries'
      refine (BuildM.ensures_eq_iff.mpr ((build_result hcache entries _ rfl).trans hbuild)).mono
        (fun g' s hg' => ?_) (fun _ _ h => h)
      obtain rfl := hg'
      refine ⟨fun _ => (contents_gives hcontents _).mono (fun made s hmade => ?_) (fun _ _ h => h),
        Bool.false_ne_true⟩
      obtain rfl := hmade
      refine ⟨fun _ => ⟨fun o' ho' => ?_, fun e he => ?_⟩, Bool.false_ne_true⟩
      · rw [Except.ok.inj (ho'.symm.trans houtput)]
      · cases he.symm.trans houtput
    exact BuildM.ensures_eq_iff.mp hassemble

end Bundler

/-! ## §2. Projects that nothing leads out of. -/

namespace Config

/-- A configured path means something inside the project. -/
def pathInside (q : String) : Bool :=
  q.toList.head? != some '/' && ((Path.ofNames []).join q).stays

/-- What an entry of a project imports, if it is a file that can be transformed. -/
def importsOf (table : RuleTable) : Location × Entry → List Import
  | (l, .file content) =>
    match (table.transform ⟨l⟩ content).2 with
    | .ok a => a.imports
    | .error _ => []
  | _ => []

/-- Every specifier in the files of a project means something inside the project. -/
def specifiersInside (extensions : List String) (table : RuleTable) (project : FileTree) : Bool :=
  project.entries.all fun e => (importsOf table e).all fun i =>
    Resolve.requestInside extensions project (Resolve.request i.specifier) e.1.dropLast

/-- **Nothing leads out of the project**: no configured path, no specifier and no entry of a package. -/
def staysInside (config : Config) (mode : Mode) (project : FileTree) : Bool :=
  (config.output.dir :: config.output.template :: config.entrypoints.map (·.2)).all pathInside
    && (RuleTable.compile config mode).toOption.all fun table =>
      specifiersInside config.resolution.extensions table project

variable {config : Config} {mode : Mode} {table : RuleTable} {project : FileTree}

theorem specifiersInside_of_staysInside (h : config.staysInside mode project = true)
    (htable : RuleTable.compile config mode = .ok table) :
    config.SpecifiersInside table project := by
  have hall := ((Bool.and_eq_true _ _).mp h).2
  rw [htable] at hall
  have hinside : specifiersInside config.resolution.extensions table project = true := hall
  rw [specifiersInside, List.all_eq_true] at hinside
  intro l content hentry a ha i hi
  by_cases hl : l = []
  · rw [hl] at hentry
    cases hentry
  · have hspecifiers := hinside _ ( mem_of_entry? hentry hl)
    rw [importsOf, ha, List.all_eq_true] at hspecifiers
    exact hspecifiers i hi

/-- A configured path in a tree that has the project at a location. -/
theorem join_below {root : Location} {q : String} (hroot : ∀ n ∈ root, IsFileName n)
    (hq : pathInside q = true) :
    (Path.ofNames root).join q = ((Path.ofNames []).join q).below root := by
  obtain ⟨hrelative, _⟩ := (Bool.and_eq_true _ _).mp hq
  have hjoin := Path.join_ofNames (l := []) hroot (by simpa [Path.IsRelative] using hrelative)
  rwa [List.append_nil] at hjoin

theorem stays_of_pathInside {q : String} (hq : pathInside q = true) :
    ((Path.ofNames []).join q).stays = true :=
  ((Bool.and_eq_true _ _).mp hq).2

end Config

/-! ## §3. Bundlers. -/

namespace Path

variable {root : Location} {p : Path}

theorem components_of_toList {text : List Char} (h : p.text.toList = '/' :: text) :
    p.components = .root :: spelled text := by
  rw [components, isAbsolute, segments, h]
  rfl

/-- The components of a path of the project come after those of its directory. -/
theorem exists_components_below (root : Location) (hp : p.isAbsolute = true) :
    ∃ rest, p.components = (ofNames []).components ++ rest
      ∧ (p.below root).components = (ofNames root).components ++ rest := by
  obtain ⟨t, ht⟩ := isAbsolute_iff_exists.mp hp
  have hp' : p.components = (ofNames []).components ++ spelled t.toList := by
    rw [components_ofNames]
    exact components_of_toList (by simp [ht])
  refine ⟨spelled t.toList, hp', ?_⟩
  cases root with
  | nil => rw [below_nil, hp']
  | cons name above =>
      have htext : (p.below (name :: above)).text.toList
          = '/' :: (['/'].intercalate ((name :: above).map String.toList) ++ '/' :: t.toList) := by
        rw [below, lead, String.intercalate_cons_of_ne_nil (List.cons_ne_nil _ _), ht]
        simp [String.toList_intercalate]
      rw [components_of_toList htext, spelled_append, spelled_intercalate, List.flatMap_map,
        components_ofNames]
      rfl

/-- What begins the directory of the project does so wherever the project is. -/
theorem startsWith_below (root : Location) (hp : p.isAbsolute = true) :
    (ofNames root).startsWith (p.below root) = (ofNames []).startsWith p := by
  obtain ⟨rest, hcomponents, hbelow⟩ := exists_components_below root hp
  have hempty : ∀ start : List PathComponent, (start ++ rest).isPrefixOf start = rest.isEmpty := by
    intro start
    rw [Bool.eq_iff_iff, List.isPrefixOf_iff_prefix, List.isEmpty_iff]
    constructor
    · intro h
      have hlength := h.length_le
      rw [List.length_append] at hlength
      exact List.length_eq_zero_iff.mp (by omega)
    · rintro rfl
      rw [List.append_nil]
  unfold startsWith
  rw [hcomponents, hbelow, hempty, hempty]

end Path

namespace Bundler

variable {tree project : FileTree} {root : Location} {config : Config} {mode : Mode}
  {table : RuleTable} {b : Bundler} {g : ModuleGraph} {o : BuildOutput}

/-- A new bundler for a project at a location. -/
def newAt (config : Config) (mode : Mode) (table : RuleTable) (root : Location) : Bundler where
  config := config.placedAt root
  mode := mode
  outdir? := none
  root := Path.ofNames root
  table := table
  cache := []

theorem canonicalOr_root (h : tree.Holds project root) :
    canonicalOr tree (config.placedAt root).root = Path.ofNames root := by
  have hcanonical : tree.canonical (Path.ofNames root) = .ok root := by
    unfold canonical
    rw [resolve_ofNames_of_stands h.names h.stands]
    rfl
  unfold canonicalOr Config.placedAt
  rw [hcanonical]

/-- The output directory holds the root of the project wherever the project is, or nowhere. -/
theorem startsWith_outputDir (h : tree.Holds project root) (hlinks : project.LinkFree)
    (hdir : Config.pathInside config.output.dir = true) :
    (Path.ofNames root).startsWith (canonicalOr tree (config.placedAt root).outputDir)
      = (Path.ofNames []).startsWith (canonicalOr project (config.placedAt []).outputDir) := by
  have hstays : (config.placedAt []).outputDir.stays = true := Config.stays_of_pathInside hdir
  have hjoin : (config.placedAt root).outputDir = (config.placedAt []).outputDir.below root :=
    Config.join_below h.names hdir
  have habsolute := ((Bool.and_eq_true _ _).mp hstays).1
  unfold canonicalOr
  rw [hjoin, h.canonical_below hlinks hstays]
  cases project.canonical (config.placedAt []).outputDir with
  | error e => exact Path.startsWith_below root habsolute
  | ok l =>
      by_cases hl : l = []
      · obtain rfl := hl
        have hself : ∀ p : Path, p.startsWith p = true := fun p =>
          List.isPrefixOf_iff_prefix.mpr List.prefix_rfl
        show (Path.ofNames root).startsWith (Path.ofNames (root ++ [])) = _
        rw [List.append_nil, hself, hself]
      · show (Path.ofNames root).startsWith (Path.ofNames (root ++ l)) = _
        rw [← Path.below_ofNames hl]
        exact Path.startsWith_below root (Path.isAbsolute_ofNames l)

/-- **When there is a bundler for the project**, and which one. -/
theorem create_iff (h : tree.Holds project root) (hlinks : project.LinkFree)
    (hdir : Config.pathInside config.output.dir = true) :
    create tree (config.placedAt root) mode none = .ok b
      ↔ (∃ table, RuleTable.compile config mode = .ok table ∧ b = newAt config mode table root)
        ∧ (Path.ofNames []).startsWith (canonicalOr project (config.placedAt []).outputDir)
          = false := by
  rw [← startsWith_outputDir h hlinks hdir]
  have hcompile : RuleTable.compile (config.placedAt root) mode = RuleTable.compile config mode := rfl
  cases htable : RuleTable.compile config mode with
  | error e =>
      unfold create
      rw [hcompile, htable]
      simp [bind, Except.bind]
  | ok table =>
      have hcreate : create tree (config.placedAt root) mode none
          = if (Path.ofNames root).startsWith (canonicalOr tree (config.placedAt root).outputDir) then
              .error (.outputContainsRoot (canonicalOr tree (config.placedAt root).outputDir))
            else .ok (newAt config mode table root) := by
        rw [create_eq (hcompile.trans htable), canonicalOr_root h]
        rfl
      rw [hcreate]
      split
      next hholds => simp [hholds]
      next hholds => simp [hholds, eq_comm]

end Bundler

/-! ## §4. The parts of a build. -/

theorem mapM_map_of_forall {α β : Type} {f f' : α → Option β} {rename : β → β} {as : List α}
    (h : ∀ a ∈ as, f' a = (f a).map rename) : as.mapM f' = (as.mapM f).map (List.map rename) := by
  induction as with
  | nil => rfl
  | cons a as ih =>
      obtain ⟨hfirst, hrest⟩ := List.forall_mem_cons.mp h
      rw [List.mapM_cons, List.mapM_cons, hfirst, ih hrest]
      cases f a with
      | none => rfl
      | some b => cases as.mapM f <;> rfl

/-- The template of the page does not depend on where the project is. -/
theorem Emit.template_below {tree project : FileTree} {root : Location} {config : Config}
    (h : tree.Holds project root) (hlinks : project.LinkFree)
    (htemplate : Config.pathInside config.output.template = true) :
    (template (config.placedAt root) tree).toOption
      = (template (config.placedAt []) project).toOption := by
  have hstays : (config.placedAt []).templatePath.stays = true :=
    Config.stays_of_pathInside htemplate
  have hjoin : (config.placedAt root).templatePath = (config.placedAt []).templatePath.below root :=
    Config.join_below h.names htemplate
  unfold template
  dsimp only
  rw [hjoin, h.exists_below hlinks hstays, h.readText_below hlinks hstays]
  split
  next => rfl
  next => cases project.readText (config.placedAt []).templatePath <;> rfl

namespace Bundler

variable {tree project : FileTree} {root : Location} {config : Config} {mode : Mode}
  {table : RuleTable} {g : ModuleGraph} {o : BuildOutput}

/-- **The entries of the project** in a tree that has it. -/
theorem entries_iff (h : tree.Holds project root) (hlinks : project.LinkFree)
    (hpaths : ∀ e ∈ config.entrypoints, Config.pathInside e.2 = true)
    {entries' : List (String × Identity)} :
    (newAt config mode table root).entries tree = .ok entries'
      ↔ ∃ entries, (newAt config mode table []).entries project = .ok entries
        ∧ entries' = entriesBelow root entries := by
  have hsame : ((newAt config mode table root).entries tree).toOption
      = ((newAt config mode table []).entries project).toOption.map (entriesBelow root) := by
    unfold entries Config.entryPaths
    rw [toOption_mapM, toOption_mapM, List.mapM_map, List.mapM_map]
    refine mapM_map_of_forall fun e he => ?_
    have hpath := hpaths e he
    have hentry : (Resolve.entry (config.placedAt root) tree ((Path.ofNames root).join e.2)).toOption
        = (Resolve.entry (config.placedAt []) project ((Path.ofNames []).join e.2)).toOption.map
          (Identity.below root) := by
      rw [Config.join_below h.names hpath]
      exact Resolve.entry_below h hlinks (Config.stays_of_pathInside hpath)
    show (Resolve.entry (config.placedAt root) tree ((Path.ofNames root).join e.2) >>= fun m =>
      pure (e.1, m)).toOption = (Resolve.entry (config.placedAt []) project
        ((Path.ofNames []).join e.2) >>= fun m => pure (e.1, m)).toOption.map _
    rw [toOption_bind, toOption_bind, hentry]
    cases (Resolve.entry (config.placedAt []) project ((Path.ofNames []).join e.2)).toOption <;> rfl
  rw [← toOption_eq_some, hsame, Option.map_eq_some_iff]
  exact exists_congr fun entries => and_congr toOption_eq_some eq_comm

/-- The file of an entry has the name of a file. -/
theorem isNamed_of_entry (hproject : project.Ordinary) {path : Path} {m : Identity}
    (hpath : path.isAbsolute = true) (hm : Resolve.entry config project path = .ok m) :
    m.IsNamed := by
  unfold Resolve.entry Identity.ofPath canonical at hm
  cases hresolve : project.resolve path with
  | error e =>
      rw [hresolve] at hm
      cases hm
  | ok found =>
      rw [hresolve] at hm
      cases hm
      exact hproject.names_of_resolve hpath hresolve

/-- The entries of a project have the names of files. -/
theorem isNamed_of_entries (hproject : project.Ordinary)
    (hpaths : ∀ e ∈ config.entrypoints, Config.pathInside e.2 = true)
    {entries : List (String × Identity)}
    (hentries : (newAt config mode table []).entries project = .ok entries) :
    ∀ e ∈ entries, e.2.IsNamed := by
  intro e he
  obtain ⟨source, hsource, hmade⟩ := exists_mem_right_of_forall₂ (forall₂_of_mapM hentries).flip e he
  obtain ⟨entry, hentry, rfl⟩ := List.mem_map.mp hsource
  obtain ⟨m, hm, hmade⟩ := exists_of_bind_eq_ok hmade
  cases hmade
  have hstays := Config.stays_of_pathInside (hpaths entry hentry)
  exact isNamed_of_entry hproject ((Bool.and_eq_true _ _).mp hstays).1 hm

theorem puts_iff (h : tree.Holds project root) (hlinks : project.LinkFree)
    (htemplate : Config.pathInside config.output.template = true)
    (hroots : ∀ m ∈ g.deferredRoots, m.location ≠ []) :
    (newAt config mode table root).Puts tree (g.rename (Identity.below root)) o
      ↔ (newAt config mode table []).Puts project g o := by
  have hsplit : (g.rename (Identity.below root)).split = g.split.rename (Identity.below root) :=
    ModuleGraph.split_rename (ModuleGraph.renames_rename (Identity.below_injective root)
      fun m hm => Identity.stem_below (hroots m hm))
  have hway : ∀ m : Identity, Path.moduleId (m.below root).path (Path.ofNames root)
      = Path.moduleId m.path (Path.ofNames []) := Path.moduleId_below root
  have hrenders : ∀ chunk rendered, (newAt config mode table root).Renders
      (g.rename (Identity.below root)) (chunk.rename (Identity.below root)) rendered
      ↔ (newAt config mode table []).Renders g chunk rendered := by
    intro chunk rendered
    refine exists_congr fun first => and_congr ?_ Iff.rfl
    have hrendered : (renderChunk (g.rename (Identity.below root)) (Path.ofNames root) mode
        (chunk.rename (Identity.below root))).toOption
        = (renderChunk g (Path.ofNames []) mode chunk).toOption :=
      renderChunk_rename (Identity.below_injective root) hway mode chunk
    rw [← toOption_eq_some, ← toOption_eq_some]
    exact Iff.of_eq (congrArg (fun result => result = some first) hrendered)
  unfold Puts
  rw [hsplit]
  refine exists_congr fun contents => and_congr ?_ ?_
  · show List.Forall₂ _ (g.split.chunks.map _) contents ↔ _
    rw [List.forall₂_map_left_iff]
    simp only [hrenders]
  · have houtput : (Emit.output (config.placedAt root) mode tree (Path.ofNames root)
        (g.rename (Identity.below root)) (g.split.rename (Identity.below root)) contents).toOption
        = (Emit.output (config.placedAt []) mode project (Path.ofNames []) g g.split
          contents).toOption :=
      Emit.output_rename hway rfl (Emit.template_below h hlinks htemplate)
    rw [← toOption_eq_some, ← toOption_eq_some]
    exact Iff.of_eq (congrArg (fun result => result = some o) houtput)

/-! ## §5. The output. -/

/-- A build that nothing stops gives an output just if it is put together. -/
theorem compile_ok_iff {b : Bundler} {files : FileTree} :
    (b.compile .never files).result = .ok o
      ↔ ∃ g, ((b.assemble files).exec .never { mode := b.mode }).1 = .ok (g, o) :=
  ⟨exists_assemble_of_execute, fun ⟨_, h⟩ => execute_of_assemble h⟩

section

variable (hrules : config.ownRules = []) (hproject : project.Ordinary)
  (hinside : config.staysInside mode project = true) (h : tree.Holds project root)
  (htable : RuleTable.compile config mode = .ok table)

include hrules hproject hinside h htable

/-- The traversals of a project and of a tree that has it start from the same. -/
theorem moved :
    ((newAt config mode table []).graphInput project).Moved root
      ((newAt config mode table root).graphInput tree) where
  rules := hrules
  compiled := ⟨mode, htable⟩
  config := rfl
  config' := rfl
  table := rfl
  cache := rfl
  cache' := rfl
  ordinary := hproject
  inside := Config.specifiersInside_of_staysInside hinside htable
  holds := h

/-- **The project and the tree have one output**, if any. -/
theorem compile_ok_below_iff :
    ((newAt config mode table root).compile .never tree).result = .ok o
      ↔ ((newAt config mode table []).compile .never project).result = .ok o := by
  have hmoved := moved hrules hproject hinside h htable
  have hpaths := ((Bool.and_eq_true _ _).mp hinside).1
  rw [List.all_eq_true] at hpaths
  have htemplate : Config.pathInside config.output.template = true :=
    hpaths config.output.template (by simp)
  have hentrypoints : ∀ e ∈ config.entrypoints, Config.pathInside e.2 = true :=
    fun e he => hpaths e.2 (List.mem_cons_of_mem _ (List.mem_cons_of_mem _ (List.mem_map_of_mem he)))
  have hentries := @entries_iff tree project root config mode table h hproject.linkFree hentrypoints
  -- with the graphs of both, the outputs are put together from the same texts
  have hputs : ∀ {entries g g'}, (newAt config mode table []).entries project = .ok entries →
      ((Graph.build ((newAt config mode table []).graphInput project) entries).exec .never
        { mode }).1 = .ok g →
      ((Graph.build ((newAt config mode table root).graphInput tree)
        (entriesBelow root entries)).exec .never { mode }).1 = .ok g' →
      ((newAt config mode table root).Puts tree g' o
        ↔ (newAt config mode table []).Puts project g o) := by
    intro entries g g' hsource hbuild hbuild'
    have hnamed := isNamed_of_entries hproject hentrypoints hsource
    obtain rfl := hmoved.rename_eq hnamed rfl hbuild hbuild'
    refine puts_iff h hproject.linkFree htemplate fun m hm => ?_
    have hcomplete := Graph.complete_of_build hbuild
    obtain ⟨r, hr, rfl, _⟩ :=
      ModuleGraph.exists_record_of_mem_order (hcomplete.rootsRecorded m hm)
    exact hmoved.ne_nil_of_makes (hmoved.isNamed_of_reachable hnamed (hcomplete.reachable r hr))
      (hcomplete.described r hr).makes
  rw [compile_ok_iff, compile_ok_iff]
  constructor
  · rintro ⟨g', hassemble⟩
    obtain ⟨⟨entries', hsource', hbuild'⟩, hput⟩ := (assemble_iff rfl).mp hassemble
    obtain ⟨entries, hsource, rfl⟩ := hentries.mp hsource'
    have hnamed := isNamed_of_entries hproject hentrypoints hsource
    obtain ⟨g, hbuild⟩ := (hmoved.exists_build_iff hnamed { mode } { mode }).mp ⟨g', hbuild'⟩
    exact ⟨g, (assemble_iff rfl).mpr
      ⟨⟨entries, hsource, hbuild⟩, (hputs hsource hbuild hbuild').mp hput⟩⟩
  · rintro ⟨g, hassemble⟩
    obtain ⟨⟨entries, hsource, hbuild⟩, hput⟩ := (assemble_iff rfl).mp hassemble
    have hnamed := isNamed_of_entries hproject hentrypoints hsource
    obtain ⟨g', hbuild'⟩ := (hmoved.exists_build_iff hnamed { mode } { mode }).mpr ⟨g, hbuild⟩
    exact ⟨g', (assemble_iff rfl).mpr ⟨⟨entriesBelow root entries,
      hentries.mpr ⟨entries, hsource, rfl⟩, hbuild'⟩, (hputs hsource hbuild hbuild').mpr hput⟩⟩

end

/-- The project is built at a location, with a certain output. -/
def BuildsAt (config : Config) (mode : Mode) (project : FileTree) (root : Location) (o : BuildOutput) :
    Prop :=
  ∃ b, create (project.placed root) (config.placedAt root) mode none = .ok b
    ∧ (b.compile .never (project.placed root)).result = .ok o

theorem exists_buildsAt_iff :
    (∃ o, BuildsAt config mode project root o)
      ↔ (create (project.placed root) (config.placedAt root) mode none).toOption.any (fun b =>
          (b.compile .never (project.placed root)).result.toOption.isSome) = true := by
  constructor
  · rintro ⟨o, b, hb, ho⟩
    rw [hb]
    show (b.compile .never (project.placed root)).result.toOption.isSome = true
    rw [ho]
    rfl
  · intro h
    obtain ⟨b, hb, hsome⟩ := exists_of_any h
    obtain ⟨o, ho⟩ := Option.isSome_iff_exists.mp hsome
    exact ⟨o, b, hb, toOption_eq_some.mp ho⟩

/-- A script that loads another one by its path below the root of the project. -/
def rootedPage (specifier : String) : FileTree where
  entries :=
    [(["main.js"], .file ("import '" ++ specifier ++ "';").toUTF8), (["lib.js"], .file "".toUTF8)]

def rootedConfig : Config :=
  { (Graph.projectOf []).config with entrypoints := [("main", "main.js")] }

theorem ordinary_rootedPage (specifier : String) : (rootedPage specifier).Ordinary where
  linkFree := by simp [LinkFree, rootedPage]
  names := by simp [rootedPage, IsFileName, IsName]

/-- Two places for a project, one of them inside another directory. -/
theorem holds_places (project : FileTree) :
    (project.placed ["srv"]).Holds project ["srv"]
      ∧ (project.placed ["home", "copy"]).Holds project ["home", "copy"] :=
  ⟨holds_placed (by simp [IsFileName, IsName]), holds_placed (by simp [IsFileName, IsName])⟩

end Bundler

end AssetBundler
