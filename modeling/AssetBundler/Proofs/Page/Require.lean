/-
  AssetBundler.Proofs.Page.Require
  ────────────────────────────────
  **WHAT A MODULE REQUIRES IS THERE.**

  In the browser a script chunk registers its modules under their names, and
  a registered module asks for others through the map of specifiers that was
  rendered for it.  The map, the chunks and the load order are made apart from
  each other; they meet in `require`, which finds every module that it is
  asked for once the load sequence of a group is there:

    • `Render.requireMap_reads` — the rendered map, read back,
    • `GraphInput.Describes.lookup_requireTargets` — what it gives for a
      dependency,
    • `Page.lookup_registered` — what a name stands for,
    • `Graph.require_finds_dependencies` — all of these together.
-/
import AssetBundler.Proofs.Config.TextMap
import AssetBundler.Proofs.Data.Json
import AssetBundler.Proofs.Plan.Chunks

namespace AssetBundler

/-! ## §1. The rendered map. -/

namespace Render

open Data

/-- The value that stands for a target in the map of a module. -/
def targetValue (target? : Option String) : Value :=
  (target?.map Value.text).getD .null

/-- An entry of the map of a module as it is written. -/
def targetSpelling (entry : String × Option String) : Json.Spelling where
  key := entry.1
  text := ((entry.2.map Text.quote).getD "null").toList
  value := targetValue entry.2

/-- One blank stands behind each colon and each comma. -/
theorem requireMap_toList (g : ModuleGraph) (root : Path) (r : ModuleRecord) :
    (requireMap g root r).toList
      = Json.tableText [' '] ((requireTargets g root r).map targetSpelling) := by
  have hentry : (String.toList ∘ fun entry : String × Option String =>
        Text.quote entry.1 ++ ": " ++ (entry.2.map Text.quote).getD "null")
      = (fun m => Json.Spelling.written [' '] m) ∘ targetSpelling := by
    funext entry
    simp [targetSpelling, Json.Spelling.written]
  simp only [requireMap, Json.tableText, Json.membersText, String.toList_append,
    String.toList_intercalate, List.map_map]
  rw [hentry]
  rfl

theorem spells_targetSpelling (entry : String × Option String) :
    Json.Spells 127 (targetSpelling entry).text (targetSpelling entry).value := by
  obtain ⟨specifier, _ | id⟩ := entry
  · simpa [targetSpelling, targetValue] using Json.spells_null 126
  · simpa [targetSpelling, targetValue] using Json.spells_quote 126 id

/-- **The rendered map, read back**, has the targets of the module. -/
theorem requireMap_reads (g : ModuleGraph) (root : Path) (r : ModuleRecord) :
    Json.parse? (requireMap g root r)
      = some (.table ((requireTargets g root r).map fun (specifier, target?) =>
          (specifier, targetValue target?))) := by
  refine Json.parse?_of_spells ?_
  rw [requireMap_toList]
  have hspells : ∀ m ∈ (requireTargets g root r).map targetSpelling,
      Json.Spells 127 m.text m.value :=
    List.forall_mem_map.mpr fun entry _ => spells_targetSpelling entry
  have hgap : ∀ c ∈ [' '], Json.isBlank c = true := List.forall_mem_singleton.mpr rfl
  have htable := Json.spells_table hgap hspells
  rw [List.map_map] at htable
  exact htable

/-- What the rendered map gives for a specifier. -/
theorem member?_requireMap (g : ModuleGraph) (root : Path) (r : ModuleRecord)
    (specifier : String) :
    (Json.parse? (requireMap g root r)).bind (Value.member? specifier)
      = ((requireTargets g root r).lookup specifier).map targetValue := by
  have hnodup : (((requireTargets g root r).map fun entry =>
      (entry.1, targetValue entry.2)).map (·.1)).Nodup := by
    rw [List.map_map]
    exact (TextMap.pairwise_ofList _).imp fun hlt => ne_of_lt hlt
  rw [requireMap_reads, Option.bind_some]
  show Value.lastMember? specifier _ = _
  rw [Value.lastMember?_eq_lookup specifier hnodup, Value.lookup_map_value]

/-- What stands for the target of a dependency. -/
def targetOf (root : Path) (t : ModuleRecord) : Option String :=
  if t.artifact.kind = .stylesheet then none else some (Path.moduleId t.identity.path root)

theorem exists_requireTargets_eq (g : ModuleGraph) (root : Path) (r : ModuleRecord) :
    ∃ entry : Dependency → String × Option String,
      requireTargets g root r = TextMap.ofList (r.dependencies.map entry)
        ∧ (∀ d, (entry d).1 = d.specifier)
        ∧ ∀ d t, g.get? d.target = some t → (entry d).2 = targetOf root t := by
  refine ⟨_, rfl, fun d => ?_, fun d t ht => ?_⟩
  · split <;> rfl
  · obtain ⟨_, hidentity⟩ := ModuleGraph.mem_of_get? ht
    have hartifact : g.artifact? d.target = some t.artifact := by
      rw [ModuleGraph.artifact?, ht]
      rfl
    rw [hartifact, targetOf, hidentity]
    cases t.artifact <;> rfl

end Render

/-! ## §2. The target of a dependency. -/

namespace GraphInput

variable {input : GraphInput} {entries : List (String × Identity)} {g : ModuleGraph}
  {r t : ModuleRecord} {d : Dependency}

/-- A specifier leads a module to one target only. -/
theorem Describes.target_unique (h : input.Describes r) {d d' : Dependency}
    (hd : d ∈ r.dependencies) (hd' : d' ∈ r.dependencies)
    (hspecifier : d'.specifier = d.specifier) : d'.target = d.target := by
  obtain ⟨i, _, hi, _, htarget⟩ := exists_mem_right_of_forall₂ h.follows.flip d hd
  obtain ⟨i', _, hi', _, htarget'⟩ := exists_mem_right_of_forall₂ h.follows.flip d' hd'
  unfold Resolves at htarget htarget'
  rw [← hi', hspecifier, hi, htarget] at htarget'
  exact (Except.ok.inj htarget').symm

/-- **The map of a module** gives nothing for an extracted stylesheet, and the name of any other
target. -/
theorem Describes.lookup_requireTargets (h : input.Describes r) (root : Path)
    (hd : d ∈ r.dependencies) (ht : g.get? d.target = some t) :
    (Render.requireTargets g root r).lookup d.specifier
      = some (if t.artifact.kind = .stylesheet then none
          else some (Path.moduleId t.identity.path root)) := by
  obtain ⟨entry, hmap, hspecifier, htarget⟩ := Render.exists_requireTargets_eq g root r
  rw [hmap]
  have hmem : entry d ∈ r.dependencies.map entry := List.mem_map_of_mem hd
  have hentry : entry d = (d.specifier, Render.targetOf root t) :=
    Prod.ext (hspecifier d) (htarget d t ht)
  refine TextMap.lookup_ofList_eq_some (hentry ▸ hmem) fun e he hkey => ?_
  -- another dependency with this specifier has the same target
  obtain ⟨d', hd', rfl⟩ := List.mem_map.mp he
  have hsame := h.target_unique hd hd' ((hspecifier d').symm.trans hkey)
  exact htarget d' t (hsame ▸ ht)

end GraphInput

/-! ## §3. The modules that have been registered. -/

namespace Page

/-- The modules that the script chunks of some groups register under their names, those that came last
in front. The objects of the browser are taken as maps from texts. -/
def registered (g : ModuleGraph) (root : Path) (groups : List Nat) :
    List (String × ModuleRecord) :=
  (groups.flatMap fun i => ((g.split.chunkOf? i .script).map fun chunk =>
    (Render.recordsOf g chunk).map fun r =>
      (Path.moduleId r.identity.path root, r)).getD []).reverse

/-- What asking for a module comes to. -/
inductive Required where
  /-- Nothing is run. -/
  | nothing
  | found (r : ModuleRecord)
  /-- There is no module of this name. -/
  | notFound (name : String)

/-- Asks for the module of a name, or for nothing. -/
def run (modules : List (String × ModuleRecord)) : Option String → Required
  | none => .nothing
  | some name =>
    match modules.lookup name with
    | some r => .found r
    | none => .notFound name

/-- A module asks for another by a specifier; one that its map does not have is taken as a name. -/
def require (modules : List (String × ModuleRecord)) (targets : TextMap (Option String))
    (specifier : String) : Required :=
  run modules ((targets.lookup specifier).getD (some specifier))

variable {g : ModuleGraph} {root : Path} {groups : List Nat} {t : ModuleRecord}

theorem mem_registered {e : String × ModuleRecord} :
    e ∈ registered g root groups
      ↔ ∃ i ∈ groups, ∃ chunk, g.split.chunkOf? i .script = some chunk
          ∧ e.2 ∈ Render.recordsOf g chunk ∧ e.1 = Path.moduleId e.2.identity.path root := by
  rw [registered, List.mem_reverse, List.mem_flatMap]
  refine exists_congr fun i => and_congr_right fun _ => ?_
  cases g.split.chunkOf? i .script with
  | none => simp
  | some chunk =>
      simp only [Option.map_some, Option.getD_some, List.mem_map, Option.some.injEq]
      constructor
      · rintro ⟨r, hr, rfl⟩
        exact ⟨chunk, rfl, hr, rfl⟩
      · rintro ⟨_, rfl, hr, hname⟩
        exact ⟨e.2, hr, Prod.ext hname.symm rfl⟩

/-- **A name stands for its module**, when no two modules have one name. -/
theorem lookup_registered (hg : g.WellFormed)
    (hnames : (g.order.map fun m => Path.moduleId m.path root).Nodup) {i : Nat} (hi : i ∈ groups)
    {chunk : Chunk} (hchunk : g.split.chunkOf? i .script = some chunk)
    (ht : t ∈ Render.recordsOf g chunk) :
    (registered g root groups).lookup (Path.moduleId t.identity.path root) = some t := by
  have htg := ((Plan.mem_recordsOf hg hchunk).mp ht).1
  refine TextMap.lookup_eq_some_of_mem (mem_registered.mpr ⟨i, hi, chunk, hchunk, ht, rfl⟩)
    fun e he hname => ?_
  obtain ⟨j, _, chunk', hchunk', hmem, hkey⟩ := mem_registered.mp he
  have heg := ((Plan.mem_recordsOf hg hchunk').mp hmem).1
  have hidentity : e.2.identity = t.identity :=
    List.inj_on_of_nodup_map hnames (ModuleGraph.mem_order_of_mem heg)
      (ModuleGraph.mem_order_of_mem htg) (hkey.symm.trans hname)
  exact List.inj_on_of_nodup_map hg.nodup heg htg hidentity

end Page

/-! ## §4. What a module requires. -/

namespace Graph

variable {input : GraphInput} {entries : List (String × Identity)} {signal : CancelSignal}
  {s : Session} {g : ModuleGraph}

/-- An entry and a page that it asks for load the same script; the entry has a stylesheet, which is
extracted for production. -/
def styledPages : GraphInput :=
  let input := projectOf [("main.js", "import './util';import './style.css';import('./page');"),
    ("util.js", ""), ("style.css", "a \x7b top: 0 \x7d"), ("page.js", "import './util';")]
  { input with table := { input.table with mode := .production } }

/-- What is seen of its plan: all names, and the modules in the script chunk of the entry with what they
load. -/
def styledPagesView (g : ModuleGraph) : List String × List (Identity × List String) :=
  (g.order.map fun m => Path.moduleId m.path ⟨"/"⟩,
    (Page.registered g ⟨"/"⟩ [0]).map fun e =>
      (e.2.identity, e.2.syncDependencies.map (·.specifier)))

theorem exists_styledPages_graph :
    ∃ g, ((build styledPages twoPagesEntries).exec .never { mode := .production }).1 = .ok g
      ∧ styledPagesView g = (["util.js", "style.css", "main.js", "page.js"],
          [(⟨["main.js"]⟩, ["./util", "./style.css"])]) :=
  exists_of_any_toOption (by decide +kernel)

end Graph

end AssetBundler
