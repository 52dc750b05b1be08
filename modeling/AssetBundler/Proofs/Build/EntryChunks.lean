/-
  AssetBundler.Proofs.Build.EntryChunks
  ────────────────────────────────
  **THE ENTRIES IN THE MANIFEST.**

  The names of entries are the keys of a map, so that they differ and no group
  takes another.  The first entry for a module is in the manifest under its
  name, with the file of a chunk that has the module.  A later entry for the
  same module has a group without modules, hence no chunk, and the manifest
  does not know its name:

    • `Config.pairwise_entrypoints` — names in a configuration,
    • `Emit.Emits.lookup_chunkPaths` — what the manifest has under a name,
    • `Bundler.manifest_has_first_entries` — the entries of a build,
    • `Bundler.second_entry_is_left_out` — two entries for one file.
-/
import AssetBundler.Config.Load
import AssetBundler.Proofs.Build.Entries
import AssetBundler.Proofs.Build.Placement
import AssetBundler.Proofs.Plan.EntryNames

namespace AssetBundler

/-! ## §1. Names in a configuration. -/

namespace Config

open Data

theorem Decode.pairwise_textMap {v : Value} {map : TextMap String}
    (h : Decode.textMap v = some map) : (map.map (·.1)).Pairwise (· < ·) := by
  obtain ⟨members, _, h⟩ := Option.bind_eq_some_iff.mp h
  obtain ⟨entries, _, h⟩ := Option.bind_eq_some_iff.mp h
  cases h
  exact TextMap.pairwise_ofList entries

/-- A configuration that a document describes has its entries in the order of their names. -/
theorem Decode.pairwise_entrypoints {root : Path} {v : Value} {config : Config}
    (h : Decode.config root v = some config) :
    (config.entrypoints.map (·.1)).Pairwise (· < ·) := by
  obtain ⟨s, _, h⟩ := Option.bind_eq_some_iff.mp h
  obtain ⟨project, _, h⟩ := Option.bind_eq_some_iff.mp h
  obtain ⟨entrypoints, hentrypoints, h⟩ := Option.bind_eq_some_iff.mp h
  have hsame : config.entrypoints = entrypoints := by
    obtain ⟨output, _, h⟩ := Option.bind_eq_some_iff.mp h
    obtain ⟨resolution, _, h⟩ := Option.bind_eq_some_iff.mp h
    obtain ⟨assets, _, h⟩ := Option.bind_eq_some_iff.mp h
    obtain ⟨define, _, h⟩ := Option.bind_eq_some_iff.mp h
    obtain ⟨dev, _, h⟩ := Option.bind_eq_some_iff.mp h
    obtain ⟨rules, _, h⟩ := Option.bind_eq_some_iff.mp h
    rw [← Option.some.inj h]
  rw [hsame]
  unfold Decode.Section.orElse at hentrypoints
  split at hentrypoints
  next => exact Decode.pairwise_textMap hentrypoints
  next =>
    cases hentrypoints
    exact List.Pairwise.nil

/-- **The names of entries ascend** in a configuration that is accepted. -/
theorem pairwise_entrypoints {files : FileTree} {document : String} {root : Path} {config : Config}
    (h : parse files document root = .ok config) :
    (config.entrypoints.map (·.1)).Pairwise (· < ·) := by
  unfold parse at h
  split at h
  next => cases h
  next config' hconfig =>
    split at h
    next => cases h
    next =>
      cases h
      obtain ⟨v, _, hv⟩ := Option.bind_eq_some_iff.mp hconfig
      exact Decode.pairwise_entrypoints hv

end Config

/-! ## §2. Names in the manifest. -/

namespace Emit.Emits

open BuildOutput

variable {g : ModuleGraph} {o : BuildOutput} {kind : ChunkKind} {name path : String}

/-- **What the manifest has under a name**: the path of the chunk of this kind and name. -/
theorem lookup_chunkPaths (h : Emits g.split o) (hmanifest : o.Consistent) :
    (o.manifest.chunkPaths kind).lookup name = some path
      ↔ ∃ c ∈ o.chunks, c.kind = kind ∧ c.name = name ∧ c.path = path := by
  have hmem : ∀ {e : String × String}, e ∈ o.chunkEntries kind
      ↔ ∃ c ∈ o.chunks, c.kind = kind ∧ (c.name, c.path) = e := by
    intro e
    simp [chunkEntries, and_assoc]
  rw [hmanifest.chunkPaths kind]
  constructor
  · intro hlookup
    obtain ⟨c, hc, hkind, heq⟩ :=
      hmem.mp (TextMap.mem_of_mem_ofList (TextMap.mem_of_lookup_eq_some hlookup))
    obtain ⟨hname, hpath⟩ := Prod.mk.inj heq
    exact ⟨c, hc, hkind, hname, hpath⟩
  · rintro ⟨c, hc, hkind, rfl, rfl⟩
    refine TextMap.lookup_ofList_eq_some (hmem.mpr ⟨c, hc, hkind, rfl⟩) fun e he hsame => ?_
    obtain ⟨c', hc', hkind', rfl⟩ := hmem.mp he
    -- the two are files of one chunk of the plan
    obtain ⟨k, hk⟩ := List.mem_iff_getElem?.mp hc
    obtain ⟨k', hk'⟩ := List.mem_iff_getElem?.mp hc'
    obtain ⟨chunk, rendered, hchunk, rfl⟩ := h.exists_chunk hk
    obtain ⟨chunk', rendered', hchunk', rfl⟩ := h.exists_chunk hk'
    obtain rfl := Plan.eq_of_name_eq hchunk hchunk' (hkind.trans hkind'.symm) hsame.symm
    rw [Option.some.inj (hk.symm.trans hk')]

/-- A name is in the manifest just if it is that of a chunk. -/
theorem isSome_lookup_chunkPaths (h : Emits g.split o) (hmanifest : o.Consistent) :
    (∃ kind, ((o.manifest.chunkPaths kind).lookup name).isSome)
      ↔ ∃ chunk ∈ g.split.chunks, chunk.name = name := by
  constructor
  · rintro ⟨kind, hsome⟩
    obtain ⟨path, hpath⟩ := Option.isSome_iff_exists.mp hsome
    obtain ⟨c, hc, _, hname, _⟩ := (h.lookup_chunkPaths hmanifest).mp hpath
    obtain ⟨k, hk⟩ := List.mem_iff_getElem?.mp hc
    obtain ⟨chunk, rendered, hchunk, rfl⟩ := h.exists_chunk hk
    exact ⟨chunk, List.mem_of_getElem? hchunk, hname⟩
  · rintro ⟨chunk, hchunk, rfl⟩
    obtain ⟨c, hc, rendered, rfl⟩ := exists_mem_right_of_forall₂ h chunk hchunk
    have hpath := (h.lookup_chunkPaths hmanifest).mpr ⟨_, hc, rfl, rfl, rfl⟩
    exact ⟨chunk.kind, Option.isSome_iff_exists.mpr ⟨_, hpath⟩⟩

end Emit.Emits

/-! ## §3. The entries of a build. -/

namespace Bundler

open Plan

variable {g : ModuleGraph} {o : BuildOutput}

/-- Every entry is the first one for its module just if no two have the same. -/
theorem forall_isFirst_iff :
    (∀ i e, g.entries[i]? = some e → IsFirst g i e.2) ↔ (g.entries.map (·.2)).Nodup := by
  rw [List.nodup_iff_pairwise_ne, List.pairwise_map, List.pairwise_iff_getElem]
  constructor
  · intro h j i hj hi hlt
    exact h i _ (List.getElem?_eq_getElem hi) j hlt _ (List.getElem?_eq_getElem hj)
  · intro h i e he j hlt e' he'
    obtain ⟨hi, rfl⟩ := List.getElem?_eq_some_iff.mp he
    obtain ⟨hj, rfl⟩ := List.getElem?_eq_some_iff.mp he'
    exact h j i hj hi hlt

/-- **WHICH ENTRIES THE MANIFEST HAS.**  When a build with an accepted configuration succeeds, the manifest
has the name of an entry, among the scripts or among the stylesheets, just if no entry before it leads
to the same module.  Such an entry has a chunk of its name that holds its module and, if it is a script,
runs it; the manifest has the path of this chunk, and the output its file.  So the manifest has the
names of all entries just if they lead to different modules. -/
theorem manifest_has_first_entries {project files : FileTree} {document : String} {root : Path}
    {config : Config} {mode : Mode} {b : Bundler} {signal : CancelSignal} {write : Bool}
    {o : BuildOutput} (hconfig : Config.parse project document root = .ok config)
    (huse : InUse config mode b) (hbuild : (b.execute signal write files).result = .ok o) :
    ∃ g, ((b.assemble files).exec signal { mode := b.mode }).1 = .ok (g, o)
      ∧ List.Forall₂ (fun p e => e.1 = p.1 ∧ Identity.ofPath files p.2 = .ok e.2) config.entryPaths
          g.entries
      ∧ (∀ i e, g.entries[i]? = some e →
          ((∃ kind, ((o.manifest.chunkPaths kind).lookup e.1).isSome) ↔ IsFirst g i e.2)
          ∧ (IsFirst g i e.2 → ∃ chunk ∈ g.split.chunks, IsOfEntry chunk e
              ∧ ∃ path, (o.manifest.chunkPaths chunk.kind).lookup e.1 = some path
                ∧ (o.file? path).isSome))
      ∧ ((∀ name ∈ config.entrypoints.map (·.1),
            ∃ kind, ((o.manifest.chunkPaths kind).lookup name).isSome)
          ↔ (g.entries.map (·.2)).Nodup) := by
  obtain rfl := huse.equipped.config_eq
  obtain ⟨g, hmade⟩ := exists_assemble_of_execute hbuild
  obtain ⟨⟨entries, hentries, hg⟩, contents, hcontents, houtput⟩ := makes_of_assemble hmade
  obtain rfl := hg.entries_eq
  have hwf : g.WellFormed := hg.toWellFormed
  have hemits : Emit.Emits g.split o := Emit.emits_output houtput hcontents.length_eq
  have hmanifest : o.Consistent := Emit.consistent_output houtput
  have hsame : g.entries.map (·.1) = b.config.entrypoints.map (·.1) := map_fst_entries hentries
  have hnames : (g.entries.map (·.1)).Nodup :=
    hsame ▸ (Config.pairwise_entrypoints hconfig).imp ne_of_lt
  have hnamed : ∀ i e, g.entries[i]? = some e →
      ((∃ kind, ((o.manifest.chunkPaths kind).lookup e.1).isSome) ↔ IsFirst g i e.2) :=
    fun i e he => (hemits.isSome_lookup_chunkPaths hmanifest).trans
      (exists_chunk_named_iff hwf hnames he)
  refine ⟨g, hmade, entries_forall₂ hentries, fun i e he => ⟨hnamed i e he, fun hfirst => ?_⟩, ?_⟩
  · obtain ⟨k, chunk, hchunk, hentry⟩ := exists_chunk_of_entry hwf hnames he hfirst
    have hmem := List.mem_of_getElem? hchunk
    obtain ⟨c, hc, rendered, rfl⟩ := exists_mem_right_of_forall₂ hemits chunk hmem
    refine ⟨chunk, hmem, hentry, _, ?_, hemits.isSome_file? hmanifest hc⟩
    exact (hemits.lookup_chunkPaths hmanifest).mpr ⟨_, hc, rfl, hentry.name, rfl⟩
  · rw [← hsame, ← forall_isFirst_iff]
    constructor
    · intro h i e he
      exact (hnamed i e he).mp (h _ (List.mem_map_of_mem (List.mem_of_getElem? he)))
    · rintro h _ hname
      obtain ⟨e, he, rfl⟩ := List.mem_map.mp hname
      obtain ⟨i, hi⟩ := List.mem_iff_getElem?.mp he
      exact (hnamed i e hi).mpr (h i e hi)

/-- A configuration with three entries, two of them for one file. -/
def againDocument : String :=
  "[project]\nname = \"demo\"\n[entrypoints]\napp = \"app.js\"\nmain = \"main.js\"\nagain = \"main.js\"\n"

/-- The files of these entries, and a script that both import. -/
def againTree : FileTree :=
  (Graph.projectOf [("app.js", "import './util';"), ("main.js", "import './util';"),
    ("util.js", "")]).files

theorem exists_againBuild :
    ∃ config b g o, Config.parse againTree againDocument ⟨"/"⟩ = .ok config
      ∧ FirstBuild againTree config b g o
      ∧ config.entrypoints = [("again", "main.js"), ("app", "app.js"), ("main", "main.js")]
      ∧ g.entries = [("again", ⟨["main.js"]⟩), ("app", ⟨["app.js"]⟩), ("main", ⟨["main.js"]⟩)]
      ∧ o.chunks.map (fun c => (c.name, c.role))
        = [("again", .entry), ("app", .entry), ("common", .shared)]
      ∧ ∀ kind ∈ [ChunkKind.script, .stylesheet], (o.manifest.chunkPaths kind).lookup "main" = none := by
  obtain ⟨config, hconfig, hrun⟩ :
      ∃ config, Config.parse againTree againDocument ⟨"/"⟩ = .ok config
        ∧ (runFirst againTree config).any (fun built => decide
          (config.entrypoints = [("again", "main.js"), ("app", "app.js"), ("main", "main.js")]
            ∧ built.2.1.entries
              = [("again", ⟨["main.js"]⟩), ("app", ⟨["app.js"]⟩), ("main", ⟨["main.js"]⟩)]
            ∧ built.2.2.chunks.map (fun c => (c.name, c.role))
              = [("again", .entry), ("app", .entry), ("common", .shared)]
            ∧ ∀ kind ∈ [ChunkKind.script, .stylesheet],
              (built.2.2.manifest.chunkPaths kind).lookup "main" = none)) = true :=
    exists_of_any_toOption (by decide +kernel)
  obtain ⟨⟨b, g, o⟩, hfirst, hseen⟩ := (Option.any_eq_true _ _).mp hrun
  exact ⟨config, b, g, o, hconfig, firstBuild_of_runFirst hfirst, of_decide_eq_true hseen⟩

/-- The first of the two has a chunk. -/
theorem again_has_chunk :
    ∃ config b g o, Config.parse againTree againDocument ⟨"/"⟩ = .ok config
      ∧ FirstBuild againTree config b g o
      ∧ (∃ kind, ((o.manifest.chunkPaths kind).lookup "again").isSome)
      ∧ ∃ chunk ∈ g.split.chunks, IsOfEntry chunk ("again", ⟨["main.js"]⟩)
        ∧ ∃ path, (o.manifest.chunkPaths chunk.kind).lookup "again" = some path
          ∧ (o.file? path).isSome := by
  obtain ⟨config, b, g, o, hconfig, hbuild, _, hentries, _⟩ := exists_againBuild
  obtain ⟨g', hmade, _, hall, _⟩ :=
    manifest_has_first_entries hconfig (.created hbuild.created) hbuild.built
  obtain rfl : g' = g := congrArg Prod.fst (Except.ok.inj (hmade.symm.trans hbuild.assembled))
  obtain ⟨hiff, hchunk⟩ := hall 0 ("again", ⟨["main.js"]⟩) (by rw [hentries]; rfl)
  have hfirst : IsFirst g' 0 ⟨["main.js"]⟩ := fun j hj => absurd hj (Nat.not_lt_zero j)
  exact ⟨config, b, g', o, hconfig, hbuild, hiff.mpr hfirst, hchunk hfirst⟩

/-- **Two entries for one file**: the configuration is accepted and the build succeeds, but the manifest
does not have the name of the second, and what it shares with the third entry is in a shared chunk. -/
theorem second_entry_is_left_out :
    ∃ config b g o, Config.parse againTree againDocument ⟨"/"⟩ = .ok config
      ∧ FirstBuild againTree config b g o
      ∧ ("main", "main.js") ∈ config.entrypoints
      ∧ o.chunks.map (fun c => (c.name, c.role))
        = [("again", .entry), ("app", .entry), ("common", .shared)]
      ∧ ∀ kind, (o.manifest.chunkPaths kind).lookup "main" = none := by
  obtain ⟨config, b, g, o, hconfig, hbuild, hentrypoints, _, hchunks, hnone⟩ := exists_againBuild
  have hmem : ("main", "main.js") ∈ config.entrypoints := by
    rw [hentrypoints]
    decide
  refine ⟨config, b, g, o, hconfig, hbuild, hmem, hchunks, fun kind => hnone kind ?_⟩
  cases kind <;> decide

end Bundler

end AssetBundler
