/-
  AssetBundler.Proofs.Page.Keys
  ────────────────────────────────
  **MODULES UNDER THEIR NAMES.**

  Three tables have modules under their names: the registered modules of the
  page, the map of deferred modules, and the assets in the manifest.  What is
  put under a name that another module has already takes the place of that.
  The names are ways from the root with slashes for backslashes, so this
  happens to files whose ways differ in these characters only:

    • `Emit.mediaEntries`, `Emit.media_output` — the assets in the manifest,
    • `Bundler.names_tell_modules_apart` — names, and the three tables,
    • `Bundler.backslashes_share_name` — two assets under one name.
-/
import AssetBundler.Proofs.Build.Entries
import AssetBundler.Proofs.Files.Ways
import AssetBundler.Proofs.Page.Listing

namespace AssetBundler

/-! ## §1. Assets in the manifest. -/

namespace Emit

variable {config : Config} {mode : Mode} {files : FileTree} {root : Path} {g : ModuleGraph}
  {plan : ChunkPlan} {contents : List RenderedChunk} {o : BuildOutput} {r : ModuleRecord}

/-- The name of a module with the path of its file, if it is an asset with one. -/
def mediaOf? (root : Path) (r : ModuleRecord) : Option (String × String) :=
  match r.artifact with
  | .asset _ (some file) => some (Path.moduleId r.identity.path root, file.path)
  | _ => none

/-- The paths of assets by the names of their modules, in the order of the graph. -/
def mediaEntries (root : Path) (records : List ModuleRecord) : List (String × String) :=
  records.filterMap (mediaOf? root)

theorem media_addAsset (root : Path) (o : BuildOutput) (r : ModuleRecord) :
    (addAsset root o r).manifest.media
      = match mediaOf? root r with
        | some e => TextMap.insert e.1 e.2 o.manifest.media
        | none => o.manifest.media := by
  unfold addAsset mediaOf?
  cases r.artifact with
  | asset url file? => cases file? <;> rfl
  | _ => rfl

/-- Chunks are no assets. -/
theorem media_foldl_addChunk : ∀ (texts : List (Chunk × RenderedChunk)) (o : BuildOutput),
    (texts.foldl (fun o (chunk, rendered) => addChunk o chunk rendered) o).manifest.media
      = o.manifest.media
  | [], _ => rfl
  | t :: texts, o => by
      have hone : (addChunk o t.1 t.2).manifest.media = o.manifest.media := by
        show (addToManifest o.manifest t.1 (chunkPath t.1 t.2.code)).media = _
        unfold addToManifest
        cases t.1.kind <;> rfl
      rw [List.foldl_cons, media_foldl_addChunk texts, hone]

theorem media_foldl_addAsset (h : o.manifest.media = []) (records : List ModuleRecord) :
    (records.foldl (addAsset root) o).manifest.media
      = TextMap.ofList (mediaEntries root records) := by
  induction records using List.reverseRecOn with
  | nil => exact h
  | append_singleton records r ih =>
      rw [List.foldl_append, List.foldl_cons, List.foldl_nil, media_addAsset, ih, mediaEntries,
        mediaEntries, List.filterMap_append]
      cases hentry : mediaOf? root r with
      | none => simp [hentry]
      | some e => simp [hentry, TextMap.ofList_concat]

/-- **The assets in the manifest of an output.** -/
theorem media_output (h : output config mode files root g plan contents = .ok o) :
    o.manifest.media = TextMap.ofList (mediaEntries root g.records) := by
  obtain ⟨text, paged, _, hpaged, ho⟩ := exists_withPage_of_output h
  have hcontent : (contentOutput g root plan contents).manifest.media
      = TextMap.ofList (mediaEntries root g.records) :=
    media_foldl_addAsset (media_foldl_addChunk _ {}) g.records
  have hpage : paged.manifest.media = TextMap.ofList (mediaEntries root g.records) := by
    rw [hpaged]
    exact hcontent
  rcases ho with rfl | ⟨_, rfl⟩
  · exact hpage
  · exact hpage

/-- The entry of an asset is found, when no two modules have one name. -/
theorem lookup_media (hg : g.WellFormed) (hnames : (g.order.map fun m => Path.moduleId m.path root).Nodup)
    (h : output config mode files root g plan contents = .ok o) (hr : r ∈ g.records)
    {e : String × String} (he : mediaOf? root r = some e) :
    o.manifest.media.lookup (Path.moduleId r.identity.path root) = some e.2 := by
  have hkey : ∀ {r : ModuleRecord} {e : String × String}, mediaOf? root r = some e →
      e.1 = Path.moduleId r.identity.path root := by
    intro r e he
    unfold mediaOf? at he
    split at he
    next =>
      cases he
      rfl
    next => cases he
  rw [media_output h]
  refine TextMap.lookup_ofList_eq_some ?_ fun e' he' hsame => ?_
  · rw [← hkey he]
    exact List.mem_filterMap.mpr ⟨r, hr, he⟩
  · -- what is listed under this name is listed for this module
    obtain ⟨r', hr', hentry'⟩ := List.mem_filterMap.mp he'
    have hidentity : r'.identity = r.identity :=
      List.inj_on_of_nodup_map hnames (ModuleGraph.mem_order_of_mem hr')
        (ModuleGraph.mem_order_of_mem hr) ((hkey hentry').symm.trans hsame)
    obtain rfl := List.inj_on_of_nodup_map hg.nodup hr' hr hidentity
    rw [Option.some.inj (hentry'.symm.trans he)]

end Emit

/-! ## §2. Modules that are registered. -/

namespace Page

variable {g : ModuleGraph} {root : Path} {groups : List Nat}

/-- **Each registered module is found under its name**, when no two modules have one name. -/
theorem lookup_registered_of_mem (hg : g.WellFormed)
    (hnames : (g.order.map fun m => Path.moduleId m.path root).Nodup) {e : String × ModuleRecord}
    (he : e ∈ registered g root groups) :
    (registered g root groups).lookup e.1 = some e.2 := by
  obtain ⟨i, hi, chunk, hchunk, hr, hname⟩ := mem_registered.mp he
  rw [hname]
  exact lookup_registered hg hnames hi hchunk hr

end Page

/-! ## §3. Builds. -/

namespace Bundler

open FileTree AssetBundler.Path

variable {b : Bundler} {files : FileTree} {signal : CancelSignal} {write : Bool} {g : ModuleGraph}
  {o : BuildOutput}

/-- Where no way has a backslash, no two modules of a build have one name. -/
theorem nodup_moduleIds (hfiles : files.Grounded) {root : Location}
    (hroot : ∀ n ∈ root, IsFileName n) (hb : b.root = ofNames root) (h : b.Makes files g o)
    (hplain : ∀ m ∈ g.order, IsPlainWay root m.location) :
    (g.order.map fun m => moduleId m.path b.root).Nodup := by
  obtain ⟨_, _, hg⟩ := h.graph
  refine List.Nodup.map_on ?_ hg.nodup
  intro m hm m' hm' hsame
  rw [hb] at hsame
  have hlocation := moduleId_inj hroot (isFileName_of_mem_order hfiles h hm)
    (isFileName_of_mem_order hfiles h hm') (hplain m hm) (hplain m' hm') hsame
  cases m
  cases m'
  exact congrArg Identity.mk hlocation

/-- **WHAT NAMES TELL APART.**  Two locations have one name just if the steps of their ways from the root
have the same parts between slashes and backslashes; where no step has a backslash, two locations have
two names.  So in a build of such modules every module that has been registered is found under its
name, the map of the page has the files of every group that is loaded on demand under the name of its
root, and the manifest has the path of every asset under the name of its module. -/
theorem names_tell_modules_apart {root : Location} (hroot : ∀ n ∈ root, IsFileName n) :
    (∀ l l' : Location, (∀ n ∈ l, IsFileName n) → (∀ n ∈ l', IsFileName n) →
        (moduleId (ofNames l) (ofNames root) = moduleId (ofNames l') (ofNames root)
            ↔ (way root l).flatMap parts = (way root l').flatMap parts)
          ∧ (IsPlainWay root l → IsPlainWay root l' → l ≠ l' →
            moduleId (ofNames l) (ofNames root) ≠ moduleId (ofNames l') (ofNames root)))
      ∧ ∀ (b : Bundler) (files : FileTree) (signal : CancelSignal) (write : Bool) (o : BuildOutput),
        files.Grounded → b.root = ofNames root → (b.execute signal write files).result = .ok o →
          ∃ g, ((b.assemble files).exec signal { mode := b.mode }).1 = .ok (g, o)
            ∧ ((∀ m ∈ g.order, IsPlainWay root m.location) →
              (g.order.map fun m => moduleId m.path b.root).Nodup
                ∧ (∀ groups, ∀ e ∈ Page.registered g b.root groups,
                  (Page.registered g b.root groups).lookup e.1 = some e.2)
                ∧ (∀ i m, Plan.IsAsync g.split i m →
                  (b.page g o).chunkMap.lookup (moduleId m.path b.root) = some (b.filesFor g o i))
                ∧ ∀ r ∈ g.records, ∀ url file, r.artifact = .asset url (some file) →
                  o.manifest.media.lookup (moduleId r.identity.path b.root) = some file.path) := by
  refine ⟨fun l l' hl hl' => ⟨moduleId_eq_iff hroot hl hl', fun hplain hplain' hne hsame => ?_⟩, ?_⟩
  · exact hne (moduleId_inj hroot hl hl' hplain hplain' hsame)
  · intro b files signal write o hfiles hb hbuild
    obtain ⟨g, hmade⟩ := exists_assemble_of_execute hbuild
    have hmakes := makes_of_assemble hmade
    obtain ⟨⟨entries, _, hg⟩, contents, _, houtput⟩ := hmakes
    have hwf : g.WellFormed := hg.toWellFormed
    refine ⟨g, hmade, fun hplain => ?_⟩
    have hnames := nodup_moduleIds hfiles hroot hb (makes_of_assemble hmade) hplain
    refine ⟨hnames, fun groups e he => Page.lookup_registered_of_mem hwf hnames he, ?_, ?_⟩
    · intro i m hasync
      obtain ⟨hm, hgroup⟩ := (Plan.isAsync_iff hwf).mp hasync
      obtain ⟨hdeferred, hentry⟩ := Plan.mem_asyncRoots.mp hm
      have hown := hasOwnName_of_nodup hwf hnames (hwf.rootsRecorded m hdeferred)
      rw [lookup_chunkMap hwf (Or.inr hdeferred) hgroup hown, if_neg hentry]
    · intro r hr url file hartifact
      exact Emit.lookup_media hwf hnames houtput hr (e := (moduleId r.identity.path b.root, file.path))
        (by simp [Emit.mediaOf?, hartifact])

/-- A project with one entry. -/
def twoFontsConfig : Config :=
  { (Graph.projectOf []).config with
    entrypoints := [("main", "main.js")]
    ownRules := [{ name := "scripts", test := "\\.js$", steps := ["script"] },
      { name := "fonts", test := "\\.woff$", steps := ["file"] }] }

/-- Two fonts, one of them in a directory, and a script that loads both and asks for a page. -/
def twoFontsTree (first : String) : FileTree where
  entries :=
    [(["main.js"], .file ("import './" ++ first ++ "';import './a/b.woff';import('./page');").toUTF8),
      (["a.b.woff"], .file "one".toUTF8), (["a\\b.woff"], .file "one".toUTF8), (["a"], .directory),
      (["a", "b.woff"], .file "two".toUTF8), (["page.js"], .file "".toUTF8)]

/-- The modules of a project whose root is that of the tree. -/
theorem fonts_tell_apart :
    (∀ n ∈ ([] : Location), IsFileName n)
      ∧ ∃ b g o, FirstBuild (twoFontsTree "a.b.woff") twoFontsConfig b g o
        ∧ (g.order.map fun m => moduleId m.path b.root)
          = ["a.b.woff", "a/b.woff", "main.js", "page.js"]
        ∧ (∀ groups, ∀ e ∈ Page.registered g b.root groups,
            (Page.registered g b.root groups).lookup e.1 = some e.2)
        ∧ ∀ i m, Plan.IsAsync g.split i m →
            (b.page g o).chunkMap.lookup (moduleId m.path b.root) = some (b.filesFor g o i) := by
  have hroot : ∀ n ∈ ([] : Location), IsFileName n := List.forall_mem_nil _
  obtain ⟨b, g, o, hbuild, hids, hb, hplain⟩ :
      ∃ b g o, FirstBuild (twoFontsTree "a.b.woff") twoFontsConfig b g o
        ∧ (g.order.map fun m => moduleId m.path b.root)
          = ["a.b.woff", "a/b.woff", "main.js", "page.js"]
        ∧ b.root = ofNames []
        ∧ (g.order.all fun m => (way [] m.location).all fun s => !s.toList.contains '\\') = true :=
    exists_firstBuild (by decide +kernel)
  obtain ⟨g', hmade', happly⟩ := (names_tell_modules_apart hroot).2 b (twoFontsTree "a.b.woff") .never false
    o ⟨List.forall_mem_nil _, stands_nil⟩ hb hbuild.built
  obtain rfl : g' = g := congrArg Prod.fst (Except.ok.inj (hmade'.symm.trans hbuild.assembled))
  obtain ⟨_, hregistered, hmap, _⟩ := happly (by simpa [IsPlainWay] using hplain)
  exact ⟨hroot, b, g', o, hbuild, hids, hregistered, hmap⟩

/-- **Two files with one name.**  One has a backslash where the other has a slash: they are two modules of
a build, and the manifest has the font of one of them only. -/
theorem backslashes_share_name :
    (⟨["a\\b.woff"]⟩ : Identity) ≠ ⟨["a", "b.woff"]⟩
      ∧ (∀ n ∈ ["a\\b.woff"], IsFileName n) ∧ (∀ n ∈ ["a", "b.woff"], IsFileName n)
      ∧ moduleId (ofNames ["a\\b.woff"]) (ofNames []) = moduleId (ofNames ["a", "b.woff"]) (ofNames [])
      ∧ ∃ b g o, FirstBuild (twoFontsTree "a\\\\b.woff") twoFontsConfig b g o
        ∧ g.order = [⟨["a\\b.woff"]⟩, ⟨["a", "b.woff"]⟩, ⟨["main.js"]⟩, ⟨["page.js"]⟩]
        ∧ o.manifest.media = [("a/b.woff", "static/media/b.3fc4ccfe.woff")] := by
  refine ⟨by decide, ?_, ?_, by decide, exists_firstBuild (by decide +kernel)⟩
  all_goals simp [IsFileName, IsName]

end Bundler

end AssetBundler
