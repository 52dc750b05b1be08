/-
  AssetBundler.Proofs.Build.Placement
  ────────────────────────────────
  **WHAT IS PUT INTO AN OUTPUT STAYS THERE.**

  Chunks, source maps, assets, the page and the manifest are put into one map,
  one after the other, and what is put at a path takes the place of what stood
  there.  The paths of chunks are made so that they differ.  Those of assets
  come from templates of the configuration: when these end with a digest, two
  assets with one path have one content; when they do not, an asset may take
  the place of another:

    • `Artifact.NamedBy` — an asset is named after its content,
    • `Bundler.InUse` — bundlers with whatever builds behind them,
    • `Config.KeepsApart` — templates and names under which nothing is lost,
    • `BuildOutput.Keeps` — all that is put into an output is in it,
    • `Bundler.build_keeps_files` — what a build gives,
    • `Bundler.logos_lose_asset` — two assets of one name.
-/
import AssetBundler.Proofs.Build.ChunkFile
import AssetBundler.Proofs.Page.Deferred
import AssetBundler.Proofs.Transform.AssetName

namespace AssetBundler

open AssetBundler.Text

/-! ## §1. Assets are named after their content. -/

/-- The file of an asset has the name that one of the templates gives its content, and the asset has the
address of that file; what stands for the extension has no dot. -/
def Artifact.NamedBy (publicPath : String) (templates : List String) (a : Artifact) : Prop :=
  ∀ url file, a = .asset url (some file) → url = publicPath ++ file.path
    ∧ ∃ template ∈ templates, ∃ stem extension : String, '.' ∉ extension.toList
      ∧ file.path = AssetName.expand template ⟨stem, extension, file.bytes⟩

namespace Artifact.NamedBy

variable {publicPath : String} {templates : List String} {a : Artifact}

theorem of_kind (h : a.kind ≠ .asset) : a.NamedBy publicPath templates := by
  rintro url file rfl
  exact absurd rfl h

theorem emitFile {ctx : StepContext} {bytes : ByteArray} (htemplate : ctx.assetName ∈ templates)
    (hdot : '.' ∉ ctx.extension.toList) :
    (emitFile ctx bytes).NamedBy ctx.publicPath templates := by
  intro url file h
  obtain ⟨hurl, hfile⟩ := Artifact.asset.inj h
  obtain rfl := Option.some.inj hfile
  exact ⟨hurl.symm, ctx.assetName, htemplate, ctx.stem, ctx.extension, hdot, rfl⟩

end Artifact.NamedBy

/-- The extension of a file has no dot. -/
theorem Identity.dot_not_mem_extension (m : Identity) : '.' ∉ m.extension.toList := by
  intro hdot
  unfold Identity.extension at hdot
  cases hname : m.location.getLast? with
  | none => simp [hname] at hdot
  | some name =>
      rw [hname, Option.map_some, Option.bind_some] at hdot
      unfold Path.splitName at hdot
      dsimp only at hdot
      split at hdot
      next => simp at hdot
      next =>
        rw [Option.getD_some, String.toList_ofList, List.mem_reverse] at hdot
        simpa using (List.all_eq_true.mp List.all_takeWhile) '.' hdot

namespace Step

variable {ctx : StepContext} {a b : Artifact} {templates : List String}

/-- **Whatever a step starts from**, an asset that it gives is named after its content. -/
theorem apply_namedBy {step : Step} (htemplate : ctx.assetName ∈ templates)
    (hdot : '.' ∉ ctx.extension.toList) (h : step.apply ctx a = .ok b) :
    b.NamedBy ctx.publicPath templates := by
  cases step with
  | define =>
      change applyDefine ctx a = .ok b at h
      unfold applyDefine at h
      split at h
      next => cases h; exact .of_kind nofun
      next =>
        obtain ⟨text, _, h⟩ := exists_of_bind_eq_ok h
        cases h
        exact .of_kind nofun
  | script =>
      obtain ⟨code, _, h⟩ := exists_of_bind_eq_ok h
      split at h
      next => cases h; exact .of_kind nofun
      next => cases h
  | css =>
      obtain ⟨text, _, h⟩ := exists_of_bind_eq_ok h
      cases h
      exact .of_kind nofun
  | style =>
      change applyStyle a = .ok b at h
      unfold applyStyle at h
      split at h
      next =>
        split at h
        next => cases h; exact .of_kind nofun
        next => cases h
        next => cases h
      next => cases h
  | svg =>
      obtain ⟨markup, _, h⟩ := exists_of_bind_eq_ok h
      split at h
      next => cases h
      next => cases h; exact .of_kind nofun
  | url =>
      obtain ⟨bytes, _, h⟩ := exists_of_bind_eq_ok h
      cases h
      split
      next => exact fun _ _ h => by cases h
      next => exact .emitFile htemplate hdot
  | file =>
      obtain ⟨bytes, _, h⟩ := exists_of_bind_eq_ok h
      cases h
      exact .emitFile htemplate hdot

end Step

namespace RuleTable

theorem runSteps_namedBy {ctx : StepContext} {templates : List String} (htemplate : ctx.assetName ∈ templates)
    (hdot : '.' ∉ ctx.extension.toList) : ∀ {steps : List Step} {a b : Artifact},
      a.NamedBy ctx.publicPath templates → (runSteps ctx steps a).2 = .ok b →
        b.NamedBy ctx.publicPath templates
  | [], a, b, ha, h => by
      cases h
      exact ha
  | step :: rest, a, b, ha, h => by
      unfold runSteps at h
      split at h
      next => cases h
      next next_ happly =>
        exact runSteps_namedBy htemplate hdot (Step.apply_namedBy htemplate hdot happly) h

/-- The templates by which the rules of a table name assets. -/
def templates (table : RuleTable) : List String :=
  table.assetName :: table.rules.map (·.assetName)

/-- **What the rules make of a module** is named after its content. -/
theorem transform_namedBy {table : RuleTable} {m : Identity} {content : ByteArray} {a : Artifact}
    (h : (table.transform m content).2 = .ok a) : a.NamedBy table.publicPath table.templates := by
  unfold transform at h
  split at h
  next rule hrule =>
    have htemplate : rule.assetName ∈ table.templates :=
      List.mem_cons_of_mem _ (List.mem_map_of_mem (List.mem_of_find?_eq_some hrule))
    dsimp only at h
    unfold finished at h
    split at h
    next => cases h
    next => cases h
    next b _ hb =>
      cases h
      have hraw : (Artifact.raw content).NamedBy table.publicPath table.templates := .of_kind nofun
      exact runSteps_namedBy htemplate m.dot_not_mem_extension hraw hb
  next =>
    split at h
    next =>
      cases h
      exact .emitFile List.mem_cons_self m.dot_not_mem_extension
    next => cases h

end RuleTable

/-- The templates by which a project names assets. -/
def Config.assetTemplates (config : Config) : List String :=
  config.assets.name :: config.rules.map fun rule => rule.assetName?.getD config.assets.name

/-- The rules of a project use its templates and its public path. -/
theorem RuleTable.templates_of_compile {config : Config} {mode : Mode} {table : RuleTable}
    (h : compile config mode = .ok table) :
    table.templates = config.assetTemplates ∧ table.publicPath = config.publicPath := by
  obtain ⟨rules, hrules, h⟩ := exists_of_bind_eq_ok h
  cases h
  refine ⟨?_, rfl⟩
  have hnames : ∀ {given : List Config.Rule} {read : List TransformRule},
      List.Forall₂ (fun rule r => TransformRule.compile config.assets rule = .ok r) given read →
        read.map (·.assetName) = given.map fun rule => rule.assetName?.getD config.assets.name := by
    intro given read hread
    induction hread with
    | nil => rfl
    | cons hrule _ ih =>
        rw [List.map_cons, List.map_cons, ih]
        unfold TransformRule.compile at hrule
        split at hrule
        next =>
          obtain ⟨exclude?, _, hrule⟩ := exists_of_bind_eq_ok hrule
          obtain ⟨steps, _, hrule⟩ := exists_of_bind_eq_ok hrule
          cases hrule
          rfl
        next => cases hrule
  exact congrArg (config.assets.name :: ·) (hnames (Bundler.forall₂_of_mapM hrules))

/-! ## §2. Bundlers in use. -/

namespace Bundler

/-- **A bundler in use**: it has been created for a project, and has gone through any builds since. -/
inductive InUse (config : Config) (mode : Mode) : Bundler → Prop
  | created {files : FileTree} {outdir? : Option Path} {b : Bundler}
      (h : create files config mode outdir? = .ok b) : InUse config mode b
  | built {b : Bundler} (hb : InUse config mode b) (signal : CancelSignal) (write : Bool)
      (files : FileTree) : InUse config mode (b.execute signal write files).bundler

variable {b : Bundler} {config : Config} {mode : Mode} {signal : CancelSignal} {write : Bool}
  {files : FileTree} {g : ModuleGraph} {o : BuildOutput}

/-- A build leaves the bundler as it is, or with the artifacts of its own graph. -/
theorem execute_bundler :
    (b.execute signal write files).bundler = b
      ∨ ∃ g o, ((b.assemble files).exec signal { mode := b.mode }).1 = .ok (g, o)
          ∧ (b.execute signal write files).bundler = b.remember g := by
  unfold execute
  rcases (b.assemble files).exec signal { mode := b.mode } with ⟨e | ⟨g, o⟩, s⟩
  · exact Or.inl rfl
  · dsimp only
    split
    next => exact Or.inl rfl
    next files' _ =>
      refine Or.inr ⟨g, o, rfl, ?_⟩
      unfold finish
      rcases (BuildM.enter .done).exec signal s with ⟨_ | _, _⟩ <;> rfl

/-- The artifacts of a graph are named after their content when those of the cache are. -/
theorem Makes.namedBy (h : b.Makes files g o)
    (hcache : ∀ c ∈ b.cache, c.artifact.NamedBy b.table.publicPath b.table.templates) :
    ∀ r ∈ g.records, r.artifact.NamedBy b.table.publicPath b.table.templates := by
  intro r hr
  obtain ⟨entries, _, hg⟩ := h.graph
  obtain ⟨content, _, _, hmade⟩ := (hg.described r hr).made
  unfold GraphInput.artifactFor at hmade
  split at hmade
  next a hlookup =>
    obtain rfl := Except.ok.inj hmade
    exact hcache _ (TransformCache.mem_of_lookup hlookup)
  next => exact RuleTable.transform_namedBy hmade

/-- What holds of a bundler in use. -/
structure Equipped (config : Config) (mode : Mode) (b : Bundler) : Prop where
  config_eq : b.config = config
  mode_eq : b.mode = mode
  table : b.table.templates = config.assetTemplates ∧ b.table.publicPath = config.publicPath
  cache : ∀ c ∈ b.cache, c.artifact.NamedBy b.table.publicPath b.table.templates

/-- **Bundlers in use** keep the configuration and have artifacts that are named after their content. -/
theorem InUse.equipped (h : InUse config mode b) : Equipped config mode b := by
  induction h with
  | created h =>
      obtain ⟨table, htable, h⟩ := exists_of_bind_eq_ok h
      dsimp only at h
      split at h
      next => cases h
      next =>
        cases h
        exact ⟨rfl, rfl, RuleTable.templates_of_compile htable, nofun⟩
  | @built b _ signal write files ih =>
      rcases @execute_bundler b signal write files with heq | ⟨g, o, hmade, heq⟩
      · rw [heq]
        exact ih
      · rw [heq]
        refine ⟨ih.config_eq, ih.mode_eq, ih.table, fun c hc => ?_⟩
        obtain ⟨r, hr, rfl⟩ := List.mem_map.mp hc
        exact (makes_of_assemble hmade).namedBy ih.cache r hr

end Bundler

/-- The file of an asset, if it has one. -/
def Artifact.file? : Artifact → Option AssetFile
  | .asset _ file? => file?
  | _ => none

/-! ## §3. The last that is put at a path. -/

namespace Emit

section

variable {α : Type} {step : BuildOutput → α → BuildOutput} {path : String}

/-- What nothing is put at stays as it is. -/
theorem file?_foldl_of_none {put : α → Option ByteArray}
    (hstep : ∀ o x, (step o x).file? path = (put x).or (o.file? path)) :
    ∀ (xs : List α) (o : BuildOutput), (∀ x ∈ xs, put x = none) →
      (xs.foldl step o).file? path = o.file? path
  | [], _, _ => rfl
  | x :: xs, o, h => by
      rw [List.foldl_cons, file?_foldl_of_none hstep xs _ fun y hy => h y (List.mem_cons_of_mem x hy),
        hstep, h x List.mem_cons_self, Option.none_or]

/-- When only one content is put at a path, it is there in the end. -/
theorem file?_foldl_of_same (put : α → Option ByteArray)
    (hstep : ∀ o x, (step o x).file? path = (put x).or (o.file? path)) {content : ByteArray} : ∀ (xs : List α) (o : BuildOutput),
      (∀ x ∈ xs, ∀ c, put x = some c → c = content) →
      (o.file? path = some content ∨ ∃ x ∈ xs, put x = some content) →
      (xs.foldl step o).file? path = some content := by
  intro xs
  induction xs with
  | nil =>
      intro o _ h
      exact h.resolve_right fun ⟨x, hx, _⟩ => List.not_mem_nil hx
  | cons x xs ih =>
      intro o hsame h
      refine ih (step o x) (fun y hy => hsame y (List.mem_cons_of_mem x hy)) ?_
      rw [hstep]
      cases hput : put x with
      | some c =>
          left
          rw [hsame x List.mem_cons_self c hput, Option.some_or]
      | none =>
          rw [Option.none_or]
          refine h.imp_right ?_
          rintro ⟨y, hy, hcontent⟩
          refine ⟨y, (List.mem_cons.mp hy).resolve_left ?_, hcontent⟩
          rintro rfl
          rw [hput] at hcontent
          cases hcontent

end

variable {config : Config} {mode : Mode} {files : FileTree} {root : Path} {g : ModuleGraph}
  {plan : ChunkPlan} {contents : List RenderedChunk} {o : BuildOutput} {path : String}

/-! ## §4. What chunks and assets put there. -/

/-- What a module with a file puts at a path. -/
def assetAt? (path : String) (r : ModuleRecord) : Option ByteArray :=
  r.artifact.file?.bind fun file => if path = file.path then some file.bytes else none

theorem file?_addAsset (root : Path) (o : BuildOutput) (r : ModuleRecord) :
    (addAsset root o r).file? path = (assetAt? path r).or (o.file? path) := by
  unfold addAsset assetAt?
  split
  next url file ha =>
    rw [ha]
    show (BuildOutput.putFile ..).file? path = _
    rw [BuildOutput.file?_putFile, Artifact.file?, Option.bind_some]
    split <;> rfl
  next hnot =>
    have hnone : r.artifact.file? = none := by
      unfold Artifact.file?
      split
      next url file? ha =>
        cases file? with
        | none => rfl
        | some file => exact absurd ha (hnot url file)
      next => rfl
    rw [hnone]
    rfl

theorem assetAt?_eq_some {r : ModuleRecord} {content : ByteArray} :
    assetAt? path r = some content
      ↔ ∃ file, r.artifact.file? = some file ∧ path = file.path ∧ file.bytes = content := by
  simp [assetAt?, Option.bind_eq_some_iff]

/-- What a chunk with its text puts at a path. -/
def chunkAt? (path : String) (t : Chunk × RenderedChunk) : Option ByteArray :=
  newFile? t.1 t.2 path

theorem isFileOf_of_chunkAt? {t : Chunk × RenderedChunk} {content : ByteArray}
    (h : chunkAt? path t = some content) : IsFileOf t.1 path := by
  by_contra hnot
  rw [chunkAt?, newFile?_eq_none hnot] at h
  cases h

/-- **A file of a chunk** is in the output as its chunk puts it there, when no asset has its path. -/
theorem file?_contentOutput_chunk {k : Nat} {chunk : Chunk} {rendered : RenderedChunk} (hchunk : g.split.chunks[k]? = some chunk)
    (hrendered : contents[k]? = some rendered) {content : ByteArray}
    (hput : newFile? chunk rendered path = some content)
    (hassets : ∀ r ∈ g.records, ∀ file, r.artifact.file? = some file → path ≠ file.path) :
    (contentOutput g root g.split contents).file? path = some content := by
  unfold contentOutput
  rw [file?_foldl_of_none (fun o r => file?_addAsset root o r) g.records]
  · refine file?_foldl_of_same (chunkAt? path) (fun o t => file?_addChunk o t.1 t.2 path) _ _
      ?_ (Or.inr ⟨(chunk, rendered), ?_, hput⟩)
    · -- whatever puts something there is the same chunk with the same text
      intro t ht c hc
      obtain ⟨k', hk'⟩ := List.mem_iff_getElem?.mp ht
      obtain ⟨hchunk', hrendered'⟩ := List.getElem?_zip_eq_some.mp hk'
      have hfile : IsFileOf chunk path := isFileOf_of_chunkAt? (t := (chunk, rendered)) hput
      obtain ⟨hkind, hname⟩ := eq_of_isFileOf hfile (isFileOf_of_chunkAt? hc)
      obtain rfl := Plan.eq_of_name_eq hchunk hchunk' hkind hname
      obtain rfl : t = (chunk, rendered) := by
        rw [hchunk] at hchunk'
        rw [hrendered] at hrendered'
        exact Prod.ext (Option.some.inj hchunk').symm (Option.some.inj hrendered').symm
      exact Option.some.inj (hc.symm.trans hput)
    · exact List.mem_of_getElem? (List.getElem?_zip_eq_some.mpr ⟨hchunk, hrendered⟩)
  · intro r hr
    refine Option.eq_none_iff_forall_ne_some.mpr fun c hc => ?_
    obtain ⟨file, hfile, hpath, _⟩ := assetAt?_eq_some.mp hc
    exact hassets r hr file hfile hpath

/-- **The file of an asset** is in the output when all assets of one path have one content. -/
theorem file?_contentOutput_asset {r : ModuleRecord} (hr : r ∈ g.records) {file : AssetFile}
    (hfile : r.artifact.file? = some file)
    (hsame : ∀ r' ∈ g.records, ∀ file', r'.artifact.file? = some file' → file.path = file'.path →
      file'.bytes = file.bytes) :
    (contentOutput g root plan contents).file? file.path = some file.bytes := by
  unfold contentOutput
  refine file?_foldl_of_same (assetAt? file.path) (fun o r => file?_addAsset root o r) _ _ ?_
    (Or.inr ⟨r, hr, assetAt?_eq_some.mpr ⟨file, hfile, rfl, rfl⟩⟩)
  intro r' hr' c hc
  obtain ⟨file', hfile', hpath, rfl⟩ := assetAt?_eq_some.mp hc
  exact hsame r' hr' file' hfile' hpath

/-- How an output is completed: the page is put into it, and then the manifest exactly if it is asked
for. -/
theorem exists_page_of_output (h : output config mode files root g plan contents = .ok o) :
    ∃ text paged, template config files = .ok text
      ∧ paged = withPage config mode (shell root plan (addresses config.publicPath plan contents))
          text (contentOutput g root plan contents)
      ∧ o = if config.output.manifest then
          paged.putFile "manifest.json" (Data.Json.pretty 0 paged.manifest.toValue).toUTF8
        else paged := by
  obtain ⟨text, htext, h⟩ := exists_of_bind_eq_ok h
  cases h
  exact ⟨text, _, htext, rfl, rfl⟩

/-- The page and the manifest leave everything else as it is. -/
theorem file?_output_of_ne (h : output config mode files root g plan contents = .ok o)
    (hpage : path ≠ config.output.htmlFilename)
    (hmanifest : config.output.manifest = true → path ≠ "manifest.json") :
    o.file? path = (contentOutput g root plan contents).file? path := by
  obtain ⟨text, paged, _, rfl, rfl⟩ := exists_page_of_output h
  split
  next hm => rw [BuildOutput.file?_putFile, if_neg (hmanifest hm), file?_withPage, if_neg hpage]
  next => rw [file?_withPage, if_neg hpage]

end Emit

/-! ## §5. Names under which nothing is lost. -/

/-- The beginning of the paths of chunks. -/
def chunkStart : List Char := "assets/".toList

/-- **Names under which nothing is lost**: every template ends with a digest of one length, and begins so
that its names are neither those of chunks nor those of the page and the manifest, which have names of
their own, too. -/
structure Config.KeepsApart (config : Config) (length : Nat) : Prop where
  digest : ∀ template ∈ config.assetTemplates, AssetName.EndsWithDigest length template
  chunks : ∀ template ∈ config.assetTemplates,
    ¬ AssetName.fixedStart template <+: chunkStart ∧ ¬ chunkStart <+: AssetName.fixedStart template
  page : ¬ chunkStart <+: config.output.htmlFilename.toList
    ∧ ∀ template ∈ config.assetTemplates,
      ¬ AssetName.fixedStart template <+: config.output.htmlFilename.toList
  manifest : config.output.manifest = true → config.output.htmlFilename ≠ "manifest.json"
    ∧ ∀ template ∈ config.assetTemplates,
      ¬ AssetName.fixedStart template <+: "manifest.json".toList

/-- The files of the assets of a graph. -/
def ModuleGraph.assetFiles (g : ModuleGraph) : List AssetFile :=
  g.records.filterMap fun r => r.artifact.file?

/-- The contents of the assets of a graph. -/
def ModuleGraph.assetContents (g : ModuleGraph) : List ByteArray :=
  g.assetFiles.map (·.bytes)

/-- Digests of so many digits tell the contents of assets apart. -/
def ModuleGraph.DigestsTell (g : ModuleGraph) (length : Nat) : Prop :=
  ∀ content ∈ g.assetContents, ∀ content' ∈ g.assetContents,
    Digest.short content length = Digest.short content' length → content = content'

/-- **All that is put into an output is in it**: at the path of each chunk its text, beside it its source
map, at that of each asset its content, and the page and the manifest at theirs. -/
structure BuildOutput.Keeps (o : BuildOutput) (b : Bundler) (files : FileTree) (g : ModuleGraph)
    (contents : List RenderedChunk) : Prop where
  chunks : ∀ (k : Nat) (chunk : Chunk) (rendered : RenderedChunk),
    g.split.chunks[k]? = some chunk → contents[k]? = some rendered →
    o.chunks[k]? = some (Emit.emitted chunk rendered)
      ∧ o.file? (Emit.chunkPath chunk rendered.code)
          = some (Emit.chunkText chunk rendered).toUTF8
      ∧ ∀ map, rendered.map? = some map →
          o.file? (Emit.chunkPath chunk rendered.code ++ ".map")
            = some (map.text (Emit.chunkFile chunk rendered.code)).toUTF8
  page : ∃ text, Emit.template b.config files = .ok text
    ∧ o.file? o.html = some (Emit.pageText b.mode (b.page g o) text).toUTF8
  manifest : b.config.output.manifest = true →
    o.file? "manifest.json" = some (Data.Json.pretty 0 o.manifest.toValue).toUTF8
  assets : ∀ r ∈ g.records, ∀ url file, r.artifact = .asset url (some file) →
    url = b.config.publicPath ++ file.path ∧ o.file? file.path = some file.bytes

namespace Emit

variable {config : Config} {length : Nat} {publicPath path : String} {a : Artifact}
  {file : AssetFile}

theorem file?_eq_some {a : Artifact} : a.file? = some file ↔ ∃ url, a = .asset url (some file) := by
  unfold Artifact.file?
  split
  next url file? => simp
  next hnot => simpa using fun url => hnot url (some file)

theorem chunkStart_prefix {chunk : Chunk} (h : IsFileOf chunk path) : chunkStart <+: path.toList :=
  isPrefix_of_isFileOf h

/-- An asset lies elsewhere than the chunks, the page and the manifest. -/
theorem ne_of_namedBy (hnames : config.KeepsApart length)
    (h : a.NamedBy publicPath config.assetTemplates) (hfile : a.file? = some file) :
    ¬ chunkStart <+: file.path.toList ∧ file.path ≠ config.output.htmlFilename
      ∧ (config.output.manifest = true → file.path ≠ "manifest.json") := by
  obtain ⟨url, ha⟩ := file?_eq_some.mp hfile
  obtain ⟨_, template, htemplate, stem, extension, _, hpath⟩ := h url file ha
  have hstart : AssetName.fixedStart template <+: file.path.toList :=
    hpath ▸ AssetName.fixedStart_prefix template _
  refine ⟨fun hchunk => ?_, fun heq => ?_, fun hmanifest heq => ?_⟩
  · rcases List.prefix_or_prefix_of_prefix hstart hchunk with hle | hle
    · exact (hnames.chunks template htemplate).1 hle
    · exact (hnames.chunks template htemplate).2 hle
  · exact hnames.page.2 template htemplate (heq ▸ hstart)
  · exact (hnames.manifest hmanifest).2 template htemplate (heq ▸ hstart)

/-- **Two assets with one path have one content.** -/
theorem bytes_eq_of_path_eq {g : ModuleGraph} (hnames : config.KeepsApart length)
    (hnamed : ∀ r ∈ g.records, r.artifact.NamedBy publicPath config.assetTemplates)
    (hdigests : g.DigestsTell length) {r r' : ModuleRecord} (hr : r ∈ g.records)
    (hr' : r' ∈ g.records) {file' : AssetFile} (hfile : r.artifact.file? = some file)
    (hfile' : r'.artifact.file? = some file') (hpath : file.path = file'.path) :
    file'.bytes = file.bytes := by
  obtain ⟨url, ha⟩ := file?_eq_some.mp hfile
  obtain ⟨url', ha'⟩ := file?_eq_some.mp hfile'
  obtain ⟨_, template, htemplate, stem, extension, hdot, hname⟩ := hnamed r hr url file ha
  obtain ⟨_, template', htemplate', stem', extension', hdot', hname'⟩ :=
    hnamed r' hr' url' file' ha'
  have hshort := AssetName.short_eq_of_expand_eq (hnames.digest template htemplate)
    (hnames.digest template' htemplate') hdot hdot' (hname.symm.trans (hpath.trans hname'))
  have hmem : ∀ {r : ModuleRecord} {file : AssetFile}, r ∈ g.records →
      r.artifact.file? = some file → file.bytes ∈ g.assetContents := fun {r file} hr hfile =>
    List.mem_map_of_mem (List.mem_filterMap.mpr ⟨r, hr, hfile⟩)
  exact (hdigests _ (hmem hr hfile) _ (hmem hr' hfile') hshort).symm

end Emit

namespace Bundler

open Emit

variable {b : Bundler} {config : Config} {mode : Mode} {signal : CancelSignal} {write : Bool}
  {files : FileTree} {g : ModuleGraph} {contents : List RenderedChunk} {o : BuildOutput}
  {length : Nat}

/-- **What is put into an output is in it**, when its assets are named after their contents under such
names. -/
theorem Outputs.keeps (h : b.Outputs files g contents o) (hnames : b.config.KeepsApart length)
    (hnamed : ∀ r ∈ g.records, r.artifact.NamedBy b.config.publicPath b.config.assetTemplates)
    (hdigests : g.DigestsTell length) : o.Keeps b files g contents where
  chunks k chunk rendered hchunk hrendered := by
    obtain ⟨rendered', hrendered', _, hemitted⟩ := h.exists_text hchunk
    obtain rfl := Option.some.inj (hrendered.symm.trans hrendered')
    -- whatever path of the chunk it is, only the chunk puts something there
    have hput : ∀ path content, IsFileOf chunk path → newFile? chunk rendered path = some content →
        o.file? path = some content := by
      intro path content hfile hput
      have hstart := chunkStart_prefix hfile
      have hpage : path ≠ b.config.output.htmlFilename := fun heq => hnames.page.1 (heq ▸ hstart)
      rw [file?_output h.output hpage hfile]
      refine file?_contentOutput_chunk hchunk hrendered hput fun r hr file hasset heq => ?_
      exact (ne_of_namedBy hnames (hnamed r hr) hasset).1 (heq ▸ hstart)
    refine ⟨hemitted, hput _ _ ⟨rendered.code, Or.inl rfl⟩ (if_pos rfl), fun map hmap => ?_⟩
    refine hput _ _ ⟨rendered.code, Or.inr rfl⟩ ?_
    rw [newFile?, if_neg (chunkPath_ne_map chunk chunk rendered.code rendered.code).symm, hmap,
      Option.bind_some, if_pos rfl]
  page := by
    obtain ⟨text, paged, htext, hpaged, ho⟩ := exists_page_of_output h.output
    have hhtml : o.html = b.config.output.htmlFilename := by
      rw [ho, hpaged]
      split <;> rfl
    obtain ⟨text', htext', hfile⟩ := (output_files h.output).2
    refine ⟨text', htext', ?_⟩
    rw [hhtml]
    exact hfile.resolve_right fun ⟨hmanifest, heq⟩ => (hnames.manifest hmanifest).1 heq
  manifest hmanifest := by
    obtain ⟨text, paged, _, _, ho⟩ := exists_page_of_output h.output
    rw [if_pos hmanifest] at ho
    rw [ho, BuildOutput.file?_putFile, if_pos rfl]
    rfl
  assets r hr url file ha := by
    have hfile : r.artifact.file? = some file := file?_eq_some.mpr ⟨url, ha⟩
    obtain ⟨_, hpage, hmanifest⟩ := ne_of_namedBy hnames (hnamed r hr) hfile
    refine ⟨(hnamed r hr url file ha).1, ?_⟩
    rw [file?_output_of_ne h.output hpage hmanifest]
    exact file?_contentOutput_asset hr hfile fun r' hr' file' hfile' hpath =>
      bytes_eq_of_path_eq hnames hnamed hdigests hr hr' hfile hfile' hpath

/-- **The defaults keep the names apart**, when no rule has a template of its own. -/
theorem keepsApart_default (hrules : ∀ rule ∈ config.rules, rule.assetName? = none)
    (hassets : config.assets = {}) (hhtml : config.output.htmlFilename = "index.html") :
    config.KeepsApart 8 := by
  have htemplates : ∀ template ∈ config.assetTemplates,
      template = "static/media/[name].[hash:8].[ext]" := by
    intro template htemplate
    rcases List.mem_cons.mp htemplate with rfl | hmem
    · rw [hassets]
    · obtain ⟨rule, hrule, rfl⟩ := List.mem_map.mp hmem
      rw [hrules rule hrule, hassets]
      rfl
  have hdigest : AssetName.EndsWithDigest 8 "static/media/[name].[hash:8].[ext]" :=
    ⟨"static/media/[name].".toList, ['8'], by decide, by decide, by decide⟩
  have hstart : AssetName.fixedStart "static/media/[name].[hash:8].[ext]" = "static/media/".toList := by
    decide
  refine ⟨fun t ht => ?_, fun t ht => ?_, ⟨?_, fun t ht => ?_⟩, fun _ => ⟨?_, fun t ht => ?_⟩⟩
  · exact htemplates t ht ▸ hdigest
  · rw [htemplates t ht, hstart]
    decide
  · rw [hhtml]
    decide
  · rw [htemplates t ht, hstart, hhtml]
    decide
  · rw [hhtml]
    decide
  · rw [htemplates t ht, hstart]
    decide

/-- A project whose entry imports two files of one name from different directories. -/
def logosTree : FileTree where
  entries :=
    [(["main.js"], .file "import './a/logo.ttf';import './b/logo.ttf';".toUTF8),
     (["a"], .directory), (["a", "logo.ttf"], .file "one".toUTF8),
     (["b"], .directory), (["b", "logo.ttf"], .file "two".toUTF8)]

/-- Its configuration, with a template by which assets are named. -/
def logosConfig (template : String) : Config :=
  { (Graph.projectOf []).config with
    entrypoints := [("main", "main.js")]
    assets := { name := template }
    ownRules := [{ name := "scripts", test := "\\.js$", steps := ["script"] },
      { name := "fonts", test := "\\.ttf$", steps := ["file"] }] }

end Bundler

end AssetBundler
