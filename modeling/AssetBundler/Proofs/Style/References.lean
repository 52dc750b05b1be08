/-
  AssetBundler.Proofs.Style.References
  ────────────────────────────────
  **STYLESHEETS AND THE FILES THEY REFER TO.**

  In production a stylesheet is put into a chunk, with an address for every
  file that it refers to.  Only an asset has one.  Under the default rules
  every file with the extension of a static asset is one, vector graphics
  apart: their rule makes a script of them, and the chunk of a stylesheet that
  refers to one cannot be put together.  Nor can that of a stylesheet which
  has a placeholder in its own text:

    • `GraphInput.RefersToAssets` — what stylesheets refer to,
    • `Bundler.Produces.exists_addresses` — every reference has an address,
    • `Bundler.stylesheets_render` — the chunks of such stylesheets,
    • `Bundler.references_fail` — vector graphics, and placeholders in a text.
-/
import AssetBundler.Proofs.Style.Renderings
import AssetBundler.Proofs.Transform.Assets

namespace AssetBundler

open AssetBundler.Text

/-! ## §1. Stylesheets of a project. -/

namespace GraphInput

/-- The module is a stylesheet with this text. -/
def Styles (input : GraphInput) (m : Identity) (source : String) : Prop :=
  ∃ content css imports, input.files.read m.path = .ok content ∧ Utf8.decode content = .ok source
    ∧ input.artifactFor m content = .ok (.stylesheet css imports)

/-- The text of a module that is a stylesheet. -/
def styleText? (input : GraphInput) (m : Identity) : Option String :=
  match input.files.read m.path with
  | .error _ => none
  | .ok content =>
    match input.artifactFor m content with
    | .ok (.stylesheet ..) => (Utf8.decode content).toOption
    | _ => none

theorem styles_iff {input : GraphInput} {m : Identity} {source : String} :
    input.Styles m source ↔ input.styleText? m = some source := by
  unfold Styles styleText?
  cases hread : input.files.read m.path with
  | error e => simp
  | ok content =>
      cases hmade : input.artifactFor m content with
      | error e => simp [hmade]
      | ok a => cases a <;> simp [hmade, toOption_eq_some]

/-- **Every file that the stylesheet refers to** is there, and has the extension of a static asset. -/
def RefersToAssets (input : GraphInput) (m : Identity) (source : String) : Prop :=
  ∀ s, ⟨s, .url⟩ ∈ (Style.extract source.toList).imports → ∃ target content,
    input.Resolves m ⟨s, .url⟩ target ∧ input.files.read target.path = .ok content
      ∧ ContentType.isStaticAsset target.extension = true

/-- **A stylesheet that can be put into a chunk**: it refers to no vector graphics, and has no
placeholders but those that it gets, for which sixty-four bits are enough. -/
structure Extractable (input : GraphInput) (m : Identity) (source : String) : Prop where
  noGraphics : ∀ s, ⟨s, .url⟩ ∈ (Style.extract source.toList).imports →
    ∀ target, input.Resolves m ⟨s, .url⟩ target → target.extension ≠ "svg"
  noPlaceholders : ¬ Style.Placeholder.opening <:+: Style.withoutImports source.toList
  count : (Style.extract source.toList).imports.length ≤ UInt64.size

/-- The artifact of a recorded module is what the project makes of it. -/
theorem Complete.artifact?_eq_some {input : GraphInput} {entries : List (String × Identity)}
    {g : ModuleGraph} (hg : input.Complete entries g) {m : Identity} (hm : m ∈ g.order) {a : Artifact}
    (ha : input.Makes m a) : g.artifact? m = some a := by
  obtain ⟨r, hr, rfl, hget⟩ := ModuleGraph.exists_record_of_mem_order hm
  rw [ModuleGraph.artifact?, hget, Option.map_some, ha.unique (hg.described r hr).makes]

end GraphInput

/-! ## §2. What the default rules make of stylesheets. -/

namespace RuleTable

variable {config : Config} {table : RuleTable} {m : Identity} {content : ByteArray}

theorem exists_compile {mode : Mode} (mode' : Mode) (h : compile config mode = .ok table) :
    ∃ table', compile config mode' = .ok table' := by
  obtain ⟨rules, hrules, _⟩ := exists_of_bind_eq_ok h
  unfold compile
  rw [hrules]
  exact ⟨_, rfl⟩

/-- **In production a stylesheet** is the text of its file with placeholders. -/
theorem applyCss_of_transform (hrules : config.ownRules = [])
    (htable : compile config .production = .ok table) {css : String} {imports : List Import}
    (h : (table.transform m content).2 = .ok (.stylesheet css imports)) :
    Step.applyCss (.raw content) = .ok (.stylesheet css imports) := by
  obtain ⟨td, hd⟩ := exists_compile .development htable
  rcases @select_default config td table m hrules hd htable with ⟨_, hnone⟩ | ⟨rd, rp, _, hrp, hsteps⟩
  · cases (imports_of_transform_none hnone h).2
  · have hrun := runSteps_of_transform hrp h
    generalize rd.steps = steps at hsteps
    generalize rp.steps = steps' at hsteps hrun
    cases hsteps with
    | script =>
        obtain ⟨_, _, _, _, hscript⟩ := script_of_runSteps hrun
        cases hscript
    | stylesheet =>
        obtain ⟨a, happly, hlast⟩ := runSteps_cons_eq_ok hrun
        cases hlast
        exact happly
    | other step hstep => exact absurd rfl (imports_of_runSteps hstep hrun).2

end RuleTable

/-! ## §3. The addresses of files. -/

namespace Bundler

variable {b : Bundler} {files : FileTree} {signal : CancelSignal} {s : Session} {g : ModuleGraph}
  {entries : List (String × Identity)} {r : ModuleRecord} {source : String}

/-- **A bundler for production with the default rules**; what it keeps of builds before is what the rules
would make again. -/
structure Produces (b : Bundler) (files : FileTree) : Prop where
  mode : b.mode = .production
  ownRules : b.config.ownRules = []
  table : RuleTable.compile b.config .production = .ok b.table
  cache : (b.graphInput files).CacheExact

/-- A bundler that has been created for production is one. -/
theorem produces_of_create {start files : FileTree} {config : Config} {outdir? : Option Path}
    (hrules : config.ownRules = []) (h : create start config .production outdir? = .ok b) :
    b.Produces files := by
  obtain ⟨table, htable, h⟩ := exists_of_bind_eq_ok h
  dsimp only at h
  split at h
  next => cases h
  next =>
    cases h
    exact ⟨rfl, hrules, htable, fun m content _ a hlookup => by cases hlookup⟩

/-- A stylesheet becomes its text with placeholders. -/
theorem Produces.makes_of_styles (hb : b.Produces files) {m : Identity}
    (h : (b.graphInput files).Styles m source) :
    (b.graphInput files).Makes m (.stylesheet (String.ofList (Style.extract source.toList).css)
      (Style.extract source.toList).imports) := by
  obtain ⟨content, css, imports, hread, hdecode, hmade⟩ := h
  have htransform := hmade
  rw [hb.cache.artifactFor hread] at htransform
  have hcss := RuleTable.applyCss_of_transform hb.ownRules hb.table htransform
  have hsource : (Artifact.raw content).sourceText = .ok source := by
    rw [Artifact.sourceText, hdecode]
  rw [Style.applyCss_eq hsource] at hcss
  exact ⟨content, hread, (Except.ok.inj hcss).symm ▸ hmade⟩

/-- A static asset other than vector graphics gets the address of its file. -/
theorem Produces.exists_makes_asset (hb : b.Produces files) {target : Identity}
    {content : ByteArray} (hread : files.read target.path = .ok content)
    (hasset : ContentType.isStaticAsset target.extension = true) (hsvg : target.extension ≠ "svg") :
    ∃ url file?, (b.graphInput files).Makes target (.asset url file?)
      ∧ b.config.AssetOf target content url file? := by
  obtain ⟨url, file?, htransform, hof⟩ :=
    RuleTable.transform_asset hb.ownRules hb.table hasset hsvg content
  exact ⟨url, file?, ⟨content, hread, (hb.cache.artifactFor hread).trans htransform⟩, hof⟩

/-- A stylesheet of the graph has been read from the text of its file. -/
theorem Produces.artifact_eq (hb : b.Produces files)
    (hg : (b.graphInput files).Complete entries g) (hr : r ∈ g.records)
    (h : (b.graphInput files).Styles r.identity source) :
    r.artifact = .stylesheet (String.ofList (Style.extract source.toList).css)
      (Style.extract source.toList).imports :=
  (hg.described r hr).makes.unique (hb.makes_of_styles h)

/-- A recorded stylesheet has a text. -/
theorem Produces.exists_styles (hb : b.Produces files)
    (hg : (b.graphInput files).Complete entries g) (hr : r ∈ g.records) {css : String}
    {imports : List Import} (h : r.artifact = .stylesheet css imports) :
    ∃ source, (b.graphInput files).Styles r.identity source := by
  obtain ⟨content, hread, hmade⟩ := (hg.described r hr).makes
  rw [h] at hmade
  have htransform := hmade
  rw [hb.cache.artifactFor hread] at htransform
  have hcss := RuleTable.applyCss_of_transform hb.ownRules hb.table htransform
  obtain ⟨source, hsource, _⟩ := exists_of_bind_eq_ok hcss
  exact ⟨source, content, css, imports, hread, Artifact.sourceText_raw hsource, hmade⟩

/-- **Every reference has an address**: that of the file that it leads to. -/
theorem Produces.exists_addresses (hb : b.Produces files)
    (hg : (b.graphInput files).Complete entries g) (hr : r ∈ g.records)
    (hstyles : (b.graphInput files).Styles r.identity source)
    (hrefers : (b.graphInput files).RefersToAssets r.identity source)
    (hextract : (b.graphInput files).Extractable r.identity source) :
    ∃ url : String → String,
      (∀ s, ⟨s, .url⟩ ∈ (Style.extract source.toList).imports → ∃ target content file?,
        (b.graphInput files).Resolves r.identity ⟨s, .url⟩ target
          ∧ files.read target.path = .ok content ∧ b.config.AssetOf target content (url s) file?)
      ∧ Render.Addresses g url (Style.extract source.toList).imports r.dependencies := by
  have hfollows := (hg.described r hr).follows
  rw [hb.artifact_eq hg hr hstyles] at hfollows
  change List.Forall₂ _ (Style.extract source.toList).imports _ at hfollows
  -- a file that a reference leads to has been recorded, and is an asset
  have hexists : ∀ s, ∃ url, ⟨s, .url⟩ ∈ (Style.extract source.toList).imports →
      ∃ target content file?, (b.graphInput files).Resolves r.identity ⟨s, .url⟩ target
        ∧ files.read target.path = .ok content ∧ b.config.AssetOf target content url file?
        ∧ g.artifact? target = some (.asset url file?) := by
    intro s
    by_cases hs : ⟨s, .url⟩ ∈ (Style.extract source.toList).imports
    · obtain ⟨target, content, hresolves, hread, hasset⟩ := hrefers s hs
      obtain ⟨d, hd, hfollow⟩ := exists_mem_right_of_forall₂ hfollows _ hs
      have htarget : d.target = target := Except.ok.inj (hfollow.2.2.symm.trans hresolves)
      obtain ⟨url, file?, hmade, hof⟩ :=
        hb.exists_makes_asset hread hasset (hextract.noGraphics s hs target hresolves)
      have hartifact := hg.artifact?_eq_some (htarget ▸ hg.closed r hr d hd) hmade
      exact ⟨url, fun _ => ⟨target, content, file?, hresolves, hread, hof, hartifact⟩⟩
    · exact ⟨"", fun h => absurd h hs⟩
  choose url hurl using hexists
  refine ⟨url, fun s hs => ?_, ?_⟩
  · obtain ⟨target, content, file?, hresolves, hread, hof, _⟩ := hurl s hs
    exact ⟨target, content, file?, hresolves, hread, hof⟩
  · have hmem := (List.forall₂_and_left _ _).mpr ⟨fun i (hi : i ∈ _) => hi, hfollows⟩
    refine hmem.imp fun i d h hkind => ?_
    obtain ⟨hi, _, _, hresolves⟩ := h
    obtain ⟨s, kind⟩ := i
    obtain rfl : kind = .url := hkind
    obtain ⟨target, content, file?, hresolves', _, _, hmade⟩ := hurl s hi
    obtain rfl : d.target = target := Except.ok.inj (hresolves.symm.trans hresolves')
    exact ⟨file?, hmade⟩

/-! ## §4. The chunks of stylesheets. -/

/-- The rules of every module can be put into a chunk. -/
theorem exists_renderChunk (hrules : ∀ r ∈ g.records, ∃ rules, Render.rulesOf g r = .ok rules)
    (chunk : Chunk) (mode : Mode) (root : Path) :
    ∃ rendered, renderChunk g root mode chunk = .ok rendered := by
  unfold renderChunk
  split
  next => exact ⟨_, rfl⟩
  next =>
    unfold Render.stylesheet
    cases hparts : (Render.recordsOf g chunk).mapM (Render.rulesOf g) with
    | ok parts => exact ⟨_, rfl⟩
    | error e =>
        obtain ⟨r, hr, herror⟩ := exists_of_mapM_error hparts
        obtain ⟨m, _, hget⟩ := List.mem_filterMap.mp hr
        obtain ⟨rules, hok⟩ := hrules r (ModuleGraph.mem_of_get? hget).1
        rw [hok] at herror
        cases herror

/-- **The rules of a stylesheet are its text with an address in the place of each reference**: that of the
file that the reference leads to, be it public or one that holds the data.  They are in the text of every
chunk of the stylesheet. -/
def Addressed (b : Bundler) (files : FileTree) (g : ModuleGraph) (r : ModuleRecord)
    (source : String) : Prop :=
  ∃ url : String → String,
    (∀ s, ⟨s, .url⟩ ∈ (Style.extract source.toList).imports → ∃ target content file?,
      (b.graphInput files).Resolves r.identity ⟨s, .url⟩ target
        ∧ files.read target.path = .ok content ∧ b.config.AssetOf target content (url s) file?)
    ∧ Render.rulesOf g r
      = .ok (trim (Style.withAddresses url 0 (Style.withoutImports source.toList)))
    ∧ ∀ chunk code, r ∈ Render.recordsOf g chunk → Render.stylesheet g chunk = .ok code →
      trim (Style.withAddresses url 0 (Style.withoutImports source.toList)) <:+: code.toList

theorem Produces.addressed (hb : b.Produces files)
    (hg : (b.graphInput files).Complete entries g) (hr : r ∈ g.records)
    (hstyles : (b.graphInput files).Styles r.identity source)
    (hrefers : (b.graphInput files).RefersToAssets r.identity source)
    (hextract : (b.graphInput files).Extractable r.identity source) :
    b.Addressed files g r source := by
  obtain ⟨url, hurl, haddresses⟩ := hb.exists_addresses hg hr hstyles hrefers hextract
  have hrules := Render.rulesOf_stylesheet (hb.artifact_eq hg hr hstyles) hextract.noPlaceholders
    hextract.count haddresses
  exact ⟨url, hurl, hrules, fun chunk code hmem hcode => Render.infix_stylesheet hmem hrules hcode⟩

/-- **THE CHUNKS OF STYLESHEETS CAN BE PUT TOGETHER** in production under the default rules, when every
reference of every stylesheet that the entries reach leads to a static asset, other than vector
graphics, and no stylesheet has a placeholder of its own.  Every reference then gets the address of its
file. -/
theorem stylesheets_render (hb : b.Produces files) (hentries : b.entries files = .ok entries)
    (hgraph : ((b.graph files).exec signal s).1 = .ok g)
    (hrefers : ∀ m source, (b.graphInput files).Reachable entries m →
      (b.graphInput files).Styles m source → (b.graphInput files).RefersToAssets m source)
    (hextract : ∀ m source, (b.graphInput files).Reachable entries m →
      (b.graphInput files).Styles m source → (b.graphInput files).Extractable m source) :
    (∀ chunk, ∃ rendered, renderChunk g b.root b.mode chunk = .ok rendered)
      ∧ ∀ r ∈ g.records, ∀ source, (b.graphInput files).Styles r.identity source →
        b.Addressed files g r source := by
  obtain ⟨entries', hentries', hg⟩ := graph_ensures.of_ok hgraph
  obtain rfl := Except.ok.inj (hentries.symm.trans hentries')
  have hsheets : ∀ r ∈ g.records, ∀ source, (b.graphInput files).Styles r.identity source →
      b.Addressed files g r source := by
    intro r hr source hstyles
    have hreach := hg.reachable r hr
    exact hb.addressed hg hr hstyles (hrefers _ source hreach hstyles)
      (hextract _ source hreach hstyles)
  refine ⟨fun chunk => exists_renderChunk (fun r hr => ?_) chunk b.mode b.root, hsheets⟩
  -- a module that is no stylesheet has no rules
  cases hartifact : r.artifact with
  | stylesheet css imports =>
      obtain ⟨source, hstyles⟩ := hb.exists_styles hg hr hartifact
      obtain ⟨url, _, hrules, _⟩ := hsheets r hr source hstyles
      exact ⟨_, hrules⟩
  | _ => exact ⟨[], by rw [Render.rulesOf, hartifact]⟩

/-! ## §5. A stylesheet with an image. -/

/-- A build that nothing stops makes a graph of sound modules that do not load each other in a circle. -/
theorem exists_graph (hentries : b.entries files = .ok entries)
    (hsound : ∀ m, (b.graphInput files).Reachable entries m → (b.graphInput files).Sound m)
    (hacyclic : ∀ m, (b.graphInput files).Reachable entries m →
      ¬ Relation.TransGen (b.graphInput files).Loads m m) (s : Session) :
    ∃ g, ((b.graph files).exec .never s).1 = .ok g := by
  have hgraph : BuildM.Ensures .never s (b.graph files) (fun _ _ => True) (fun _ _ => False) := by
    simp only [graph, hentries, BuildM.ensures_bind, BuildM.ensures_enter, BuildM.ensures_check,
      BuildM.ensures_ofExcept]
    -- nothing stops the build, and the entries are there
    refine ⟨fun _ => ⟨fun entries' hentries' => ⟨fun _ => ?_, Bool.false_ne_true⟩,
      fun e he => by cases he⟩, Bool.false_ne_true⟩
    obtain rfl := Except.ok.inj hentries'
    refine (Graph.build_ensures _).mono (fun _ _ _ => trivial) fun e _ hfault => ?_
    rcases hfault.of_sound hsound with ⟨_, s', hstop⟩ | ⟨cycle, _, hcycle, hreach⟩
    · cases hstop
    · obtain ⟨m, hm, hpath⟩ := hcycle.exists_transGen
      exact hacyclic m (hreach m hm) hpath
  cases houtcome : ((b.graph files).exec .never s).1 with
  | ok g => exact ⟨g, rfl⟩
  | error e => exact (hgraph.of_error houtcome).elim

/-- A project whose entry is a stylesheet, with everything left as it is by default. -/
def pictureConfig : Config :=
  { (Graph.projectOf []).config with entrypoints := [("main", "main.css")] }

/-- The stylesheet with an image and vector graphics beside it. -/
def pictureTree (css : String) : FileTree :=
  (Graph.projectOf [("main.css", css), ("i.png", "i"), ("logo.svg", "<svg/>")]).files

/-- A stylesheet with an image. -/
def pictureSource : String := "a\x7bb:url(./i.png)\x7d"

/-- The entry, and the image that it refers to. -/
def pictureEntry : Identity := ⟨["main.css"]⟩

def pictureImage : Identity := ⟨["i.png"]⟩

theorem exists_picture_bundler :
    ∃ b, create (pictureTree pictureSource) pictureConfig .production none = .ok b
      ∧ (b.entries (pictureTree pictureSource)).toOption = some [("main", pictureEntry)]
      ∧ (b.graphInput (pictureTree pictureSource)).styleText? pictureEntry = some pictureSource :=
  exists_of_any_toOption (by decide +kernel)

theorem picture_imports : (Style.extract pictureSource.toList).imports = [⟨"./i.png", .url⟩] := by
  decide +kernel

theorem read_pictureImage : (pictureTree pictureSource).read pictureImage.path = .ok "i".toUTF8 :=
  toOption_eq_some.mp (by decide +kernel)

/-- What the project says of its two modules. -/
structure PictureModules (b : Bundler) : Prop where
  entry : (b.graphInput (pictureTree pictureSource)).Makes pictureEntry
    (.stylesheet (String.ofList (Style.extract pictureSource.toList).css) [⟨"./i.png", .url⟩])
  link : (b.graphInput (pictureTree pictureSource)).Resolves pictureEntry ⟨"./i.png", .url⟩ pictureImage
  image : ∃ url file?,
    (b.graphInput (pictureTree pictureSource)).Makes pictureImage (.asset url file?)

namespace PictureModules

variable {m target : Identity}

/-- The entry imports the image, and nothing else is imported. -/
theorem eq_of_imports (h : PictureModules b) (hm : m = pictureEntry ∨ m = pictureImage)
    (himports : (b.graphInput (pictureTree pictureSource)).Imports m target) :
    m = pictureEntry ∧ target = pictureImage := by
  obtain ⟨a, ha, i, hi, hresolves⟩ := himports
  rcases hm with rfl | rfl
  · obtain rfl := ha.unique h.entry
    obtain rfl := List.mem_singleton.mp hi
    exact ⟨rfl, Except.ok.inj (hresolves.symm.trans h.link)⟩
  · obtain ⟨url, file?, himage⟩ := h.image
    obtain rfl := ha.unique himage
    cases hi

theorem eq_of_reachable (h : PictureModules b)
    (hm : (b.graphInput (pictureTree pictureSource)).Reachable [("main", pictureEntry)] m) :
    m = pictureEntry ∨ m = pictureImage := by
  refine GraphInput.Reachable.induction
    (motive := fun m => m = pictureEntry ∨ m = pictureImage) (fun e he => ?_)
    (fun m target hm hlink => ?_) hm
  · rw [List.mem_singleton.mp he]
    exact Or.inl rfl
  · exact Or.inr (h.eq_of_imports hm hlink).2

theorem sound (h : PictureModules b) (hm : m = pictureEntry ∨ m = pictureImage) :
    (b.graphInput (pictureTree pictureSource)).Sound m := by
  rcases hm with rfl | rfl
  · refine ⟨_, h.entry, fun i hi => ⟨pictureImage, ?_⟩⟩
    rw [List.mem_singleton.mp hi]
    exact h.link
  · obtain ⟨url, file?, himage⟩ := h.image
    exact ⟨_, himage, fun i hi => by cases hi⟩

theorem refersToAssets (h : PictureModules b) :
    (b.graphInput (pictureTree pictureSource)).RefersToAssets pictureEntry pictureSource := by
  intro s hs
  rw [picture_imports, List.mem_singleton] at hs
  cases hs
  exact ⟨pictureImage, "i".toUTF8, h.link, read_pictureImage, by decide⟩

theorem extractable (h : PictureModules b) :
    (b.graphInput (pictureTree pictureSource)).Extractable pictureEntry pictureSource := by
  refine ⟨fun s hs target hresolves => ?_, by decide +kernel, ?_⟩
  · rw [picture_imports, List.mem_singleton] at hs
    cases hs
    obtain rfl := Except.ok.inj (hresolves.symm.trans h.link)
    decide
  · rw [picture_imports]
    decide

theorem not_transGen_loads (h : PictureModules b) (hm : m = pictureEntry ∨ m = pictureImage) :
    ¬ Relation.TransGen (b.graphInput (pictureTree pictureSource)).Loads m m := by
  intro hpath
  have hne : pictureImage ≠ pictureEntry := by decide
  obtain ⟨target, hlink, hrest⟩ := Relation.TransGen.head'_iff.mp hpath
  obtain ⟨rfl, rfl⟩ := h.eq_of_imports hm hlink.imports
  -- nothing leads on from the image
  rcases hrest.cases_head with heq | ⟨_, hlink, _⟩
  · exact hne heq
  · exact hne (h.eq_of_imports (Or.inr rfl) hlink.imports).1

end PictureModules

theorem pictureModules_of_styles (hb : b.Produces (pictureTree pictureSource)) (hconfig : b.config = pictureConfig)
    (hstyles : (b.graphInput (pictureTree pictureSource)).Styles pictureEntry pictureSource) :
    PictureModules b := by
  have hlink : (Resolve.specifier pictureConfig (pictureTree pictureSource) "./i.png"
      pictureEntry).toOption = some pictureImage := by
    decide +kernel
  refine ⟨picture_imports ▸ hb.makes_of_styles hstyles, ?_, ?_⟩
  · show Resolve.specifier b.config _ _ _ = _
    rw [hconfig]
    exact toOption_eq_some.mp hlink
  · obtain ⟨url, file?, hmade, _⟩ :=
      hb.exists_makes_asset read_pictureImage (by decide) (by decide)
    exact ⟨url, file?, hmade⟩

theorem pictures_render :
    pictureConfig.ownRules = []
      ∧ ∃ b g, create (pictureTree pictureSource) pictureConfig .production none = .ok b
        ∧ b.Produces (pictureTree pictureSource)
        ∧ b.entries (pictureTree pictureSource) = .ok [("main", pictureEntry)]
        ∧ ((b.graph (pictureTree pictureSource)).exec .never { mode := b.mode }).1 = .ok g
        ∧ (∀ m source, (b.graphInput (pictureTree pictureSource)).Reachable
            [("main", pictureEntry)] m →
          (b.graphInput (pictureTree pictureSource)).Styles m source →
            (b.graphInput (pictureTree pictureSource)).RefersToAssets m source
              ∧ (b.graphInput (pictureTree pictureSource)).Extractable m source)
        ∧ (∀ chunk, ∃ rendered, renderChunk g b.root b.mode chunk = .ok rendered)
        ∧ ∃ r ∈ g.records, r.identity = pictureEntry
          ∧ b.Addressed (pictureTree pictureSource) g r pictureSource := by
  obtain ⟨b, hcreate, hentries, hstyles⟩ := exists_picture_bundler
  have hb : b.Produces (pictureTree pictureSource) := produces_of_create rfl hcreate
  have hentries := toOption_eq_some.mp hentries
  have hstyles := GraphInput.styles_iff.mpr hstyles
  have hmodules := pictureModules_of_styles hb (InUse.created hcreate).equipped.config_eq hstyles
  -- the entry is the one stylesheet
  have hone : ∀ m source, (b.graphInput (pictureTree pictureSource)).Reachable
      [("main", pictureEntry)] m → (b.graphInput (pictureTree pictureSource)).Styles m source →
        m = pictureEntry ∧ source = pictureSource := by
    intro m source hreach hsource
    rcases hmodules.eq_of_reachable hreach with rfl | rfl
    · refine ⟨rfl, Option.some.inj ?_⟩
      exact (GraphInput.styles_iff.mp hsource).symm.trans (GraphInput.styles_iff.mp hstyles)
    · obtain ⟨url, file?, himage⟩ := hmodules.image
      have hkind := (hb.makes_of_styles hsource).unique himage
      cases hkind
  have hsheets : ∀ m source, (b.graphInput (pictureTree pictureSource)).Reachable
      [("main", pictureEntry)] m → (b.graphInput (pictureTree pictureSource)).Styles m source →
        (b.graphInput (pictureTree pictureSource)).RefersToAssets m source
          ∧ (b.graphInput (pictureTree pictureSource)).Extractable m source := by
    intro m source hreach hsource
    obtain ⟨rfl, rfl⟩ := hone m source hreach hsource
    exact ⟨hmodules.refersToAssets, hmodules.extractable⟩
  obtain ⟨g, hgraph⟩ := exists_graph hentries
    (fun m hm => hmodules.sound (hmodules.eq_of_reachable hm))
    (fun m hm => hmodules.not_transGen_loads (hmodules.eq_of_reachable hm)) { mode := b.mode }
  obtain ⟨hrender, haddressed⟩ := stylesheets_render hb hentries hgraph
    (fun m source hm hsource => (hsheets m source hm hsource).1)
    (fun m source hm hsource => (hsheets m source hm hsource).2)
  obtain ⟨entries, hentries', hg⟩ := graph_ensures.of_ok hgraph
  obtain rfl := Except.ok.inj (hentries.symm.trans hentries')
  obtain ⟨r, hr, hidentity, _⟩ := ModuleGraph.exists_record_of_mem_order
    (hg.mem_order_iff.mpr (GraphInput.Reachable.entry _ List.mem_cons_self))
  exact ⟨rfl, b, g, hcreate, hb, hentries, hgraph, hsheets, hrender, r, hr, hidentity,
    haddressed r hr pictureSource (hidentity ▸ hstyles)⟩

end Bundler

/-! ## §6. References without an address. -/

namespace GraphInput

variable {input : GraphInput} {m : Identity} {source : String} {entries : List (String × Identity)}
  {g : ModuleGraph}

/-- The import is no reference, or leads to a file that passes a test. -/
def passes (input : GraphInput) (m : Identity) (test : Identity → Bool) (i : Import) : Bool :=
  i.kind != .url
    || (Resolve.specifier input.config input.files i.specifier m).toOption.any test

theorem exists_of_passes {test : Identity → Bool} {s : String}
    (h : input.passes m test ⟨s, .url⟩ = true) :
    ∃ target, input.Resolves m ⟨s, .url⟩ target ∧ test target = true := by
  change (Resolve.specifier input.config input.files s m).toOption.any test = true at h
  cases hresolves : Resolve.specifier input.config input.files s m with
  | error e =>
      rw [hresolves] at h
      cases h
  | ok target =>
      rw [hresolves] at h
      exact ⟨target, hresolves, h⟩

theorem refersToAssets_of_passes
    (h : (Style.extract source.toList).imports.all (input.passes m fun target =>
      (input.files.read target.path).isOk && ContentType.isStaticAsset target.extension) = true) :
    input.RefersToAssets m source := by
  intro s hs
  obtain ⟨target, hresolves, htest⟩ := exists_of_passes (List.all_eq_true.mp h _ hs)
  obtain ⟨hread, hasset⟩ := (Bool.and_eq_true _ _).mp htest
  cases hcontent : input.files.read target.path with
  | error e =>
      rw [hcontent] at hread
      cases hread
  | ok content => exact ⟨target, content, hresolves, hcontent, hasset⟩

theorem extractable_of_passes
    (hgraphics : (Style.extract source.toList).imports.all (input.passes m fun target =>
      target.extension != "svg") = true)
    (hplaceholders : ¬ Style.Placeholder.opening <:+: Style.withoutImports source.toList)
    (hcount : (Style.extract source.toList).imports.length ≤ UInt64.size) :
    input.Extractable m source := by
  refine ⟨fun s hs target hresolves => ?_, hplaceholders, hcount⟩
  obtain ⟨target', hresolves', htest⟩ := exists_of_passes (List.all_eq_true.mp hgraphics _ hs)
  obtain rfl : target = target' := Except.ok.inj (hresolves.symm.trans hresolves')
  exact bne_iff_ne.mp htest

/-- What holds of the recorded stylesheets holds of all that the entries reach. -/
theorem forall_styles (hg : input.Complete entries g) {P : Identity → String → Prop}
    (h : ∀ m ∈ g.order, ∀ source ∈ input.styleText? m, P m source) :
    ∀ m source, input.Reachable entries m → input.Styles m source → P m source :=
  fun m source hreach hstyles => h m (hg.mem_order_iff.mpr hreach) source (styles_iff.mp hstyles)

end GraphInput

namespace Bundler

/-- The graph of a project for production. -/
structure GraphFor (files : FileTree) (config : Config) (b : Bundler)
    (entries : List (String × Identity)) (g : ModuleGraph) : Prop where
  created : create files config .production none = .ok b
  entered : b.entries files = .ok entries
  built : ((b.graph files).exec .never { mode := b.mode }).1 = .ok g

/-- Makes the graph of a project for production. -/
def runGraph (files : FileTree) (config : Config) :
    Option (Bundler × List (String × Identity) × ModuleGraph) := do
  let b ← (create files config .production none).toOption
  let entries ← (b.entries files).toOption
  let g ← ((b.graph files).exec .never { mode := b.mode }).1.toOption
  return (b, entries, g)

/-- What a graph for production is like can be seen by making it. -/
theorem exists_graphFor {files : FileTree} {config : Config}
    {p : Bundler → List (String × Identity) → ModuleGraph → Prop} [∀ b entries g, Decidable (p b entries g)]
    (h : (runGraph files config).any (fun (b, entries, g) => decide (p b entries g)) = true) :
    ∃ b entries g, GraphFor files config b entries g ∧ p b entries g := by
  obtain ⟨⟨b, entries, g⟩, hrun, hp⟩ := (Option.any_eq_true _ _).mp h
  obtain ⟨b', hb, hrun⟩ := Option.bind_eq_some_iff.mp hrun
  obtain ⟨entries', hentries, hrun⟩ := Option.bind_eq_some_iff.mp hrun
  obtain ⟨g', hg, hrun⟩ := Option.bind_eq_some_iff.mp hrun
  cases hrun
  exact ⟨b, entries, g,
    ⟨toOption_eq_some.mp hb, toOption_eq_some.mp hentries, toOption_eq_some.mp hg⟩,
    of_decide_eq_true hp⟩

theorem GraphFor.complete {files : FileTree} {config : Config} {b : Bundler}
    {entries : List (String × Identity)} {g : ModuleGraph} (h : GraphFor files config b entries g) :
    (b.graphInput files).Complete entries g := by
  obtain ⟨entries', hentries, hg⟩ := graph_ensures.of_ok h.built
  obtain rfl := Except.ok.inj (h.entered.symm.trans hentries)
  exact hg

/-- In a project with this stylesheet every reference leads to a static asset, and yet a chunk cannot be
put together. -/
def FailsToRender (css message : String) : Prop :=
  pictureConfig.ownRules = []
    ∧ ∃ b entries g, GraphFor (pictureTree css) pictureConfig b entries g
      ∧ (∀ m source, (b.graphInput (pictureTree css)).Reachable entries m →
        (b.graphInput (pictureTree css)).Styles m source →
          (b.graphInput (pictureTree css)).RefersToAssets m source)
      ∧ ∃ chunk ∈ g.split.chunks, ∃ e, renderChunk g b.root b.mode chunk = .error e
        ∧ e.message = message

/-- The error of a result in words, if it is one. -/
def fault? {α : Type} : Except BuildError α → Option String
  | .error e => some e.message
  | .ok _ => none

theorem failsToRender_of_run {css message : String}
    (h : ∃ b entries g, GraphFor (pictureTree css) pictureConfig b entries g
      ∧ (∀ m ∈ g.order, ∀ source ∈ (b.graphInput (pictureTree css)).styleText? m,
        (Style.extract source.toList).imports.all
          ((b.graphInput (pictureTree css)).passes m fun target =>
            ((pictureTree css).read target.path).isOk
              && ContentType.isStaticAsset target.extension) = true)
      ∧ ∃ chunk ∈ g.split.chunks, fault? (renderChunk g b.root b.mode chunk) = some message) :
    FailsToRender css message := by
  obtain ⟨b, entries, g, hg, hpasses, chunk, hchunk, hfault⟩ := h
  refine ⟨rfl, b, entries, g, hg, ?_, chunk, hchunk, ?_⟩
  · exact GraphInput.forall_styles hg.complete fun m hm source hsource =>
      GraphInput.refersToAssets_of_passes (hpasses m hm source hsource)
  · cases hrendered : renderChunk g b.root b.mode chunk with
    | error e =>
        rw [hrendered] at hfault
        exact ⟨e, rfl, Option.some.inj hfault⟩
    | ok rendered =>
        rw [hrendered] at hfault
        cases hfault

/-- **Vector graphics, and a placeholder in the text**: of neither is there an address. -/
theorem references_fail :
    FailsToRender "a\x7bb:url(./logo.svg)\x7d"
        ("transform rule 'css' failed for /main.css: url('./logo.svg') must reference a static asset, "
          ++ "got script module")
      ∧ FailsToRender "a\x7bb:__weft_url_0__\x7d"
        "transform rule 'css' failed for /main.css: dangling url placeholder 0" :=
  ⟨failsToRender_of_run (exists_graphFor (by decide +kernel)),
    failsToRender_of_run (exists_graphFor (by decide +kernel))⟩

end Bundler

end AssetBundler
