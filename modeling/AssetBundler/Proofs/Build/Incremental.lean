/-
  AssetBundler.Proofs.Build.Incremental
  ────────────────────────────────
  **BUILDING AGAIN IS LIKE BUILDING FOR THE FIRST TIME.**

  A bundler keeps the artifacts of its last successful build.  Between two
  builds files may be changed, added and taken away, and builds may fail or be
  stopped.  The invariant that carries a whole run of builds is that every
  artifact in the cache is what the rules make of a content that the module
  had in one of the builds; as no two contents of a module share a digest, an
  artifact that is found again is the one that the rules would make now.

    • `TransformCache.MadeFrom` — the invariant,
    • `Bundler.assemble_agrees` — one build, with and without artifacts,
    • `Bundler.madeFrom_compile` — a build keeps the invariant,
    • `Bundler.compileAll_fresh` — a run of builds,
    • `Bundler.compileAll_eq_newly_created` — compared with new bundlers.
-/
import AssetBundler.Proofs.Build.Agreement
import AssetBundler.Proofs.Build.Phases

namespace AssetBundler

/-! ## §1. What the cache holds. -/

/-- Every artifact is what the rules make of a content that its module has in one of the projects. -/
def TransformCache.MadeFrom (table : RuleTable) (trees : List FileTree)
    (cache : TransformCache) : Prop :=
  ∀ c ∈ cache, ∃ files ∈ trees, ∃ content, files.read c.identity.path = .ok content
    ∧ c.digest = Digest.ofContent content
    ∧ (table.transform c.identity content).2 = .ok c.artifact

/-- No two contents that a module has in these projects have the same digest. -/
def DigestsDiffer (trees : List FileTree) : Prop :=
  ∀ files ∈ trees, ∀ files' ∈ trees, ∀ (m : Identity) (content content' : ByteArray),
    files.read m.path = .ok content → files'.read m.path = .ok content' →
    Digest.ofContent content = Digest.ofContent content' → content = content'

/-- The contents of all files. -/
def FileTree.contents (tree : FileTree) : List ByteArray :=
  tree.entries.filterMap fun e => match e.2 with
    | .file content => some content
    | _ => none

theorem FileTree.mem_contents_of_read {tree : FileTree} {path : Path} {content : ByteArray}
    (h : tree.read path = .ok content) : content ∈ tree.contents := by
  unfold read at h
  split at h
  next at_ found hresolve =>
    obtain rfl : found = content := Except.ok.inj h
    exact List.mem_filterMap.mpr ⟨_, mem_entries_of_entry? (entry?_of_resolve hresolve), rfl⟩
  next => cases h
  next => cases h

/-- It is enough that no two contents of any files have the same digest. -/
theorem digestsDiffer_of_contents {trees : List FileTree}
    (h : ∀ content ∈ trees.flatMap FileTree.contents,
      ∀ content' ∈ trees.flatMap FileTree.contents,
        Digest.ofContent content = Digest.ofContent content' → content = content') :
    DigestsDiffer trees := by
  intro files hfiles files' hfiles' m content content' hread hread' hdigest
  refine h content ?_ content' ?_ hdigest
  · exact List.mem_flatMap.mpr ⟨files, hfiles, FileTree.mem_contents_of_read hread⟩
  · exact List.mem_flatMap.mpr ⟨files', hfiles', FileTree.mem_contents_of_read hread'⟩

namespace TransformCache

variable {table : RuleTable} {trees : List FileTree} {cache : TransformCache}

theorem madeFrom_nil : MadeFrom table trees [] := by
  intro c hc
  cases hc

/-- **A cache made in these projects is exact in each of them**, when digests tell contents apart. -/
theorem MadeFrom.cacheExact (hcache : MadeFrom table trees cache) (hdigests : DigestsDiffer trees)
    {files : FileTree} (hfiles : files ∈ trees) (config : Config) :
    GraphInput.CacheExact { config, files, table, cache } := by
  intro m content hread a hlookup
  obtain ⟨files', hfiles', content', hread', hdigest, hmade⟩ := hcache _ (mem_of_lookup hlookup)
  obtain rfl : content = content' :=
    hdigests files hfiles files' hfiles' m content content' hread hread' hdigest
  exact hmade

end TransformCache

/-- With an exact cache, the artifact of a module is what its rule makes of the content. -/
theorem GraphInput.CacheExact.artifactFor {input : GraphInput} (h : input.CacheExact)
    {m : Identity} {content : ByteArray} (hread : input.files.read m.path = .ok content) :
    input.artifactFor m content = (input.table.transform m content).2 := by
  unfold GraphInput.artifactFor
  split
  next a hlookup => exact (h m content hread a hlookup).symm
  next => rfl

/-- **The artifacts of a graph** have been made in its project. -/
theorem GraphInput.Complete.madeFrom {input : GraphInput} {entries : List (String × Identity)}
    {g : ModuleGraph} (hg : input.Complete entries g) (hcache : input.CacheExact)
    {trees : List FileTree} (hfiles : input.files ∈ trees) :
    TransformCache.MadeFrom input.table trees (TransformCache.ofGraph g) := by
  intro c hc
  obtain ⟨r, hr, rfl⟩ := List.mem_map.mp hc
  obtain ⟨content, hread, hdigest, hmade⟩ := (hg.described r hr).made
  exact ⟨input.files, hfiles, content, hread, hdigest, hcache.artifactFor hread ▸ hmade⟩

/-! ## §2. One build. -/

namespace Bundler

variable {b : Bundler} {signal : CancelSignal} {files : FileTree}

/-- The bundler without artifacts of a last build. -/
def fresh (b : Bundler) : Bundler :=
  { b with cache := [] }

theorem graph_agrees (hcache : (b.graphInput files).CacheExact) :
    BuildM.Agrees signal (b.graph files) (b.fresh.graph files) := by
  refine (BuildM.enter_agrees .resolving).bind fun _ => ?_
  refine (BuildM.ofExcept_agrees (b.entries files)).bind fun entries => ?_
  refine (BuildM.enter_agrees .graphBuilding).bind fun _ => ?_
  exact Graph.build_agrees hcache entries

theorem optimizeAll_agrees (chunks : List (Chunk × RenderedChunk)) :
    BuildM.Agrees signal (optimizeAll chunks) (optimizeAll chunks) := by
  induction chunks with
  | nil => exact BuildM.pure_agrees []
  | cons c rest ih =>
      refine BuildM.check_agrees.bind fun _ => ?_
      refine (BuildM.ofExcept_agrees _).bind fun first => ?_
      exact ih.bind fun others => BuildM.pure_agrees (first :: others)

theorem contents_agrees (g : ModuleGraph) (plan : ChunkPlan) :
    BuildM.Agrees signal (b.contents g plan) (b.fresh.contents g plan) := by
  refine (BuildM.ofExcept_agrees (plan.chunks.mapM (renderChunk g b.root b.mode))).bind
    fun rendered => ?_
  show BuildM.Agrees signal
    (if b.mode = .production then
      BuildM.enter .optimizing >>= fun _ => optimizeAll (plan.chunks.zip rendered)
    else pure rendered)
    (if b.mode = .production then
      BuildM.enter .optimizing >>= fun _ => optimizeAll (plan.chunks.zip rendered)
    else pure rendered)
  split
  next => exact (BuildM.enter_agrees .optimizing).bind fun _ => optimizeAll_agrees _
  next => exact BuildM.pure_agrees rendered

/-- **One build, with and without artifacts of the last.**  Only the traversal looks at them; what
follows is made from its graph. -/
theorem assemble_agrees (hcache : (b.graphInput files).CacheExact) :
    BuildM.Agrees signal (b.assemble files) (b.fresh.assemble files) := by
  refine (graph_agrees hcache).bind fun g => ?_
  refine (BuildM.enter_agrees .splitting).bind fun _ => ?_
  refine (contents_agrees g g.split).bind fun contents => ?_
  refine (BuildM.enter_agrees .emitting).bind fun _ => ?_
  refine (BuildM.ofExcept_agrees _).bind fun o => ?_
  exact BuildM.pure_agrees (g, o)

/-- The output is discarded when the build is stopped at its very end. -/
theorem finish_result (s : Session) (o : BuildOutput) :
    (b.finish signal s files o).result = ((BuildM.enter .done).exec signal s).1.map fun _ => o := by
  unfold finish
  rcases (BuildM.enter .done).exec signal s with ⟨_ | _, _⟩ <;> rfl

/-- What a build in memory ends with: the output, unless the build is stopped on the way. -/
theorem compile_result :
    (b.compile signal files).result
      = ((b.assemble files >>= fun made => BuildM.enter .done >>= fun _ => pure made.2).exec
          signal { mode := b.mode }).1 := by
  unfold compile execute
  rw [BuildM.exec_bind]
  rcases (b.assemble files).exec signal { mode := b.mode } with ⟨e | ⟨g, o⟩, s⟩
  · rfl
  · show ((b.remember g).finish signal s files o).result = _
    rw [finish_result]
    show _ = ((BuildM.enter .done >>= fun _ => pure o).exec signal s).1
    rw [BuildM.exec_bind]
    rcases (BuildM.enter .done).exec signal s with ⟨_ | _, _⟩ <;> rfl

/-- **A build that is not stopped** ends like the build of a bundler without artifacts. -/
theorem compile_result_eq_fresh (hcache : (b.graphInput files).CacheExact)
    (hrun : Uncancelled signal (b.compile signal files).result) :
    (b.compile signal files).result = (b.fresh.compile .never files).result := by
  have hagrees : BuildM.Agrees signal
      (b.assemble files >>= fun made => BuildM.enter .done >>= fun _ => pure made.2)
      (b.fresh.assemble files >>= fun made => BuildM.enter .done >>= fun _ => pure made.2) :=
    (assemble_agrees hcache).bind fun made =>
      (BuildM.enter_agrees .done).bind fun _ => BuildM.pure_agrees made.2
  rw [compile_result] at hrun ⊢
  rw [compile_result]
  exact (hagrees { mode := b.mode } { mode := b.mode } rfl hrun).1.symm

/-! ## §3. Builds one after the other. -/

/-- A build leaves the bundler as it is, or with the artifacts of its own graph. -/
theorem compile_bundler :
    (b.compile signal files).bundler = b
      ∨ ∃ g o, ((b.assemble files).exec signal { mode := b.mode }).1 = .ok (g, o)
          ∧ (b.compile signal files).bundler = b.remember g := by
  unfold compile execute
  rcases (b.assemble files).exec signal { mode := b.mode } with ⟨e | ⟨g, o⟩, s⟩
  · exact Or.inl rfl
  · refine Or.inr ⟨g, o, rfl, ?_⟩
    show ((b.remember g).finish signal s files o).bundler = b.remember g
    unfold finish
    rcases (BuildM.enter .done).exec signal s with ⟨_ | _, _⟩ <;> rfl

/-- Nothing but the artifacts changes from one build to the next. -/
theorem compile_bundler_fresh : (b.compile signal files).bundler.fresh = b.fresh := by
  rcases @compile_bundler b signal files with h | ⟨g, o, _, h⟩
  · rw [h]
  · rw [h]
    rfl

/-- **A build keeps the invariant**, whether it succeeds, fails or is stopped. -/
theorem madeFrom_compile {trees : List FileTree} (hdigests : DigestsDiffer trees)
    (hfiles : files ∈ trees) (hcache : b.cache.MadeFrom b.table trees) :
    (b.compile signal files).bundler.cache.MadeFrom (b.compile signal files).bundler.table
      trees := by
  rcases @compile_bundler b signal files with h | ⟨g, o, hmade, h⟩
  · rw [h]
    exact hcache
  · rw [h]
    obtain ⟨entries, _, hg⟩ := (makes_of_assemble hmade).graph
    exact hg.madeFrom (hcache.cacheExact hdigests hfiles b.config) hfiles

/-- A state of the project together with the signal of the build that meets it. -/
structure Request where
  signal : CancelSignal
  files : FileTree

/-- The outcomes of some builds, each with the bundler that the build before it leaves behind. -/
def compileAll : Bundler → List Request → List Outcome
  | _, [] => []
  | b, r :: rest =>
    b.compile r.signal r.files :: compileAll (b.compile r.signal r.files).bundler rest

/-- **A run of builds**: each that is not stopped ends like the build of a bundler without artifacts. -/
theorem compileAll_fresh {trees : List FileTree} (hdigests : DigestsDiffer trees) :
    ∀ (requests : List Request) (b : Bundler), (∀ r ∈ requests, r.files ∈ trees) →
      b.cache.MadeFrom b.table trees →
      List.Forall₂ (fun (r : Request) outcome => Uncancelled r.signal outcome.result →
          outcome.result = (b.fresh.compile .never r.files).result)
        requests (b.compileAll requests) := by
  intro requests
  induction requests with
  | nil => exact fun _ _ _ => .nil
  | cons r rest ih =>
      intro b hrequests hcache
      have hfiles : r.files ∈ trees := hrequests r List.mem_cons_self
      refine .cons (compile_result_eq_fresh (hcache.cacheExact hdigests hfiles b.config)) ?_
      -- the next bundler differs in its artifacts, and these keep the invariant
      have hnext := ih (b.compile r.signal r.files).bundler
        (fun r' hr' => hrequests r' (List.mem_cons_of_mem _ hr'))
        (madeFrom_compile hdigests hfiles hcache)
      rwa [compile_bundler_fresh] at hnext

/-! ## §4. Bundlers that have just been created. -/

/-- A bundler for a project has the rules of the configuration and no artifacts. -/
theorem create_eq {config : Config} {mode : Mode} {outdir? : Option Path} {table : RuleTable}
    (htable : RuleTable.compile config mode = .ok table) :
    create files config mode outdir?
      = let b : Bundler :=
          { config, mode, outdir?, root := canonicalOr files config.root, table, cache := [] }
        if b.root.startsWith (canonicalOr files b.outputDir) then
          .error (.outputContainsRoot (canonicalOr files b.outputDir))
        else .ok b := by
  unfold create
  rw [htable]
  simp only [bind, Except.bind, pure, Except.pure]
  split <;> rfl

/-- When the root of the project is where it was, a new bundler is the old one without artifacts; there
is one unless the output directory now holds the root. -/
theorem create_again {start files : FileTree} {config : Config} {mode : Mode}
    {outdir? : Option Path} (hb : create start config mode outdir? = .ok b)
    (hroot : canonicalOr files config.root = canonicalOr start config.root) :
    create files config mode outdir?
      = if b.root.startsWith (canonicalOr files b.outputDir) then
          .error (.outputContainsRoot (canonicalOr files b.outputDir))
        else .ok b.fresh := by
  cases htable : RuleTable.compile config mode with
  | error e =>
      unfold create at hb
      rw [htable] at hb
      cases hb
  | ok table =>
      rw [create_eq htable] at hb
      rw [create_eq htable, hroot]
      dsimp only at hb ⊢
      split at hb
      next => cases hb
      next =>
        cases hb
        rfl

/-- A bundler that has just been created has no artifacts. -/
theorem fresh_of_create {start : FileTree} {config : Config} {mode : Mode}
    {outdir? : Option Path} (hb : create start config mode outdir? = .ok b) : b.fresh = b := by
  have h := create_again hb rfl
  rw [hb] at h
  split at h
  next => cases h
  next => exact (Except.ok.inj h).symm

/-- A project with one entry, in which only the scripts differ from state to state. -/
def scriptsConfig : Config :=
  { (Graph.projectOf []).config with entrypoints := [("main", "main.js")] }

/-- A state of that project. -/
def scriptsTree (scripts : List (String × String)) : FileTree :=
  (Graph.projectOf scripts).files

/-- An entry loads a script, which then is gone, and comes back while the entry has been changed; the
build that meets the change first is stopped at its second check. -/
def editedRequests : List Request :=
  [⟨.never, scriptsTree [("main.js", "import './util';"), ("util.js", "")]⟩,
   ⟨.never, scriptsTree [("main.js", "import './util';")]⟩,
   ⟨fun s => s.checks == 1, scriptsTree [("main.js", "import './util';1;"), ("util.js", "")]⟩,
   ⟨.never, scriptsTree [("main.js", "import './util';1;"), ("util.js", "")]⟩]

theorem exists_scripts_bundler :
    ∃ b, create (scriptsTree []) scriptsConfig .development none = .ok b
      ∧ (b.compileAll editedRequests).map (fun o => o.result.isOk)
        = [true, false, false, true] :=
  exists_of_any_toOption (by decide +kernel)

end Bundler

end AssetBundler
