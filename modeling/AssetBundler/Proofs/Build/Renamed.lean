/-
  AssetBundler.Proofs.Build.Renamed
  ────────────────────────────────
  **OUTPUT KNOWS MODULES BY THEIR WAY FROM THE ROOT.**

  Wherever a module shows in an output, it does so by its way from the root of
  the project.  When all modules get other names under which these ways are
  the same, the texts of the chunks, their source maps, the page and the
  manifest are the same, too:

    • `Path.moduleId_below` — the way from the root of a project,
    • `renderChunk_rename` — the text of a chunk,
    • `Emit.output_rename` — the output of a build.
-/
import AssetBundler.Build.Output
import AssetBundler.Proofs.Files.Below
import AssetBundler.Proofs.Files.Path
import AssetBundler.Proofs.Plan.Renamed

namespace AssetBundler

/-! ## §1. Ways from the root. -/

namespace Path

theorem relativeTo?_ofNames (root l : List String) :
    (ofNames (root ++ l)).relativeTo? (ofNames root)
      = some (ofComponents (l.flatMap fun name => spelled name.toList)) := by
  have habsolute : ∀ names, (ofNames names).isAbsolute = true := isAbsolute_ofNames
  unfold relativeTo?
  rw [habsolute, habsolute, components_ofNames, components_ofNames, List.flatMap_append,
    ← List.cons_append, difference_append]
  rfl

/-- **The way to a module from the root of its project** does not depend on where the project is. -/
theorem moduleId_below (root : Location) (m : Identity) :
    moduleId (m.below root).path (ofNames root) = moduleId m.path (ofNames []) := by
  have hsame : ((m.below root).path).relativeTo? (ofNames root) = m.path.relativeTo? (ofNames []) :=
    (relativeTo?_ofNames root m.location).trans (relativeTo?_ofNames [] m.location).symm
  have hsome : (m.path.relativeTo? (ofNames [])).isSome :=
    Option.isSome_iff_exists.mpr ⟨_, relativeTo?_ofNames [] m.location⟩
  obtain ⟨relative, hrelative⟩ := Option.isSome_iff_exists.mp hsome
  unfold moduleId
  rw [hsame, hrelative]
  rfl

end Path

/-! ## §2. Results. -/

section

variable {α β ε : Type}

theorem toOption_bind (result : Except ε α) (next : α → Except ε β) :
    (result >>= next).toOption = result.toOption.bind fun a => (next a).toOption := by
  cases result <;> rfl

theorem toOption_mapM (step : α → Except ε β) :
    ∀ as : List α, (as.mapM step).toOption = as.mapM fun a => (step a).toOption
  | [] => rfl
  | a :: as => by
      rw [List.mapM_cons, List.mapM_cons, toOption_bind]
      refine Option.bind_congr fun b _ => ?_
      rw [toOption_bind, toOption_mapM step as]
      rfl

end

/-! ## §3. The texts of chunks. -/

section

variable {f : Identity → Identity} {root root' : Path} {g : ModuleGraph}
  (hf : f.Injective) (hway : ∀ m : Identity, Path.moduleId (f m).path root' = Path.moduleId m.path root)

namespace Render

include hf

theorem recordsOf_rename (chunk : Chunk) :
    recordsOf (g.rename f) (chunk.rename f)
      = (recordsOf g chunk).map (ModuleRecord.rename f) := by
  unfold recordsOf Chunk.rename
  rw [List.filterMap_map, List.map_filterMap]
  exact List.filterMap_congr fun m _ => ModuleGraph.get?_rename hf m

theorem addressOf_rename (r : ModuleRecord) :
    addressOf (g.rename f) (r.rename f) = addressOf g r := by
  funext index
  have hdependency : (r.rename f).dependencies[index]?
      = r.dependencies[index]?.map (Dependency.rename f) :=
    List.getElem?_map
  unfold addressOf
  rw [hdependency]
  cases r.dependencies[index]? with
  | none => rfl
  | some d =>
      have htarget : (d.rename f).target = f d.target := rfl
      dsimp only [Option.map_some]
      rw [htarget, ModuleGraph.artifact?_rename hf]
      rfl

theorem rulesOf_rename (r : ModuleRecord) :
    (rulesOf (g.rename f) (r.rename f)).toOption = (rulesOf g r).toOption := by
  have hartifact : (r.rename f).artifact = r.artifact := rfl
  unfold rulesOf
  rw [addressOf_rename hf, hartifact]
  cases r.artifact with
  | stylesheet css imports =>
      dsimp only
      rcases Style.Placeholder.replace (addressOf g r) css.toList with ⟨_ | _⟩ | _ <;> rfl
  | _ => rfl

/-- **The text of a stylesheet chunk.** -/
theorem stylesheet_rename (chunk : Chunk) :
    (stylesheet (g.rename f) (chunk.rename f)).toOption = (stylesheet g chunk).toOption := by
  have hparts : ((recordsOf (g.rename f) (chunk.rename f)).mapM (rulesOf (g.rename f))).toOption
      = ((recordsOf g chunk).mapM (rulesOf g)).toOption := by
    rw [toOption_mapM, toOption_mapM, recordsOf_rename hf, List.mapM_map]
    exact congrArg (fun step => (recordsOf g chunk).mapM step)
      (funext fun r => rulesOf_rename hf r)
  unfold stylesheet
  rw [toOption_bind, toOption_bind, hparts]

include hway

theorem requireTargets_rename (r : ModuleRecord) :
    requireTargets (g.rename f) root' (r.rename f) = requireTargets g root r := by
  unfold requireTargets ModuleRecord.rename
  rw [List.map_map]
  refine congrArg TextMap.ofList (List.map_congr_left fun d _ => ?_)
  dsimp only [Function.comp_apply, Dependency.rename]
  rw [ModuleGraph.artifact?_rename hf, hway]

theorem registration_rename (r : ModuleRecord) :
    registration (g.rename f) root' (r.rename f) = registration g root r := by
  have hbody : trimmedBody (r.rename f) = trimmedBody r := rfl
  have hidentity : Path.moduleId (r.rename f).identity.path root' = Path.moduleId r.identity.path root :=
    hway r.identity
  unfold registration requireMap
  rw [requireTargets_rename hf hway, hbody, hidentity]

/-- **The text of a script chunk.** -/
theorem script_rename (chunk : Chunk) :
    script (g.rename f) root' (chunk.rename f) = script g root chunk := by
  unfold script
  rw [recordsOf_rename hf, List.map_map]
  have hmodules : (registration (g.rename f) root') ∘ (ModuleRecord.rename f)
      = registration g root := funext fun r => registration_rename hf hway r
  rw [hmodules]
  unfold Chunk.rename
  cases chunk.entryModule? with
  | none => rfl
  | some m =>
      dsimp only [Option.map_some]
      rw [hway]

omit hf in
theorem mapRecords_rename : ∀ (line : Nat) (rs : List ModuleRecord) (map : SourceMap),
    mapRecords root' line (rs.map (ModuleRecord.rename f)) map = mapRecords root line rs map
  | _, [], _ => rfl
  | line, r :: rs, map => by
      have hbody : trimmedBody (r.rename f) = trimmedBody r := rfl
      have hsource : (r.rename f).source? = r.source? := rfl
      have hidentity : Path.moduleId (r.rename f).identity.path root'
          = Path.moduleId r.identity.path root := hway r.identity
      rw [List.map_cons, mapRecords, mapRecords]
      dsimp only
      rw [hbody, hsource, hidentity]
      exact mapRecords_rename _ rs _

theorem scriptMap_rename (chunk : Chunk) :
    scriptMap (g.rename f) root' (chunk.rename f) = scriptMap g root chunk := by
  unfold scriptMap
  rw [recordsOf_rename hf, mapRecords_rename hway]

end Render

include hf hway

/-- **The text of a chunk.** -/
theorem renderChunk_rename (mode : Mode) (chunk : Chunk) :
    (renderChunk (g.rename f) root' mode (chunk.rename f)).toOption
      = (renderChunk g root mode chunk).toOption := by
  have hkind : (chunk.rename f).kind = chunk.kind := rfl
  unfold renderChunk
  rw [hkind]
  cases chunk.kind with
  | script =>
      dsimp only
      rw [Render.script_rename hf hway, Render.scriptMap_rename hf hway]
  | stylesheet =>
      have htext := Render.stylesheet_rename (g := g) hf chunk
      dsimp only
      cases h : Render.stylesheet (g.rename f) (chunk.rename f) <;>
        cases h' : Render.stylesheet g chunk <;> rw [h, h'] at htext <;> simp_all [Except.toOption, Except.map]

end

/-! ## §4. The output. -/

namespace ChunkPlan

variable {f : Identity → Identity} {plan : ChunkPlan}

theorem loadSequence_rename (i : Nat) : (plan.rename f).loadSequence i = plan.loadSequence i := by
  unfold loadSequence rename
  rw [List.getElem?_map]
  cases plan.groups[i]? <;> rfl

theorem chunkIndex?_rename (i : Nat) (kind : ChunkKind) :
    (plan.rename f).chunkIndex? i kind = plan.chunkIndex? i kind := by
  unfold chunkIndex? rename
  rw [List.getElem?_map]
  cases plan.groups[i]? <;> rfl

theorem groupsOf_rename (role : ChunkRole) : (plan.rename f).groupsOf role = plan.groupsOf role := by
  unfold groupsOf rename
  rw [List.length_map]
  refine List.filter_congr fun i _ => ?_
  rw [List.getElem?_map, Option.any_map]
  rfl

end ChunkPlan

namespace Emit

variable {f : Identity → Identity} {root root' : Path} {g : ModuleGraph} {plan : ChunkPlan}
  {contents : List RenderedChunk}

theorem addresses_rename (publicPath : String) :
    addresses publicPath (plan.rename f) contents = addresses publicPath plan contents := by
  unfold addresses ChunkPlan.rename
  rw [List.zip_map_left, List.map_map]
  rfl

theorem addressesOf_rename (texts : List String) (kind : ChunkKind) (groups : List Nat) :
    addressesOf (plan.rename f) texts kind groups = addressesOf plan texts kind groups := by
  unfold addressesOf
  simp only [ChunkPlan.chunkIndex?_rename]

theorem initialGroups_rename : initialGroups (plan.rename f) = initialGroups plan := by
  unfold initialGroups
  rw [ChunkPlan.groupsOf_rename]
  congr 2
  funext i
  exact ChunkPlan.loadSequence_rename i

variable (hway : ∀ m : Identity, Path.moduleId (f m).path root' = Path.moduleId m.path root)

include hway

theorem deferredFiles_rename (texts : List String) :
    deferredFiles root' (plan.rename f) texts = deferredFiles root plan texts := by
  unfold deferredFiles
  rw [ChunkPlan.groupsOf_rename]
  refine congrArg TextMap.ofList (List.filterMap_congr fun i _ => ?_)
  have hgroup : (plan.rename f).groups[i]? = plan.groups[i]?.map (ChunkGroup.rename f) :=
    List.getElem?_map
  dsimp only
  rw [hgroup, ChunkPlan.loadSequence_rename, addressesOf_rename, addressesOf_rename]
  cases plan.groups[i]? with
  | none => simp only [Option.map_none, Option.bind_none]
  | some group =>
      show ((group.root?.map f).map fun m => _) = _
      rw [Option.map_map, Option.bind_some]
      refine Option.map_congr fun m _ => ?_
      rw [Function.comp_apply, hway]

theorem shell_rename (texts : List String) :
    shell root' (plan.rename f) texts = shell root plan texts := by
  unfold shell
  dsimp only
  rw [initialGroups_rename, addressesOf_rename, addressesOf_rename, deferredFiles_rename hway]

theorem addAsset_rename (o : BuildOutput) (r : ModuleRecord) :
    addAsset root' o (r.rename f) = addAsset root o r := by
  unfold addAsset ModuleRecord.rename
  dsimp only
  rw [hway]

/-- **The chunks and assets of an output.** -/
theorem contentOutput_rename :
    contentOutput (g.rename f) root' (plan.rename f) contents = contentOutput g root plan contents := by
  have hassets : ∀ (rs : List ModuleRecord) (o : BuildOutput),
      (rs.map (ModuleRecord.rename f)).foldl (addAsset root') o = rs.foldl (addAsset root) o := by
    intro rs o
    rw [List.foldl_map]
    exact congrArg (fun step => rs.foldl step o)
      (funext fun o => funext fun r => addAsset_rename hway o r)
  unfold contentOutput ModuleGraph.rename ChunkPlan.rename
  dsimp only
  rw [hassets, List.zip_map_left, List.foldl_map]
  rfl

/-- **THE OUTPUT OF A BUILD** is the same under other names, when the page has the same template. -/
theorem output_rename {config config' : Config} {files files' : FileTree} {mode : Mode}
    (houtput : config'.output = config.output)
    (htemplate : (template config' files').toOption = (template config files).toOption) :
    (output config' mode files' root' (g.rename f) (plan.rename f) contents).toOption
      = (output config mode files root g plan contents).toOption := by
  have hpublic : config'.publicPath = config.publicPath := by
    unfold Config.publicPath
    rw [houtput]
  unfold output
  rw [contentOutput_rename hway, hpublic, addresses_rename, shell_rename hway, houtput,
    toOption_bind, toOption_bind, htemplate]

end Emit

end AssetBundler
