/-
  AssetBundler.Proofs.Build.Output
  ────────────────────────────────
  **THE FILES OF A BUILD.**

  The output lists the files of its chunks in the order of the plan, so the
  addresses that the page is given are those of the files that are written;
  and the page is among the files, unless the manifest has its name.

    • `Emit.exists_withPage_of_output` — how an output is completed,
    • `Emit.output_files` — the chunk files and the page,
    • `Emit.addressesOf_chunks` — the addresses of some groups.
-/
import AssetBundler.Proofs.Build.Phases
import AssetBundler.Proofs.Config.TextMap

namespace AssetBundler

/-! ## §1. Files at their paths. -/

namespace BuildOutput

@[simp] theorem file?_putFile (o : BuildOutput) (path p : String) (content : ByteArray) :
    (o.putFile path content).file? p = if p = path then some content else o.file? p :=
  TextMap.lookup_insert path p content o.files

end BuildOutput

namespace Emit

/-! ## §2. Chunk files. -/

/-- The file of a chunk with its text. -/
def emitted (chunk : Chunk) (rendered : RenderedChunk) : EmittedChunk where
  name := chunk.name
  kind := chunk.kind
  role := chunk.role
  path := chunkPath chunk rendered.code
  size := (chunkText chunk rendered).utf8ByteSize

theorem chunks_addChunk (o : BuildOutput) (chunk : Chunk) (rendered : RenderedChunk) :
    (addChunk o chunk rendered).chunks = o.chunks ++ [emitted chunk rendered] := rfl

theorem chunks_foldl_addChunk : ∀ (texts : List (Chunk × RenderedChunk)) (o : BuildOutput),
    (texts.foldl (fun o (chunk, rendered) => addChunk o chunk rendered) o).chunks
      = o.chunks ++ texts.map fun t => emitted t.1 t.2
  | [], o => by simp
  | t :: texts, o => by
      rw [List.foldl_cons, chunks_foldl_addChunk texts, chunks_addChunk, List.append_assoc]
      rfl

theorem chunks_addAsset (root : Path) (o : BuildOutput) (r : ModuleRecord) :
    (addAsset root o r).chunks = o.chunks := by
  unfold addAsset
  split <;> rfl

theorem chunks_foldl_addAsset (root : Path) : ∀ (records : List ModuleRecord) (o : BuildOutput),
    (records.foldl (addAsset root) o).chunks = o.chunks
  | [], _ => rfl
  | r :: records, o => by
      rw [List.foldl_cons, chunks_foldl_addAsset root records, chunks_addAsset]

variable {config : Config} {mode : Mode} {files : FileTree} {root : Path} {g : ModuleGraph}
  {plan : ChunkPlan} {contents : List RenderedChunk} {o : BuildOutput}

theorem chunks_contentOutput :
    (contentOutput g root plan contents).chunks
      = (plan.chunks.zip contents).map fun t => emitted t.1 t.2 := by
  unfold contentOutput
  rw [chunks_foldl_addAsset, chunks_foldl_addChunk]
  rfl

/-! ## §3. The page. -/

/-- The page of a build in terms of its output: it is given the addresses of the chunk files. -/
def pageOf (config : Config) (root : Path) (plan : ChunkPlan) (o : BuildOutput) : Page.Shell :=
  shell root plan (o.chunks.map fun c => config.publicPath ++ c.path)

/-- The page, put into the template, is a file of the output, unless the manifest takes its place. -/
def HasPage (config : Config) (mode : Mode) (files : FileTree) (page : Page.Shell)
    (o : BuildOutput) : Prop :=
  ∃ text, template config files = .ok text
    ∧ (o.file? config.output.htmlFilename = some (pageText mode page text).toUTF8
        ∨ config.output.manifest = true ∧ config.output.htmlFilename = "manifest.json")

/-- An output with its page. -/
def withPage (config : Config) (mode : Mode) (page : Page.Shell) (text : String)
    (o : BuildOutput) : BuildOutput :=
  { o.putFile config.output.htmlFilename (pageText mode page text).toUTF8 with
    html := config.output.htmlFilename }

theorem file?_withPage (page : Page.Shell) (text p : String) :
    (withPage config mode page text o).file? p
      = if p = config.output.htmlFilename then some (pageText mode page text).toUTF8
        else o.file? p :=
  BuildOutput.file?_putFile ..

/-- **How an output is completed**: the page is put into it, and then the manifest, if it is asked for. -/
theorem exists_withPage_of_output (h : output config mode files root g plan contents = .ok o) :
    ∃ text paged, template config files = .ok text
      ∧ paged = withPage config mode (shell root plan (addresses config.publicPath plan contents))
          text (contentOutput g root plan contents)
      ∧ (o = paged ∨ config.output.manifest = true
          ∧ o = paged.putFile "manifest.json" (Data.Json.pretty 0 paged.manifest.toValue).toUTF8) := by
  obtain ⟨text, htext, h⟩ := exists_of_bind_eq_ok h
  refine ⟨text, _, htext, rfl, ?_⟩
  cases h
  split
  next hmanifest => exact Or.inr ⟨hmanifest, rfl⟩
  next => exact Or.inl rfl

/-- **The files of an output.**  It lists the chunk files in the order of the plan, and has the page that
is made of their addresses. -/
theorem output_files (h : output config mode files root g plan contents = .ok o) :
    o.chunks = (plan.chunks.zip contents).map (fun t => emitted t.1 t.2)
      ∧ HasPage config mode files (pageOf config root plan o) o := by
  obtain ⟨text, paged, htext, hpaged, ho⟩ := exists_withPage_of_output h
  have hchunks : o.chunks = (plan.chunks.zip contents).map fun t => emitted t.1 t.2 := by
    have hcontents : paged.chunks = (contentOutput g root plan contents).chunks :=
      hpaged ▸ rfl
    rw [← @chunks_contentOutput root g, ← hcontents]
    rcases ho with rfl | ⟨_, rfl⟩ <;> rfl
  have hpage : shell root plan (addresses config.publicPath plan contents)
      = pageOf config root plan o := by
    rw [pageOf, hchunks, List.map_map]
    rfl
  refine ⟨hchunks, text, htext, ?_⟩
  rw [hpage] at hpaged
  have hfile : paged.file? config.output.htmlFilename
      = some (pageText mode (pageOf config root plan o) text).toUTF8 := by
    rw [hpaged, file?_withPage, if_pos rfl]
  rcases ho with rfl | ⟨hmanifest, ho⟩
  · exact Or.inl hfile
  · by_cases hname : config.output.htmlFilename = "manifest.json"
    · exact Or.inr ⟨hmanifest, hname⟩
    · refine Or.inl (Eq.trans ?_ hfile)
      rw [ho, BuildOutput.file?_putFile, if_neg hname]

/-- The addresses of the files of one kind in some groups are those of the chunks that they have. -/
theorem addressesOf_chunks (kind : ChunkKind) (groups : List Nat) :
    addressesOf plan (o.chunks.map fun c => config.publicPath ++ c.path) kind groups
      = groups.filterMap fun j => (plan.chunkIndex? j kind).bind fun k =>
          (o.chunks[k]?).map fun c => config.publicPath ++ c.path := by
  simp only [addressesOf, List.getElem?_map]

end Emit

end AssetBundler
