/-
  AssetBundler.Proofs.Build.ChunkFile
  ────────────────────────────────
  **THE FILES OF A CHUNK.**

  A chunk is written to a file that is named after the digest of its text, and
  in development its source map stands beside it.  Whatever the digests are,
  the paths of different chunks differ, so what an output has at such a path
  has been put there by one chunk, unless an asset or the page has the path:

    • `Emit.eq_of_isFileOf_split` — a path is a file of one chunk,
    • `Emit.file?_addChunk` — what a chunk puts there,
    • `Emit.file?_output` — what the page and the manifest leave as it is,
    • `Bundler.Outputs` — the output of a graph,
    • `Bundler.Outputs.exists_text` — each of its chunks has its text.
-/
import AssetBundler.Proofs.Build.Manifest

namespace AssetBundler

namespace Emit

/-! ## §1. Paths. -/

/-- The path is that of a file of the chunk, whatever its text is. -/
def IsFileOf (chunk : Chunk) (path : String) : Prop :=
  ∃ code, path = chunkPath chunk code ∨ path = chunkPath chunk code ++ ".map"

theorem getLast?_chunkPath (chunk : Chunk) (code : String) :
    (chunkPath chunk code).toList.getLast? = some 's' := by
  have hextension : chunk.kind.extension.toList.getLast? = some 's' := by
    cases chunk.kind with
    | script => rfl
    | stylesheet => rfl
  simp only [toList_chunkPath, List.getLast?_append, List.getLast?_cons, hextension,
    Option.getD_some, Option.some_or]

/-- The path of a source map is not that of a chunk. -/
theorem chunkPath_ne_map (chunk chunk' : Chunk) (code code' : String) :
    chunkPath chunk code ≠ chunkPath chunk' code' ++ ".map" := by
  intro h
  have hlast := getLast?_chunkPath chunk code
  rw [h, String.toList_append, List.getLast?_append] at hlast
  have hchar : 'p' = 's' := Option.some.inj hlast
  exact absurd hchar (by decide)

/-- **The files of different chunks differ.** -/
theorem eq_of_isFileOf {chunk chunk' : Chunk} {path : String} (h : IsFileOf chunk path)
    (h' : IsFileOf chunk' path) : chunk.kind = chunk'.kind ∧ chunk.name = chunk'.name := by
  obtain ⟨code, rfl | rfl⟩ := h <;> obtain ⟨code', heq | heq⟩ := h'
  · exact eq_of_chunkPath_eq heq
  · exact absurd heq (chunkPath_ne_map _ _ _ _)
  · exact absurd heq.symm (chunkPath_ne_map _ _ _ _)
  · have hlist := congrArg String.toList heq
    rw [String.toList_append, String.toList_append] at hlist
    exact eq_of_chunkPath_eq (String.toList_inj.mp (List.append_cancel_right hlist))

/-- The files of chunks are below one directory. -/
theorem isPrefix_of_isFileOf {chunk : Chunk} {path : String} (h : IsFileOf chunk path) :
    "assets/".toList <+: path.toList := by
  have hchunk : ∀ code, "assets/".toList <+: (chunkPath chunk code).toList := by
    intro code
    rw [toList_chunkPath]
    cases chunk.kind with
    | script => exact ⟨_, rfl⟩
    | stylesheet => exact ⟨_, rfl⟩
  obtain ⟨code, rfl | rfl⟩ := h
  · exact hchunk code
  · rw [String.toList_append]
    exact (hchunk code).trans (List.prefix_append ..)

variable {config : Config} {mode : Mode} {files : FileTree} {root : Path} {g : ModuleGraph}
  {plan : ChunkPlan} {contents : List RenderedChunk} {o : BuildOutput} {path : String}

/-- A path is a file of one chunk of a plan. -/
theorem eq_of_isFileOf_split {chunk chunk' : Chunk} (hchunk : chunk ∈ g.split.chunks)
    (hchunk' : chunk' ∈ g.split.chunks) (h : IsFileOf chunk path) (h' : IsFileOf chunk' path) :
    chunk = chunk' := by
  obtain ⟨k, hk⟩ := List.mem_iff_getElem?.mp hchunk
  obtain ⟨k', hk'⟩ := List.mem_iff_getElem?.mp hchunk'
  obtain ⟨hkind, hname⟩ := eq_of_isFileOf h h'
  obtain rfl := Plan.eq_of_name_eq hk hk' hkind hname
  exact Option.some.inj (hk.symm.trans hk')

/-! ## §2. Files. -/

/-- What a chunk with its text puts at a path. -/
def newFile? (chunk : Chunk) (rendered : RenderedChunk) (path : String) : Option ByteArray :=
  if path = chunkPath chunk rendered.code then some (chunkText chunk rendered).toUTF8
  else rendered.map?.bind fun map =>
    if path = chunkPath chunk rendered.code ++ ".map" then
      some (map.text (chunkFile chunk rendered.code)).toUTF8
    else none

theorem newFile?_eq_none {chunk : Chunk} {rendered : RenderedChunk} {path : String}
    (h : ¬ IsFileOf chunk path) : newFile? chunk rendered path = none := by
  unfold newFile?
  rw [if_neg fun heq => h ⟨_, Or.inl heq⟩]
  refine Option.bind_eq_none_iff.mpr fun map _ => ?_
  rw [if_neg fun heq => h ⟨_, Or.inr heq⟩]

theorem file?_addChunk (o : BuildOutput) (chunk : Chunk) (rendered : RenderedChunk)
    (path : String) :
    (addChunk o chunk rendered).file? path = (newFile? chunk rendered path).or (o.file? path) := by
  unfold newFile?
  show (BuildOutput.putFile _ _ _).file? path = _
  rw [BuildOutput.file?_putFile]
  split
  next => rfl
  next =>
    cases rendered.map? with
    | none => rfl
    | some map =>
        rw [BuildOutput.file?_putFile, Option.bind_some]
        split <;> rfl

/-- The page and the manifest leave the files of chunks as they are, unless the page has the path of
one. -/
theorem file?_output (h : output config mode files root g plan contents = .ok o)
    (hpage : path ≠ config.output.htmlFilename) {chunk : Chunk} (hfile : IsFileOf chunk path) :
    o.file? path = (contentOutput g root plan contents).file? path := by
  have hmanifest : path ≠ "manifest.json" := by
    rintro rfl
    exact absurd (isPrefix_of_isFileOf hfile) (by decide)
  obtain ⟨text, paged, _, rfl, ho⟩ := exists_withPage_of_output h
  rcases ho with rfl | ⟨_, rfl⟩
  · rw [file?_withPage, if_neg hpage]
  · rw [BuildOutput.file?_putFile, if_neg hmanifest, file?_withPage, if_neg hpage]

/-- Every chunk file is there. -/
theorem Emits.isSome_file? (h : Emits g.split o) (hmanifest : o.Consistent) {c : EmittedChunk}
    (hc : c ∈ o.chunks) : (o.file? c.path).isSome := by
  refine hmanifest.isSome _ (OutputManifest.mem_paths.mpr (Or.inl ⟨c.kind, ?_⟩))
  refine ((h.perm_chunkPaths hmanifest c.kind).map (·.2)).mem_iff.mpr ?_
  refine List.mem_map.mpr ⟨(c.name, c.path), List.mem_map.mpr ⟨c, ?_, rfl⟩, rfl⟩
  exact List.mem_filter.mpr ⟨hc, decide_eq_true rfl⟩

end Emit

/-! ## §3. The output of a graph. -/

namespace Bundler

open Emit

variable {b : Bundler} {files : FileTree} {g : ModuleGraph} {contents : List RenderedChunk}
  {o : BuildOutput} {chunk : Chunk}

/-- The texts of the chunks of a graph, and the output that is put together from them. -/
structure Outputs (b : Bundler) (files : FileTree) (g : ModuleGraph) (contents : List RenderedChunk)
    (o : BuildOutput) : Prop where
  texts : List.Forall₂ (b.Renders g) g.split.chunks contents
  output : Emit.output b.config b.mode files b.root g g.split contents = .ok o

/-- A build that succeeds gives the output of its graph. -/
theorem Makes.exists_outputs (h : b.Makes files g o) : ∃ contents, b.Outputs files g contents o := by
  obtain ⟨contents, htexts, houtput⟩ := h.output
  exact ⟨contents, htexts, houtput⟩

theorem Outputs.emits (h : b.Outputs files g contents o) : Emits g.split o :=
  emits_output h.output h.texts.length_eq

/-- Every chunk is emitted with its text. -/
theorem Outputs.exists_text (h : b.Outputs files g contents o) {k : Nat}
    (hchunk : g.split.chunks[k]? = some chunk) :
    ∃ rendered, contents[k]? = some rendered ∧ b.Renders g chunk rendered
      ∧ o.chunks[k]? = some (emitted chunk rendered) := by
  obtain ⟨hk, rfl⟩ := List.getElem?_eq_some_iff.mp hchunk
  have hk' : k < contents.length := h.texts.length_eq ▸ hk
  have hrendered : contents[k]? = some contents[k] := List.getElem?_eq_getElem hk'
  refine ⟨contents[k], hrendered, h.texts.get hk hk', ?_⟩
  have hzip : (g.split.chunks.zip contents)[k]? = some (g.split.chunks[k], contents[k]) :=
    List.getElem?_zip_eq_some.mpr ⟨hchunk, hrendered⟩
  rw [(output_files h.output).1, List.getElem?_map, hzip]
  rfl

end Bundler

end AssetBundler
