/-
  AssetBundler.Proofs.Build.Manifest
  ────────────────────────────────
  **THE MANIFEST OF A BUILD.**

  The manifest notes the path of every chunk file under the name of its chunk,
  and the path of every asset under the name of its module.  Each of the steps
  that put the output together keeps it so that nothing is noted which is not
  there.  The names of chunks differ, so that no chunk takes the place of
  another, and a path tells which chunk it belongs to:

    • `Emit.eq_of_chunkPath_eq` — the chunk of a path,
    • `BuildOutput.Consistent` — what the manifest says, kept by every step,
    • `Emit.consistent_output` — the manifest of an output,
    • `Emit.Emits` — the chunk files of a plan.
-/
import AssetBundler.Proofs.Build.Output
import AssetBundler.Proofs.Digest.Sha256
import AssetBundler.Proofs.Plan.Names

namespace AssetBundler

/-! ## §1. The paths of chunk files. -/

namespace Emit

theorem toList_chunkPath (chunk : Chunk) (code : String) :
    (chunkPath chunk code).toList
      = chunk.kind.directory.toList ++ '/' :: (chunk.name.toList
        ++ '.' :: ((Digest.ofContent code.toUTF8).toList
          ++ '.' :: chunk.kind.extension.toList)) := by
  simp [chunkPath, chunkFile]

/-- The directory of a path tells the kind of its chunk. -/
theorem kind_eq_of_chunkPath_eq {chunk chunk' : Chunk} {code code' : String}
    (h : chunkPath chunk code = chunkPath chunk' code') : chunk.kind = chunk'.kind := by
  have hlist := congrArg String.toList h
  rw [toList_chunkPath, toList_chunkPath] at hlist
  cases hkind : chunk.kind <;> cases hkind' : chunk'.kind <;>
    simp [hkind, hkind', ChunkKind.directory] at hlist ⊢

/-- **A path tells its chunk**: what stands behind the name has a fixed length. -/
theorem eq_of_chunkPath_eq {chunk chunk' : Chunk} {code code' : String}
    (h : chunkPath chunk code = chunkPath chunk' code') :
    chunk.kind = chunk'.kind ∧ chunk.name = chunk'.name := by
  have hkind := kind_eq_of_chunkPath_eq h
  have hlist := congrArg String.toList h
  rw [toList_chunkPath, toList_chunkPath, hkind] at hlist
  have hname := (List.cons.inj (List.append_cancel_left hlist)).2
  refine ⟨hkind, String.toList_inj.mp (List.append_inj_left' hname ?_)⟩
  simp [Digest.length_ofContent]

end Emit

/-! ## §2. What the manifest says. -/

/-- The paths of the chunk files of a kind, by the names of the chunks. -/
def OutputManifest.chunkPaths (m : OutputManifest) : ChunkKind → TextMap String
  | .script => m.scripts
  | .stylesheet => m.stylesheets

theorem OutputManifest.mem_paths {m : OutputManifest} {path : String} :
    path ∈ m.paths ↔ (∃ kind, path ∈ (m.chunkPaths kind).map (·.2)) ∨ path ∈ m.media.map (·.2) := by
  simp only [paths, List.mem_append]
  refine or_congr_left ⟨?_, ?_⟩
  · rintro (h | h)
    · exact ⟨.script, h⟩
    · exact ⟨.stylesheet, h⟩
  · rintro ⟨kind | kind, h⟩
    · exact Or.inl h
    · exact Or.inr h

namespace BuildOutput

/-- The files of the chunks of a kind, by the names of the chunks. -/
def chunkEntries (o : BuildOutput) (kind : ChunkKind) : List (String × String) :=
  (o.chunks.filter fun c => c.kind = kind).map fun c => (c.name, c.path)

/-- **The manifest of an output is right**: it notes the chunks of the output, and all that it notes
is there. -/
structure Consistent (o : BuildOutput) : Prop where
  chunkPaths : ∀ kind, o.manifest.chunkPaths kind = TextMap.ofList (o.chunkEntries kind)
  isSome : ∀ path ∈ o.manifest.paths, (o.file? path).isSome

variable {o : BuildOutput}

theorem isSome_file?_putFile (path : String) (content : ByteArray) {p : String}
    (h : p = path ∨ (o.file? p).isSome) : ((o.putFile path content).file? p).isSome := by
  rw [file?_putFile]
  split
  next => rfl
  next hne => exact h.resolve_left hne

/-- One file more. -/
theorem Consistent.putFile (h : Consistent o) (path : String) (content : ByteArray) :
    Consistent (o.putFile path content) where
  chunkPaths := h.chunkPaths
  isSome p hp := isSome_file?_putFile path content (Or.inr (h.isSome p hp))

/-- The page. -/
theorem Consistent.withPage (h : Consistent o) (config : Config) (mode : Mode) (page : Page.Shell)
    (text : String) : Consistent (Emit.withPage config mode page text o) :=
  have hput := h.putFile config.output.htmlFilename (Emit.pageText mode page text).toUTF8
  ⟨hput.chunkPaths, hput.isSome⟩

end BuildOutput

namespace Emit

open BuildOutput

/-! ## §3. What every step keeps. -/

theorem chunkPaths_addToManifest (m : OutputManifest) (chunk : Chunk) (path : String)
    (kind : ChunkKind) :
    (addToManifest m chunk path).chunkPaths kind
      = if chunk.kind = kind then TextMap.insert chunk.name path (m.chunkPaths kind)
        else m.chunkPaths kind := by
  unfold addToManifest
  cases chunk.kind <;> cases kind <;> rfl

theorem mem_paths_addToManifest {m : OutputManifest} {chunk : Chunk} {path p : String}
    (h : p ∈ (addToManifest m chunk path).paths) : p = path ∨ p ∈ m.paths := by
  have hmedia : (addToManifest m chunk path).media = m.media := by
    unfold addToManifest
    cases chunk.kind <;> rfl
  rw [OutputManifest.mem_paths, hmedia] at h
  rw [OutputManifest.mem_paths]
  rcases h with ⟨kind, h⟩ | h
  · rw [chunkPaths_addToManifest] at h
    split at h
    next => exact (TextMap.mem_values_insert h).imp_right fun h => Or.inl ⟨kind, h⟩
    next => exact Or.inr (Or.inl ⟨kind, h⟩)
  · exact Or.inr (Or.inr h)

theorem chunkEntries_addChunk (o : BuildOutput) (chunk : Chunk) (rendered : RenderedChunk)
    (kind : ChunkKind) :
    (addChunk o chunk rendered).chunkEntries kind
      = o.chunkEntries kind
        ++ if chunk.kind = kind then [(chunk.name, chunkPath chunk rendered.code)] else [] := by
  rw [chunkEntries, chunks_addChunk, List.filter_append, List.map_append]
  congr 1
  by_cases h : chunk.kind = kind <;> simp [h, emitted]

end Emit

namespace BuildOutput.Consistent

variable {o : BuildOutput}

/-- **One chunk more.** -/
theorem addChunk (h : Consistent o) (chunk : Chunk) (rendered : RenderedChunk) :
    Consistent (Emit.addChunk o chunk rendered) where
  chunkPaths kind := by
    have hmanifest : (Emit.addChunk o chunk rendered).manifest
        = Emit.addToManifest o.manifest chunk (Emit.chunkPath chunk rendered.code) := rfl
    rw [hmanifest, Emit.chunkPaths_addToManifest, Emit.chunkEntries_addChunk, h.chunkPaths kind]
    split
    next => rw [TextMap.ofList_concat]
    next => rw [List.append_nil]
  isSome path hpath := by
    -- the file of the chunk is put behind its source map
    refine isSome_file?_putFile (Emit.chunkPath chunk rendered.code) _ ?_
    refine (Emit.mem_paths_addToManifest hpath).imp_right fun hold => ?_
    cases rendered.map? with
    | none => exact h.isSome path hold
    | some map => exact isSome_file?_putFile _ _ (Or.inr (h.isSome path hold))

/-- **One asset more.** -/
theorem addAsset (h : Consistent o) (root : Path) (r : ModuleRecord) :
    Consistent (Emit.addAsset root o r) := by
  unfold Emit.addAsset
  split
  next file _ =>
    refine ⟨h.chunkPaths, fun path hpath => isSome_file?_putFile file.path _ ?_⟩
    rcases OutputManifest.mem_paths.mp hpath with hchunk | hmedia
    · exact Or.inr (h.isSome path (OutputManifest.mem_paths.mpr (Or.inl hchunk)))
    · refine (TextMap.mem_values_insert hmedia).imp_right fun hold => ?_
      exact h.isSome path (OutputManifest.mem_paths.mpr (Or.inr hold))
  next => exact h

end BuildOutput.Consistent

namespace Emit

open BuildOutput

variable {config : Config} {mode : Mode} {files : FileTree} {root : Path} {g : ModuleGraph}
  {plan : ChunkPlan} {contents : List RenderedChunk} {o : BuildOutput}

/-- The manifest is right when all chunks and assets are there. -/
theorem consistent_contentOutput (g : ModuleGraph) (root : Path) (plan : ChunkPlan)
    (contents : List RenderedChunk) : Consistent (contentOutput g root plan contents) := by
  have hempty : Consistent {} := ⟨fun kind => by cases kind <;> rfl, by simp [OutputManifest.paths]⟩
  unfold contentOutput
  refine List.foldlRecOn (motive := Consistent) _ _ ?_ fun o h r _ => h.addAsset root r
  exact List.foldlRecOn (motive := Consistent) _ _ hempty fun o h t _ => h.addChunk t.1 t.2

/-- **The manifest of an output.** -/
theorem consistent_output (h : output config mode files root g plan contents = .ok o) :
    Consistent o := by
  obtain ⟨text, paged, _, hpaged, ho⟩ := exists_withPage_of_output h
  have hpage : Consistent paged :=
    hpaged ▸ (consistent_contentOutput g root plan contents).withPage config mode _ text
  rcases ho with rfl | ⟨_, rfl⟩
  · exact hpage
  · exact hpage.putFile _ _

/-! ## §4. The chunks of a plan. -/

/-- The output has a file for every chunk of a plan, in its order. -/
def Emits (plan : ChunkPlan) (o : BuildOutput) : Prop :=
  List.Forall₂ (fun chunk c => ∃ rendered, c = emitted chunk rendered) plan.chunks o.chunks

theorem emits_output (h : output config mode files root g plan contents = .ok o)
    (hlength : plan.chunks.length = contents.length) : Emits plan o := by
  rw [Emits, (output_files h).1, List.forall₂_map_right_iff]
  refine List.forall₂_iff_get.mpr ⟨?_, fun k hk hk' => ?_⟩
  · simp [hlength]
  · simp

variable {k k' : Nat} {c c' : EmittedChunk}

theorem Emits.exists_chunk (h : Emits plan o) (hc : o.chunks[k]? = some c) :
    ∃ chunk rendered, plan.chunks[k]? = some chunk ∧ c = emitted chunk rendered := by
  obtain ⟨hk, rfl⟩ := List.getElem?_eq_some_iff.mp hc
  have hk' : k < plan.chunks.length := h.length_eq ▸ hk
  obtain ⟨rendered, hc⟩ := h.get hk' hk
  exact ⟨plan.chunks[k], rendered, List.getElem?_eq_getElem hk', hc⟩

/-- **Two chunk files have different paths.** -/
theorem Emits.eq_of_path_eq (h : Emits g.split o) (hc : o.chunks[k]? = some c)
    (hc' : o.chunks[k']? = some c') (hpath : c.path = c'.path) : k = k' := by
  obtain ⟨chunk, rendered, hchunk, rfl⟩ := h.exists_chunk hc
  obtain ⟨chunk', rendered', hchunk', rfl⟩ := h.exists_chunk hc'
  obtain ⟨hkind, hname⟩ := eq_of_chunkPath_eq hpath
  exact Plan.eq_of_name_eq hchunk hchunk' hkind hname

theorem Emits.names (h : Emits plan o) :
    o.chunks.map (fun c => (c.name, c.kind, c.role))
      = plan.chunks.map fun c => (c.name, c.kind, c.role) := by
  refine List.forall₂_eq_eq_eq ▸ List.forall₂_map_left_iff.mpr (List.forall₂_map_right_iff.mpr ?_)
  refine h.flip.imp ?_
  rintro c chunk ⟨rendered, rfl⟩
  rfl

/-- **Every chunk has its entry in the manifest**, and there are no others. -/
theorem Emits.perm_chunkPaths (h : Emits g.split o) (hmanifest : Consistent o)
    (kind : ChunkKind) : (o.manifest.chunkPaths kind).Perm (o.chunkEntries kind) := by
  rw [hmanifest.chunkPaths kind]
  refine TextMap.perm_ofList ?_
  rw [chunkEntries, List.map_map]
  refine List.pairwise_map.mpr (List.pairwise_filter.mpr (List.pairwise_iff_getElem.mpr ?_))
  intro k k' hk hk' hlt hkind hkind' hname
  obtain ⟨chunk, rendered, hchunk, hc⟩ := h.exists_chunk (List.getElem?_eq_getElem hk)
  obtain ⟨chunk', rendered', hchunk', hc'⟩ := h.exists_chunk (List.getElem?_eq_getElem hk')
  rw [hc, decide_eq_true_eq] at hkind
  rw [hc', decide_eq_true_eq] at hkind'
  simp only [Function.comp_apply, hc, hc'] at hname
  exact hlt.ne (Plan.eq_of_name_eq hchunk hchunk' (hkind.trans hkind'.symm) hname)

end Emit

end AssetBundler
