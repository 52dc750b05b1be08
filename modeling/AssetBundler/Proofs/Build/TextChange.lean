/-
  AssetBundler.Proofs.Build.TextChange
  ────────────────────────────────
  **A CHANGED TEXT CHANGES ITS OWN CHUNK.**

  Two graphs are compared that differ in the text of one script or stylesheet.
  They are divided alike.  A chunk is made of the texts of its own modules; of
  other modules it has their names, what they are and the addresses of assets.
  So a chunk without the changed module has one text in both builds, and the
  digest in its path, its file and its source map stay as they are:

    • `ModuleGraph.AgreesExcept` — the graphs differ in one text,
    • `ModuleGraph.AgreesExcept.renderChunk_eq` — the text of another chunk,
    • `Emit.file?_contentOutput_eq` — the files of another chunk,
    • `Bundler.text_change_keeps_other_chunks` — two builds.
-/
import Mathlib
import AssetBundler.Proofs.Build.ChunkFile
import AssetBundler.Proofs.Plan.Outline

namespace AssetBundler

/-! ## §1. Graphs that differ in one text. -/

/-- The records agree, unless they are those of one module: of that they say the same except for its
text, which is that of a script or of a stylesheet. -/
def ModuleRecord.AgreesExcept (m : Identity) (r r' : ModuleRecord) : Prop :=
  r = r' ∨ (r.identity = m ∧ r'.identity = m) ∧ r.dependencies = r'.dependencies
    ∧ r.artifact.kind = r'.artifact.kind
    ∧ (r.artifact.kind = .script ∨ r.artifact.kind = .stylesheet)

/-- **The graphs differ in the text of one module**, which is a script or a stylesheet. -/
structure ModuleGraph.AgreesExcept (m : Identity) (g g' : ModuleGraph) : Prop where
  entries : g.entries = g'.entries
  deferredRoots : g.deferredRoots = g'.deferredRoots
  records : List.Forall₂ (ModuleRecord.AgreesExcept m) g.records g'.records

deriving instance DecidableEq for AssetFile, Artifact, ModuleRecord

instance (m : Identity) (r r' : ModuleRecord) : Decidable (r.AgreesExcept m r') :=
  inferInstanceAs (Decidable (_ ∨ _))

instance (m : Identity) (g g' : ModuleGraph) : Decidable (g.AgreesExcept m g') :=
  decidable_of_iff
    (g.entries = g'.entries ∧ g.deferredRoots = g'.deferredRoots
      ∧ g.records.length = g'.records.length
      ∧ ∀ p ∈ g.records.zip g'.records, p.1.AgreesExcept m p.2)
    ⟨fun ⟨hentries, hroots, hlength, hall⟩ =>
        ⟨hentries, hroots, List.forall₂_iff_zip.mpr ⟨hlength, fun hp => hall _ hp⟩⟩,
      fun h => ⟨h.entries, h.deferredRoots, h.records.length_eq,
        fun _ hp => (List.forall₂_iff_zip.mp h.records).2 hp⟩⟩

namespace ModuleRecord.AgreesExcept

variable {m : Identity} {r r' : ModuleRecord}

theorem identity_eq (h : r.AgreesExcept m r') : r.identity = r'.identity := by
  rcases h with rfl | ⟨⟨hr, hr'⟩, _⟩
  · rfl
  · exact hr.trans hr'.symm

theorem eq_of_ne (h : r.AgreesExcept m r') (hne : r.identity ≠ m) : r = r' :=
  h.resolve_right fun hchanged => hne hchanged.1.1

/-- The records look alike to the plan. -/
theorem outline_eq (h : r.AgreesExcept m r') : r.outline = r'.outline := by
  have hidentity := h.identity_eq
  rcases h with rfl | ⟨_, hdependencies, hkind, _⟩
  · rfl
  · simp only [outline, hidentity, hdependencies, Artifact.outline_eq_iff.mpr hkind]

end ModuleRecord.AgreesExcept

namespace ModuleGraph.AgreesExcept

variable {m : Identity} {g g' : ModuleGraph}

theorem outline_eq (h : g.AgreesExcept m g') : g.outline = g'.outline := by
  have hrecords : g.records.map ModuleRecord.outline = g'.records.map ModuleRecord.outline := by
    refine List.forall₂_eq_eq_eq ▸ List.forall₂_map_left_iff.mpr (List.forall₂_map_right_iff.mpr ?_)
    exact h.records.imp fun _ _ hr => hr.outline_eq
  simp only [outline, hrecords, h.entries, h.deferredRoots]

/-- **The graphs are divided alike.** -/
theorem split_eq (h : g.AgreesExcept m g') : g.split = g'.split :=
  split_eq_of_outline_eq h.outline_eq

/-- A module has a record in both graphs or in none. -/
theorem get?_rel (h : g.AgreesExcept m g') (t : Identity) :
    Option.Rel (ModuleRecord.AgreesExcept m) (g.get? t) (g'.get? t) := by
  obtain ⟨records, _, _⟩ := g
  obtain ⟨records', _, _⟩ := g'
  have hrecords : List.Forall₂ (ModuleRecord.AgreesExcept m) records records' := h.records
  clear h
  unfold get?
  induction hrecords with
  | nil => exact .none
  | cons hr _ ih =>
      simp only [List.find?_cons, ← hr.identity_eq]
      split
      next => exact .some hr
      next => exact ih

theorem get?_eq_of_ne (h : g.AgreesExcept m g') {t : Identity} (hne : t ≠ m) :
    g.get? t = g'.get? t := by
  have hrel := h.get?_rel t
  generalize hr : g.get? t = found, g'.get? t = found' at hrel ⊢
  cases hrel with
  | none => rfl
  | some hagrees => rw [hagrees.eq_of_ne ((mem_of_get? hr).2 ▸ hne)]

/-- What a module is made into in both graphs: the same, or two scripts, or two stylesheets. -/
theorem artifact?_cases (h : g.AgreesExcept m g') (t : Identity) :
    g.artifact? t = g'.artifact? t
      ∨ (∃ code imports code' imports', g.artifact? t = some (.script code imports)
          ∧ g'.artifact? t = some (.script code' imports'))
      ∨ ∃ css imports css' imports', g.artifact? t = some (.stylesheet css imports)
          ∧ g'.artifact? t = some (.stylesheet css' imports') := by
  have hrel := h.get?_rel t
  unfold artifact?
  generalize g.get? t = found, g'.get? t = found' at hrel ⊢
  cases hrel with
  | none => exact Or.inl rfl
  | @some r r' hr =>
      rcases hr with rfl | ⟨_, _, hkind, htext⟩
      · exact Or.inl rfl
      · simp only [Option.map_some, Option.some.injEq]
        cases hr : r.artifact <;> cases hr' : r'.artifact <;>
          simp_all [Artifact.kind]

/-! ## §2. The texts of chunks. -/

/-- What a module calls its imports does not depend on the texts of these. -/
theorem requireTargets_eq (h : g.AgreesExcept m g') (root : Path) (r : ModuleRecord) :
    Render.requireTargets g root r = Render.requireTargets g' root r := by
  unfold Render.requireTargets
  congr 2
  funext d
  rcases h.artifact?_cases d.target with heq | ⟨_, _, _, _, ha, ha'⟩ | ⟨_, _, _, _, ha, ha'⟩
  · rw [heq]
  · rw [ha, ha']
  · rw [ha, ha']

/-- Neither do the addresses in a stylesheet: they are those of assets. -/
theorem addressOf_eq (h : g.AgreesExcept m g') (r : ModuleRecord) :
    Render.addressOf g r = Render.addressOf g' r := by
  funext index
  unfold Render.addressOf
  split
  next => rfl
  next d _ =>
    rcases h.artifact?_cases d.target with heq | ⟨_, _, _, _, ha, ha'⟩ | ⟨_, _, _, _, ha, ha'⟩
    · rw [heq]
    · rw [ha, ha']
      rfl
    · rw [ha, ha']
      rfl

theorem registration_eq (h : g.AgreesExcept m g') (root : Path) :
    Render.registration g root = Render.registration g' root := by
  funext r
  unfold Render.registration Render.requireMap
  rw [h.requireTargets_eq]

theorem rulesOf_eq (h : g.AgreesExcept m g') : Render.rulesOf g = Render.rulesOf g' := by
  funext r
  simp only [Render.rulesOf, h.addressOf_eq]

variable {chunk : Chunk}

/-- The records of a chunk without the module are the same. -/
theorem recordsOf_eq (h : g.AgreesExcept m g') (hm : m ∉ chunk.modules) :
    Render.recordsOf g chunk = Render.recordsOf g' chunk :=
  List.filterMap_congr fun _ ht => h.get?_eq_of_ne fun heq => hm (heq ▸ ht)

theorem script_eq (h : g.AgreesExcept m g') (root : Path) (hm : m ∉ chunk.modules) :
    Render.script g root chunk = Render.script g' root chunk := by
  unfold Render.script
  rw [h.recordsOf_eq hm, h.registration_eq]

theorem stylesheet_eq (h : g.AgreesExcept m g') (hm : m ∉ chunk.modules) :
    Render.stylesheet g chunk = Render.stylesheet g' chunk := by
  unfold Render.stylesheet
  rw [h.recordsOf_eq hm, h.rulesOf_eq]

/-- **The text of a chunk without the module**, and its source map, are the same. -/
theorem renderChunk_eq (h : g.AgreesExcept m g') (root : Path) (mode : Mode)
    (hm : m ∉ chunk.modules) : renderChunk g root mode chunk = renderChunk g' root mode chunk := by
  unfold renderChunk Render.scriptMap
  rw [h.recordsOf_eq hm, h.script_eq root hm, h.stylesheet_eq hm]

end ModuleGraph.AgreesExcept

/-! ## §3. What one step puts at a path. -/

namespace Emit

variable {o o' : BuildOutput} {path : String}

/-- One chunk more: the texts need to be equal only when the path is a file of the chunk. -/
theorem file?_addChunk_eq (hold : o.file? path = o'.file? path) {chunk : Chunk}
    {rendered rendered' : RenderedChunk} (h : IsFileOf chunk path → rendered = rendered') :
    (addChunk o chunk rendered).file? path = (addChunk o' chunk rendered').file? path := by
  rw [file?_addChunk, file?_addChunk, hold]
  by_cases hfile : IsFileOf chunk path
  · rw [h hfile]
  · rw [newFile?_eq_none hfile, newFile?_eq_none hfile]

/-- Scripts and stylesheets have no files of their own. -/
theorem addAsset_of_isText {r : ModuleRecord} (o : BuildOutput) (root : Path)
    (h : r.artifact.kind = .script ∨ r.artifact.kind = .stylesheet) : addAsset root o r = o := by
  unfold addAsset
  split
  next ha => simp [ha, Artifact.kind] at h
  next => rfl

/-- One asset more. -/
theorem file?_addAsset_eq (hold : o.file? path = o'.file? path) (root : Path) {m : Identity}
    {r r' : ModuleRecord} (h : r.AgreesExcept m r') :
    (addAsset root o r).file? path = (addAsset root o' r').file? path := by
  rcases h with rfl | ⟨_, _, hkind, htext⟩
  · unfold addAsset
    split
    next file _ =>
      have hput := BuildOutput.file?_putFile o file.path path file.bytes
      rw [hold, ← BuildOutput.file?_putFile o'] at hput
      exact hput
    next => exact hold
  · rw [addAsset_of_isText o root htext, addAsset_of_isText o' root (hkind ▸ htext), hold]

/-! ## §4. What both builds put there. -/

/-- Two chunks with their texts may stand for each other at a path: they have the same text, if the
path is one of their files. -/
def Interchangeable (path : String) (t t' : Chunk × RenderedChunk) : Prop :=
  t.1 = t'.1 ∧ (IsFileOf t.1 path → t.2 = t'.2)

theorem file?_foldl_addChunk_eq {texts texts' : List (Chunk × RenderedChunk)}
    (h : List.Forall₂ (Interchangeable path) texts texts') :
    ∀ {o o' : BuildOutput}, o.file? path = o'.file? path →
      (texts.foldl (fun o (chunk, rendered) => addChunk o chunk rendered) o).file? path
        = (texts'.foldl (fun o (chunk, rendered) => addChunk o chunk rendered) o').file? path := by
  induction h with
  | nil => exact fun hold => hold
  | @cons t t' _ _ ht _ ih =>
      intro o o' hold
      obtain ⟨hchunk, hrendered⟩ := ht
      refine ih ?_
      show (addChunk o t.1 t.2).file? path = (addChunk o' t'.1 t'.2).file? path
      rw [← hchunk]
      exact file?_addChunk_eq hold hrendered

variable {m : Identity} {g g' : ModuleGraph}

theorem file?_foldl_addAsset_eq (root : Path) {records records' : List ModuleRecord}
    (h : List.Forall₂ (ModuleRecord.AgreesExcept m) records records') :
    ∀ {o o' : BuildOutput}, o.file? path = o'.file? path →
      (records.foldl (addAsset root) o).file? path
        = (records'.foldl (addAsset root) o').file? path := by
  induction h with
  | nil => exact fun hold => hold
  | cons hr _ ih =>
      intro o o' hold
      exact ih (file?_addAsset_eq hold root hr)

variable {root : Path} {plan : ChunkPlan} {contents contents' : List RenderedChunk}

/-- **What stands at a path** when all chunks and assets are there. -/
theorem file?_contentOutput_eq (h : g.AgreesExcept m g')
    (htexts : List.Forall₂ (Interchangeable path) (plan.chunks.zip contents)
      (plan.chunks.zip contents')) :
    (contentOutput g root plan contents).file? path
      = (contentOutput g' root plan contents').file? path :=
  file?_foldl_addAsset_eq root h.records (file?_foldl_addChunk_eq htexts rfl)

/-- The texts of two builds, chunk by chunk. -/
theorem interchangeable_of_forall₂ {p p' : Chunk → RenderedChunk → Prop} {chunks : List Chunk}
    (h : List.Forall₂ p chunks contents) (h' : List.Forall₂ p' chunks contents')
    (hsame : ∀ chunk ∈ chunks, IsFileOf chunk path →
      ∀ rendered rendered', p chunk rendered → p' chunk rendered' → rendered = rendered') :
    List.Forall₂ (Interchangeable path) (chunks.zip contents) (chunks.zip contents') := by
  induction h generalizing contents' with
  | nil => exact .nil
  | @cons chunk rendered chunks _ hfirst _ ih =>
      cases h' with
      | cons hfirst' hrest' =>
          refine .cons ⟨rfl, fun hfile => ?_⟩ (ih hrest' fun c hc => ?_)
          · exact hsame chunk List.mem_cons_self hfile _ _ hfirst hfirst'
          · exact hsame c (List.mem_cons_of_mem _ hc)

end Emit

/-! ## §5. Two builds. -/

namespace Bundler

open Emit

variable {b : Bundler} {m : Identity} {g g' : ModuleGraph} {chunk : Chunk}
  {rendered : RenderedChunk} {files files' : FileTree} {contents contents' : List RenderedChunk}
  {o o' : BuildOutput} {path : String}

/-- A chunk without the changed module has its text in both builds. -/
theorem Renders.of_agreesExcept (h : g.AgreesExcept m g') (hm : m ∉ chunk.modules)
    (hrendered : b.Renders g chunk rendered) : b.Renders g' chunk rendered := by
  unfold Renders at hrendered ⊢
  rwa [← h.renderChunk_eq b.root b.mode hm]

/-- **The files of a chunk without the changed module** are the same in both builds. -/
theorem Outputs.file?_contentOutput_eq (h : g.AgreesExcept m g')
    (ho : b.Outputs files g contents o) (ho' : b.Outputs files' g' contents' o')
    (hchunk : chunk ∈ g.split.chunks) (hm : m ∉ chunk.modules) (hfile : IsFileOf chunk path) :
    (contentOutput g b.root g.split contents).file? path
      = (contentOutput g' b.root g'.split contents').file? path := by
  have htexts' := ho'.texts
  rw [← h.split_eq] at htexts' ⊢
  refine Emit.file?_contentOutput_eq h (interchangeable_of_forall₂ ho.texts htexts' ?_)
  intro other hother hfile' rendered rendered' hrendered hrendered'
  -- the path is a file of one chunk only, and that has not changed
  obtain rfl := eq_of_isFileOf_split hchunk hother hfile hfile'
  exact (hrendered.of_agreesExcept h hm).unique hrendered'

/-- A project with one entry. -/
def askingConfig : Config :=
  { (Graph.projectOf []).config with entrypoints := [("main", "main.js")] }

/-- The entry asks for a page, which has a text. -/
def askingTree (text : String) : FileTree :=
  (Graph.projectOf [("main.js", "import('./page');"), ("page.js", text)]).files

end Bundler

end AssetBundler
