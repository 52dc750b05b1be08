/-
  AssetBundler.Proofs.Build.InPlace
  ────────────────────────────────
  **OUTPUT THAT IS WRITTEN OVER WHAT IS THERE.**

  In development the files of an output are written one after the other, in
  the order of their names, into the output directory as it is.  A build that
  fails before this leaves all files alone.  When one of the files cannot be
  written, those before it have been, and those behind it have not: nothing is
  taken away, and nothing else is changed but for directories that are made.

    • `FileTree.makeDirectories_induction` — what one directory preserves,
    • `BuildOutput.exists_of_writeFiles_error` — the file at which writing fails,
    • `BuildOutput.Overlaid` — what is left of a tree, whatever leads where,
    • `BuildOutput.Written` — the same by places, without links,
    • `Emit.ascending_output` — the order of the files,
    • `Bundler.failed_build_keeps_files` — builds that fail,
    • `Bundler.failed_build_leaves_scripts` — one that fails at its second file.
-/
import AssetBundler.Proofs.Build.Staging
import AssetBundler.Proofs.Build.Phases
import AssetBundler.Proofs.Config.TextMap
import AssetBundler.Proofs.Files.Removal

namespace AssetBundler

/-! ## §1. Directories that are made. -/

namespace FileTree

variable {tree made : FileTree} {path : Path} {P : FileTree → Prop}

/-- **What making one directory preserves**, making all that lead to it preserves, also when it fails. -/
theorem makeDirectories_induction
    (hstep : ∀ {tree path made}, P tree → tree.makeDirectory path = .ok made → P made) :
    ∀ (fuel : Nat) {tree : FileTree} (path : Path), P tree → P (makeDirectories fuel tree path).1 := by
  have hensure : ∀ {tree path made}, P tree → tree.ensureDirectory path = .ok made → P made := by
    intro tree path made h hmade
    unfold ensureDirectory at hmade
    split at hmade
    next hnew =>
      cases hmade
      exact hstep h hnew
    next =>
      split at hmade
      next =>
        cases hmade
        exact h
      next => cases hmade
  intro fuel
  induction fuel with
  | zero => exact fun _ h => h
  | succ fuel ih =>
      intro tree path h
      unfold makeDirectories
      split
      next => exact h
      next =>
        split
        next hmade => exact hensure h hmade
        next =>
          split
          next => exact h
          next parent _ =>
            have habove := ih parent h
            generalize makeDirectories fuel tree parent = result at habove ⊢
            obtain ⟨above, _ | e⟩ := result
            · dsimp only
              split
              next hmade => exact hensure habove hmade
              next => exact habove
            · exact habove
        next => exact h

/-- A directory that is made stands where nothing stood. -/
theorem exists_of_makeDirectory (h : tree.makeDirectory path = .ok made) :
    ∃ at_, made = tree.put at_ .directory ∧ at_ ≠ [] ∧ tree.entry? at_ = none := by
  unfold makeDirectory at h
  split at h
  next at_ slash hfind =>
    obtain ⟨hne, hnone, _⟩ := vacant_of_find hfind
    cases h
    exact ⟨at_, rfl, hne, hnone⟩
  next => cases h
  next => cases h

/-- No way ends at a link that is to be followed. -/
theorem Reaches.not_link {here at_ : Location} {segments : List String} {e : Entry}
    (h : Reaches tree true here segments at_ e) (target : String) : e ≠ .link target := by
  -- the constructor for links has another value of `follow`
  generalize hfollow : true = follow at h
  induction h with
  | here => exact fun heq => by cases heq
  | idle _ _ ih => exact ih
  | up _ ih => exact ih
  | into _ _ _ ih => exact ih
  | file => exact fun heq => by cases heq
  | link _ hlink _ => cases hfollow.trans hlink
  | through _ _ _ _ ih => exact ih

/-- A file that is written stands where nothing stood, or a file. -/
theorem exists_of_write {content : ByteArray} (h : tree.write path content = .ok made) :
    ∃ at_, made = tree.put at_ (.file content) ∧ at_ ≠ []
      ∧ ∃ old? : Option ByteArray, tree.entry? at_ = old?.map .file := by
  unfold write at h
  split at h
  next bare slash _ =>
    split at h
    next => cases h
    next place hfind =>
      split at h
      next => cases h
      next hslash =>
        obtain rfl := Bool.eq_false_iff.mpr hslash
        split at h
        next at_ slash' =>
          obtain ⟨hne, hnone, _⟩ := vacant_of_find hfind
          cases h
          exact ⟨at_, rfl, hne, none, hnone⟩
        next => cases h
        next at_ old hold =>
          have hway := reaches_of_find hfind
          have hentry := hway.entry?_eq (fun heq => hold (heq ▸ rfl))
          obtain ⟨content', rfl⟩ : ∃ content', old = .file content' := by
            cases old with
            | file content' => exact ⟨content', rfl⟩
            | directory => exact absurd rfl hold
            | link target => exact absurd rfl (hway.not_link target)
          cases h
          refine ⟨at_, rfl, ?_, some content', hentry⟩
          rintro rfl
          cases hentry

end FileTree

namespace BuildOutput

open FileTree

variable {o : BuildOutput} {outdir dir : Path} {start files made written : FileTree}
  {at_ l : Location} {contents done rest : List (String × ByteArray)} {f : String × ByteArray}
  {e : BuildError}

/-! ## §2. The file at which writing fails. -/

/-- The directory of a file of the output. -/
def parentOf (dir : Path) (f : String × ByteArray) : Path :=
  (dir.join f.1).parent?.getD ⟨""⟩

/-- **One file cannot be written**: its directory cannot be made, or there is none of its name. -/
def FailsAt (dir : Path) (f : String × ByteArray) (start : FileTree) (e : BuildError)
    (files : FileTree) : Prop :=
  (∃ cause, start.createDirectories (parentOf dir f) = (files, some cause)
      ∧ e = .emission (parentOf dir f) cause)
    ∨ start.createDirectories (parentOf dir f) = (files, none)
      ∧ ∃ cause, files.write (dir.join f.1) f.2 = .error cause ∧ e = .emission (dir.join f.1) cause

/-- **Writing fails at one file**: those before it have been written. -/
theorem exists_of_writeFiles_error (dir : Path) (contents : List (String × ByteArray)) :
    ∀ {files written : FileTree} {e : BuildError},
      writeFiles dir contents files = (written, some e) →
        ∃ done f rest mid, contents = done ++ f :: rest ∧ writeFiles dir done files = (mid, none)
          ∧ FailsAt dir f mid e written := by
  induction contents with
  | nil =>
      intro files written e h
      cases h
  | cons f rest ih =>
      intro files written e h
      rw [writeFiles_cons] at h
      split at h
      next made cause hmade =>
        cases h
        exact ⟨[], f, rest, files, rfl, rfl, Or.inl ⟨cause, hmade, rfl⟩⟩
      next made hmade =>
        split at h
        next next hwritten =>
          obtain ⟨done, f', rest', mid, rfl, hdone, hfails⟩ := ih h
          refine ⟨f :: done, f', rest', mid, rfl, ?_, hfails⟩
          rw [writeFiles_cons, hmade]
          dsimp only
          rw [hwritten]
          exact hdone
        next cause hwritten =>
          cases h
          exact ⟨[], f, rest, files, rfl, rfl, Or.inr ⟨hmade, cause, hwritten, rfl⟩⟩

/-- **What one directory and one file preserve**, all files preserve. -/
theorem writeFiles_induction {P : List (String × ByteArray) → FileTree → Prop}
    (hdirectory : ∀ {done files path made}, P done files → files.makeDirectory path = .ok made →
      P done made)
    (hfile : ∀ {done f rest files written}, contents = done ++ f :: rest → P done files →
      files.write (dir.join f.1) f.2 = .ok written → P (done ++ [f]) written) :
    ∀ (todo : List (String × ByteArray)) {done rest : List (String × ByteArray)}
      {files written : FileTree}, contents = done ++ (todo ++ rest) → P done files →
        writeFiles dir todo files = (written, none) → P (done ++ todo) written := by
  intro todo
  induction todo with
  | nil =>
      intro done rest files written _ h hwritten
      cases hwritten
      rwa [List.append_nil]
  | cons f todo ih =>
      intro done rest files written hcontents h hwritten
      rw [writeFiles_cons] at hwritten
      have hmade : P done (files.createDirectories ((dir.join f.1).parent?.getD ⟨""⟩)).1 :=
        makeDirectories_induction (P := P done) hdirectory _ _ h
      split at hwritten
      next => cases hwritten
      next made heq =>
        rw [heq] at hmade
        split at hwritten
        next next hnext =>
          have hsplit : contents = done ++ [f] ++ (todo ++ rest) := by
            rw [hcontents, List.append_assoc]
            rfl
          rw [List.append_cons]
          exact ih hsplit (hfile hcontents hmade hnext) hwritten
        next => cases hwritten

/-- **When writing fails**, all files before one have been written, and directories for that one may have
been made. -/
theorem exists_of_failed_writeFiles {P : List (String × ByteArray) → FileTree → Prop}
    (hdirectory : ∀ {done files path made}, P done files → files.makeDirectory path = .ok made →
      P done made)
    (hfile : ∀ {done f rest files written}, contents = done ++ f :: rest → P done files →
      files.write (dir.join f.1) f.2 = .ok written → P (done ++ [f]) written)
    {done rest : List (String × ByteArray)} {mid : FileTree} (hcontents : contents = done ++ f :: rest)
    (hdone : writeFiles dir done files = (mid, none)) (hfails : FailsAt dir f mid e written)
    (h : P [] files) : P done written := by
  have hmid : P ([] ++ done) mid :=
    writeFiles_induction (P := P) hdirectory hfile done hcontents h hdone
  have hmade : P done (mid.createDirectories (parentOf dir f)).1 :=
    makeDirectories_induction (P := P done) hdirectory _ _ hmid
  rcases hfails with ⟨cause, heq, _⟩ | ⟨heq, _⟩
  · rwa [heq] at hmade
  · rwa [heq] at hmade

/-! ## §3. What is left of a tree. -/

/-- **What has become of an entry** when files are written over a tree: it is as it was, or a directory
where there was none, or one of the files where there was a file or nothing. -/
inductive Overlays (contents : List ByteArray) : Option Entry → Option Entry → Prop
  | same (e? : Option Entry) : Overlays contents e? e?
  | directory : Overlays contents none (some .directory)
  | file {content : ByteArray} (old? : Option ByteArray) (hmem : content ∈ contents) :
      Overlays contents (old?.map .file) (some (.file content))

/-- **Files have been written over a tree.** -/
def Overlaid (contents : List ByteArray) (start files : FileTree) : Prop :=
  ∀ l, Overlays contents ( start.entry? l) ( files.entry? l)

namespace Overlaid

variable {bytes : List ByteArray} {content : ByteArray}

/-- Where nothing or a file stands, nothing or a file has stood. -/
theorem exists_old (h : Overlaid bytes start files) {old? : Option ByteArray}
    (hentry : files.entry? l = old?.map .file) :
    ∃ first? : Option ByteArray, start.entry? l = first?.map .file := by
  have hl := h l
  rw [hentry] at hl
  generalize start.entry? l = e? at hl ⊢
  generalize hnew : old?.map Entry.file = new? at hl
  cases hl with
  | same => exact ⟨old?, hnew.symm⟩
  | directory => cases old? <;> cases hnew
  | file first? => exact ⟨first?, rfl⟩

theorem makeDirectory {path : Path} (h : Overlaid bytes start files)
    (hmade : files.makeDirectory path = .ok made) : Overlaid bytes start made := by
  obtain ⟨at_, rfl, hne, hnone⟩ := exists_of_makeDirectory hmade
  intro l
  rw [entry?_put hne]
  split
  next heq =>
    obtain rfl := heq
    have hl := h l
    rw [hnone] at hl
    generalize start.entry? l = e? at hl ⊢
    cases hl
    exact .directory
  next => exact h l

theorem write {path : Path} (h : Overlaid bytes start files)
    (hwritten : files.write path content = .ok written) : Overlaid (bytes ++ [content]) start written := by
  obtain ⟨at_, rfl, hne, old?, hold⟩ := exists_of_write hwritten
  intro l
  rw [entry?_put hne]
  split
  next heq =>
    obtain rfl := heq
    obtain ⟨first?, hfirst⟩ := h.exists_old hold
    rw [hfirst]
    exact .file first? (List.mem_append_right _ List.mem_cons_self)
  next =>
    have hl := h l
    generalize start.entry? l = e? at hl ⊢
    generalize files.entry? l = new? at hl ⊢
    cases hl with
    | same => exact .same _
    | directory => exact .directory
    | file old? hmem => exact .file old? (List.mem_append_left _ hmem)

end Overlaid

/-- **The first files of an output have been written** below an output directory: they have their bytes,
and besides them only directories are new. -/
structure Written (start : FileTree) (outdir : Path) (done : List (String × ByteArray))
    (files : FileTree) : Prop where
  plain : Plain start.here files
  coherent : files.Coherent
  stands : files.Stands start.here
  written : ∀ g ∈ done, files.entry? (start.placeOf outdir ++ (Path.mk g.1).segments) = some (.file g.2)
  unchanged : ∀ l, (∀ g ∈ done, l ≠ start.placeOf outdir ++ (Path.mk g.1).segments) →
    files.entry? l = start.entry? l ∨ start.entry? l = none ∧ files.entry? l = some .directory

namespace Written

variable {key : String} {path : Path}

theorem stands_base (h : Written start outdir done files) (path : Path) :
    files.Stands (files.base path) := by
  unfold FileTree.base
  split
  next => exact stands_nil
  next => exact h.plain.here_eq ▸ h.stands

/-- The place of a file below the output directory. -/
theorem placeOf_join (h : Written start outdir done files) (hkey : NormalPath key) :
    files.placeOf (outdir.join key) = start.placeOf outdir ++ (Path.mk key).segments := by
  have hbase : files.base (outdir.join key) = start.base outdir := by
    rw [FileTree.base, FileTree.base, Path.isAbsolute_join outdir hkey.isRelative, h.plain.here_eq]
  rw [placeOf, placeOf, hbase, Path.names_join outdir hkey.isRelative, hkey.names_eq, place_append,
    place_of_isName _ hkey]

theorem makeDirectory (h : Written start outdir done files)
    (hmade : files.makeDirectory path = .ok made) : Written start outdir done made := by
  obtain ⟨rfl, hopen, hnone⟩ := put_of_makeDirectory h.plain.linkFree (h.stands_base path) hmade
  refine ⟨h.plain.put fun _ heq => (by cases heq),
    h.coherent.put hopen.ne_nil hopen.stands fun _ => rfl, h.stands.put hopen, fun g hg => ?_,
    fun l hl => ?_⟩
  · have hthere := h.written g hg
    rw [entry?_put hopen.ne_nil, if_neg]
    · exact hthere
    · intro heq
      rw [heq, hnone] at hthere
      cases hthere
  · rw [entry?_put hopen.ne_nil]
    split
    next heq =>
      obtain rfl := heq
      rcases h.unchanged _ hl with hsame | ⟨hstart, _⟩
      · exact Or.inr ⟨hsame.symm.trans hnone, rfl⟩
      · exact Or.inr ⟨hstart, rfl⟩
    next => exact h.unchanged l hl

theorem write (h : Written start outdir done files) (hkey : NormalPath f.1)
    (hnew : f.1 ∉ done.map Prod.fst) (hwritten : files.write (outdir.join f.1) f.2 = .ok written) :
    Written start outdir (done ++ [f]) written := by
  obtain ⟨rfl, hopen⟩ := put_of_write h.plain.linkFree h.coherent (h.stands_base _) hwritten
  rw [h.placeOf_join hkey] at hopen ⊢
  refine ⟨h.plain.put fun _ heq => (by cases heq),
    h.coherent.put hopen.ne_nil hopen.stands fun hold => absurd hold hopen.notDirectory,
    h.stands.put hopen, fun g hg => ?_, fun l hl => ?_⟩
  · rw [entry?_put hopen.ne_nil]
    rcases List.mem_append.mp hg with hg | hg
    · rw [if_neg]
      · exact h.written g hg
      · intro heq
        have hkey : g.1 = f.1 := Path.eq_of_segments_eq (List.append_cancel_left heq)
        exact hnew (hkey ▸ List.mem_map_of_mem hg)
    · rw [List.mem_singleton.mp hg, if_pos rfl]
  · rw [entry?_put hopen.ne_nil, if_neg (hl f (List.mem_append_right _ List.mem_cons_self))]
    exact h.unchanged l fun g hg => hl g (List.mem_append_left _ hg)

end Written

end BuildOutput

/-! ## §4. The order of the files. -/

namespace Emit

/-- The files of an output in the order of their names, each name once. -/
def Ascending (o : BuildOutput) : Prop :=
  (o.files.map (·.1)).Pairwise (· < ·)

theorem Ascending.putFile {o : BuildOutput} (h : Ascending o) (path : String) (content : ByteArray) :
    Ascending (o.putFile path content) :=
  TextMap.pairwise_insert path content h

theorem ascending_addChunk {o : BuildOutput} (h : Ascending o) (chunk : Chunk)
    (rendered : RenderedChunk) : Ascending (addChunk o chunk rendered) := by
  unfold addChunk
  split
  next => exact (h.putFile _ _).putFile _ _
  next => exact h.putFile _ _

theorem ascending_addAsset {o : BuildOutput} (h : Ascending o) (root : Path) (r : ModuleRecord) :
    Ascending (addAsset root o r) := by
  unfold addAsset
  split
  next => exact h.putFile _ _
  next => exact h

/-- **The files of an output** are in the order of their names. -/
theorem ascending_output {config : Config} {mode : Mode} {files : FileTree} {root : Path}
    {g : ModuleGraph} {plan : ChunkPlan} {contents : List RenderedChunk} {o : BuildOutput}
    (h : output config mode files root g plan contents = .ok o) : Ascending o := by
  have hchunks : ∀ (pairs : List (Chunk × RenderedChunk)) {o : BuildOutput}, Ascending o →
      Ascending (pairs.foldl (fun o pair => addChunk o pair.1 pair.2) o) := by
    intro pairs
    induction pairs with
    | nil => exact fun h => h
    | cons pair rest ih => exact fun h => ih (ascending_addChunk h pair.1 pair.2)
  have hassets : ∀ (records : List ModuleRecord) {o : BuildOutput}, Ascending o →
      Ascending (records.foldl (addAsset root) o) := by
    intro records
    induction records with
    | nil => exact fun h => h
    | cons r rest ih => exact fun h => ih (ascending_addAsset h root r)
  have hcontent : Ascending (contentOutput g root plan contents) :=
    hassets g.records (hchunks _ List.Pairwise.nil)
  unfold output at h
  obtain ⟨template, _, h⟩ := exists_of_bind_eq_ok h
  dsimp only at h
  split at h <;> cases h
  · exact (hcontent.putFile _ _).putFile _ _
  · exact hcontent.putFile _ _

end Emit

/-! ## §5. Builds that fail. -/

namespace Bundler

open FileTree BuildOutput

variable {b : Bundler} {files : FileTree} {e : BuildError}

/-- **WHAT A FAILED BUILD FOR DEVELOPMENT LEAVES.**  Either it fails before anything is written; then all
files are as they were.  Or it fails at one file of its output: then exactly the files before this one, in
the order of their names, have been written.  Nothing has been taken away; where something new stands now,
or something else, it is one of these files or a directory.  If there are no links and the names of the
files are normal, each of these files stands at its place below the output directory, and everything at
other places is as it was but for directories that have been made. -/
theorem failed_build_keeps_files (hmode : b.mode = .development)
    (h : (b.build files).result = .error e) :
    ((b.assemble files).exec .never { mode := b.mode }).1 = .error e ∧ (b.build files).files = files
      ∨ ∃ g o done f rest mid,
        ((b.assemble files).exec .never { mode := b.mode }).1 = .ok (g, o)
          ∧ o.files = done ++ f :: rest ∧ Emit.Ascending o
          ∧ writeFiles b.outputDir done files = (mid, none)
          ∧ FailsAt b.outputDir f mid e (b.build files).files
          ∧ Overlaid (done.map Prod.snd) files (b.build files).files
          ∧ (files.LinkFree → files.Coherent → files.Stands files.here →
              (∀ f ∈ o.files, NormalPath f.1) →
            Written files b.outputDir done (b.build files).files) := by
  have hfinish : ∀ (b : Bundler) (s : Session) (files : FileTree) (o : BuildOutput),
      (b.finish .never s files o).result = .ok o := fun _ _ _ _ => rfl
  unfold build execute at h ⊢
  rcases hmade : (b.assemble files).exec .never { mode := b.mode } with ⟨e' | ⟨g, o⟩, s⟩
  · rw [hmade] at h
    cases h
    exact Or.inl ⟨rfl, rfl⟩
  · rw [hmade] at h
    obtain ⟨contents, _, ho⟩ := (makes_of_assemble (congrArg Prod.fst hmade)).output
    dsimp only at h ⊢
    rw [if_pos rfl] at h ⊢
    have hwrite : o.write b.outputDir b.mode files = writeFiles b.outputDir o.files files := by
      rw [hmode]
      rfl
    rw [hwrite] at h ⊢
    rcases hwritten : writeFiles b.outputDir o.files files with ⟨written, _ | e'⟩
    · rw [hwritten] at h
      rw [hfinish] at h
      cases h
    · rw [hwritten] at h
      cases h
      obtain ⟨done, f, rest, mid, hsplit, hdone, hfails⟩ := exists_of_writeFiles_error _ _ hwritten
      have hascending := Emit.ascending_output ho
      have hnew : ∀ {done f rest}, o.files = done ++ f :: rest → f.1 ∉ done.map Prod.fst := by
        intro done f rest hsplit hmem
        have hkeys : (o.files.map (·.1)).Pairwise (· < ·) := hascending
        rw [hsplit, List.map_append, List.map_cons] at hkeys
        exact lt_irrefl _ ((List.pairwise_append.mp hkeys).2.2 _ hmem _ List.mem_cons_self)
      refine Or.inr ⟨g, o, done, f, rest, mid, rfl, hsplit, hascending, hdone, hfails, ?_, ?_⟩
      · refine exists_of_failed_writeFiles
          (P := fun done written => Overlaid (done.map Prod.snd) files written)
          (fun h hmade => h.makeDirectory hmade) (fun _ h hwritten => ?_) hsplit hdone hfails
          (fun l => .same _)
        rw [List.map_append]
        exact h.write hwritten
      · intro hlinks hcoherent hstands hnormal
        refine exists_of_failed_writeFiles (P := Written files b.outputDir)
          (fun h hmade => h.makeDirectory hmade) (fun hsplit h hwritten => ?_) hsplit hdone hfails
          ⟨⟨hlinks, rfl⟩, hcoherent, hstands, List.forall_mem_nil _, fun _ _ => Or.inl rfl⟩
        exact h.write (hnormal _ (hsplit ▸ List.mem_append_right _ List.mem_cons_self)) (hnew hsplit)
          hwritten

/-- A project with a directory where its page is to be written. -/
def occupiedTree : FileTree where
  entries :=
    [(["main.js"], .file "1;".toUTF8), (["dist"], .directory), (["dist", "index.html"], .directory),
      (["dist", "index.html", "old.txt"], .file "old".toUTF8)]

/-- Its configuration. -/
def occupiedConfig : Config :=
  { (Graph.projectOf []).config with
    entrypoints := [("main", "main.js")]
    ownRules := [{ name := "scripts", test := "\\.js$", steps := ["script"] }] }

/-- A build has failed. -/
def Outcome.failed (outcome : Outcome) : Bool :=
  match outcome.result with
  | .ok _ => false
  | .error _ => true

theorem Outcome.exists_error {outcome : Outcome} (h : outcome.failed = true) :
    ∃ e, outcome.result = .error e := by
  unfold failed at h
  split at h
  next => cases h
  next e he => exact ⟨e, he⟩

/-- What is seen of a build of this project. -/
theorem exists_occupied_build :
    ∃ b e, create occupiedTree occupiedConfig .development none = .ok b ∧ b.mode = .development
      ∧ b.outputDir = ⟨"/dist"⟩ ∧ (b.build occupiedTree).result = .error e
      ∧ ( entry? (b.build occupiedTree).files ["dist", "assets"]).isSome := by
  obtain ⟨b, hb, hmode, hdir, hfailed, hthere⟩ :
      ∃ b, create occupiedTree occupiedConfig .development none = .ok b ∧ b.mode = .development
        ∧ b.outputDir.text = "/dist" ∧ (b.build occupiedTree).failed = true
        ∧ ( entry? (b.build occupiedTree).files ["dist", "assets"]).isSome = true :=
    exists_of_any_toOption (by decide +kernel)
  obtain ⟨e, he⟩ := Outcome.exists_error hfailed
  exact ⟨b, e, hb, hmode, congrArg Path.mk hdir, he, hthere⟩

theorem occupied_build_keeps_files :
    ∃ b e, create occupiedTree occupiedConfig .development none = .ok b ∧ b.mode = .development
      ∧ (b.build occupiedTree).result = .error e
      ∧ (((b.assemble occupiedTree).exec .never { mode := b.mode }).1 = .error e
            ∧ (b.build occupiedTree).files = occupiedTree
          ∨ ∃ g o done f rest mid,
            ((b.assemble occupiedTree).exec .never { mode := b.mode }).1 = .ok (g, o)
              ∧ o.files = done ++ f :: rest ∧ Emit.Ascending o
              ∧ writeFiles b.outputDir done occupiedTree = (mid, none)
              ∧ FailsAt b.outputDir f mid e (b.build occupiedTree).files
              ∧ Overlaid (done.map Prod.snd) occupiedTree (b.build occupiedTree).files
              ∧ (occupiedTree.LinkFree → occupiedTree.Coherent →
                  occupiedTree.Stands occupiedTree.here → (∀ f ∈ o.files, NormalPath f.1) →
                Written occupiedTree b.outputDir done (b.build occupiedTree).files)) := by
  obtain ⟨b, e, hb, hmode, _, he, _⟩ := exists_occupied_build
  exact ⟨b, e, hb, hmode, he, failed_build_keeps_files hmode he⟩

/-- **The output directory is not left as it was**: the page cannot be written, and the script that comes
before it is there. -/
theorem failed_build_leaves_scripts :
    ∃ b e, create occupiedTree occupiedConfig .development none = .ok b
      ∧ b.outputDir = ⟨"/dist"⟩ ∧ (b.build occupiedTree).result = .error e
      ∧ occupiedTree.entry? ["dist", "assets"] = none
      ∧ ( entry? (b.build occupiedTree).files ["dist", "assets"]).isSome := by
  obtain ⟨b, e, hb, _, hdir, he, hthere⟩ := exists_occupied_build
  exact ⟨b, e, hb, hdir, he, rfl, hthere⟩

end Bundler

end AssetBundler
