/-
  AssetBundler.Proofs.Build.Staging
  ────────────────────────────────
  **OUTPUT THAT IS PUT TOGETHER BESIDE ITS PLACE.**

  For production the output is written to a staging directory, which takes the
  place of the output directory in the end.  Until then directories are made
  and files written, and each of these operations may fail by itself.  One
  invariant is kept by all of them, whatever fails: outside the staging
  directory nothing changes, but for directories that lead to it.  A second
  one is kept by those that succeed: the staging directory has nothing but the
  output so far.

    • `BuildOutput.tryReplace` — the operations under faults,
    • `BuildOutput.Kept`, `BuildOutput.Filled` — the invariants,
    • `BuildOutput.ensures_tryWriteFiles` — both along all files,
    • `BuildOutput.DirectWay` — paths for which this says what is left,
    • `BuildOutput.tryReplace_all_or_nothing` — output directories of such paths,
    • `BuildOutput.detour_keeps_leftovers` — paths that come to lead somewhere else.
-/
import AssetBundler.Proofs.Build.Replace
import AssetBundler.Proofs.Files.Faults
import AssetBundler.Proofs.Files.Steps

namespace AssetBundler

open FileTree FaultM

namespace BuildOutput

/-! ## §1. Writing under faults. -/

section

-- as for writing without faults, these are not to be looked into
attribute [local irreducible] Path.join FileTree.tryCreateDirectories FileTree.tryWrite

/-- Writes some files below a directory, until one fails. -/
def tryWriteFiles (dir : Path) : List (String × ByteArray) → FileTree → FaultM WriteResult
  | [], files => return (files, none)
  | (relative, content) :: rest, files => do
    let path := dir.join relative
    let parent := path.parent?.getD ⟨""⟩
    match ← files.tryCreateDirectories parent with
    | (files, some e) => return (files, some (.emission parent e))
    | (files, none) =>
      match ← files.tryWrite path content with
      | (files, none) => tryWriteFiles dir rest files
      | (files, some e) => return (files, some (.emission path e))

/-- Puts the output together in a staging directory, which is taken away after a failure. -/
def tryStage (o : BuildOutput) (outdir : Path) (files : FileTree) : FaultM WriteResult :=
  match clear (stagingDir outdir) files with
  | (files, some e) => return (files, some e)
  | (files, none) => do
    match ← tryWriteFiles (stagingDir outdir) o.files files with
    | (files, some e) => return ((files.removeAll (stagingDir outdir)).1, some e)
    | (files, none) => return (files, none)

/-- Writes the output in place of an output directory. -/
def tryReplace (o : BuildOutput) (outdir : Path) (files : FileTree) : FaultM WriteResult := do
  match ← o.tryStage outdir files with
  | (files, some e) => return (files, some e)
  | (files, none) => return swap (stagingDir outdir) outdir files

end

variable {o : BuildOutput} {outdir dir path : Path}

theorem gives_tryWriteFiles (dir : Path) (contents : List (String × ByteArray)) :
    ∀ files : FileTree, Gives (tryWriteFiles dir contents files) (writeFiles dir contents files) := by
  induction contents with
  | nil => exact fun files => gives_pure _
  | cons content rest ih =>
      intro files
      rw [writeFiles_cons, tryWriteFiles]
      refine (gives_tryDirectories _ files _).bind ?_
      rw [createDirectories]
      rcases makeDirectories _ files _ with ⟨made, _ | e⟩
      · refine (gives_tryWrite made _ _).bind ?_
        dsimp only
        cases made.write (dir.join content.1) content.2 with
        | ok written => exact ih written
        | error e => exact gives_pure _
      · exact gives_pure _

theorem tryReplace_fst (o : BuildOutput) (outdir : Path) (files : FileTree) (faults : Faults) :
    (o.tryReplace outdir files faults).1 = match (o.tryStage outdir files faults).1 with
      | (files, some e) => (files, some e)
      | (files, none) => swap (stagingDir outdir) outdir files := by
  show (StateT.bind (o.tryStage outdir files) _ faults).1 = _
  unfold StateT.bind
  rcases o.tryStage outdir files faults with ⟨⟨staged, _ | e⟩, rest⟩ <;> rfl

/-- **Without faults** the output is written as it is. -/
theorem gives_tryReplace (o : BuildOutput) (outdir : Path) (files : FileTree) :
    Gives (o.tryReplace outdir files) (o.write outdir .production files) := by
  show Gives _ (o.replaceDir outdir files)
  unfold tryReplace tryStage replaceDir
  dsimp only
  rcases clear (stagingDir outdir) files with ⟨cleared, _ | e⟩
  · have hwritten := gives_tryWriteFiles (stagingDir outdir) o.files cleared
    dsimp only
    generalize writeFiles (stagingDir outdir) o.files cleared = result at hwritten ⊢
    obtain ⟨written, _ | e⟩ := result
    · exact Gives.bind (hwritten.bind (gives_pure (written, none))) (gives_pure _)
    · exact Gives.bind (hwritten.bind (gives_pure ((written.removeAll _).1, some e))) (gives_pure _)
  · exact gives_pure _

/-! ## §2. What is kept, and what is there. -/

variable {start files made staged : FileTree} {base staging below at_ l : Location} {e : Entry}
  {outputs done : List (String × ByteArray)} {f : String × ByteArray}

/-- A place outside a staging directory that need not be made anew: one that leads there, or a directory
that has been there. -/
def Outside (start : FileTree) (staging at_ : Location) : Prop :=
  at_ <+: staging.dropLast ∨ start.entry? at_ = some .directory ∧ ¬ staging <+: at_

/-- **Outside a staging directory** nothing has changed, but for directories that lead to it. -/
structure Kept (start : FileTree) (base staging : Location) (files : FileTree) : Prop where
  plain : Plain start.here files
  coherent : files.Coherent
  stands : files.Stands base
  unchanged : ∀ l, ¬ staging <+: l →
    files.entry? l = start.entry? l ∨ start.entry? l = none ∧ l <+: staging.dropLast

theorem not_prefix_of_prefix_dropLast (hne : staging ≠ []) (h : l <+: staging.dropLast) :
    ¬ staging <+: l := by
  intro hstaging
  have hlength := (hstaging.trans h).length_le
  rw [List.length_dropLast] at hlength
  have := List.length_pos_iff.mpr hne
  omega

theorem Kept.put (h : Kept start base staging files) (hopen : files.Open at_)
    (he : ∀ target, e ≠ .link target)
    (hat : staging <+: at_ ∨ files.entry? at_ = none ∧ at_ <+: staging.dropLast) :
    Kept start base staging (files.put at_ e) where
  plain := h.plain.put he
  coherent := h.coherent.put hopen.ne_nil hopen.stands fun hold => absurd hold hopen.notDirectory
  stands := h.stands.put hopen
  unchanged l hl := by
    rw [entry?_put hopen.ne_nil]
    split
    next heq =>
      obtain rfl := heq
      rcases hat with hbelow | ⟨hnone, habove⟩
      · exact absurd hbelow hl
      · refine Or.inr ⟨?_, habove⟩
        rcases h.unchanged l hl with hsame | ⟨hstart, _⟩
        · rw [← hsame, hnone]
        · exact hstart
    next => exact h.unchanged l hl

/-- An entry below an output directory is one of the output: a file with its bytes, or a directory that
leads to one. -/
def IsOutput (outputs : List (String × ByteArray)) (l : Location) (e : Entry) : Prop :=
  ∃ f ∈ outputs, l = (Path.mk f.1).segments ∧ e = .file f.2
    ∨ l <+: (Path.mk f.1).segments.dropLast ∧ e = .directory

/-- **A staging directory that is being filled** has some of the output, and nothing else. -/
structure Filled (outputs done : List (String × ByteArray)) (at_ : Location) (files : FileTree) :
    Prop where
  written : ∀ f ∈ done, files.entry? (at_ ++ (Path.mk f.1).segments) = some (.file f.2)
  nothingElse : ∀ l e, files.entry? (at_ ++ l) = some e → IsOutput outputs l e

namespace Filled

theorem of_vacated (h : files.Vacated staging) (hne : staging ≠ []) :
    Filled outputs [] staging files where
  written := nofun
  nothingElse l e hentry := by
    rw [h.entry?_eq_none hne (List.prefix_append staging l)] at hentry
    cases hentry

theorem put_directory (h : Filled outputs done staging files) (hopen : files.Open at_)
    (hnone : files.entry? at_ = none) (hf : f ∈ outputs)
    (hat : ∀ l, staging ++ l = at_ → l <+: (Path.mk f.1).segments.dropLast) :
    Filled outputs done staging (files.put at_ .directory) where
  written g hg := by
    rw [entry?_put hopen.ne_nil, if_neg]
    · exact h.written g hg
    · intro heq
      have hwritten := h.written g hg
      rw [heq, hnone] at hwritten
      cases hwritten
  nothingElse l e hentry := by
    rw [entry?_put hopen.ne_nil] at hentry
    split at hentry
    next heq =>
      obtain rfl := Option.some.inj hentry
      exact ⟨f, hf, Or.inr ⟨hat l heq, rfl⟩⟩
    next => exact h.nothingElse l e hentry

theorem put_file (h : Filled outputs done staging files)
    (hopen : files.Open (staging ++ (Path.mk f.1).segments)) (hf : f ∈ outputs)
    (hnew : f.1 ∉ done.map Prod.fst) :
    Filled outputs (done ++ [f]) staging
      (files.put (staging ++ (Path.mk f.1).segments) (.file f.2)) where
  written g hg := by
    rw [entry?_put hopen.ne_nil]
    rcases List.mem_append.mp hg with hg | hg
    · rw [if_neg]
      · exact h.written g hg
      · intro heq
        have hkey : g.1 = f.1 := Path.eq_of_segments_eq (List.append_cancel_left heq)
        exact hnew (hkey ▸ List.mem_map_of_mem hg)
    · rw [List.mem_singleton.mp hg, if_pos rfl]
  nothingElse l e hentry := by
    rw [entry?_put hopen.ne_nil] at hentry
    split at hentry
    next heq =>
      obtain rfl := Option.some.inj hentry
      exact ⟨f, hf, Or.inl ⟨List.append_cancel_left heq, rfl⟩⟩
    next => exact h.nothingElse l e hentry

end Filled

/-- Both invariants, as long as no operation fails. -/
structure Staged (start : FileTree) (base staging : Location)
    (outputs done : List (String × ByteArray)) (files : FileTree) : Prop where
  kept : Kept start base staging files
  filled : Filled outputs done staging files

/-! ## §3. Each operation keeps the invariants. -/

/-- A path whose steps lead through places outside a staging directory, or through it and then along some
names. -/
structure Leads (start : FileTree) (base staging below : Location) (path : Path) : Prop where
  base_eq : ∀ files : FileTree, files.here = start.here → files.base path = base
  onWay : ∀ steps, steps <+: names path.segments →
    Outside start staging (place base steps) ∨ ∃ l, l <+: below ∧ place base steps = staging ++ l

theorem Leads.parent {parent : Path} (h : Leads start base staging below path)
    (hparent : path.parent? = some parent) : Leads start base staging below parent := by
  obtain ⟨hnames, habsolute⟩ := Path.names_of_parent? hparent
  refine ⟨fun files hhere => ?_, fun steps hsteps => h.onWay steps ?_⟩
  · rw [← h.base_eq files hhere, FileTree.base, FileTree.base, habsolute]
  · exact hsteps.trans (hnames ▸ List.dropLast_prefix _)

namespace Staged

variable (h : Staged start base staging outputs done files) (hne : staging ≠ [])
  (hf : f ∈ outputs)

include h hne hf

theorem makeDirectory (hpath : Leads start base staging (Path.mk f.1).segments.dropLast path)
    (hmade : files.makeDirectory path = .ok made) : Staged start base staging outputs done made := by
  have hbase := hpath.base_eq files h.kept.plain.here_eq
  obtain ⟨rfl, hopen, hnone⟩ :=
    put_of_makeDirectory h.kept.plain.linkFree (hbase ▸ h.kept.stands) hmade
  have hplace : files.placeOf path = place base (names path.segments) := by
    rw [placeOf, hbase]
  rcases hpath.onWay _ List.prefix_rfl with houtside | ⟨l, hl, heq⟩
  · rw [← hplace] at houtside
    have habove : files.placeOf path <+: staging.dropLast := by
      rcases houtside with habove | ⟨hthere, hnot⟩
      · exact habove
      · -- a directory that has been there need not be made
        rcases h.kept.unchanged _ hnot with hsame | ⟨hgone, _⟩
        · rw [hnone, hthere] at hsame
          cases hsame
        · rw [hgone] at hthere
          cases hthere
    refine ⟨h.kept.put hopen (fun _ => by simp) (Or.inr ⟨hnone, habove⟩),
      h.filled.put_directory hopen hnone hf fun l hl => ?_⟩
    exact absurd ⟨l, hl⟩ (not_prefix_of_prefix_dropLast hne habove)
  · rw [← hplace] at heq
    refine ⟨h.kept.put hopen (fun _ => by simp) (Or.inl (heq ▸ List.prefix_append staging l)),
      h.filled.put_directory hopen hnone hf fun l' hl' => ?_⟩
    rwa [List.append_cancel_left (hl'.trans heq)]

theorem ensures_tryDirectory
    (hpath : Leads start base staging (Path.mk f.1).segments.dropLast path) :
    Ensures (files.tryDirectory path) fun result =>
      ∀ made, result = .ok made → Staged start base staging outputs done made := by
  refine ensures_fault?.bind fun fault? _ => ?_
  cases fault? with
  | some fault => exact ensures_pure nofun
  | none => exact ensures_pure fun made hmade => h.makeDirectory hne hf hpath hmade

end Staged

/-- **Directories that are made** for a file keep both invariants, also after a failure. -/
theorem ensures_tryDirectories (hne : staging ≠ []) (hf : f ∈ outputs) : ∀ (fuel : Nat)
    {files : FileTree} {path : Path}, Staged start base staging outputs done files →
      Leads start base staging (Path.mk f.1).segments.dropLast path →
        Ensures (tryDirectories fuel files path) fun result =>
          Staged start base staging outputs done result.1 := by
  intro fuel
  induction fuel with
  | zero => exact fun h _ => ensures_pure h
  | succ fuel ih =>
      intro files path h hpath
      have hthere : ∀ {files : FileTree} (e : FileError),
          Staged start base staging outputs done files →
            Staged start base staging outputs done (files.directoryThere path e).1 := by
        intro files e h
        unfold directoryThere
        split <;> exact h
      unfold tryDirectories
      split
      next => exact ensures_pure h
      next =>
        refine (h.ensures_tryDirectory hne hf hpath).bind fun result hresult => ?_
        cases result with
        | ok made => exact ensures_pure (hresult made rfl)
        | error e =>
            cases e with
            | notFound =>
                dsimp only
                cases hparent : path.parent? with
                | none => exact ensures_pure h
                | some parent =>
                    refine (ih h (hpath.parent hparent)).bind ?_
                    rintro ⟨above, _ | e⟩ habove
                    · refine (habove.ensures_tryDirectory hne hf hpath).bind fun result hresult => ?_
                      cases result with
                      | ok made => exact ensures_pure (hresult made rfl)
                      | error e => exact ensures_pure (hthere e habove)
                    · exact ensures_pure habove
            | _ => exact ensures_pure (hthere _ h)

/-- **A file that is written** keeps what is outside also after a failure, and is there without one. -/
theorem Staged.ensures_tryWrite (h : Staged start base staging outputs done files)
    (hf : f ∈ outputs) (hnew : f.1 ∉ done.map Prod.fst) (hbase : files.base path = base)
    (hplace : files.placeOf path = staging ++ (Path.mk f.1).segments) :
    Ensures (files.tryWrite path f.2) fun result =>
      Kept start base staging result.1
        ∧ (result.2 = none → Staged start base staging outputs (done ++ [f]) result.1) := by
  have hput : ∀ {content : ByteArray} {written : FileTree},
      files.write path content = .ok written →
        written = files.put (staging ++ (Path.mk f.1).segments) (.file content)
          ∧ files.Open (staging ++ (Path.mk f.1).segments)
          ∧ Kept start base staging written := by
    intro content written hwritten
    obtain ⟨rfl, hopen⟩ := put_of_write h.kept.plain.linkFree h.kept.coherent
      (hbase ▸ h.kept.stands) hwritten
    rw [hplace] at hopen ⊢
    exact ⟨rfl, hopen, h.kept.put hopen nofun (Or.inl (List.prefix_append staging _))⟩
  refine ensures_fault?.bind fun fault? _ => ?_
  cases fault? with
  | some fault =>
      refine ensures_pure ⟨?_, nofun⟩
      unfold partlyWritten
      cases fault.part? with
      | none => exact h.kept
      | some part =>
          show Kept start base staging ((files.write path part).toOption.getD files)
          cases hwritten : files.write path part with
          | error e => exact h.kept
          | ok written => exact (hput hwritten).2.2
  | none =>
      dsimp only
      cases hwritten : files.write path f.2 with
      | error e => exact ensures_pure ⟨h.kept, nofun⟩
      | ok written =>
          obtain ⟨rfl, hopen, hkept⟩ := hput hwritten
          exact ensures_pure ⟨hkept, fun _ => ⟨hkept, h.filled.put_file hopen hf hnew⟩⟩

/-! ## §4. All files. -/

/-- The text is a relative path of names with single slashes between. -/
def NormalPath (text : String) : Prop :=
  ∀ s ∈ (Path.mk text).segments, IsName s

/-- A path leads to a staging directory through places outside it. -/
structure StagingPath (start : FileTree) (base staging : Location) (dir : Path) : Prop where
  base_eq : ∀ files : FileTree, files.here = start.here → files.base dir = base
  exists_segments : ∃ before mark, dir.segments = before ++ [mark] ∧ IsName mark
    ∧ staging = place base (names before) ++ [mark]
    ∧ ∀ steps, steps <+: names before → Outside start staging (place base steps)

namespace NormalPath

variable {key : String} (h : NormalPath key)

include h

theorem isRelative : Path.IsRelative key := by
  intro hslash
  have habsolute : (Path.mk key).isAbsolute = true := by
    unfold Path.isAbsolute
    rw [hslash]
    rfl
  obtain ⟨s, rest, hsegments⟩ := Path.isAbsolute_iff.mp habsolute
  exact (h "" (hsegments ▸ List.mem_cons_self)).1 rfl

theorem names_eq : names (Path.mk key).segments = (Path.mk key).segments :=
  List.filter_eq_self.mpr fun s hs => by simp [(h s hs).1, (h s hs).2.1]

end NormalPath

namespace StagingPath

variable (h : StagingPath start base staging dir)

include h

theorem ne_nil : staging ≠ [] := by
  obtain ⟨before, mark, _, _, rfl, _⟩ := h.exists_segments
  exact List.append_ne_nil_of_right_ne_nil _ nofun

/-- A path behind that of the staging directory. -/
theorem leads (hbase : path.isAbsolute = dir.isAbsolute) (hbelow : ∀ s ∈ below, IsName s)
    (hnames : names path.segments = names dir.segments ++ below) :
    Leads start base staging below path := by
  obtain ⟨before, mark, hsegments, hmark, rfl, houtside⟩ := h.exists_segments
  refine ⟨fun files hhere => ?_, fun steps hsteps => ?_⟩
  · rw [← h.base_eq files hhere, FileTree.base, FileTree.base, hbase]
  · rw [hnames, Path.names_concat hsegments hmark, List.append_assoc] at hsteps
    rcases List.prefix_or_prefix_of_prefix hsteps (List.prefix_append (names before) _)
      with habove | ⟨rest, rfl⟩
    · exact Or.inl (houtside steps habove)
    · have hrest := (List.prefix_append_right_inj _).mp hsteps
      cases rest with
      | nil => exact Or.inl (houtside _ (by rw [List.append_nil]))
      | cons s rest =>
          obtain ⟨rfl, hbegins⟩ := List.cons_prefix_cons.mp hrest
          refine Or.inr ⟨rest, hbegins, ?_⟩
          have hnames : ∀ t ∈ s :: rest, IsName t := by
            intro t ht
            rcases List.mem_cons.mp ht with rfl | ht
            · exact hmark
            · exact hbelow t (hbegins.subset ht)
          rw [place_append, place_of_isName _ hnames, List.append_assoc]
          rfl

theorem placeOf_eq (hhere : files.here = start.here) : files.placeOf dir = staging := by
  obtain ⟨before, mark, hsegments, hmark, rfl, _⟩ := h.exists_segments
  rw [← h.base_eq files hhere]
  exact placeOf_concat (Path.names_concat hsegments hmark) hmark

/-- The place of a file below. -/
theorem placeOf_join {key : String} (hkey : NormalPath key) (hhere : files.here = start.here) :
    files.base (dir.join key) = base
      ∧ files.placeOf (dir.join key) = staging ++ (Path.mk key).segments := by
  have hbase : files.base (dir.join key) = base := by
    rw [← h.base_eq files hhere, FileTree.base, FileTree.base,
      Path.isAbsolute_join dir hkey.isRelative]
  refine ⟨hbase, ?_⟩
  have hplace := h.placeOf_eq hhere
  rw [placeOf, h.base_eq files hhere] at hplace
  rw [placeOf, hbase, Path.names_join dir hkey.isRelative, hkey.names_eq, place_append, hplace,
    place_of_isName _ hkey]

/-- The path of the directory that a file is written to. -/
theorem leads_parent {key : String} (hkey : NormalPath key) :
    Leads start base staging (Path.mk key).segments.dropLast
      ((dir.join key).parent?.getD ⟨""⟩) := by
  have hjoin := Path.names_join dir hkey.isRelative
  rw [hkey.names_eq] at hjoin
  obtain ⟨parent, hparent⟩ := Path.exists_parent? (p := dir.join key) (by
    rw [hjoin]
    exact List.append_ne_nil_of_right_ne_nil _ (Path.segments_ne_nil _))
  obtain ⟨hnames, habsolute⟩ := Path.names_of_parent? hparent
  rw [hparent, Option.getD_some]
  refine h.leads (habsolute.trans (Path.isAbsolute_join dir hkey.isRelative))
    (fun s hs => hkey s (List.dropLast_subset _ hs)) ?_
  rw [hnames, hjoin, List.dropLast_append_of_ne_nil (Path.segments_ne_nil _)]

end StagingPath

section

attribute [local irreducible] Path.join FileTree.tryCreateDirectories FileTree.tryWrite

theorem tryWriteFiles_cons (dir : Path) (f : String × ByteArray) (rest : List (String × ByteArray))
    (files : FileTree) :
    tryWriteFiles dir (f :: rest) files
      = files.tryCreateDirectories ((dir.join f.1).parent?.getD ⟨""⟩) >>= fun
        | (files, some e) =>
          return (files, some (.emission ((dir.join f.1).parent?.getD ⟨""⟩) e))
        | (files, none) => files.tryWrite (dir.join f.1) f.2 >>= fun
          | (files, none) => tryWriteFiles dir rest files
          | (files, some e) => return (files, some (.emission (dir.join f.1) e)) :=
  rfl

end

/-- **Along all files**, until one of the operations fails, both invariants are kept, and what is outside
is kept after a failure. -/
theorem ensures_tryWriteFiles (hdir : StagingPath start base staging dir)
    (hkeys : ∀ f ∈ outputs, NormalPath f.1) (hnodup : (outputs.map Prod.fst).Nodup) :
    ∀ (rest : List (String × ByteArray)) {done : List (String × ByteArray)} {files : FileTree},
      done ++ rest = outputs → Staged start base staging outputs done files →
        Ensures (tryWriteFiles dir rest files) fun result =>
          Kept start base staging result.1
            ∧ (result.2 = none → Staged start base staging outputs outputs result.1) := by
  intro rest
  induction rest with
  | nil =>
      intro done files hsplit h
      rw [List.append_nil] at hsplit
      obtain rfl := hsplit
      exact ensures_pure ⟨h.kept, fun _ => h⟩
  | cons f rest ih =>
      intro done files hsplit h
      have hf : f ∈ outputs := hsplit ▸ List.mem_append_right _ List.mem_cons_self
      have hnew : f.1 ∉ done.map Prod.fst := by
        rw [← hsplit, List.map_append, List.map_cons] at hnodup
        exact fun hmem => (List.nodup_append.mp hnodup).2.2 _ hmem _ List.mem_cons_self rfl
      rw [tryWriteFiles_cons]
      refine (ensures_tryDirectories hdir.ne_nil hf _ h (hdir.leads_parent (hkeys f hf))).bind ?_
      rintro ⟨made, _ | e⟩ hmade
      · obtain ⟨hbase, hplace⟩ := hdir.placeOf_join (hkeys f hf) hmade.kept.plain.here_eq
        refine (hmade.ensures_tryWrite hf hnew hbase hplace).bind ?_
        rintro ⟨written, _ | e⟩ ⟨hkept, hwritten⟩
        · refine ih ?_ (hwritten rfl)
          rw [List.append_assoc, List.singleton_append, hsplit]
        · exact ensures_pure ⟨hkept, nofun⟩
      · exact ensures_pure ⟨hmade.kept, nofun⟩

/-! ## §5. The staging directory and its place. -/

section

variable {name : String}

/-- The name of a staging directory is a name. -/
theorem isName_append_staging (name : String) : IsName (name ++ ".weft-staging") := by
  have hlength : (name ++ ".weft-staging").length = name.length + 13 := String.length_append ..
  have hne : ∀ text : String, text.length < 13 → name ++ ".weft-staging" ≠ text := by
    rintro text htext rfl
    omega
  exact ⟨hne "" (by decide), hne "." (by decide), hne ".." (by decide)⟩

theorem exists_segments_stagingDir (hname : outdir.fileName? = some name) :
    ∃ before, (stagingDir outdir).segments = before ++ [name ++ ".weft-staging"]
      ∧ (stagingDir outdir).isAbsolute = outdir.isAbsolute
      ∧ names outdir.segments = names before ++ [name] ∧ IsName name := by
  obtain ⟨hisName, hslash, above, habove⟩ := Path.exists_of_fileName? hname
  have hslash' : '/' ∉ (name ++ ".weft-staging").toList := by
    rw [String.toList_append, List.mem_append]
    exact fun hmem => hmem.elim hslash (by decide)
  obtain ⟨habsolute, before, hsegments, hbefore⟩ :=
    Path.exists_segments_withFileName hname habove hslash'
  unfold stagingDir
  rw [hname, Option.getD_some]
  exact ⟨before, hsegments, habsolute, by rw [hbefore, habove], hisName⟩

/-- An output directory and its staging directory have places side by side. -/
theorem placeOf_beside (files : FileTree) (hname : outdir.fileName? = some name) :
    ¬ files.placeOf outdir <+: files.placeOf (stagingDir outdir)
      ∧ ¬ files.placeOf (stagingDir outdir) <+: files.placeOf outdir := by
  obtain ⟨before, hsegments, habsolute, hnames, hisName⟩ := exists_segments_stagingDir hname
  have hbase : files.base (stagingDir outdir) = files.base outdir := by
    rw [FileTree.base, FileTree.base, habsolute]
  have hsteps := Path.names_concat hsegments (isName_append_staging name)
  have hdiffer : name ≠ name ++ ".weft-staging" := by
    intro heq
    have hlength := congrArg String.length heq
    rw [String.length_append, show ".weft-staging".length = 13 by decide] at hlength
    omega
  rw [placeOf_concat hnames hisName, placeOf_concat hsteps (isName_append_staging name), hbase]
  refine ⟨fun h => hdiffer ?_, fun h => hdiffer ?_⟩
  · exact (List.cons.inj ((List.prefix_append_right_inj _).mp h |>.eq_of_length rfl)).1
  · exact (List.cons.inj ((List.prefix_append_right_inj _).mp h |>.eq_of_length rfl)).1.symm

/-- **A direct path** to an output directory: every place on the way is one of the directories that lead
to the output directory, or a directory that is there and not in the staging directory. -/
def DirectWay (files : FileTree) (outdir : Path) : Prop :=
  ∀ steps, steps <+: (names outdir.segments).dropLast →
    place (files.base outdir) steps <+: (files.placeOf outdir).dropLast
      ∨ files.entry? (place (files.base outdir) steps) = some .directory
        ∧ ¬ files.placeOf (stagingDir outdir) <+: place (files.base outdir) steps

/-- A path without two dots is direct. -/
theorem directWay_of_notMem (hname : outdir.fileName? = some name) (hdots : ".." ∉ outdir.segments) :
    DirectWay files outdir := by
  obtain ⟨_, _, above, habove⟩ := Path.exists_of_fileName? hname
  have hnames : ∀ s ∈ names outdir.segments, IsName s := by
    intro s hs
    obtain ⟨hmem, hcounts⟩ := List.mem_filter.mp hs
    simp only [Bool.and_eq_true, bne_iff_ne, ne_eq] at hcounts
    exact ⟨hcounts.1, hcounts.2, fun heq => hdots (heq ▸ hmem)⟩
  intro steps hsteps
  refine Or.inl ?_
  rw [placeOf, place_of_isName _ hnames, List.dropLast_append_of_ne_nil (by simp [habove]),
    place_of_isName _ fun s hs => hnames s ((hsteps.trans (List.dropLast_prefix _)).subset hs)]
  exact (List.prefix_append_right_inj _).mpr hsteps

theorem stagingPath_of_directWay (hname : outdir.fileName? = some name)
    (hdirect : DirectWay start outdir) :
    StagingPath start (start.base outdir) (start.placeOf (stagingDir outdir))
      (stagingDir outdir) := by
  obtain ⟨before, hsegments, habsolute, hnames, hisName⟩ := exists_segments_stagingDir hname
  have hbase : ∀ files : FileTree, files.here = start.here →
      files.base (stagingDir outdir) = start.base outdir := by
    intro files hhere
    rw [FileTree.base, FileTree.base, habsolute, hhere]
  have hplace : start.placeOf (stagingDir outdir)
      = place (start.base outdir) (names before) ++ [name ++ ".weft-staging"] := by
    rw [← hbase start rfl]
    exact placeOf_concat (Path.names_concat hsegments (isName_append_staging name))
      (isName_append_staging name)
  refine ⟨hbase, before, _, hsegments, isName_append_staging name, hplace, fun steps hsteps => ?_⟩
  have hway := hdirect steps (by rwa [hnames, List.dropLast_concat])
  rw [placeOf_concat hnames hisName, List.dropLast_concat] at hway
  unfold Outside
  rwa [hplace, List.dropLast_concat, ← hplace]

end

/-- **A staging directory that is cleared** is gone, and nothing else is. -/
theorem staged_of_clear (outputs : List (String × ByteArray))
    (hdir : StagingPath start base staging dir) (hlinks : start.LinkFree)
    (hcoherent : start.Coherent) (hstands : start.Stands base) :
    (∀ l, ¬ staging <+: l → entry? (clear dir start).1 l = start.entry? l)
      ∧ ((clear dir start).2 = none →
        Staged start base staging outputs [] (clear dir start).1) := by
  obtain ⟨before, mark, hsegments, hmark, hstaging, houtside⟩ := hdir.exists_segments
  have hbase := hdir.base_eq start rfl
  have hplace := (hdir.placeOf_eq rfl : start.placeOf dir = staging)
  have hplain : Plain start.here start := ⟨hlinks, rfl⟩
  unfold clear
  split
  next =>
    have hkept : ∀ l, ¬ staging <+: l → entry? (start.removeAll dir).1 l = start.entry? l :=
      fun l hl => entry?_removeAll_beside hlinks (hplace ▸ hl)
    split
    next heq =>
      rw [heq] at hkept
      exact ⟨hkept, nofun⟩
    next heq =>
      rw [heq] at hkept
      obtain rfl := eq_without_of_removeAll hlinks heq
      rw [hplace] at hkept ⊢
      have hnot : ¬ staging <+: base := by
        rcases houtside [] List.nil_prefix with habove | ⟨_, hnot⟩
        · exact not_prefix_of_prefix_dropLast hdir.ne_nil habove
        · exact hnot
      refine ⟨hkept, fun _ => ⟨⟨hplain.without staging, hcoherent.without staging,
        stands_of_not_prefix hstands hnot, fun l hl => Or.inl (hkept l hl)⟩, ?_⟩⟩
      exact Filled.of_vacated (Vacated.without staging start) hdir.ne_nil
  next hexists =>
    refine ⟨fun _ _ => rfl, fun _ => ⟨⟨hplain, hcoherent, hstands, fun _ _ => Or.inl rfl⟩, ?_⟩⟩
    refine Filled.of_vacated (hcoherent.vacated ?_) hdir.ne_nil
    -- the path would lead to anything that stood there
    cases hentry : start.entry? staging with
    | none => rfl
    | some e =>
        refine absurd ?_ hexists
        have htext : dir.text ≠ "" := by
          intro hempty
          have hdir : dir.segments = [""] := by
            rw [Path.segments, hempty]
            rfl
          rw [hdir] at hsegments
          obtain ⟨_, hlast⟩ := List.append_inj' (List.nil_append [""] |>.trans hsegments) rfl
          exact hmark.1 (List.cons.inj hlast).1.symm
        have habove := hcoherent.stands_dropLast hentry hdir.ne_nil
        rw [hstaging, ← hbase] at hentry
        have hresolve := resolve_of_places htext hsegments hmark
          (fun target heq => hlinks.entry?_ne target (heq ▸ hentry)) (fun steps hsteps => ?_) hentry
        · unfold exists_
          rw [hresolve]
        · rw [hbase]
          rcases houtside steps hsteps with hleads | ⟨hthere, _⟩
          · exact habove _ hleads
          · exact hthere

/-- **The output is staged**, or what is outside is left as it was. -/
theorem ensures_tryStage (hdir : StagingPath start base staging (stagingDir outdir))
    (hkeys : ∀ f ∈ o.files, NormalPath f.1) (hnodup : (o.files.map Prod.fst).Nodup)
    (hlinks : start.LinkFree) (hcoherent : start.Coherent) (hstands : start.Stands base) :
    Ensures (o.tryStage outdir start) fun result =>
      (∀ l, ¬ staging <+: l → entry? result.1 l = start.entry? l
          ∨ start.entry? l = none ∧ l <+: staging.dropLast)
        ∧ (result.2 = none → Staged start base staging o.files o.files result.1) := by
  obtain ⟨hleft, hcleared⟩ :=
    staged_of_clear o.files hdir hlinks hcoherent hstands
  unfold tryStage
  generalize clear (stagingDir outdir) start = result at hleft hcleared ⊢
  obtain ⟨cleared, _ | e⟩ := result
  · refine (ensures_tryWriteFiles hdir hkeys hnodup o.files rfl (hcleared rfl)).bind ?_
    rintro ⟨written, _ | e⟩ ⟨hkept, hwritten⟩
    · exact ensures_pure ⟨hkept.unchanged, hwritten⟩
    · refine ensures_pure ⟨fun l hl => ?_, nofun⟩
      have hplace := hdir.placeOf_eq hkept.plain.here_eq
      rw [entry?_removeAll_beside hkept.plain.linkFree (hplace ▸ hl)]
      exact hkept.unchanged l hl
  · exact ensures_pure ⟨fun l hl => Or.inl (hleft l hl), nofun⟩

/-- **The directory holds exactly** some files: each has its bytes, and besides them there are only the
directories that lead to them. -/
structure HoldsExactly (outputs : List (String × ByteArray)) (at_ : Location) (files : FileTree) :
    Prop extends Filled outputs outputs at_ files where
  directory : files.entry? at_ = some .directory

/-- **The staged output takes the place** of what stood at another location. -/
theorem holdsExactly_of_swap {target : Location} (hdir : StagingPath start base staging dir)
    (hstaged : Staged start base staging outputs outputs files)
    (htarget : files.placeOf outdir = target) (hne : target ≠ [])
    (hbeside : ¬ target <+: staging) (hbeside' : ¬ staging <+: target)
    (h : swap dir outdir files = (made, none)) :
    HoldsExactly outputs target made ∧ made.Vacated staging := by
  obtain ⟨hplain, hcoherent, _, _⟩ := hstaged.kept
  have hbelow : ∀ l, ¬ target <+: staging ++ l := by
    intro l hl
    rcases List.prefix_or_prefix_of_prefix hl (List.prefix_append staging l) with hle | hle
    · exact hbeside hle
    · exact hbeside' hle
  -- what is cleared leaves the staging directory as it is
  obtain ⟨cleared, hcleared, hplain', hcoherent', hsame⟩ : ∃ cleared : FileTree,
      clear outdir files = (cleared, none) ∧ Plain start.here cleared ∧ cleared.Coherent
        ∧ ∀ l, ¬ target <+: l → cleared.entry? l = files.entry? l := by
    unfold swap at h
    split at h
    next => cases h
    next cleared hcleared =>
      refine ⟨cleared, hcleared, ?_⟩
      unfold clear at hcleared
      split at hcleared
      next =>
        split at hcleared
        next => cases hcleared
        next hremoved =>
          obtain rfl := eq_without_of_removeAll hplain.linkFree hremoved
          cases hcleared
          rw [htarget]
          exact ⟨hplain.without target, hcoherent.without target, fun _ hl => entry?_without hl⟩
      next =>
        cases hcleared
        exact ⟨hplain, hcoherent, fun _ _ => rfl⟩
  have hrename : cleared.rename dir outdir = .ok made := by
    unfold swap at h
    rw [hcleared] at h
    dsimp only at h
    split at h <;> cases h
    assumption
  obtain ⟨⟨e, hfind⟩, vacated, rfl, hvacated, hkept⟩ :=
    exists_of_rename hplain'.linkFree hcoherent' hrename
  have hsource : cleared.placeOf dir = staging := hdir.placeOf_eq hplain'.here_eq
  have hplace : cleared.placeOf outdir = target := by
    rw [← htarget, placeOf, placeOf, FileTree.base, FileTree.base, hplain'.here_eq, hplain.here_eq]
  rw [hsource] at hfind
  rw [hplace] at hvacated hkept
  rw [hsource, hplace]
  have hmoved : ∀ l, entry? (vacated.move staging target) (target ++ l)
      = files.entry? (staging ++ l) := by
    intro l
    rw [entry?_move hdir.ne_nil hne hvacated, hkept _ (hbelow l), hsame _ (hbelow l)]
  have hfilled : Filled outputs outputs target (vacated.move staging target) :=
    ⟨fun f hf => (hmoved _).trans (hstaged.filled.written f hf),
      fun l e hentry => hstaged.filled.nothingElse l e ((hmoved l).symm.trans hentry)⟩
  refine ⟨⟨hfilled, ?_⟩, vacated_move hbeside' hbeside⟩
  -- something stands under the name of the staging directory, and it is no file of the output
  obtain ⟨before, mark, hsegments, hmark, _, _⟩ := hdir.exists_segments
  have hthere : cleared.entry? staging = some e :=
    (reaches_of_find hfind).entry?_concat hplain'.linkFree hmark hsegments
  have hentry : entry? (vacated.move staging target) target = some e := by
    have hroot := hmoved []
    rw [List.append_nil, List.append_nil] at hroot
    rw [hroot, ← hthere, hsame _ hbeside]
  obtain ⟨f, _, ⟨hnil, _⟩ | ⟨_, rfl⟩⟩ :=
    hfilled.nothingElse [] e (by rwa [List.append_nil])
  · exact absurd hnil.symm (Path.segments_ne_nil _)
  · exact hentry

/-! ## §6. All or nothing. -/

/-- **WHAT WRITING FOR PRODUCTION LEAVES.**  The files of an output have relative paths of names, each
once; the tree is without links and holds together; the path of the output directory ends with a name and
is direct.  Whatever operations fail by themselves while the output is staged: when staging fails, nothing
has changed in the output directory, and this is the end; when nothing fails, the output directory holds
exactly the files of the output, and there is no staging directory.  Without faults this is how the output
is written. -/
theorem tryReplace_all_or_nothing {name : String} (hkeys : ∀ f ∈ o.files, NormalPath f.1)
    (hnodup : (o.files.map Prod.fst).Nodup) (hname : outdir.fileName? = some name)
    (hlinks : start.LinkFree) (hcoherent : start.Coherent)
    (hstands : start.Stands (start.base outdir)) (hdirect : DirectWay start outdir) :
    (∀ faults,
        (∀ failed e, (o.tryStage outdir start faults).1 = (failed, some e) →
          (o.tryReplace outdir start faults).1 = (failed, some e)
            ∧ ∀ l, start.placeOf outdir <+: l → failed.entry? l = start.entry? l)
          ∧ ∀ replaced, (o.tryReplace outdir start faults).1 = (replaced, none) →
            HoldsExactly o.files (start.placeOf outdir) replaced
              ∧ replaced.Vacated (start.placeOf (stagingDir outdir)))
      ∧ (o.tryReplace outdir start []).1 = o.write outdir .production start := by
  refine ⟨fun faults => ?_, congrArg Prod.fst (gives_tryReplace o outdir start)⟩
  have hdir := stagingPath_of_directWay hname hdirect
  have hstage := ensures_tryStage hdir hkeys hnodup hlinks hcoherent hstands faults
  obtain ⟨hbeside, hbeside'⟩ := placeOf_beside start hname
  have hreplace := o.tryReplace_fst outdir start faults
  generalize (o.tryStage outdir start faults).1 = result at hstage hreplace ⊢
  refine ⟨fun failed e hfailed => ?_, fun replaced hreplaced => ?_⟩
  · obtain rfl := hfailed
    refine ⟨hreplace, fun l hl => ?_⟩
    have hnot : ¬ start.placeOf (stagingDir outdir) <+: l := fun hl' =>
      (List.prefix_or_prefix_of_prefix hl hl').elim hbeside hbeside'
    rcases hstage.1 l hnot with hsame | ⟨_, habove⟩
    · exact hsame
    · exact absurd ((hl.trans habove).trans (List.dropLast_prefix _)) hbeside
  · obtain ⟨written, _ | e⟩ := result
    · have hstaged := hstage.2 rfl
      have hne : start.placeOf outdir ≠ [] := by
        intro hnil
        rw [hnil] at hbeside
        exact hbeside List.nil_prefix
      refine holdsExactly_of_swap hdir hstaged ?_ hne hbeside hbeside'
        (hreplace.symm.trans hreplaced)
      rw [placeOf, placeOf, FileTree.base, FileTree.base, hstaged.kept.plain.here_eq]
    · cases hreplace.symm.trans hreplaced

/-- The output of a build before, and a staging directory that has been left behind. -/
def leftoverTree : FileTree where
  entries :=
    [(["dist"], .directory), (["dist", "old.txt"], .file "old".toUTF8),
      (["dist.weft-staging"], .directory), (["dist.weft-staging", "part.txt"], .file "".toUTF8)]

/-- A script and a page. -/
def scriptAndPage : BuildOutput where
  files := [("assets/main.js", "1;".toUTF8), ("index.html", "<p></p>".toUTF8)]

/-- A page where a directory is needed. -/
def clashingPage : BuildOutput where
  files := [("assets", "<p></p>".toUTF8), ("assets/main.js", "1;".toUTF8)]

theorem linkFree_leftoverTree : leftoverTree.LinkFree := by
  simp [LinkFree, leftoverTree]

theorem coherent_leftoverTree : leftoverTree.Coherent := by
  have habove : ∀ entry ∈ leftoverTree.entries, ∀ l ∈ entry.1.inits, l = entry.1
      ∨ l ∈ [[], ["dist"], ["dist.weft-staging"]] := by
    decide +kernel
  intro entry hentry l hl hne
  have hl := (habove entry hentry l ((List.mem_inits _ _).mpr hl)).resolve_left hne
  simp only [List.mem_cons, List.not_mem_nil, or_false] at hl
  rcases hl with rfl | rfl | rfl <;> rfl

theorem scriptAndPage_all_or_nothing :
    (∀ f ∈ scriptAndPage.files, NormalPath f.1) ∧ (scriptAndPage.files.map Prod.fst).Nodup
      ∧ Path.fileName? ⟨"dist"⟩ = some "dist" ∧ leftoverTree.LinkFree ∧ leftoverTree.Coherent
      ∧ leftoverTree.Stands (leftoverTree.base ⟨"dist"⟩) ∧ DirectWay leftoverTree ⟨"dist"⟩
      ∧ (scriptAndPage.tryStage ⟨"dist"⟩ leftoverTree [none, some ⟨.busy, none⟩]).1.2.isSome
      ∧ (scriptAndPage.tryReplace ⟨"dist"⟩ leftoverTree []).1.2.isNone
      ∧ (∀ faults,
          (∀ failed e, (scriptAndPage.tryStage ⟨"dist"⟩ leftoverTree faults).1 = (failed, some e) →
            (scriptAndPage.tryReplace ⟨"dist"⟩ leftoverTree faults).1 = (failed, some e)
              ∧ ∀ l, leftoverTree.placeOf ⟨"dist"⟩ <+: l → failed.entry? l = leftoverTree.entry? l)
            ∧ ∀ replaced,
              (scriptAndPage.tryReplace ⟨"dist"⟩ leftoverTree faults).1 = (replaced, none) →
                HoldsExactly scriptAndPage.files (leftoverTree.placeOf ⟨"dist"⟩) replaced
                  ∧ replaced.Vacated (leftoverTree.placeOf (stagingDir ⟨"dist"⟩)))
      ∧ (scriptAndPage.tryReplace ⟨"dist"⟩ leftoverTree []).1
          = scriptAndPage.write ⟨"dist"⟩ .production leftoverTree := by
  have hkeys : ∀ f ∈ scriptAndPage.files, NormalPath f.1 := by
    unfold NormalPath IsName
    decide +kernel
  have hnodup : (scriptAndPage.files.map Prod.fst).Nodup := by
    decide
  have hname : Path.fileName? ⟨"dist"⟩ = some "dist" := by
    decide
  have hdirect : DirectWay leftoverTree ⟨"dist"⟩ := directWay_of_notMem hname (by decide)
  have hruns : (scriptAndPage.tryStage ⟨"dist"⟩ leftoverTree [none, some ⟨.busy, none⟩]).1.2.isSome
      ∧ (scriptAndPage.tryReplace ⟨"dist"⟩ leftoverTree []).1.2.isNone := by
    decide +kernel
  exact ⟨hkeys, hnodup, hname, linkFree_leftoverTree, coherent_leftoverTree, stands_nil, hdirect,
    hruns.1, hruns.2,
    tryReplace_all_or_nothing hkeys hnodup hname linkFree_leftoverTree coherent_leftoverTree
      stands_nil hdirect⟩

/-- **Paths that are not direct.**  One leads nowhere when the staging directory is cleared, and to what
has been left behind in it once files are written; this becomes output.  For the other one a directory is
made in the output directory before writing fails. -/
theorem detour_keeps_leftovers :
    (∀ f ∈ scriptAndPage.files ++ clashingPage.files, NormalPath f.1) ∧ leftoverTree.LinkFree
      ∧ Path.fileName? ⟨"new/../dist"⟩ = some "dist"
      ∧ leftoverTree.placeOf ⟨"new/../dist"⟩ = ["dist"]
      ∧ (scriptAndPage.write ⟨"new/../dist"⟩ .production leftoverTree).2.isNone
      ∧ ¬ HoldsExactly scriptAndPage.files ["dist"]
          (scriptAndPage.write ⟨"new/../dist"⟩ .production leftoverTree).1
      ∧ Path.fileName? ⟨"dist/sub/../../dist"⟩ = some "dist"
      ∧ leftoverTree.placeOf ⟨"dist/sub/../../dist"⟩ = ["dist"]
      ∧ (clashingPage.tryStage ⟨"dist/sub/../../dist"⟩ leftoverTree []).1.2.isSome
      ∧ leftoverTree.entry? ["dist", "sub"] = none
      ∧ ( entry? (clashingPage.write ⟨"dist/sub/../../dist"⟩ .production leftoverTree).1
          ["dist", "sub"]).isSome := by
  have hnormal : ∀ f ∈ scriptAndPage.files ++ clashingPage.files, NormalPath f.1 := by
    unfold NormalPath IsName
    decide +kernel
  -- the first path: what was left behind is output
  obtain ⟨hname, hplace, hwritten, hold, hnone⟩ :
      Path.fileName? ⟨"new/../dist"⟩ = some "dist"
        ∧ leftoverTree.placeOf ⟨"new/../dist"⟩ = ["dist"]
        ∧ (scriptAndPage.write ⟨"new/../dist"⟩ .production leftoverTree).2.isNone
        ∧ ( entry? (scriptAndPage.write ⟨"new/../dist"⟩ .production leftoverTree).1
            ["dist", "part.txt"]).isSome
        ∧ ∀ f ∈ scriptAndPage.files, ["part.txt"] ≠ (Path.mk f.1).segments
          ∧ ¬ ["part.txt"] <+: (Path.mk f.1).segments.dropLast := by
    decide +kernel
  obtain ⟨e, he⟩ := Option.isSome_iff_exists.mp hold
  -- the second path: staging fails, and there is a new directory
  have hclash : Path.fileName? ⟨"dist/sub/../../dist"⟩ = some "dist"
      ∧ leftoverTree.placeOf ⟨"dist/sub/../../dist"⟩ = ["dist"]
      ∧ (clashingPage.tryStage ⟨"dist/sub/../../dist"⟩ leftoverTree []).1.2.isSome
      ∧ leftoverTree.entry? ["dist", "sub"] = none
      ∧ ( entry? (clashingPage.write ⟨"dist/sub/../../dist"⟩ .production leftoverTree).1
          ["dist", "sub"]).isSome := by
    decide +kernel
  refine ⟨hnormal, linkFree_leftoverTree, hname, hplace, hwritten, fun h => ?_, hclash⟩
  obtain ⟨f, hf, ⟨heq, _⟩ | ⟨hbegins, _⟩⟩ := h.nothingElse ["part.txt"] e he
  · exact (hnone f hf).1 heq
  · exact (hnone f hf).2 hbegins

end BuildOutput

end AssetBundler
