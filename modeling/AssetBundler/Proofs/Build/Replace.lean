/-
  AssetBundler.Proofs.Build.Replace
  ────────────────────────────────
  **WHAT A PRODUCTION BUILD TAKES AWAY.**

  A bundler is made only if its output directory does not hold the root of the
  project.  This is checked where the path of the output directory leads when
  the bundler is made, and for a path that leads nowhere as it is written.
  What is taken away is what stands there much later, when the output has been
  put together beside it.  The root is safe where the two have to do with each
  other:

    • `BuildOutput.clearedAt?` — what is taken away,
    • `Bundler.not_prefix_of_canonical`, `Bundler.not_prefix_of_vacant`,
      `Bundler.not_prefix_of_plain` — three reasons why it is not above the root,
    • `Bundler.write_keeps_root` — all of them together,
    • `Bundler.detour_clears_root` — a path with two dots that leads to the root.
-/
import AssetBundler.Proofs.Build.Graph
import AssetBundler.Build.Bundler
import AssetBundler.Proofs.Files.Changes
import AssetBundler.Proofs.Files.Path

namespace AssetBundler

open FileTree

/-! ## §1. What is taken away. -/

namespace BuildOutput

/-- The tree in which the output is there beside an output directory, if this succeeds. -/
def stagedTree? (o : BuildOutput) (outdir : Path) (files : FileTree) : Option FileTree :=
  match clear (stagingDir outdir) files with
  | (_, some _) => none
  | (files, none) =>
    match writeFiles (stagingDir outdir) o.files files with
    | (_, some _) => none
    | (files, none) => some files

/-- The location that is taken away for the output: that of the output directory, if something stands
there when the output has been put together. -/
def clearedAt? (o : BuildOutput) (outdir : Path) (files : FileTree) : Option Location :=
  (o.stagedTree? outdir files).bind fun staged =>
    if staged.exists_ outdir then
      match staged.find false outdir with
      | .ok (.occupied at_ _) => some at_
      | _ => none
    else none

variable {o : BuildOutput} {outdir dir : Path} {files staged : FileTree} {at_ here l : Location}

theorem write_of_stagedTree? (h : o.stagedTree? outdir files = some staged) :
    o.write outdir .production files = swap (stagingDir outdir) outdir staged := by
  unfold stagedTree? at h
  split at h
  next => cases h
  next hclear =>
    split at h
    next => cases h
    next hwrite =>
      obtain rfl := Option.some.inj h
      unfold write
      simp only
      unfold replaceDir
      simp only [hclear, hwrite]

theorem exists_of_clearedAt? (h : o.clearedAt? outdir files = some at_) :
    ∃ staged e, o.stagedTree? outdir files = some staged
      ∧ staged.find false outdir = .ok (.occupied at_ e) := by
  obtain ⟨staged, hstaged, h⟩ := Option.bind_eq_some_iff.mp h
  split at h
  next =>
    split at h
    next e hfind =>
      cases h
      exact ⟨staged, e, hstaged, hfind⟩
    next => cases h
  next => cases h

/-- **Nothing else is taken away.** -/
theorem entry?_clear {e : Entry} (h : files.find false dir = .ok (.occupied at_ e))
    (hl : ¬ at_ <+: l) : entry? (clear dir files).1 l = files.entry? l := by
  have hkept := entry?_removeAll h hl
  unfold clear
  split
  next =>
    split
    next heq => rw [← hkept, heq]
    next heq => rw [← hkept, heq]
  next => rfl

/-! ## §2. Output makes no links. -/

theorem plain_clear (h : Plain here files) (dir : Path) : Plain here (clear dir files).1 := by
  have hremoved := h.removeAll dir
  unfold clear
  split
  next =>
    split
    next heq => rwa [heq] at hremoved
    next heq => rwa [heq] at hremoved
  next => exact h

section

-- what these do is known by their lemmas; looked into, they would be run on unknown paths
attribute [local irreducible] Path.join FileTree.createDirectories FileTree.write

theorem writeFiles_cons (dir : Path) (relative : String) (content : ByteArray)
    (rest : List (String × ByteArray)) (files : FileTree) :
    writeFiles dir ((relative, content) :: rest) files
      = match files.createDirectories ((dir.join relative).parent?.getD ⟨""⟩) with
        | (files, some e) =>
          (files, some (.emission ((dir.join relative).parent?.getD ⟨""⟩) e))
        | (files, none) =>
          match files.write (dir.join relative) content with
          | .ok files => writeFiles dir rest files
          | .error e => (files, some (.emission (dir.join relative) e)) :=
  rfl

end

theorem plain_writeFiles (dir : Path) (contents : List (String × ByteArray)) :
    ∀ {files : FileTree}, Plain here files → Plain here (writeFiles dir contents files).1 := by
  induction contents with
  | nil => exact fun h => h
  | cons content rest ih =>
      intro files h
      have hmade := h.createDirectories ((dir.join content.1).parent?.getD ⟨""⟩)
      rw [writeFiles_cons]
      split
      next heq => rwa [heq] at hmade
      next heq =>
        rw [heq] at hmade
        split
        next hwritten => exact ih (hmade.write hwritten)
        next => exact hmade

theorem plain_stagedTree? (h : Plain here files) (hstaged : o.stagedTree? outdir files = some staged) :
    Plain here staged := by
  have hclear := plain_clear h (stagingDir outdir)
  unfold stagedTree? at hstaged
  split at hstaged
  next => cases hstaged
  next heq =>
    rw [heq] at hclear
    have hwritten := plain_writeFiles (stagingDir outdir) o.files hclear
    split at hstaged
    next => cases hstaged
    next heq' =>
      rw [heq'] at hwritten
      cases hstaged
      exact hwritten

end BuildOutput

/-! ## §3. Why the root is safe. -/

namespace Bundler

open BuildOutput

variable {start files : FileTree} {config : Config} {mode : Mode} {outdir? : Option Path} {b : Bundler}
  {o : BuildOutput} {R L : Location}

/-- What the check says of a bundler. -/
theorem checked_of_create (h : create start config mode outdir? = .ok b) :
    b.mode = mode
      ∧ (canonicalOr start config.root).startsWith (canonicalOr start b.outputDir) = false := by
  obtain ⟨table, _, h⟩ := exists_of_bind_eq_ok h
  simp only at h
  split at h
  next => cases h
  next hcheck =>
    cases h
    exact ⟨rfl, Bool.eq_false_iff.mpr hcheck⟩

theorem canonicalOr_of_resolve {path : Path} {e : Entry} (h : start.resolve path = .ok (L, e)) :
    canonicalOr start path = Path.ofNames L := by
  unfold canonicalOr canonical
  rw [h]
  rfl

/-- **What the check has seen** is not above the root. -/
theorem not_prefix_of_canonical (h : create start config mode outdir? = .ok b)
    (hroot : start.resolve config.root = .ok (R, .directory))
    (hseen : start.canonical b.outputDir = .ok L) : ¬ L <+: R := by
  intro hprefix
  have hcheck := (checked_of_create h).2
  have hout : canonicalOr start b.outputDir = Path.ofNames L := by
    unfold canonicalOr
    rw [hseen]
  rw [canonicalOr_of_resolve hroot, hout, Path.startsWith_ofNames hprefix] at hcheck
  cases hcheck

/-- The root and all that lead to it are directories. -/
theorem stands_root (hhere : start.Stands start.here)
    (hroot : start.resolve config.root = .ok (R, .directory)) : start.Stands R := by
  refine ((reaches_of_resolve hroot).stands ?_).2 rfl
  unfold base
  split
  next => exact stands_nil
  next => exact hhere

/-- **What was not there when the check was made** is not above the root. -/
theorem not_prefix_of_vacant (hhere : start.Stands start.here)
    (hroot : start.resolve config.root = .ok (R, .directory)) (hvacant : start.entry? L = none) :
    ¬ L <+: R := by
  intro hprefix
  have hentry := stands_root hhere hroot L hprefix
  rw [hvacant] at hentry
  cases hentry

/-- **A path without two dots** that meets no links leads to the place that it spells, and this is not
above the root. -/
theorem not_prefix_of_plain (hhere : start.Stands start.here)
    (h : create start config mode outdir? = .ok b)
    (hroot : start.resolve config.root = .ok (R, .directory))
    (hdots : ".." ∉ b.outputDir.segments) (hfiles : Plain start.here files)
    (hcleared : o.clearedAt? b.outputDir files = some L) : ¬ L <+: R := by
  intro hprefix
  obtain ⟨staged, e, hstaged, hfind⟩ := exists_of_clearedAt? hcleared
  have hplain := plain_stagedTree? hfiles hstaged
  have hspelled : L = start.base b.outputDir ++ names b.outputDir.segments := by
    rw [(reaches_of_find hfind).eq_append_names hplain.linkFree hdots]
    simp only [base, hplain.here_eq]
  have htext : b.outputDir.text ≠ "" := by
    intro hempty
    unfold find at hfind
    rw [if_pos (by simpa using hempty)] at hfind
    cases hfind
  -- the path led there before, so the check has seen it
  have hstands := (stands_root hhere hroot).above hprefix
  rw [hspelled] at hstands
  have hresolve := resolve_of_stands htext hdots hstands
  rw [← hspelled] at hresolve
  refine not_prefix_of_canonical h hroot ?_ hprefix
  unfold canonical
  rw [hresolve]
  rfl

/-! ## §4. Production builds. -/

/-- **WHEN A PRODUCTION BUILD KEEPS THE ROOT.**  A bundler has been made, and later the output of a build
is written for production, whatever has become of the files meanwhile.  Then the location that is taken
away is neither the root of the project nor above it: if the output directory led there when the bundler
was made, if nothing stood there then, or if its path is without two dots and there are no links.  What
does not stand at this location or below is left as it is. -/
theorem write_keeps_root (hhere : start.Stands start.here)
    (h : create start config .production outdir? = .ok b)
    (hroot : start.resolve config.root = .ok (R, .directory))
    (hcleared : o.clearedAt? b.outputDir files = some L) :
    (start.canonical b.outputDir = .ok L ∨ start.entry? L = none
        ∨ ".." ∉ b.outputDir.segments ∧ files.LinkFree ∧ files.here = start.here → ¬ L <+: R)
      ∧ ∃ staged, o.stagedTree? b.outputDir files = some staged
          ∧ o.write b.outputDir b.mode files
            = swap (stagingDir b.outputDir) b.outputDir staged
          ∧ ∀ l, ¬ L <+: l →
              entry? (clear b.outputDir staged).1 l = staged.entry? l := by
  refine ⟨?_, ?_⟩
  · rintro (hseen | hvacant | ⟨hdots, hlinks, hsame⟩)
    · exact not_prefix_of_canonical h hroot hseen
    · exact not_prefix_of_vacant hhere hroot hvacant
    · exact not_prefix_of_plain hhere h hroot hdots ⟨hlinks, hsame⟩ hcleared
  · obtain ⟨staged, e, hstaged, hfind⟩ := exists_of_clearedAt? hcleared
    refine ⟨staged, hstaged, ?_, fun l hl => entry?_clear hfind hl⟩
    rw [(checked_of_create h).1]
    exact write_of_stagedTree? hstaged

/-- A project in a directory of its own. -/
def ownConfig : Config :=
  { (Graph.projectOf []).config with root := ⟨"/proj"⟩, entrypoints := [("main", "main.js")] }

/-- Its files, with those of a build before. -/
def ownTree : FileTree where
  entries :=
    [(["proj"], .directory), (["proj", "main.js"], .file "console.log(1);".toUTF8),
      (["proj", "dist"], .directory), (["proj", "dist", "main.js"], .file "".toUTF8)]

/-- An output that has nothing but a page. -/
def ownPage : BuildOutput where
  files := [("index.html", "<p></p>".toUTF8)]
  html := "index.html"

theorem resolve_own : ownTree.resolve ownConfig.root = .ok (["proj"], .directory) := by
  rfl

theorem own_write_keeps_root :
    ∃ b, create ownTree ownConfig .production none = .ok b
      ∧ ownTree.canonical b.outputDir = .ok ["proj", "dist"]
      ∧ ownPage.clearedAt? b.outputDir ownTree = some ["proj", "dist"]
      ∧ ¬ (["proj", "dist"] : Location) <+: ["proj"]
      ∧ ∃ staged, ownPage.stagedTree? b.outputDir ownTree = some staged
          ∧ ownPage.write b.outputDir b.mode ownTree
            = swap (stagingDir b.outputDir) b.outputDir staged
          ∧ ∀ l, ¬ ["proj", "dist"] <+: l →
              entry? (clear b.outputDir staged).1 l = staged.entry? l := by
  obtain ⟨b, hb, hseen, hcleared⟩ :
      ∃ b, create ownTree ownConfig .production none = .ok b
        ∧ ownTree.canonical b.outputDir = .ok ["proj", "dist"]
        ∧ ownPage.clearedAt? b.outputDir ownTree = some ["proj", "dist"] :=
    exists_of_any_toOption (by decide +kernel)
  obtain ⟨hkeeps, hwrite⟩ := write_keeps_root stands_nil hb resolve_own hcleared
  exact ⟨b, hb, hseen, hcleared, hkeeps (Or.inl hseen), hwrite⟩

/-- A path that leads nowhere when it is checked leads to the root once the directory beside the output
directory has been made. -/
theorem detour_clears_root :
    ∃ b, create ownTree ownConfig .production (some ⟨"/other/../proj"⟩) = .ok b
      ∧ ownTree.resolve ownConfig.root = .ok (["proj"], .directory)
      ∧ ownPage.clearedAt? b.outputDir ownTree = some ["proj"]
      ∧ ( ownTree.entry? ["proj", "main.js"]).isSome
      ∧ (ownPage.write b.outputDir b.mode ownTree).2.isNone
      ∧ ( entry? (ownPage.write b.outputDir b.mode ownTree).1 ["proj", "main.js"]).isNone := by
  obtain ⟨b, hb, hcleared, hthere, hwritten, hgone⟩ :
      ∃ b, create ownTree ownConfig .production (some ⟨"/other/../proj"⟩) = .ok b
        ∧ ownPage.clearedAt? b.outputDir ownTree = some ["proj"]
        ∧ ( ownTree.entry? ["proj", "main.js"]).isSome
        ∧ (ownPage.write b.outputDir b.mode ownTree).2.isNone
        ∧ ( entry? (ownPage.write b.outputDir b.mode ownTree).1 ["proj", "main.js"]).isNone :=
    exists_of_any_toOption (by decide +kernel)
  exact ⟨b, hb, resolve_own, hcleared, hthere, hwritten, hgone⟩

end Bundler

end AssetBundler
