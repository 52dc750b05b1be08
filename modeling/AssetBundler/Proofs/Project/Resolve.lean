/-
  AssetBundler.Proofs.Project.Resolve
  ────────────────────────────────
  **SPECIFIERS LEAD TO FILES.**

  A specifier that is resolved leads to a module whose location is that of a
  file in the tree: `Resolve.target_mem_locations`.  The number of files
  therefore bounds the number of modules that imports can lead to.
-/
import AssetBundler.Project.Resolve
import AssetBundler.Proofs.Files.Walk

namespace AssetBundler

/-! ## §1. A file at the end of a path. -/

namespace FileTree

/-- The locations at which something stands. -/
def locations (tree : FileTree) : List Location :=
  tree.entries.map (·.1)

theorem mem_entries_of_entry? {tree : FileTree} {at_ : Location} {content : ByteArray}
    (h : tree.entry? at_ = some (.file content)) : (at_, .file content) ∈ tree.entries := by
  unfold entry? at h
  split at h
  · cases h
  · obtain ⟨before, after, heq, _⟩ := List.lookup_eq_some_iff.mp h
    rw [heq]
    simp

/-- A path that leads to a file leads to where the tree has it. -/
theorem entry?_of_resolve {tree : FileTree} {path : Path} {at_ : Location}
    {content : ByteArray} (h : tree.resolve path = .ok (at_, .file content)) :
    tree.entry? at_ = some (.file content) :=
  (reaches_of_resolve h).entry?_eq nofun

theorem mem_locations_of_resolve {tree : FileTree} {path : Path} {at_ : Location}
    {content : ByteArray} (h : tree.resolve path = .ok (at_, .file content)) :
    at_ ∈ tree.locations :=
  List.mem_map.mpr ⟨_, mem_entries_of_entry? (entry?_of_resolve h), rfl⟩

/-- The location of a file that a path leads to. -/
theorem mem_locations_of_isFile {tree : FileTree} {path : Path} {at_ : Location}
    (hfile : tree.isFile path = true) (h : tree.canonical path = .ok at_) :
    at_ ∈ tree.locations := by
  unfold isFile at hfile
  split at hfile
  next at' content hresolve =>
    simp only [canonical, hresolve, Except.map, Except.ok.injEq] at h
    exact h ▸ mem_locations_of_resolve hresolve
  next => cases hfile

end FileTree

/-! ## §2. A file for every request. -/

namespace Resolve

variable {files : FileTree} {extensions : List String} {found : Path}

theorem isFile_of_file? {target : Path} (h : file? files extensions target = some found) :
    files.isFile found = true := by
  unfold file? at h
  split at h
  next hfile =>
    injection h with h
    exact h ▸ hfile
  next =>
    split at h
    next path hfind =>
      injection h with h
      exact h ▸ List.find?_some hfind
    next =>
      split at h
      next => exact List.find?_some h
      next => cases h

theorem isFile_of_describedFile {package : Path}
    (h : describedFile files extensions package = .ok (some found)) :
    files.isFile found = true := by
  unfold describedFile at h
  simp only at h
  split at h
  next => cases h
  next =>
    split at h
    next => cases h
    next =>
      split at h
      next => cases h
      next =>
        injection h with h
        obtain ⟨entry, _, hentry⟩ := List.exists_of_findSome?_eq_some h
        exact isFile_of_file? hentry

theorem isFile_of_inPackages {packages : Path} {request : PackageRequest}
    (h : inPackages files extensions packages request = .ok (some found)) :
    files.isFile found = true := by
  unfold inPackages at h
  simp only at h
  split at h
  next => cases h
  next =>
    split at h
    next =>
      injection h with h
      exact isFile_of_file? h
    next =>
      split at h
      next => cases h
      next path hdescribed =>
        injection h with h
        injection h with h
        exact isFile_of_describedFile (h ▸ hdescribed)
      next =>
        injection h with h
        exact isFile_of_file? h

theorem eq_some_of_orElse {first second : Except ResolutionFault (Option Path)}
    (h : orElse first second = .ok (some found)) :
    first = .ok (some found) ∨ second = .ok (some found) := by
  unfold orElse at h
  split at h
  next => exact Or.inr h
  next => exact Or.inl h

theorem isFile_of_inDirectories {request? : Option PackageRequest} {directories : List Location}
    (h : inDirectories files extensions request? directories = .ok (some found)) :
    files.isFile found = true := by
  induction directories with
  | nil => cases h
  | cons location rest ih =>
      simp only [inDirectories] at h
      split at h
      next request =>
        -- found in this directory, or in one further up
        rcases eq_some_of_orElse h with h | h
        · split at h
          next => exact isFile_of_inPackages h
          next => cases h
        · exact ih h
      next => cases h

theorem isFile_of_requestedFile {config : Config} {request : String} {importer : Identity}
    (h : requestedFile config files request importer = .ok (some found)) :
    files.isFile found = true := by
  unfold requestedFile at h
  simp only at h
  split at h
  next => cases h
  next =>
    split at h
    next =>
      injection h with h
      exact isFile_of_file? h
    next =>
      split at h
      next =>
        injection h with h
        exact isFile_of_file? h
      next =>
        split at h
        next => cases h
        next => exact isFile_of_inDirectories h

/-- **A resolved specifier leads to the location of a file.** -/
theorem target_mem_locations {config : Config} {text : String} {importer target : Identity}
    (h : specifier config files text importer = .ok target) :
    target.location ∈ files.locations := by
  unfold specifier at h
  simp only at h
  split at h
  next => cases h
  next => cases h
  next path hrequested =>
    split at h
    next m hm =>
      injection h with h
      subst h
      unfold Identity.ofPath at hm
      cases hcanonical : files.canonical path with
      | ok at_ =>
          rw [hcanonical] at hm
          injection hm with hm
          subst hm
          exact FileTree.mem_locations_of_isFile (isFile_of_requestedFile hrequested) hcanonical
      | error e =>
          rw [hcanonical] at hm
          cases hm
    next => cases h

end Resolve

end AssetBundler
