/-
  AssetBundler.Proofs.Build.Entries
  ────────────────────────────────
  **THE ENTRIES OF A BUILD.**

  A build starts from the files that its configuration names.  Their modules
  carry the configured names, and they and all that they reach lie at
  locations without links:

    • `Bundler.entries_forall₂` — the entries, one by one,
    • `Bundler.isFileName_of_mem_order` — the locations of all modules.
-/
import AssetBundler.Proofs.Build.Phases
import AssetBundler.Proofs.Project.Search

namespace AssetBundler.Bundler

open FileTree

variable {b : Bundler} {files : FileTree} {entries : List (String × Identity)} {g : ModuleGraph}
  {o : BuildOutput} {m : Identity}

/-- **The entries are those of the configuration**, in its order: each has its name, and the module of its
file. -/
theorem entries_forall₂ (h : b.entries files = .ok entries) :
    List.Forall₂ (fun p e => e.1 = p.1 ∧ Identity.ofPath files p.2 = .ok e.2)
      b.config.entryPaths entries := by
  refine (forall₂_of_mapM h).imp ?_
  rintro ⟨name, path⟩ e he
  obtain ⟨m, hm, he⟩ := exists_of_bind_eq_ok he
  cases he
  refine ⟨rfl, ?_⟩
  unfold Resolve.entry at hm
  split at hm
  next m' hpath =>
    cases hm
    exact hpath
  next => cases hm

/-- The entries have the configured names. -/
theorem map_fst_entries (h : b.entries files = .ok entries) :
    entries.map (·.1) = b.config.entrypoints.map (·.1) := by
  have hnames : List.Forall₂ (fun (p : String × Path) (e : String × Identity) => p.1 = e.1)
      b.config.entryPaths entries := (entries_forall₂ h).imp fun p e he => he.1.symm
  have hsame : b.config.entryPaths.map (·.1) = entries.map (·.1) := by
    refine List.forall₂_eq_eq_eq ▸ ?_
    exact List.forall₂_map_left_iff.mpr (List.forall₂_map_right_iff.mpr hnames)
  rw [← hsame, Config.entryPaths, List.map_map]
  rfl

/-- **Every module of a build has a location whose names are those of files**: an entry lies where its
path leads, and any other module where a specifier does. -/
theorem isFileName_of_mem_order (hfiles : files.Grounded) (h : b.Makes files g o) (hm : m ∈ g.order) :
    ∀ n ∈ m.location, IsFileName n := by
  obtain ⟨entries, hentries, hg⟩ := h.graph
  refine GraphInput.Reachable.induction (motive := fun m => ∀ n ∈ m.location, IsFileName n) ?_ ?_
    (hg.mem_order_iff.mp hm)
  · intro e he
    obtain ⟨p, _, _, hpath⟩ := exists_mem_right_of_forall₂ (entries_forall₂ hentries).flip e he
    unfold Identity.ofPath canonical at hpath
    cases hresolve : files.resolve p.2 with
    | error fault =>
        rw [hresolve] at hpath
        cases hpath
    | ok found =>
        rw [hresolve] at hpath
        obtain ⟨at_, entry⟩ := found
        have hlocation : (⟨at_⟩ : Identity) = e.2 := Except.ok.inj hpath
        rw [← hlocation]
        exact (reaches_of_resolve hresolve).names (hfiles.of_base p.2).1
          fun s hs => Path.slash_notMem_of_mem_segments hs
  · rintro m target _ ⟨a, _, i, _, htarget⟩
    exact (Resolve.isFileAt_of_specifier hfiles htarget).names

end AssetBundler.Bundler
