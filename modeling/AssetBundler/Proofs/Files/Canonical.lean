/-
  AssetBundler.Proofs.Files.Canonical
  ────────────────────────────────
  **LOCATIONS ARE CANONICAL PATHS.**

  Following a path goes through links and dots, but the location at its end
  has neither: its names are those of files, directories lead to it, and
  written out as a path it leads to itself.  So a file has one such path:

    • `Reaches.names`, `Reaches.stands_dropLast` — what a way says of its end,
    • `FileTree.IsFileAt` — a file stands at a location without links,
    • `FileTree.isFileAt_of_resolve` — it does where a path leads to a file,
    • `FileTree.IsFileAt.resolve_ofNames` — the location leads to itself.
-/
import AssetBundler.Proofs.Files.Below

namespace AssetBundler.FileTree

variable {tree : FileTree} {follow : Bool} {here at_ : Location} {segments : List String} {e : Entry}
  {path : Path} {content : ByteArray}

/-! ## §1. The end of a way. -/

/-- **The names of the end** are those of files: a link spells its segments without slashes too. -/
theorem Reaches.names (h : Reaches tree follow here segments at_ e) :
    (∀ n ∈ here, IsFileName n) → (∀ s ∈ segments, '/' ∉ s.toList) → ∀ n ∈ at_, IsFileName n := by
  -- one more name of a file
  have hinto : ∀ {here : Location} {name : String} {rest : List String},
      (∀ n ∈ here, IsFileName n) → (∀ s ∈ name :: rest, '/' ∉ s.toList) → IsName name →
        ∀ n ∈ here ++ [name], IsFileName n := by
    intro here name rest hhere hsegments hname n hn
    rcases List.mem_append.mp hn with hn | hn
    · exact hhere n hn
    · rw [List.mem_singleton.mp hn]
      exact ⟨hname, hsegments name List.mem_cons_self⟩
  induction h with
  | here => exact fun hhere _ => hhere
  | idle _ _ ih => exact fun hhere hsegments => ih hhere (List.forall_mem_cons.mp hsegments).2
  | up _ ih =>
      intro hhere hsegments
      exact ih (fun n hn => hhere n (List.dropLast_subset _ hn)) (List.forall_mem_cons.mp hsegments).2
  | into hname _ _ ih =>
      intro hhere hsegments
      exact ih (hinto hhere hsegments hname) (List.forall_mem_cons.mp hsegments).2
  | file hname _ => exact fun hhere hsegments => hinto hhere hsegments hname
  | link hname _ _ => exact fun hhere hsegments => hinto hhere hsegments hname
  | through _ _ _ _ ih =>
      intro hhere hsegments
      refine ih ?_ fun s hs => ?_
      · split
        next => exact List.forall_mem_nil _
        next => exact hhere
      · rcases List.mem_append.mp hs with hs | hs
        · exact Path.slash_notMem_of_mem_segments hs
        · exact hsegments s (List.mem_cons_of_mem _ hs)

/-- **Directories lead to the end**, whatever stands there. -/
theorem Reaches.stands_dropLast (h : Reaches tree follow here segments at_ e) :
    tree.Stands here → tree.Stands at_.dropLast := by
  induction h with
  | here => exact fun hhere => hhere.above (List.dropLast_prefix _)
  | idle _ _ ih => exact ih
  | up _ ih => exact fun hhere => ih (hhere.above (List.dropLast_prefix _))
  | into _ hentry _ ih => exact fun hhere => ih (hhere.concat hentry)
  | file _ _ =>
      intro hhere
      rwa [List.dropLast_concat]
  | link _ _ _ =>
      intro hhere
      rwa [List.dropLast_concat]
  | through _ _ _ _ ih =>
      intro hhere
      refine ih ?_
      split
      next => exact stands_nil
      next => exact hhere

/-! ## §2. Files at their locations. -/

/-- The directory that relative paths start from is one, and is given without links and dots. -/
structure Grounded (tree : FileTree) : Prop where
  names : ∀ n ∈ tree.here, IsFileName n
  stands : tree.Stands tree.here

/-- **A file stands at the location**, and nothing on the way to it is a link or leads back. -/
structure IsFileAt (tree : FileTree) (at_ : Location) : Prop where
  names : ∀ n ∈ at_, IsFileName n
  stands : tree.Stands at_.dropLast
  entry : ∃ content, tree.entry? at_ = some (.file content)

/-- Where a path starts is a directory given without links and dots. -/
theorem Grounded.of_base (h : tree.Grounded) (path : Path) :
    (∀ n ∈ tree.base path, IsFileName n) ∧ tree.Stands (tree.base path) := by
  unfold base
  split
  next => exact ⟨List.forall_mem_nil _, stands_nil⟩
  next => exact ⟨h.names, h.stands⟩

/-- **A path that leads to a file** leads to the location of one. -/
theorem isFileAt_of_resolve (h : tree.Grounded)
    (hresolve : tree.resolve path = .ok (at_, .file content)) : tree.IsFileAt at_ := by
  obtain ⟨hnames, hstands⟩ := h.of_base path
  have hreaches := reaches_of_resolve hresolve
  exact ⟨hreaches.names hnames fun s hs => Path.slash_notMem_of_mem_segments hs,
    hreaches.stands_dropLast hstands, content, hreaches.entry?_eq nofun⟩

namespace IsFileAt

/-- The root is no file. -/
theorem ne_nil (h : tree.IsFileAt at_) : at_ ≠ [] := by
  rintro rfl
  obtain ⟨content, hentry⟩ := h.entry
  cases hentry

/-- **The path of the location leads to the file at it.** -/
theorem resolve_ofNames (h : tree.IsFileAt at_) (hentry : tree.entry? at_ = some (.file content)) :
    tree.resolve (Path.ofNames at_) = .ok (at_, .file content) := by
  obtain ⟨above, name, hconcat⟩ := (List.eq_nil_or_concat at_).resolve_left h.ne_nil
  rw [List.concat_eq_append] at hconcat
  have hname : IsFileName name := h.names name (by simp [hconcat])
  have habove : ∀ n ∈ above, IsFileName n := fun n hn => h.names n (by simp [hconcat, hn])
  have hstands : tree.Stands above := by
    have hdropLast := h.stands
    rwa [hconcat, List.dropLast_concat] at hdropLast
  have hbase : tree.base (Path.ofNames at_) = [] := if_pos (Path.isAbsolute_ofNames at_)
  have hsegments : (Path.ofNames at_).segments = ("" :: above) ++ [name] := by
    rw [(Path.segments_ofNames h.names).resolve_right h.ne_nil, hconcat]
    rfl
  have hsteps : FileTree.names ("" :: above) = above := by
    rw [names_cons_of_idle (Or.inl rfl)]
    refine List.filter_eq_self.mpr fun n hn => ?_
    obtain ⟨⟨hempty, hdot, _⟩, _⟩ := habove n hn
    simp [hempty, hdot]
  -- steps that are names lead to the location that they spell
  have hplace : ∀ {steps : List String}, steps <+: above → place [] steps = steps := by
    intro steps hbefore
    rw [place_of_isName [] fun s hs => (habove s (hbefore.mem hs)).1, List.nil_append]
  have hresolve : tree.resolve (Path.ofNames at_)
      = .ok (place (tree.base (Path.ofNames at_)) (FileTree.names ("" :: above)) ++ [name],
          .file content) := by
    refine resolve_of_places (by simp [Path.ofNames]) hsegments hname.1 nofun ?_ ?_
    · rw [hbase, hsteps]
      intro steps hbefore
      rw [hplace hbefore]
      exact hstands steps hbefore
    · rw [hbase, hsteps, hplace List.prefix_rfl, ← hconcat, hentry]
  rw [hresolve, hbase, hsteps, hplace List.prefix_rfl, ← hconcat]

/-- **The path of the location leads to the location.** -/
theorem canonical_ofNames (h : tree.IsFileAt at_) :
    tree.canonical (Path.ofNames at_) = .ok at_ := by
  obtain ⟨content, hentry⟩ := h.entry
  unfold canonical
  rw [h.resolve_ofNames hentry]
  rfl

end IsFileAt

end AssetBundler.FileTree
