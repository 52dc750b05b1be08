/-
  AssetBundler.Proofs.Files.Changes
  ────────────────────────────────
  **WHAT AN OPERATION LEAVES AS IT IS.**

  Taking a directory away leaves everything that does not stand there or
  below, and no operation that makes files and directories or takes them away
  makes a link:

    • `FileTree.entry?_removeAll` — what is left of a tree,
    • `FileTree.Plain` — trees without links, and what keeps them so.
-/
import AssetBundler.Proofs.Files.Walk

namespace AssetBundler.FileTree

variable {tree tree' : FileTree} {follow : Bool} {here at_ l : Location} {e : Entry} {path : Path}

/-! ## §1. Taking away. -/

/-- A tree with some of its locations only. -/
def restrict (tree : FileTree) (keep : Location → Bool) : FileTree :=
  { tree with entries := tree.entries.filter fun entry => keep entry.1 }

theorem lookup_filter_key (keep : Location → Bool) : ∀ entries : List (Location × Entry),
    (entries.filter fun entry => keep entry.1).lookup l
      = if keep l then entries.lookup l else none
  | [] => by simp
  | (l', e) :: rest => by
      by_cases hl : l = l'
      · subst hl
        by_cases hkeep : keep l <;> simp [hkeep, lookup_filter_key keep rest]
      · by_cases hkeep : keep l' <;>
          simp [hkeep, List.lookup_cons, beq_false_of_ne hl, lookup_filter_key keep rest]

theorem entry?_restrict (keep : Location → Bool) (hl : keep l = true) :
    entry? (tree.restrict keep) l = tree.entry? l := by
  unfold entry? restrict
  rw [lookup_filter_key, if_pos hl]

theorem entry?_of_restrict {keep : Location → Bool} (h : entry? (tree.restrict keep) l = some e) :
    tree.entry? l = some e := by
  unfold entry? restrict at h
  unfold entry?
  split at h
  next hempty => rw [if_pos hempty, h]
  next hempty =>
    rw [lookup_filter_key] at h
    rw [if_neg hempty]
    split at h
    next => exact h
    next => cases h

theorem isPrefixOf_eq_false (hl : ¬ at_ <+: l) : at_.isPrefixOf l = false :=
  Bool.eq_false_iff.mpr fun h => hl (List.isPrefixOf_iff_prefix.mp h)

theorem entry?_without (hl : ¬ at_ <+: l) : entry? (tree.without at_) l = tree.entry? l :=
  entry?_restrict (fun l => !at_.isPrefixOf l) (by simp [isPrefixOf_eq_false hl])

theorem exists_of_removeDirectory (h : tree.removeDirectory path = .ok tree') :
    ∃ at_, tree.find false path = .ok (.occupied at_ .directory) ∧ tree' = tree.without at_ := by
  unfold removeDirectory at h
  split at h
  next => cases h
  next => cases h
  next at_ e hfind =>
    split at h
    next => cases h
    next => cases h
    next => cases h
    next =>
      split at h
      next =>
        split at h
        next => cases h
        next =>
          cases h
          exact ⟨at_, hfind, rfl⟩
      next => cases h

/-- The tree without what stands below a location. -/
def emptied (tree : FileTree) (at_ : Location) : FileTree :=
  tree.restrict fun l => !(at_.isPrefixOf l && l != at_)

theorem removeAll_directory (h : tree.find false path = .ok (.occupied at_ .directory)) :
    tree.removeAll path = match (tree.emptied at_).removeDirectory path with
      | .ok tree => (tree, none)
      | .error e => (tree.emptied at_, some e) := by
  unfold removeAll
  rw [h]
  rfl

/-- **Taking away leaves everything** that does not stand at the end of the path or below. -/
theorem entry?_removeAll (h : tree.find false path = .ok (.occupied at_ e)) (hl : ¬ at_ <+: l) :
    entry? (tree.removeAll path).1 l = tree.entry? l := by
  cases e with
  | file =>
      unfold removeAll
      rw [h]
  | link =>
      unfold removeAll
      rw [h]
      exact entry?_without hl
  | directory =>
      have hemptied : entry? (tree.emptied at_) l = tree.entry? l :=
        entry?_restrict _ (by simp [isPrefixOf_eq_false hl])
      rw [removeAll_directory h]
      split
      next tree' hremoved =>
        -- the path still leads to the directory, when it leads anywhere
        obtain ⟨at', hfind, rfl⟩ := exists_of_removeDirectory hremoved
        have hway := (reaches_of_find hfind).mono fun _ _ hentry => entry?_of_restrict hentry
        obtain ⟨rfl, _⟩ := (reaches_of_find h).unique hway
        rw [entry?_without hl, hemptied]
      next => exact hemptied

/-! ## §2. Trees without links. -/

/-- There are no links in the tree, and relative paths start from a given place. -/
structure Plain (here : Location) (tree : FileTree) : Prop where
  linkFree : tree.LinkFree
  here_eq : tree.here = here

namespace Plain

theorem restrict (h : Plain here tree) (keep : Location → Bool) :
    Plain here (tree.restrict keep) where
  linkFree entry hentry := h.linkFree entry (List.mem_filter.mp hentry).1
  here_eq := h.here_eq

theorem put (h : Plain here tree) (he : ∀ target, e ≠ .link target) : Plain here (tree.put at_ e) where
  linkFree entry hentry := by
    unfold FileTree.put at hentry
    simp only at hentry
    split at hentry
    next =>
      obtain ⟨old, hold, rfl⟩ := List.mem_map.mp hentry
      split
      next => exact he
      next => exact h.linkFree old hold
    next =>
      rcases List.mem_append.mp hentry with hold | hnew
      · exact h.linkFree entry hold
      · rw [List.mem_singleton.mp hnew]
        exact he
  here_eq := h.here_eq

theorem makeDirectory (h : Plain here tree) (hmade : tree.makeDirectory path = .ok tree') :
    Plain here tree' := by
  unfold FileTree.makeDirectory at hmade
  split at hmade
  next =>
    cases hmade
    exact h.put nofun
  next => cases hmade
  next => cases hmade

theorem ensureDirectory (h : Plain here tree) (hmade : tree.ensureDirectory path = .ok tree') :
    Plain here tree' := by
  unfold FileTree.ensureDirectory at hmade
  split at hmade
  next hnew =>
    cases hmade
    exact h.makeDirectory hnew
  next =>
    split at hmade
    next =>
      cases hmade
      exact h
    next => cases hmade

theorem makeDirectories : ∀ (fuel : Nat) {tree : FileTree} (path : Path), Plain here tree →
    Plain here (FileTree.makeDirectories fuel tree path).1 := by
  intro fuel
  induction fuel with
  | zero => exact fun _ h => h
  | succ fuel ih =>
      intro tree path h
      unfold FileTree.makeDirectories
      split
      next => exact h
      next =>
        split
        next hmade => exact h.ensureDirectory hmade
        next =>
          split
          next => exact h
          next parent _ =>
            have hparent := ih parent h
            split
            next heq =>
              rw [heq] at hparent
              exact hparent
            next heq =>
              rw [heq] at hparent
              split
              next hmade => exact hparent.ensureDirectory hmade
              next => exact hparent
        next => exact h

theorem createDirectories (h : Plain here tree) (path : Path) :
    Plain here (tree.createDirectories path).1 :=
  makeDirectories _ path h

theorem write {content : ByteArray} (h : Plain here tree)
    (hwritten : tree.write path content = .ok tree') : Plain here tree' := by
  unfold FileTree.write at hwritten
  split at hwritten
  split at hwritten
  next => cases hwritten
  next =>
    split at hwritten
    next => cases hwritten
    next =>
      split at hwritten
      next =>
        cases hwritten
        exact h.put nofun
      next => cases hwritten
      next =>
        cases hwritten
        exact h.put nofun

theorem without (h : Plain here tree) (at_ : Location) : Plain here (tree.without at_) :=
  h.restrict fun l => !at_.isPrefixOf l

theorem removeDirectory (h : Plain here tree) (hremoved : tree.removeDirectory path = .ok tree') :
    Plain here tree' := by
  obtain ⟨at_, _, rfl⟩ := exists_of_removeDirectory hremoved
  exact h.without at_

theorem removeAll (h : Plain here tree) (path : Path) : Plain here (tree.removeAll path).1 := by
  by_cases hfind : ∃ at_, tree.find false path = .ok (.occupied at_ .directory)
  · obtain ⟨at_, hfind⟩ := hfind
    have hemptied : Plain here (tree.emptied at_) := h.restrict _
    rw [removeAll_directory hfind]
    split
    next hremoved => exact hemptied.removeDirectory hremoved
    next => exact hemptied
  · unfold FileTree.removeAll
    split
    next => exact h
    next => exact h
    next at_ _ _ => exact h.without at_
    next => exact h
    next at_ heq => exact absurd ⟨at_, heq⟩ hfind

end Plain

end AssetBundler.FileTree
