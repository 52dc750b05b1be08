/-
  AssetBundler.Proofs.Files.Removal
  ────────────────────────────────
  **TAKING A DIRECTORY AWAY, ONE OPERATION AFTER THE OTHER.**

  A directory is taken away from the bottom: first what stands in it, each
  thing by an operation of its own, and the directory itself in the end.  In
  which order this is done is up to the disk.  When one of the operations
  fails, those before it have been done and none of those behind it, so what
  is left is known from the order and the number of operations:

    • `FileTree.Emptying` — orders that go from the bottom,
    • `FileTree.tryRemoveAll` — the operations under faults,
    • `FileTree.gives_tryRemoveAll` — without faults the directory is gone,
    • `FileTree.Emptying.entry?_withoutAll` — what is left behind some of them,
    • `FileTree.ensures_tryRemoveAll` — what is left, whatever fails,
    • `FileTree.vacant_of_find` — what is known of a vacant place,
    • `FileTree.eq_of_find_vacant` — where the path leads afterwards, also
      through links.
-/
import AssetBundler.Proofs.Files.Faults

namespace AssetBundler.FileTree

open FaultM

variable {tree tree' : FileTree} {follow slash : Bool} {here at_ l L : Location}
  {order : List Location} {segments : List String} {e e' : Entry} {path : Path}

/-! ## §1. Orders of removal. -/

/-- The tree without what stands at some locations and below them. -/
def withoutAll (tree : FileTree) (order : List Location) : FileTree :=
  order.foldl without tree

/-- **An order from the bottom**: all that stands below a location, each before what it stands in. -/
structure Emptying (tree : FileTree) (at_ : Location) (order : List Location) : Prop where
  mem_iff : ∀ l, l ∈ order ↔ at_ <+: l ∧ l ≠ at_ ∧ ∃ e, tree.entry? l = some e
  bottomUp : order.Pairwise fun l l' => ¬ l <+: l'

theorem entries_withoutAll (tree : FileTree) (order : List Location) :
    (tree.withoutAll order).entries
      = tree.entries.filter fun entry => order.all fun l => !l.isPrefixOf entry.1 := by
  induction order generalizing tree with
  | nil => simp [withoutAll]
  | cons first rest ih =>
      rw [withoutAll, List.foldl_cons]
      refine (ih (tree.without first)).trans ?_
      rw [without, List.filter_filter]
      refine List.filter_congr fun entry _ => ?_
      rw [List.all_cons, Bool.and_comm]

theorem here_withoutAll (tree : FileTree) (order : List Location) :
    (tree.withoutAll order).here = tree.here := by
  induction order generalizing tree with
  | nil => rfl
  | cons first rest ih => exact ih (tree.without first)

theorem withoutAll_eq_restrict (tree : FileTree) (order : List Location) :
    tree.withoutAll order = tree.restrict fun l => order.all fun l' => !l'.isPrefixOf l := by
  have hentries := entries_withoutAll tree order
  have hhere := here_withoutAll tree order
  cases hall : tree.withoutAll order with
  | mk entries here =>
      rw [hall] at hentries hhere
      rw [restrict, ← hentries, ← hhere]

theorem withoutAll_append (tree : FileTree) (order rest : List Location) :
    tree.withoutAll (order ++ rest) = (tree.withoutAll order).withoutAll rest :=
  List.foldl_append ..

theorem Coherent.withoutAll (h : tree.Coherent) (order : List Location) :
    (tree.withoutAll order).Coherent := by
  induction order generalizing tree with
  | nil => exact h
  | cons first rest ih => exact ih (h.without first)

/-- What is left has been there before. -/
theorem entry?_of_withoutAll (h : entry? (tree.withoutAll order) l = some e) :
    tree.entry? l = some e := by
  rw [withoutAll_eq_restrict] at h
  exact entry?_of_restrict h

/-- What stands elsewhere is left. -/
theorem entry?_withoutAll (h : ∀ l' ∈ order, ¬ l' <+: l) :
    entry? (tree.withoutAll order) l = tree.entry? l := by
  rw [withoutAll_eq_restrict]
  refine entry?_restrict _ (List.all_eq_true.mpr fun l' hl' => ?_)
  rw [isPrefixOf_eq_false (h l' hl')]
  rfl

/-- What is taken away is gone. -/
theorem entry?_withoutAll_of_mem (hl : l ∈ order) (hne : l ≠ []) :
    entry? (tree.withoutAll order) l = none := by
  cases hentry : entry? (tree.withoutAll order) l with
  | none => rfl
  | some e =>
      have hmem := mem_of_entry? hentry hne
      rw [entries_withoutAll] at hmem
      have hall := List.all_eq_true.mp (List.mem_filter.mp hmem).2 l hl
      rw [List.isPrefixOf_iff_prefix.mpr List.prefix_rfl] at hall
      cases hall

namespace Emptying

variable (h : Emptying tree L order)

include h

/-- The location itself comes last. -/
theorem bottomUp_concat : (order ++ [L]).Pairwise fun l l' => ¬ l <+: l' := by
  refine List.pairwise_append.mpr ⟨h.bottomUp, List.pairwise_singleton _ _, fun l hl l' hl' => ?_⟩
  obtain rfl := List.mem_singleton.mp hl'
  obtain ⟨hat, hne, _⟩ := (h.mem_iff l).mp hl
  exact fun hbelow => hne (hbelow.eq_of_length_le hat.length_le)

theorem prefix_of_mem (hl : l ∈ order ++ [L]) : L <+: l := by
  rcases List.mem_append.mp hl with hl | hl
  · exact ((h.mem_iff l).mp hl).1
  · rw [List.mem_singleton.mp hl]

theorem mem_of_prefix (hbelow : L <+: l) (hentry : tree.entry? l = some e) : l ∈ order ++ [L] := by
  by_cases hl : l = L
  · rw [hl]
    exact List.mem_append_right _ List.mem_cons_self
  · exact List.mem_append_left _ ((h.mem_iff l).mpr ⟨hbelow, hl, e, hentry⟩)

/-- **What is left behind the first operations**: everything but what these have taken away, since nothing
is taken away before what stands below it. -/
theorem entry?_withoutAll (hL : L ≠ []) (k : Nat) (l : Location) :
    entry? (tree.withoutAll ((order ++ [L]).take k)) l
      = if l ∈ (order ++ [L]).take k then none else tree.entry? l := by
  split
  next hl =>
    refine entry?_withoutAll_of_mem hl fun hnil => hL ?_
    exact List.prefix_nil.mp (hnil ▸ h.prefix_of_mem (List.mem_of_mem_take hl))
  next hl =>
    cases hentry : tree.entry? l with
    | none =>
        cases hleft : entry? (tree.withoutAll ((order ++ [L]).take k)) l with
        | none => rfl
        | some e =>
            rw [entry?_of_withoutAll hleft] at hentry
            cases hentry
    | some e =>
        rw [← hentry]
        refine FileTree.entry?_withoutAll fun l' hl' hbelow => ?_
        -- whatever stands below `l'` has been taken away before it
        have hmem := h.mem_of_prefix
          ((h.prefix_of_mem (List.mem_of_mem_take hl')).trans hbelow) hentry
        have hbottom := h.bottomUp_concat
        rw [← List.take_append_drop k (order ++ [L])] at hmem hbottom
        have hdrop := (List.mem_append.mp hmem).resolve_left hl
        exact (List.pairwise_append.mp hbottom).2.2 l' hl' l hdrop hbelow

/-- Behind all of them the directory is empty. -/
theorem withoutAll_eq : tree.withoutAll order = tree.emptied L := by
  rw [withoutAll_eq_restrict, emptied, restrict, restrict]
  congr 1
  refine List.filter_congr fun entry hentry => ?_
  rw [Bool.eq_iff_iff]
  simp only [List.all_eq_true, Bool.not_eq_true', Bool.and_eq_false_iff, bne_eq_false_iff_eq]
  refine ⟨fun hall => ?_, fun hkept l hl => isPrefixOf_eq_false fun hbelow => ?_⟩
  · by_cases hbelow : L <+: entry.1
    · by_cases heq : entry.1 = L
      · exact Or.inr heq
      · have hmem := (h.mem_iff entry.1).mpr ⟨hbelow, heq, exists_entry?_of_mem hentry⟩
        have hself := hall entry.1 hmem
        rw [List.isPrefixOf_iff_prefix.mpr List.prefix_rfl] at hself
        cases hself
    · exact Or.inl (isPrefixOf_eq_false hbelow)
  · obtain ⟨hat, hne, _⟩ := (h.mem_iff l).mp hl
    rcases hkept with hnot | heq
    · rw [List.isPrefixOf_iff_prefix.mpr (hat.trans hbelow)] at hnot
      cases hnot
    · rw [heq] at hbelow
      exact hne (hbelow.eq_of_length_le hat.length_le)

end Emptying

/-! ## §2. The operations under faults. -/

/-- Takes some things away, until an operation fails. -/
def tryRemoveEach : List Location → FileTree → FaultM (FileTree × Option FileError)
  | [], tree => return (tree, none)
  | l :: rest, tree => do
    match ← fault? with
    | some fault => return (tree, some fault.error)
    | none => tryRemoveEach rest (tree.without l)

/-- Takes an empty directory away. -/
def tryRemoveDirectory (tree : FileTree) (path : Path) : FaultM (FileTree × Option FileError) := do
  match ← fault? with
  | some fault => return (tree, some fault.error)
  | none =>
    match tree.removeDirectory path with
    | .ok tree => return (tree, none)
    | .error e => return (tree, some e)

/-- Takes a directory away with all that stands below it, in an order, or a link. The first operation
looks at what stands there. -/
def tryRemoveAll (order : List Location) (tree : FileTree) (path : Path) :
    FaultM (FileTree × Option FileError) := do
  match ← fault? with
  | some fault => return (tree, some fault.error)
  | none =>
    match tree.find false path with
    | .error e => return (tree, some e)
    | .ok (.vacant ..) => return (tree, some .notFound)
    | .ok (.occupied at_ (.link _)) => tryRemoveEach [at_] tree
    | .ok (.occupied _ (.file _)) => return (tree, some .notDirectory)
    | .ok (.occupied _ .directory) =>
      match ← tryRemoveEach order tree with
      | (tree, some e) => return (tree, some e)
      | (tree, none) => tree.tryRemoveDirectory path

theorem gives_tryRemoveEach (order : List Location) (tree : FileTree) :
    Gives (tryRemoveEach order tree) (tree.withoutAll order, none) := by
  induction order generalizing tree with
  | nil => exact gives_pure _
  | cons first rest ih => exact gives_fault?.bind (ih (tree.without first))

/-- **Without faults** a directory is taken away as by the tree. -/
theorem gives_tryRemoveAll
    (horder : ∀ at_, tree.find false path = .ok (.occupied at_ .directory) → Emptying tree at_ order) :
    Gives (tryRemoveAll order tree path) (tree.removeAll path) := by
  unfold tryRemoveAll
  refine gives_fault?.bind ?_
  dsimp only
  cases hfind : tree.find false path with
  | error e =>
      unfold removeAll
      rw [hfind]
      exact gives_pure _
  | ok found =>
      cases found with
      | vacant at_ slash =>
          unfold removeAll
          rw [hfind]
          exact gives_pure _
      | occupied at_ e =>
          cases e with
          | file content =>
              unfold removeAll
              rw [hfind]
              exact gives_pure _
          | link target =>
              unfold removeAll
              rw [hfind]
              exact gives_tryRemoveEach [at_] tree
          | directory =>
              rw [removeAll_directory hfind, ← (horder at_ hfind).withoutAll_eq]
              refine (gives_tryRemoveEach order tree).bind (gives_fault?.bind ?_)
              dsimp only
              cases (tree.withoutAll order).removeDirectory path <;> exact gives_pure _

/-! ## §3. What is left. -/

/-- Behind a failure the first operations have been done, and none of the others. -/
theorem ensures_tryRemoveEach (order : List Location) (tree : FileTree) :
    Ensures (tryRemoveEach order tree) fun result =>
      (∃ k, result.1 = tree.withoutAll (order.take k))
        ∧ (result.2 = none → result.1 = tree.withoutAll order) := by
  induction order generalizing tree with
  | nil => exact ensures_pure ⟨⟨0, rfl⟩, fun _ => rfl⟩
  | cons first rest ih =>
      refine ensures_fault?.bind fun fault? _ => ?_
      cases fault? with
      | some fault => exact ensures_pure ⟨⟨0, rfl⟩, fun h => by cases h⟩
      | none =>
          intro faults
          obtain ⟨⟨k, hk⟩, hall⟩ := ih (tree.without first) faults
          exact ⟨⟨k + 1, hk⟩, hall⟩

/-- A path that leads to a directory leads nowhere else when some of the tree has been taken away. -/
theorem eq_of_find_withoutAll (hfind : tree.find follow path = .ok (.occupied L e))
    (h : find (tree.withoutAll order) follow path = .ok (.occupied at_ e')) : at_ = L ∧ e' = e := by
  have hway := reaches_of_find h
  rw [base, here_withoutAll] at hway
  exact (reaches_of_find hfind).unique (hway.mono fun _ _ hentry => entry?_of_withoutAll hentry)

theorem ensures_tryRemoveDirectory (tree : FileTree) (path : Path) :
    Ensures (tree.tryRemoveDirectory path) fun result =>
      (result.1 = tree ∧ result.2 ≠ none)
        ∨ ∃ at_, tree.find false path = .ok (.occupied at_ .directory)
          ∧ result = (tree.without at_, none) := by
  refine ensures_fault?.bind fun fault? _ => ?_
  cases fault? with
  | some fault => exact ensures_pure (Or.inl ⟨rfl, Option.some_ne_none _⟩)
  | none =>
      dsimp only
      cases hremoved : tree.removeDirectory path with
      | error e => exact ensures_pure (Or.inl ⟨rfl, Option.some_ne_none _⟩)
      | ok left =>
          obtain ⟨at_, hfind, rfl⟩ := exists_of_removeDirectory hremoved
          exact ensures_pure (Or.inr ⟨at_, hfind, rfl⟩)

/-- Below a link there is nothing to be taken away first. -/
theorem Emptying.eq_nil (h : Emptying tree L order) (hcoherent : tree.Coherent)
    (hentry : tree.entry? L ≠ some .directory) : order = [] := by
  refine List.eq_nil_iff_forall_not_mem.mpr fun l hl => hentry ?_
  obtain ⟨hbelow, hne, e, he⟩ := (h.mem_iff l).mp hl
  have hnil : l ≠ [] := by
    rintro rfl
    exact hne (List.prefix_nil.mp hbelow).symm
  exact hcoherent _ ( mem_of_entry? he hnil) L hbelow (Ne.symm hne)

/-- **What is left of a tree**, whatever fails: what the first operations of the order have not taken
away.  The last one takes away what stands at the location itself. -/
theorem ensures_tryRemoveAll (hfind : tree.find false path = .ok (.occupied L e))
    (hcoherent : tree.Coherent) (horder : Emptying tree L order) :
    Ensures (tryRemoveAll order tree path) fun result =>
      (∃ k, result.1 = tree.withoutAll ((order ++ [L]).take k))
        ∧ (result.2 = none → result.1 = tree.withoutAll (order ++ [L])) := by
  have hfirst : ∀ k, ∃ k', tree.withoutAll (order.take k)
      = tree.withoutAll ((order ++ [L]).take k') := by
    intro k
    refine ⟨min k order.length, ?_⟩
    rw [List.take_append_of_le_length (Nat.min_le_right _ _), ← List.take_take, List.take_length]
  refine ensures_fault?.bind fun fault? _ => ?_
  cases fault? with
  | some fault => exact ensures_pure ⟨⟨0, rfl⟩, fun h => by cases h⟩
  | none =>
      dsimp only
      rw [hfind]
      cases e with
      | file content => exact ensures_pure ⟨⟨0, rfl⟩, fun h => by cases h⟩
      | link target =>
          have hentry := (reaches_of_find hfind).entry?_eq (e := .link target) (fun h => by cases h)
          obtain rfl := horder.eq_nil hcoherent (by simp [hentry])
          exact ensures_tryRemoveEach [L] tree
      | directory =>
          refine (ensures_tryRemoveEach order tree).bind ?_
          rintro ⟨left, _ | e⟩ ⟨⟨k, hk⟩, hall⟩
          · obtain rfl : left = tree.withoutAll order := hall rfl
            refine fun faults => ?_
            rcases ensures_tryRemoveDirectory (tree.withoutAll order) path faults with
              ⟨hleft, hfails⟩ | ⟨at_, hfind', hdone⟩
            · refine ⟨?_, fun hnone => absurd hnone hfails⟩
              obtain ⟨k', hk'⟩ := hfirst order.length
              rw [List.take_length] at hk'
              exact ⟨k', hleft.trans hk'⟩
            · obtain ⟨rfl, _⟩ := eq_of_find_withoutAll hfind hfind'
              have hgone : (tree.withoutAll order).without at_
                  = tree.withoutAll (order ++ [at_]) := (withoutAll_append tree order [at_]).symm
              dsimp only
              rw [hdone]
              refine ⟨⟨order.length + 1, ?_⟩, fun _ => hgone⟩
              rw [List.take_of_length_le (by simp)]
              exact hgone
          · obtain ⟨k', hk'⟩ := hfirst k
            exact ensures_pure ⟨⟨k', hk.trans hk'⟩, fun h => by cases h⟩

/-! ## §4. Where the path leads afterwards. -/

/-- **A vacant place** is one at which nothing stands, in a directory that exists if the first one does,
whatever links are followed. -/
theorem vacant_of_walk : ∀ (fuel links : Nat) {here : Location} {segments : List String},
    tree.walk follow fuel links here segments = .ok (.vacant at_ slash) →
      at_ ≠ [] ∧ tree.entry? at_ = none ∧ (tree.Stands here → tree.Stands at_.dropLast) := by
  intro fuel
  induction fuel with
  | zero =>
      intro links here segments h
      cases h
  | succ fuel ih =>
      intro links here segments h
      cases segments with
      | nil => cases h
      | cons segment rest =>
          simp only [walk] at h
          split at h
          next => exact ih _ h
          next =>
            split at h
            next =>
              obtain ⟨hat, hnone, hstands⟩ := ih _ h
              exact ⟨hat, hnone, fun hhere => hstands (hhere.above (List.dropLast_prefix here))⟩
            next =>
              split at h
              next hentry =>
                split at h
                next =>
                  cases h
                  rw [List.dropLast_concat]
                  exact ⟨List.append_ne_nil_of_right_ne_nil _ (List.cons_ne_nil _ _), hentry, id⟩
                next => cases h
              next hentry =>
                obtain ⟨hat, hnone, hstands⟩ := ih _ h
                exact ⟨hat, hnone, fun hhere => hstands (hhere.concat hentry)⟩
              next => split at h <;> cases h
              next =>
                split at h
                next => cases h
                next =>
                  split at h
                  next => cases h
                  next =>
                    obtain ⟨hat, hnone, hstands⟩ := ih _ h
                    refine ⟨hat, hnone, fun hhere => hstands ?_⟩
                    split
                    next => exact stands_nil
                    next => exact hhere

theorem vacant_of_find (h : tree.find follow path = .ok (.vacant at_ slash)) :
    at_ ≠ [] ∧ tree.entry? at_ = none
      ∧ (tree.Stands (tree.base path) → tree.Stands at_.dropLast) := by
  unfold find at h
  split at h
  next => cases h
  next => exact vacant_of_walk _ _ h

/-- A way that ends at a vacant place once a location has been taken away comes to that location. -/
theorem prefix_of_walk_vacant (hsub : ∀ l, ¬ L <+: l → tree'.entry? l = tree.entry? l)
    (hpart : ∀ l e, tree'.entry? l = some e → tree.entry? l = some e) :
    ∀ (fuel links : Nat) {here : Location} {segments : List String},
      tree'.walk follow fuel links here segments = .ok (.vacant at_ slash) →
        Reaches tree follow here segments l e → L <+: at_ := by
  intro fuel
  induction fuel with
  | zero =>
      intro links here segments h
      cases h
  | succ fuel ih =>
      intro links here segments h hway
      cases segments with
      | nil => cases h
      | cons segment rest =>
          simp only [walk] at h
          split at h
          next hidle =>
            cases hway with
            | idle _ hway => exact ih _ h hway
            | _ => simp_all [IsName]
          next hidle =>
            split at h
            next hup =>
              cases hway with
              | up hway => exact ih _ h hway
              | _ => simp_all [IsName]
            next hup =>
              split at h
              next hentry =>
                split at h
                next =>
                  cases h
                  -- the way goes on in the whole tree, so what it meets there is not left
                  by_contra hbeside
                  have hnone := (hsub _ hbeside).symm.trans hentry
                  cases hway <;> simp_all
                next => cases h
              next hentry =>
                have hentry' := hpart _ _ hentry
                cases hway with
                | into _ _ hway => exact ih _ h hway
                | _ => simp_all [IsName]
              next => split at h <;> cases h
              next target hentry =>
                have hentry' := hpart _ _ hentry
                split at h
                next => cases h
                next =>
                  split at h
                  next => cases h
                  next =>
                    cases hway with
                    | through _ _ hthrough hway =>
                        obtain rfl := Entry.link.inj (Option.some.inj (hthrough.symm.trans hentry'))
                        exact ih _ h hway
                    | _ => simp_all [IsName]

/-- **Once all at a location is gone** the path that led there leads to its vacant place. -/
theorem eq_of_find_vacant (hfind : tree.find follow path = .ok (.occupied L e)) (hne : L ≠ [])
    (hbase : tree.Stands (tree.base path)) (hbeside : ¬ L <+: tree.base path)
    (hmem : L ∈ order) (hbelow : ∀ l ∈ order, L <+: l)
    (h : find (tree.withoutAll order) follow path = .ok (.vacant at_ slash)) : at_ = L := by
  have hkept : ∀ l, ¬ L <+: l → entry? (tree.withoutAll order) l = tree.entry? l :=
    fun l hl => entry?_withoutAll fun l' hl' hprefix => hl ((hbelow l' hl').trans hprefix)
  have hbase' : (tree.withoutAll order).Stands ((tree.withoutAll order).base path) := by
    rw [base, here_withoutAll]
    intro l hl
    rw [hkept l fun hL => hbeside (hL.trans hl)]
    exact hbase l hl
  obtain ⟨hat, _, hstands⟩ := vacant_of_find h
  have hstands := hstands hbase'
  have hprefix : L <+: at_ := by
    unfold find at h
    split at h
    next => cases h
    next =>
      rw [here_withoutAll] at h
      exact prefix_of_walk_vacant hkept (fun _ _ hentry => entry?_of_withoutAll hentry) _ _ h
        (reaches_of_find hfind)
  -- no directory below the location is left that something could be missing in
  obtain ⟨above, last, rfl⟩ := List.eq_nil_or_concat at_ |>.resolve_left hat
  rw [List.concat_eq_append] at hprefix hstands ⊢
  rw [List.dropLast_concat] at hstands
  refine ((List.prefix_concat_iff.mp hprefix).resolve_right fun habove => ?_).symm
  have hdirectory := hstands L habove
  rw [entry?_withoutAll_of_mem hmem hne] at hdirectory
  cases hdirectory

end AssetBundler.FileTree
