/-
  AssetBundler.Proofs.Files.Walk
  ────────────────────────────────
  **WHERE A PATH LEADS.**

  A path that is followed through a tree goes from directory to directory,
  up at two dots and elsewhere at links, until its segments are used up.  The
  steps of such a way make up a relation; what holds of the places on a way is
  proved by induction on it, without the bounds of the search:

    • `FileTree.Reaches` — the ways through a tree, and where they end,
    • `FileTree.reaches_of_find` — a path that leads somewhere goes such a way,
    • `FileTree.Reaches.stands` — all directories that lead to its end exist,
    • `FileTree.Reaches.eq_append_names` — where there are no links and no two
      dots, it leads to the place that it spells,
    • `FileTree.resolve_of_stands` — and it leads there if all directories exist.
-/
import AssetBundler.Files.Tree
import Mathlib.Data.List.Infix

namespace AssetBundler.FileTree

variable {tree tree' : FileTree} {follow : Bool} {here at_ : Location} {segments rest : List String}
  {name segment : String} {e : Entry} {path : Path}

/-! ## §1. Ways. -/

/-- The segment names something in a directory. -/
def IsName (segment : String) : Prop :=
  segment ≠ "" ∧ segment ≠ "." ∧ segment ≠ ".."

/-- **The ways through a tree**: from a directory the segments lead to an entry at a location. The link
at the end of a way is followed if `follow` holds. -/
inductive Reaches (tree : FileTree) (follow : Bool) :
    Location → List String → Location → Entry → Prop
  | here {here : Location} : Reaches tree follow here [] here .directory
  | idle {here at_ : Location} {segment : String} {rest : List String} {e : Entry}
      (hidle : segment = "" ∨ segment = ".") (h : Reaches tree follow here rest at_ e) :
      Reaches tree follow here (segment :: rest) at_ e
  | up {here at_ : Location} {rest : List String} {e : Entry}
      (h : Reaches tree follow here.dropLast rest at_ e) :
      Reaches tree follow here (".." :: rest) at_ e
  | into {here at_ : Location} {name : String} {rest : List String} {e : Entry}
      (hname : IsName name) (hentry : tree.entry? (here ++ [name]) = some .directory)
      (h : Reaches tree follow (here ++ [name]) rest at_ e) :
      Reaches tree follow here (name :: rest) at_ e
  | file {here : Location} {name : String} {content : ByteArray} (hname : IsName name)
      (hentry : tree.entry? (here ++ [name]) = some (.file content)) :
      Reaches tree follow here [name] (here ++ [name]) (.file content)
  | link {here : Location} {name target : String} (hname : IsName name)
      (hfollow : follow = false) (hentry : tree.entry? (here ++ [name]) = some (.link target)) :
      Reaches tree follow here [name] (here ++ [name]) (.link target)
  | through {here at_ : Location} {name target : String} {rest : List String} {e : Entry}
      (hname : IsName name) (hfollow : rest = [] → follow = true)
      (hentry : tree.entry? (here ++ [name]) = some (.link target))
      (h : Reaches tree follow (if (Path.mk target).isAbsolute then [] else here)
        ((Path.mk target).segments ++ rest) at_ e) :
      Reaches tree follow here (name :: rest) at_ e

/-- **A walk goes such a way.** -/
theorem reaches_of_walk : ∀ (fuel links : Nat) {here : Location} {segments : List String},
    tree.walk follow fuel links here segments = .ok (.occupied at_ e) →
      Reaches tree follow here segments at_ e := by
  intro fuel
  induction fuel with
  | zero =>
      intro links here segments h
      cases h
  | succ fuel ih =>
      intro links here segments h
      cases segments with
      | nil =>
          cases h
          exact .here
      | cons segment rest =>
          simp only [walk] at h
          split at h
          next hidle => exact .idle (by simpa using hidle) (ih _ h)
          next hidle =>
            split at h
            next hup =>
              obtain rfl : segment = ".." := by simpa using hup
              exact .up (ih _ h)
            next hup =>
              have hname : IsName segment := by
                simp only [Bool.or_eq_true, beq_iff_eq, not_or] at hidle hup
                exact ⟨hidle.1, hidle.2, hup⟩
              split at h
              next => split at h <;> cases h
              next hentry => exact .into hname hentry (ih _ h)
              next content hentry =>
                split at h
                next hrest =>
                  obtain rfl := List.isEmpty_iff.mp hrest
                  cases h
                  exact .file hname hentry
                next => cases h
              next target hentry =>
                split at h
                next hend =>
                  rw [Bool.and_eq_true, List.isEmpty_iff, Bool.not_eq_true'] at hend
                  obtain ⟨rfl, hfollow⟩ := hend
                  cases h
                  exact .link hname hfollow hentry
                next hend =>
                  split at h
                  next => cases h
                  next =>
                    refine .through hname (fun hrest => ?_) hentry (ih _ h)
                    simpa [hrest] using hend

/-- Where relative and absolute paths start. -/
def base (tree : FileTree) (path : Path) : Location :=
  if path.isAbsolute then [] else tree.here

/-- **A path that leads somewhere goes a way through the tree.** -/
theorem reaches_of_find (h : tree.find follow path = .ok (.occupied at_ e)) :
    Reaches tree follow (tree.base path) path.segments at_ e := by
  unfold find at h
  split at h
  next => cases h
  next => exact reaches_of_walk _ _ h

theorem reaches_of_resolve (h : tree.resolve path = .ok (at_, e)) :
    Reaches tree true (tree.base path) path.segments at_ e := by
  unfold resolve at h
  split at h
  next hfind =>
    cases h
    exact reaches_of_find hfind
  next => cases h
  next => cases h

namespace Reaches

/-- What is no directory stands where its way ends. -/
theorem entry?_eq (h : Reaches tree follow here segments at_ e) (he : e ≠ .directory) :
    tree.entry? at_ = some e := by
  induction h with
  | here => exact absurd rfl he
  | idle _ _ ih => exact ih he
  | up _ ih => exact ih he
  | into _ _ _ ih => exact ih he
  | file _ hentry => exact hentry
  | link _ _ hentry => exact hentry
  | through _ _ _ _ ih => exact ih he

/-- Segments lead to one place only. -/
theorem unique (h : Reaches tree follow here segments at_ e) :
    ∀ {at' : Location} {e' : Entry}, Reaches tree follow here segments at' e' →
      at' = at_ ∧ e' = e := by
  -- the first segment and what it names say how both ways go on
  induction h with
  | here =>
      intro at' e' h'
      cases h'
      exact ⟨rfl, rfl⟩
  | idle _ _ ih =>
      intro at' e' h'
      cases h' with
      | idle _ h' => exact ih h'
      | _ => simp_all [IsName]
  | up _ ih =>
      intro at' e' h'
      cases h' with
      | up h' => exact ih h'
      | _ => simp_all [IsName]
  | into _ _ _ ih =>
      intro at' e' h'
      cases h' with
      | into _ _ h' => exact ih h'
      | _ => simp_all [IsName]
  | file =>
      intro at' e' h'
      cases h' <;> simp_all [IsName]
  | link =>
      intro at' e' h'
      cases h' <;> simp_all [IsName]
  | through _ _ hentry _ ih =>
      intro at' e' h'
      cases h' with
      | through _ _ hentry' h' =>
          obtain rfl := Entry.link.inj (Option.some.inj (hentry'.symm.trans hentry))
          exact ih h'
      | _ => simp_all [IsName]

/-- A way through a part of a tree is one through the tree. -/
theorem mono (hsub : ∀ l e, tree'.entry? l = some e → tree.entry? l = some e)
    (h : Reaches tree' follow here segments at_ e) : Reaches tree follow here segments at_ e := by
  induction h with
  | here => exact .here
  | idle hidle _ ih => exact .idle hidle ih
  | up _ ih => exact .up ih
  | into hname hentry _ ih => exact .into hname (hsub _ _ hentry) ih
  | file hname hentry => exact .file hname (hsub _ _ hentry)
  | link hname hfollow hentry => exact .link hname hfollow (hsub _ _ hentry)
  | through hname hfollow hentry _ ih => exact .through hname hfollow (hsub _ _ hentry) ih

end Reaches

/-! ## §2. The directories on a way. -/

/-- The location is that of a directory, and so are all that lead to it. -/
def Stands (tree : FileTree) (at_ : Location) : Prop :=
  ∀ l, l <+: at_ → tree.entry? l = some .directory

theorem stands_nil : tree.Stands [] := by
  intro l hl
  rw [List.prefix_nil.mp hl]
  rfl

theorem Stands.above {l : Location} (h : tree.Stands at_) (hl : l <+: at_) : tree.Stands l :=
  fun l' hl' => h l' (hl'.trans hl)

theorem Stands.concat (h : tree.Stands here)
    (hentry : tree.entry? (here ++ [name]) = some .directory) : tree.Stands (here ++ [name]) := by
  intro l hl
  rcases List.prefix_concat_iff.mp hl with rfl | hl
  · exact hentry
  · exact h l hl

/-- **All directories that lead to the end of a way exist**, and what stands there is an entry. -/
theorem Reaches.stands (h : Reaches tree follow here segments at_ e) (hhere : tree.Stands here) :
    tree.entry? at_ = some e ∧ (e = .directory → tree.Stands at_) := by
  induction h with
  | here => exact ⟨hhere _ List.prefix_rfl, fun _ => hhere⟩
  | idle _ _ ih => exact ih hhere
  | up _ ih => exact ih (hhere.above (List.dropLast_prefix _))
  | into _ hentry _ ih => exact ih (hhere.concat hentry)
  | file _ hentry => exact ⟨hentry, nofun⟩
  | link _ _ hentry => exact ⟨hentry, nofun⟩
  | through _ _ _ _ ih =>
      refine ih ?_
      split
      next => exact stands_nil
      next => exact hhere

/-! ## §3. Places as they are spelled. -/

/-- The names among some segments. -/
def names (segments : List String) : Location :=
  segments.filter fun s => s != "" && s != "."

theorem names_cons_of_idle (h : segment = "" ∨ segment = ".") :
    names (segment :: rest) = names rest := by
  rcases h with rfl | rfl <;> rfl

theorem names_cons_of_isName (h : IsName name) : names (name :: rest) = name :: names rest := by
  obtain ⟨hempty, hdot, _⟩ := h
  simp [names, hempty, hdot]

/-- There are no links in the tree. -/
def LinkFree (tree : FileTree) : Prop :=
  ∀ entry ∈ tree.entries, ∀ target, entry.2 ≠ .link target

theorem LinkFree.entry?_ne (h : tree.LinkFree) (target : String) :
    tree.entry? at_ ≠ some (.link target) := by
  unfold entry?
  split
  next => nofun
  next =>
    intro hlookup
    obtain ⟨before, after, hsplit, _⟩ := List.lookup_eq_some_iff.mp hlookup
    exact h (at_, .link target) (by simp [hsplit]) target rfl

/-- **Without links and two dots** a way leads to the place that it spells. -/
theorem Reaches.eq_append_names (h : Reaches tree follow here segments at_ e)
    (hlinks : tree.LinkFree) (hdots : ".." ∉ segments) : at_ = here ++ names segments := by
  induction h with
  | here => exact (List.append_nil _).symm
  | idle hidle _ ih =>
      rw [names_cons_of_idle hidle]
      exact ih fun hmem => hdots (List.mem_cons_of_mem _ hmem)
  | up => exact absurd List.mem_cons_self hdots
  | into hname _ _ ih =>
      rw [names_cons_of_isName hname, ih fun hmem => hdots (List.mem_cons_of_mem _ hmem)]
      simp
  | file hname => rw [names_cons_of_isName hname]; rfl
  | link _ _ hentry => exact absurd hentry (hlinks.entry?_ne _)
  | through _ _ hentry => exact absurd hentry (hlinks.entry?_ne _)

/-- **A path leads to the place that it spells** if this and all that lead to it are directories. -/
theorem walk_of_stands : ∀ (fuel links : Nat) {here : Location} {segments : List String},
    segments.length < fuel → ".." ∉ segments → tree.Stands (here ++ names segments) →
      tree.walk follow fuel links here segments
        = .ok (.occupied (here ++ names segments) .directory) := by
  intro fuel
  induction fuel with
  | zero => exact fun _ _ _ hlength => absurd hlength (Nat.not_lt_zero _)
  | succ fuel ih =>
      intro links here segments hlength hdots h
      cases segments with
      | nil => simp [walk, names]
      | cons segment rest =>
          have hrest : rest.length < fuel := Nat.lt_of_succ_lt_succ hlength
          have hdots' : ".." ∉ rest := fun hmem => hdots (List.mem_cons_of_mem _ hmem)
          have hup : segment ≠ ".." := fun heq => hdots (heq ▸ List.mem_cons_self)
          rw [walk]
          by_cases hidle : segment = "" ∨ segment = "."
          · rw [names_cons_of_idle hidle] at h ⊢
            rw [if_pos (by simpa using hidle)]
            exact ih links hrest hdots' h
          · have hname : IsName segment := ⟨fun h => hidle (.inl h), fun h => hidle (.inr h), hup⟩
            have hplace : here ++ names (segment :: rest) = here ++ [segment] ++ names rest := by
              simp [names_cons_of_isName hname]
            rw [hplace] at h ⊢
            have hentry : tree.entry? (here ++ [segment]) = some .directory :=
              h _ (List.prefix_append _ _)
            rw [if_neg (by simpa using hidle), if_neg (by simpa using hup)]
            simp only [hentry]
            exact ih links hrest hdots' h

theorem length_lt_segmentBound (tree : FileTree) (count : Nat) : count < tree.segmentBound count :=
  Nat.lt_of_lt_of_le (Nat.lt_succ_self count) (Nat.le_add_right _ _)

theorem resolve_of_stands (hpath : path.text ≠ "") (hdots : ".." ∉ path.segments)
    (h : tree.Stands (tree.base path ++ names path.segments)) :
    tree.resolve path = .ok (tree.base path ++ names path.segments, .directory) := by
  have hfind : tree.find true path
      = .ok (.occupied (tree.base path ++ names path.segments) .directory) := by
    unfold find
    rw [if_neg (by simpa using hpath)]
    exact walk_of_stands _ _ (length_lt_segmentBound _ _) hdots h
  unfold resolve
  rw [hfind]

end AssetBundler.FileTree
