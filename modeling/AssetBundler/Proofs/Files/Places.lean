/-
  AssetBundler.Proofs.Files.Places
  ────────────────────────────────
  **TREES WITHOUT LINKS.**

  Where there are no links, the steps of a path say where it leads, if it leads
  anywhere: names go down and two dots go up.  In a tree that holds together,
  what stands below a location is there only if a directory stands at it.
  Changes say what they do by the locations that they are made at:

    • `FileTree.place` — the location that steps lead to,
    • `FileTree.Reaches.eq_place`, `FileTree.find_vacant` — the end of a path,
    • `FileTree.resolve_of_places` — a path that leads somewhere,
    • `FileTree.Coherent` — trees that hold together, and what keeps them so,
    • `FileTree.entry?_put`, `FileTree.entry?_move` — what changes do,
    • `FileTree.put_of_makeDirectory`, `FileTree.put_of_write`,
      `FileTree.eq_without_of_removeAll`, `FileTree.exists_of_rename` — the
      operations as changes.
-/
import AssetBundler.Proofs.Files.Changes

namespace AssetBundler.FileTree

variable {tree tree' : FileTree} {follow : Bool} {here at_ l L source target : Location}
  {segments rest steps : List String} {name segment : String} {e : Entry} {path : Path}

/-! ## §1. Where steps lead. -/

/-- The location behind one more step. -/
def stepTo (at_ : Location) (step : String) : Location :=
  if step == ".." then at_.dropLast else at_ ++ [step]

/-- **The location that steps lead to** where there are no links. -/
def place (here : Location) (steps : List String) : Location :=
  steps.foldl stepTo here

theorem place_cons (here : Location) (step : String) (steps : List String) :
    place here (step :: steps) = place (stepTo here step) steps := rfl

theorem place_append (here : Location) (steps rest : List String) :
    place here (steps ++ rest) = place (place here steps) rest :=
  List.foldl_append ..

theorem stepTo_of_isName (h : IsName name) : stepTo here name = here ++ [name] :=
  if_neg (by simpa using h.2.2)

/-- Names go down. -/
theorem place_of_isName : ∀ {steps : List String} (here : Location), (∀ s ∈ steps, IsName s) →
    place here steps = here ++ steps
  | [], here, _ => (List.append_nil here).symm
  | s :: steps, here, h => by
      rw [place_cons, stepTo_of_isName (h s List.mem_cons_self),
        place_of_isName _ fun t ht => h t (List.mem_cons_of_mem _ ht), List.append_assoc]
      rfl

/-- **A way leads to the place that its steps lead to.** -/
theorem Reaches.eq_place (h : Reaches tree follow here segments at_ e) (hlinks : tree.LinkFree) :
    at_ = place here (names segments) := by
  induction h with
  | here => rfl
  | idle hidle _ ih => rw [names_cons_of_idle hidle, ih]
  | up _ ih => exact ih
  | into hname _ _ ih => rw [names_cons_of_isName hname, place_cons, stepTo_of_isName hname, ih]
  | file hname =>
      rw [names_cons_of_isName hname, place_cons, stepTo_of_isName hname]
      rfl
  | link _ _ hentry => exact absurd hentry (hlinks.entry?_ne _)
  | through _ _ hentry => exact absurd hentry (hlinks.entry?_ne _)

/-- The location that a path leads to, if it leads anywhere. -/
def placeOf (tree : FileTree) (path : Path) : Location :=
  place (tree.base path) (names path.segments)

theorem placeOf_concat {above : List String} (hnames : names path.segments = above ++ [name])
    (hname : IsName name) : tree.placeOf path = place (tree.base path) above ++ [name] := by
  rw [placeOf, hnames, place_append, place_of_isName _ (by simpa using hname)]

theorem eq_placeOf_of_find (hlinks : tree.LinkFree)
    (h : tree.find follow path = .ok (.occupied at_ e)) : at_ = tree.placeOf path :=
  (reaches_of_find h).eq_place hlinks

/-- Under the last name of a path stands what it leads to. -/
theorem Reaches.entry?_concat (h : Reaches tree follow here segments at_ e) (hlinks : tree.LinkFree)
    (hname : IsName name) : ∀ {above : List String}, segments = above ++ [name] →
      tree.entry? at_ = some e := by
  obtain ⟨hempty, hdot, hup⟩ := hname
  induction h with
  | here =>
      intro above habove
      simp at habove
  | idle hidle _ ih =>
      intro above habove
      rcases List.cons_eq_append_iff.mp habove with ⟨rfl, hlast⟩ | ⟨above', rfl, hrest⟩
      · obtain ⟨rfl, rfl⟩ := List.cons.inj hlast
        exact absurd hidle (by simp [hempty, hdot])
      · exact ih hrest
  | up _ ih =>
      intro above habove
      rcases List.cons_eq_append_iff.mp habove with ⟨rfl, hlast⟩ | ⟨above', rfl, hrest⟩
      · exact absurd (List.cons.inj hlast).1 hup
      · exact ih hrest
  | into _ hentry hway ih =>
      intro above habove
      rcases List.cons_eq_append_iff.mp habove with ⟨rfl, hlast⟩ | ⟨above', rfl, hrest⟩
      · obtain ⟨rfl, rfl⟩ := List.cons.inj hlast
        cases hway
        exact hentry
      · exact ih hrest
  | file _ hentry => exact fun _ => hentry
  | link _ _ hentry => exact fun _ => hentry
  | through _ _ hentry => exact absurd hentry (hlinks.entry?_ne _)

/-- **A walk to a vacant place** ends in a directory, which exists if the first one does. -/
theorem walk_vacant (hlinks : tree.LinkFree) {slash : Bool} :
    ∀ (fuel links : Nat) {here : Location} {segments : List String},
      tree.walk follow fuel links here segments = .ok (.vacant at_ slash) →
        at_ = place here (names segments) ∧ tree.entry? at_ = none ∧ at_ ≠ []
          ∧ (tree.Stands here → tree.Stands at_.dropLast) := by
  intro fuel
  induction fuel with
  | zero =>
      intro links here segments h
      cases h
  | succ fuel ih =>
      intro links here segments h
      cases segments with
      | nil => cases h
      | cons segment rest =>
          simp only [walk] at h
          split at h
          next hidle =>
            rw [names_cons_of_idle (by simpa using hidle)]
            exact ih _ h
          next hidle =>
            split at h
            next hup =>
              obtain rfl : segment = ".." := by simpa using hup
              obtain ⟨hplace, hentry, hne, hstands⟩ := ih _ h
              exact ⟨hplace, hentry, hne, fun hhere =>
                hstands (hhere.above (List.dropLast_prefix here))⟩
            next hup =>
              have hname : IsName segment := by
                simp only [Bool.or_eq_true, beq_iff_eq, not_or] at hidle hup
                exact ⟨hidle.1, hidle.2, hup⟩
              rw [names_cons_of_isName hname, place_cons, stepTo_of_isName hname]
              split at h
              next hentry =>
                split at h
                next hrest =>
                  have hnames : names rest = [] :=
                    List.filter_eq_nil_iff.mpr fun s hs => by
                      simp [eq_of_beq (List.all_eq_true.mp hrest s hs)]
                  cases h
                  rw [hnames, List.dropLast_concat]
                  exact ⟨rfl, hentry, List.append_ne_nil_of_right_ne_nil _ (List.cons_ne_nil _ _),
                    fun hhere => hhere⟩
                next => cases h
              next hentry =>
                obtain ⟨hplace, hvacant, hne, hstands⟩ := ih _ h
                exact ⟨hplace, hvacant, hne, fun hhere => hstands (hhere.concat hentry)⟩
              next => split at h <;> cases h
              next target hentry => exact absurd hentry (hlinks.entry?_ne _)

theorem find_vacant (hlinks : tree.LinkFree) {slash : Bool}
    (h : tree.find follow path = .ok (.vacant at_ slash)) :
    at_ = tree.placeOf path ∧ tree.entry? at_ = none ∧ at_ ≠ []
      ∧ (tree.Stands (tree.base path) → tree.Stands at_.dropLast) := by
  unfold find at h
  split at h
  next => cases h
  next => exact walk_vacant hlinks _ _ h

/-- **A walk through directories** leads to what stands under the last name. -/
theorem walk_of_places (hname : IsName name) (he : ∀ target, e ≠ .link target) :
    ∀ (fuel links : Nat) {here : Location} {segments : List String}, segments.length + 1 < fuel →
      (∀ steps, steps <+: names segments → tree.entry? (place here steps) = some .directory) →
      tree.entry? (place here (names segments) ++ [name]) = some e →
        tree.walk follow fuel links here (segments ++ [name])
          = .ok (.occupied (place here (names segments) ++ [name]) e) := by
  intro fuel
  induction fuel with
  | zero => exact fun _ _ _ hlength => absurd hlength (Nat.not_lt_zero _)
  | succ fuel ih =>
      intro links here segments hlength hsteps hentry
      cases segments with
      | nil =>
          obtain ⟨fuel, rfl⟩ := Nat.exists_eq_succ_of_ne_zero
            (Nat.pos_iff_ne_zero.mp (Nat.lt_of_succ_lt_succ hlength))
          rw [List.nil_append, walk]
          obtain ⟨hempty, hdot, hup⟩ := hname
          rw [if_neg (by simp [hempty, hdot]), if_neg (by simpa using hup)]
          have hplace : tree.entry? (here ++ [name]) = some e := hentry
          cases e with
          | file content => simp [hplace, names, place]
          | directory => simp [hplace, names, place, walk]
          | link target => exact absurd rfl (he target)
      | cons segment rest =>
          have hrest : rest.length + 1 < fuel := Nat.lt_of_succ_lt_succ hlength
          rw [List.cons_append, walk]
          by_cases hidle : segment = "" ∨ segment = "."
          · rw [names_cons_of_idle hidle] at hsteps hentry ⊢
            rw [if_pos (by simpa using hidle)]
            exact ih links hrest hsteps hentry
          · rw [if_neg (by simpa using hidle)]
            by_cases hup : segment = ".."
            · obtain rfl := hup
              rw [if_pos (by rfl)]
              exact ih links hrest
                (fun steps h => hsteps (".." :: steps) (List.cons_prefix_cons.mpr ⟨rfl, h⟩)) hentry
            · have hsegment : IsName segment :=
                ⟨fun h => hidle (.inl h), fun h => hidle (.inr h), hup⟩
              have hplace : ∀ steps, place here (segment :: steps) = place (here ++ [segment]) steps :=
                fun steps => by rw [place_cons, stepTo_of_isName hsegment]
              rw [names_cons_of_isName hsegment] at hsteps hentry ⊢
              rw [hplace] at hentry ⊢
              have hdirectory : tree.entry? (here ++ [segment]) = some .directory := by
                have hfirst := hsteps [segment] (List.cons_prefix_cons.mpr ⟨rfl, List.nil_prefix⟩)
                rw [hplace] at hfirst
                exact hfirst
              rw [if_neg (by simpa using hup)]
              simp only [hdirectory]
              refine ih links hrest (fun steps h => ?_) hentry
              exact hplace steps ▸ hsteps (segment :: steps) (List.cons_prefix_cons.mpr ⟨rfl, h⟩)

/-- **A path leads to what stands under its last name** if all places on its way are directories. -/
theorem resolve_of_places {above : List String} (hpath : path.text ≠ "")
    (hsegments : path.segments = above ++ [name]) (hname : IsName name)
    (he : ∀ target, e ≠ .link target)
    (hsteps : ∀ steps, steps <+: names above →
      tree.entry? (place (tree.base path) steps) = some .directory)
    (hentry : tree.entry? (place (tree.base path) (names above) ++ [name]) = some e) :
    tree.resolve path = .ok (place (tree.base path) (names above) ++ [name], e) := by
  have hfind : tree.find true path
      = .ok (.occupied (place (tree.base path) (names above) ++ [name]) e) := by
    unfold find
    rw [if_neg (by simpa using hpath)]
    simp only [hsegments]
    refine walk_of_places hname he _ _ ?_ hsteps hentry
    rw [List.length_append, List.length_singleton]
    exact length_lt_segmentBound _ _
  unfold resolve
  rw [hfind]

/-! ## §2. Changes at a location. -/

theorem lookup_map_replace (entries : List (Location × Entry)) (h : l ≠ at_) :
    (entries.map fun old => if old.1 == at_ then (at_, e) else old).lookup l = entries.lookup l := by
  induction entries with
  | nil => rfl
  | cons old rest ih =>
      rw [List.map_cons]
      by_cases hold : old.1 = at_
      · rw [if_pos (by simpa using hold), List.lookup_cons, List.lookup_cons, ih, hold,
          beq_false_of_ne h]
      · rw [if_neg (by simpa using hold), List.lookup_cons, List.lookup_cons, ih]

theorem lookup_map_replace_self {entries : List (Location × Entry)}
    (h : entries.any (fun old => old.1 == at_) = true) :
    (entries.map fun old => if old.1 == at_ then (at_, e) else old).lookup at_ = some e := by
  induction entries with
  | nil => cases h
  | cons old rest ih =>
      rw [List.map_cons]
      by_cases hold : old.1 = at_
      · rw [if_pos (by simpa using hold), List.lookup_cons_self]
      · have hrest : rest.any (fun old => old.1 == at_) = true := by
          simpa [hold] using h
        rw [if_neg (by simpa using hold), List.lookup_cons, beq_false_of_ne (Ne.symm hold), ih hrest]

theorem lookup_eq_none_of_any {entries : List (Location × Entry)}
    (h : ¬ entries.any (fun old => old.1 == at_) = true) : entries.lookup at_ = none := by
  rw [List.lookup_eq_none_iff]
  intro old hold
  refine bne_iff_ne.mpr fun hkey => h ?_
  exact List.any_eq_true.mpr ⟨old, hold, by simp [← hkey]⟩

theorem entry?_of_ne_nil (hl : l ≠ []) : tree.entry? l = tree.entries.lookup l := by
  unfold entry?
  rw [if_neg (by simpa using hl)]

/-- **What stands where, behind a change at one location.** -/
theorem entry?_put (hat : at_ ≠ []) :
    entry? (tree.put at_ e) l = if l = at_ then some e else tree.entry? l := by
  by_cases hl : l = []
  · rw [hl, if_neg (Ne.symm hat)]
    rfl
  · rw [entry?_of_ne_nil hl, entry?_of_ne_nil hl]
    unfold put
    dsimp only
    split
    next hany =>
      by_cases heq : l = at_
      · rw [heq, if_pos rfl, lookup_map_replace_self hany]
      · rw [if_neg heq, lookup_map_replace _ heq]
    next hany =>
      rw [List.lookup_append]
      by_cases heq : l = at_
      · rw [heq, if_pos rfl, lookup_eq_none_of_any hany, List.lookup_cons_self]
        rfl
      · rw [if_neg heq, List.lookup_cons, beq_false_of_ne heq]
        cases tree.entries.lookup l <;> rfl

theorem mem_put {entry : Location × Entry} (h : entry ∈ (tree.put at_ e).entries) :
    entry = (at_, e) ∨ entry ∈ tree.entries ∧ entry.1 ≠ at_ := by
  unfold put at h
  dsimp only at h
  split at h
  next =>
    obtain ⟨old, hold, rfl⟩ := List.mem_map.mp h
    split
    next => exact Or.inl rfl
    next hne => exact Or.inr ⟨hold, by simpa using hne⟩
  next hany =>
    rcases List.mem_append.mp h with hold | hnew
    · refine Or.inr ⟨hold, fun hkey => hany ?_⟩
      exact List.any_eq_true.mpr ⟨entry, hold, by simp [hkey]⟩
    · exact Or.inl (List.mem_singleton.mp hnew)

/-- What is in the list of a tree stands at its location, or something else before it. -/
theorem exists_entry?_of_mem {entry : Location × Entry} (h : entry ∈ tree.entries) :
    ∃ e, tree.entry? entry.1 = some e := by
  unfold entry?
  split
  next => exact ⟨_, rfl⟩
  next =>
    cases hlookup : tree.entries.lookup entry.1 with
    | some e => exact ⟨e, rfl⟩
    | none =>
        have := List.lookup_eq_none_iff.mp hlookup entry h
        simp at this

theorem mem_of_entry? (h : tree.entry? l = some e) (hl : l ≠ []) : (l, e) ∈ tree.entries := by
  unfold entry? at h
  rw [if_neg (by simpa using hl)] at h
  obtain ⟨before, after, hsplit, _⟩ := List.lookup_eq_some_iff.mp h
  rw [hsplit]
  simp

/-! ## §3. Trees that hold together. -/

/-- **The tree holds together**: directories lead to everything in it. -/
def Coherent (tree : FileTree) : Prop :=
  ∀ entry ∈ tree.entries, ∀ l, l <+: entry.1 → l ≠ entry.1 → tree.entry? l = some .directory

/-- There is nothing at a location or below. -/
def Vacated (tree : FileTree) (at_ : Location) : Prop :=
  ∀ entry ∈ tree.entries, ¬ at_ <+: entry.1

namespace Coherent

/-- The directories above anything that stands somewhere. -/
theorem stands_dropLast (h : tree.Coherent) (hentry : tree.entry? l = some e) (hl : l ≠ []) :
    tree.Stands l.dropLast := by
  intro l' hl'
  refine h _ ( mem_of_entry? hentry hl) l' (hl'.trans (List.dropLast_prefix l)) ?_
  rintro rfl
  have hlength := hl'.length_le
  rw [List.length_dropLast] at hlength
  have := List.length_pos_iff.mpr hl
  omega

/-- Something new, in a directory; nothing may stand below a file. -/
theorem put (h : tree.Coherent) (hat : at_ ≠ []) (habove : tree.Stands at_.dropLast)
    (hold : tree.entry? at_ = some .directory → e = .directory) : (tree.put at_ e).Coherent := by
  intro entry hentry l hl hne
  rw [entry?_put hat]
  rcases mem_put hentry with rfl | ⟨hmem, _⟩
  · rw [if_neg hne]
    refine habove l ?_
    obtain ⟨before, last, rfl⟩ := List.eq_nil_or_concat at_ |>.resolve_left hat
    rw [List.concat_eq_append] at hl hne ⊢
    rw [List.dropLast_concat]
    exact (List.prefix_concat_iff.mp hl).resolve_left hne
  · have hdirectory := h entry hmem l hl hne
    split
    next heq => rw [hold (heq ▸ hdirectory)]
    next => exact hdirectory

theorem without (h : tree.Coherent) (at_ : Location) : (tree.without at_).Coherent := by
  intro entry hentry l hl hne
  obtain ⟨hmem, hkept⟩ := List.mem_filter.mp hentry
  have hnot : ¬ at_ <+: l := fun hat => by
    simp [List.isPrefixOf_iff_prefix.mpr (hat.trans hl)] at hkept
  rw [entry?_without hnot]
  exact h entry hmem l hl hne

/-- Where nothing stands, nothing stands below. -/
theorem vacated (h : tree.Coherent) (hentry : tree.entry? at_ = none) : tree.Vacated at_ := by
  intro entry hmem hbelow
  by_cases heq : at_ = entry.1
  · obtain ⟨e, he⟩ := exists_entry?_of_mem hmem
    rw [heq, he] at hentry
    cases hentry
  · rw [h entry hmem at_ hbelow heq] at hentry
    cases hentry

end Coherent

namespace Vacated

theorem entry?_eq_none (h : tree.Vacated at_) (hat : at_ ≠ []) (hl : at_ <+: l) :
    tree.entry? l = none := by
  cases hentry : tree.entry? l with
  | none => rfl
  | some e =>
      have hne : l ≠ [] := by
        rintro rfl
        exact hat (List.prefix_nil.mp hl)
      exact absurd hl (h _ ( mem_of_entry? hentry hne))

theorem without (at_ : Location) (tree : FileTree) : (tree.without at_).Vacated at_ := by
  intro entry hentry hbelow
  have hkept := (List.mem_filter.mp hentry).2
  simp [List.isPrefixOf_iff_prefix.mpr hbelow] at hkept

end Vacated

/-- A directory without anything below it is vacated with it. -/
theorem stands_of_not_prefix (h : tree.Stands l) (hl : ¬ at_ <+: l) :
    (tree.without at_).Stands l := fun l' hl' => by
  rw [entry?_without fun hat => hl (hat.trans hl')]
  exact h l' hl'

/-! ## §4. Moving. -/

theorem lookup_map_move {entries : List (Location × Entry)}
    (h : ∀ entry ∈ entries, ¬ target <+: entry.1) :
    (entries.map fun e => if source.isPrefixOf e.1 then (target ++ e.1.drop source.length, e.2)
      else e).lookup (target ++ l) = entries.lookup (source ++ l) := by
  induction entries with
  | nil => rfl
  | cons entry rest ih =>
      have hrest := ih fun entry' h' => h entry' (List.mem_cons_of_mem _ h')
      rw [List.map_cons]
      by_cases hsource : source <+: entry.1
      · obtain ⟨below, hbelow⟩ := hsource
        rw [if_pos (List.isPrefixOf_iff_prefix.mpr ⟨below, hbelow⟩), List.lookup_cons,
          List.lookup_cons, hrest, ← hbelow, List.drop_left]
        have hkeys : (target ++ l == target ++ below) = (source ++ l == source ++ below) := by
          rw [Bool.eq_iff_iff]
          simp
        rw [hkeys]
      · have htarget : target ++ l ≠ entry.1 := fun heq =>
          h entry List.mem_cons_self (heq ▸ List.prefix_append target l)
        have hsource' : source ++ l ≠ entry.1 := fun heq =>
          hsource (heq ▸ List.prefix_append source l)
        rw [if_neg (by simp [isPrefixOf_eq_false hsource]), List.lookup_cons, List.lookup_cons,
          hrest, beq_false_of_ne htarget, beq_false_of_ne hsource']

/-- **What has been moved** stands at its new location. -/
theorem entry?_move (hsource : source ≠ []) (htarget : target ≠ []) (h : tree.Vacated target)
    (l : Location) : entry? (tree.move source target) (target ++ l) = tree.entry? (source ++ l) := by
  unfold entry? move
  rw [if_neg (by simp [htarget]), if_neg (by simp [hsource])]
  exact lookup_map_move h

/-- Nothing is left where it was. -/
theorem vacated_move (h : ¬ source <+: target) (h' : ¬ target <+: source) :
    (tree.move source target).Vacated source := by
  intro entry hentry hbelow
  obtain ⟨old, _, rfl⟩ := List.mem_map.mp hentry
  split at hbelow
  next =>
    rcases List.prefix_or_prefix_of_prefix hbelow (List.prefix_append target _) with hle | hle
    · exact h hle
    · exact h' hle
  next hne => exact hne (List.isPrefixOf_iff_prefix.mpr hbelow)

/-! ## §5. What operations do. -/

/-- Something may be put at a location: directories lead there, and there is none at it. -/
structure Open (tree : FileTree) (at_ : Location) : Prop where
  ne_nil : at_ ≠ []
  stands : tree.Stands at_.dropLast
  notDirectory : tree.entry? at_ ≠ some .directory

theorem Stands.put (h : tree.Stands l) (hopen : tree.Open at_) : (tree.put at_ e).Stands l := by
  intro l' hl'
  have hentry := h l' hl'
  rw [entry?_put hopen.ne_nil, if_neg]
  · exact hentry
  · rintro rfl
    exact hopen.notDirectory hentry

/-- **A directory that is made** stands where nothing stood. -/
theorem put_of_makeDirectory (hlinks : tree.LinkFree) (hbase : tree.Stands (tree.base path))
    (h : tree.makeDirectory path = .ok tree') :
    tree' = tree.put (tree.placeOf path) .directory ∧ tree.Open (tree.placeOf path)
      ∧ tree.entry? (tree.placeOf path) = none := by
  unfold makeDirectory at h
  split at h
  next at_ slash hfind =>
    obtain ⟨rfl, hentry, hne, hstands⟩ := find_vacant hlinks hfind
    cases h
    exact ⟨rfl, ⟨hne, hstands hbase, by simp [hentry]⟩, hentry⟩
  next => cases h
  next => cases h

/-- **A file that is written** stands where no directory stood. -/
theorem put_of_write {content : ByteArray} (hlinks : tree.LinkFree) (hcoherent : tree.Coherent)
    (hbase : tree.Stands (tree.base path)) (h : tree.write path content = .ok tree') :
    tree' = tree.put (tree.placeOf path) (.file content) ∧ tree.Open (tree.placeOf path) := by
  have hplain : ∀ {bare : Path}, dropSlashes path = (bare, false) → bare = path := by
    intro bare hbare
    unfold dropSlashes at hbare
    dsimp only at hbare
    split at hbare <;> cases hbare
    rfl
  unfold write at h
  split at h
  next bare slash hbare =>
    split at h
    next => cases h
    next place hfind =>
      split at h
      next => cases h
      next hslash =>
        obtain rfl := Bool.eq_false_iff.mpr hslash
        obtain rfl := hplain hbare
        split at h
        next at_ slash' =>
          obtain ⟨rfl, hentry, hne, hstands⟩ := find_vacant hlinks hfind
          cases h
          exact ⟨rfl, hne, hstands hbase, by simp [hentry]⟩
        next => cases h
        next at_ old hold =>
          obtain rfl := eq_placeOf_of_find hlinks hfind
          have hdirectory : old ≠ .directory := fun heq => hold (heq ▸ rfl)
          have hentry := (reaches_of_find hfind).entry?_eq hdirectory
          have hne : tree.placeOf bare ≠ [] := by
            intro hnil
            rw [hnil] at hentry
            exact hdirectory (Option.some.inj hentry).symm
          cases h
          refine ⟨rfl, hne, hcoherent.stands_dropLast hentry hne, ?_⟩
          rw [hentry]
          exact fun heq => hdirectory (Option.some.inj heq)

/-- Taking away leaves what is not below the place of a path. -/
theorem entry?_removeAll_beside (hlinks : tree.LinkFree) (hl : ¬ tree.placeOf path <+: l) :
    entry? (tree.removeAll path).1 l = tree.entry? l := by
  cases hfind : tree.find false path with
  | error e =>
      unfold removeAll
      rw [hfind]
  | ok found =>
      cases found with
      | vacant =>
          unfold removeAll
          rw [hfind]
      | occupied at_ e =>
          refine entry?_removeAll hfind ?_
          rwa [eq_placeOf_of_find hlinks hfind]

/-- **What is taken away** is what stands at the place of a path and below. -/
theorem eq_without_of_removeAll (hlinks : tree.LinkFree)
    (h : tree.removeAll path = (tree', none)) : tree' = tree.without (tree.placeOf path) := by
  cases hfind : tree.find false path with
  | error e =>
      unfold removeAll at h
      rw [hfind] at h
      cases h
  | ok found =>
      cases found with
      | vacant =>
          unfold removeAll at h
          rw [hfind] at h
          cases h
      | occupied at_ e =>
          obtain rfl := eq_placeOf_of_find hlinks hfind
          cases e with
          | file content =>
              unfold removeAll at h
              rw [hfind] at h
              cases h
          | link target => exact absurd ((reaches_of_find hfind).entry?_eq nofun) (hlinks.entry?_ne _)
          | directory =>
              rw [removeAll_directory hfind] at h
              split at h
              next removed hremoved =>
                obtain ⟨at', hfind', rfl⟩ := exists_of_removeDirectory hremoved
                have hplain : Plain tree.here (tree.emptied (tree.placeOf path)) :=
                  Plain.restrict ⟨hlinks, rfl⟩ _
                obtain rfl := eq_placeOf_of_find hplain.linkFree hfind'
                cases h
                -- the second place is that of the same path
                show (tree.emptied (tree.placeOf path)).without (tree.placeOf path) = _
                unfold emptied restrict without
                rw [List.filter_filter]
                congr 1
                refine List.filter_congr fun entry _ => ?_
                dsimp only
                cases (tree.placeOf path).isPrefixOf entry.1 <;> rfl
              next => cases h

/-- **What is given another path** stands there and nowhere else. -/
theorem exists_of_rename {source target : Path} (hlinks : tree.LinkFree) (hcoherent : tree.Coherent)
    (h : tree.rename source target = .ok tree') :
    (∃ e, tree.find false source = .ok (.occupied (tree.placeOf source) e))
      ∧ ∃ cleared : FileTree, tree' = cleared.move (tree.placeOf source) (tree.placeOf target)
        ∧ cleared.Vacated (tree.placeOf target)
        ∧ ∀ l, ¬ tree.placeOf target <+: l → cleared.entry? l = tree.entry? l := by
  unfold rename at h
  split at h
  next => cases h
  next => cases h
  next => cases h
  next old e new slash hold hnew =>
    obtain rfl := eq_placeOf_of_find hlinks hold
    obtain ⟨rfl, hentry, _, _⟩ := find_vacant hlinks hnew
    cases h
    exact ⟨⟨e, hold⟩, tree, rfl, hcoherent.vacated hentry, fun _ _ => rfl⟩
  next old e new hold hnew =>
    obtain rfl := eq_placeOf_of_find hlinks hold
    obtain rfl := eq_placeOf_of_find hlinks hnew
    split at h
    next => cases h
    next =>
      cases h
      exact ⟨⟨e, hold⟩, _, rfl, Vacated.without _ tree, fun _ hl => entry?_without hl⟩
  next => cases h

end AssetBundler.FileTree
