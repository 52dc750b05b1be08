/-
  AssetBundler.Proofs.Files.Below
  ────────────────────────────────
  **A PROJECT INSIDE A TREE.**

  A tree holds a project at a directory when it has the files of the project
  there.  A path of the project leads to the same file in the tree, when the
  directory is written before it, as long as it never climbs above the root
  of the project:

    • `Path.below` — a path of the project as one of the tree,
    • `Path.stays` — the path does not climb above the root,
    • `Identity.below` — a module of the project as one of the tree,
    • `FileTree.Holds` — the tree has the project at a directory,
    • `FileTree.Holds.resolve_below` — where paths lead,
    • `FileTree.Holds.canonical_below`, `isFile_below`, `readText_below` — what
      is asked of them,
    • `FileTree.holds_placed` — a project can be put anywhere.
-/
import AssetBundler.Project.Identity
import AssetBundler.Proofs.Files.Places
import AssetBundler.Proofs.Files.Steps

namespace AssetBundler

open FileTree

/-! ## §1. Paths of a project. -/

/-- The text can be the name of a file. -/
def FileTree.IsFileName (name : String) : Prop :=
  IsName name ∧ '/' ∉ name.toList

namespace Path

variable {root l : Location} {p : Path} {q : String}

/-- A location in words: a slash before each of its names. -/
def lead (names : Location) : String :=
  "/".intercalate ("" :: names)

/-- A path of a project as one of a tree that has the project at a location. -/
def below (root : Location) (p : Path) : Path :=
  ⟨lead root ++ p.text⟩

@[simp] theorem below_nil : below [] p = p := by
  simp [below, lead]

theorem ofNames_eq (hl : l ≠ []) : ofNames l = ⟨lead l⟩ := by
  rw [ofNames, lead, String.intercalate_cons_of_ne_nil hl, String.empty_append]

theorem lead_append (hl : l ≠ []) : lead (root ++ l) = lead root ++ lead l := by
  rw [lead, lead, lead, ← List.cons_append,
    String.intercalate_append_of_ne_nil (List.cons_ne_nil _ _) hl,
    String.intercalate_cons_of_ne_nil hl, String.empty_append, String.append_assoc]

theorem below_ofNames (hl : l ≠ []) : below root (ofNames l) = ofNames (root ++ l) := by
  rw [ofNames_eq hl, ofNames_eq (List.append_ne_nil_of_right_ne_nil _ hl), lead_append hl, below]

theorem below_append (s : String) : (below root p).append s = below root (p.append s) := by
  simp [below, append, String.append_assoc]

theorem isAbsolute_ofNames (l : Location) : (ofNames l).isAbsolute = true := by
  simp [isAbsolute, ofNames]

/-- **Joining** happens behind the directory of the project. -/
theorem below_join (hp : p.isAbsolute = true) (hq : IsRelative q) :
    (below root p).join q = below root (p.join q) := by
  have hne : p.text.toList ≠ [] := by
    rintro hnil
    simp [isAbsolute, hnil] at hp
  have hempty : (p.text == "") = false :=
    beq_false_of_ne fun heq => hne (by simp [heq])
  have hempty' : (lead root ++ p.text == "") = false := by
    refine beq_false_of_ne fun heq => hne ?_
    have htext := congrArg String.toList heq
    rw [String.toList_append] at htext
    exact (List.append_eq_nil_iff.mp htext).2
  have hlast : (lead root ++ p.text).toList.getLast? = p.text.toList.getLast? := by
    rw [String.toList_append, List.getLast?_append_of_ne_nil _ hne]
  have hq' : ¬ (q.toList.head? == some '/') = true := by simpa [IsRelative] using hq
  unfold join
  rw [if_neg hq', if_neg hq', below, hempty, hempty', hlast]
  split <;> simp [below, String.append_assoc]

/-- What is joined to a location of the tree is a path of the project. -/
theorem join_ofNames (hroot : ∀ n ∈ root, IsFileName n) (hq : IsRelative q) :
    (ofNames (root ++ l)).join q = below root ((ofNames l).join q) := by
  by_cases hl : l = []
  · obtain rfl := hl
    rw [List.append_nil]
    have hslash : (ofNames []).join q = ⟨"/" ++ q⟩ := by
      unfold join
      rw [if_neg (by simpa [IsRelative] using hq)]
      rfl
    rw [hslash]
    rcases List.eq_nil_or_concat root with rfl | ⟨above, name, hconcat⟩
    · rw [hslash, below_nil]
    · -- the last name of the directory does not end with a slash
      rw [List.concat_eq_append] at hconcat
      obtain ⟨⟨hne, _⟩, hname⟩ := hroot name (by simp [hconcat])
      have hne' : name.toList ≠ [] := fun h => hne (String.toList_inj.mp h)
      have htext : lead root = lead above ++ "/" ++ name := by
        rw [hconcat, lead, lead, ← List.cons_append,
          String.intercalate_append_of_ne_nil (List.cons_ne_nil _ _) (List.cons_ne_nil _ _),
          String.intercalate_singleton]
      have hempty : (lead root == "") = false := by
        refine beq_false_of_ne fun heq => hne' ?_
        have h := congrArg String.toList (htext.symm.trans heq)
        rw [String.toList_append] at h
        exact (List.append_eq_nil_iff.mp h).2
      have hlast : (lead root).toList.getLast? ≠ some '/' := by
        rw [htext, String.toList_append, List.getLast?_append_of_ne_nil _ hne']
        exact fun h => hname (List.mem_of_getLast? h)
      rw [ofNames_eq (by simp [hconcat])]
      unfold join
      rw [if_neg (by simpa [IsRelative] using hq), hempty, Bool.false_or,
        if_neg (by simpa using hlast), below, String.append_assoc]
  · rw [← below_ofNames hl, below_join (isAbsolute_ofNames l) hq]

theorem isAbsolute_iff_exists : p.isAbsolute = true ↔ ∃ t, p.text = "" ++ "/" ++ t := by
  unfold isAbsolute
  constructor
  · intro h
    obtain ⟨rest, hrest⟩ := List.head?_eq_some_iff.mp (eq_of_beq h)
    exact ⟨String.ofList rest, String.toList_inj.mp (by simp [hrest])⟩
  · rintro ⟨t, ht⟩
    simp [ht]

/-- **The segments of a path of a project**: the names of the directory come first. -/
theorem segments_below (hroot : ∀ n ∈ root, IsFileName n) (hp : p.isAbsolute = true) :
    ∃ rest, p.segments = "" :: rest ∧ (below root p).segments = "" :: root ++ rest := by
  obtain ⟨t, ht⟩ := isAbsolute_iff_exists.mp hp
  have hlead : (Path.mk (lead root)).segments = "" :: root := by
    refine segments_mk_intercalate (List.cons_ne_nil _ _) fun s hs => ?_
    rcases List.mem_cons.mp hs with rfl | hs
    · exact List.not_mem_nil
    · exact (hroot s hs).2
  have hbelow : below root p = ⟨lead root ++ "/" ++ t⟩ := by
    rw [below, ht, String.empty_append, String.append_assoc]
  have hp' : p = ⟨"" ++ "/" ++ t⟩ := by rw [← ht]
  refine ⟨(Path.mk t).segments, ?_, ?_⟩
  · rw [hp', segments_slash]
    rfl
  · rw [hbelow, segments_slash, hlead]

theorem isAbsolute_below (root : Location) (hp : p.isAbsolute = true) : (below root p).isAbsolute = true := by
  obtain ⟨t, ht⟩ := isAbsolute_iff_exists.mp hp
  cases hroot : root with
  | nil => rw [below_nil, hp]
  | cons n rest =>
      have hlead : lead (n :: rest) = "/" ++ "/".intercalate (n :: rest) := by
        rw [lead, String.intercalate_cons_of_ne_nil (List.cons_ne_nil _ _), String.empty_append]
      simp [isAbsolute, below, hlead]

/-! ## §2. Paths that stay inside. -/

/-- Followed from a directory at a depth below the root, the segments never climb above the root. -/
def staysFrom : Nat → List String → Bool
  | _, [] => true
  | depth, segment :: rest =>
    if segment == "" || segment == "." then staysFrom depth rest
    else if segment == ".." then depth != 0 && staysFrom (depth - 1) rest
    else staysFrom (depth + 1) rest

/-- **The path stays inside the project**: it begins at the root and never climbs above it. -/
def stays (p : Path) : Bool :=
  p.isAbsolute && staysFrom 0 p.segments

theorem staysFrom_cons_of_idle {depth : Nat} {segment : String} {rest : List String}
    (h : segment = "" ∨ segment = ".") : staysFrom depth (segment :: rest) = staysFrom depth rest := by
  rcases h with rfl | rfl <;> rfl

theorem staysFrom_cons_of_isName {depth : Nat} {name : String} {rest : List String}
    (h : IsName name) : staysFrom depth (name :: rest) = staysFrom (depth + 1) rest := by
  obtain ⟨hempty, hdot, hup⟩ := h
  simp [staysFrom, hempty, hdot, hup]

theorem staysFrom_cons_up {depth : Nat} {rest : List String} :
    staysFrom depth (".." :: rest) = (depth != 0 && staysFrom (depth - 1) rest) :=
  rfl

/-- A segment does nothing, climbs, or names something. -/
theorem segment_cases (segment : String) :
    (segment = "" ∨ segment = ".") ∨ segment = ".." ∨ IsName segment := by
  by_cases hidle : segment = "" ∨ segment = "."
  · exact Or.inl hidle
  · by_cases hup : segment = ".."
    · exact Or.inr (Or.inl hup)
    · rw [not_or] at hidle
      exact Or.inr (Or.inr ⟨hidle.1, hidle.2, hup⟩)

theorem staysFrom_append_names : ∀ (depth : Nat) (names rest : List String),
    (∀ n ∈ names, IsName n) →
      staysFrom depth (names ++ rest) = staysFrom (depth + names.length) rest
  | depth, [], rest, _ => rfl
  | depth, n :: names, rest, h => by
      obtain ⟨hn, hnames⟩ := List.forall_mem_cons.mp h
      rw [List.cons_append, staysFrom_cons_of_isName hn,
        staysFrom_append_names (depth + 1) names rest hnames, List.length_cons,
        Nat.add_comm names.length 1, ← Nat.add_assoc]

theorem staysFrom_names : ∀ (depth : Nat) (segments : List String),
    staysFrom depth segments = staysFrom depth (names segments)
  | _, [] => rfl
  | depth, segment :: rest => by
      rcases segment_cases segment with hidle | rfl | hname
      · rw [staysFrom_cons_of_idle hidle, names_cons_of_idle hidle, staysFrom_names depth rest]
      · rw [names_cons_of_step (by simp [IsIdle]), staysFrom_cons_up, staysFrom_cons_up,
          staysFrom_names (depth - 1) rest]
      · rw [names_cons_of_isName hname, staysFrom_cons_of_isName hname,
          staysFrom_cons_of_isName hname, staysFrom_names (depth + 1) rest]

theorem staysFrom_concat {name : String} (hname : IsName name) :
    ∀ (depth : Nat) (segments : List String),
      staysFrom depth segments = true → staysFrom depth (segments ++ [name]) = true
  | depth, [], _ => by
      rw [List.nil_append, staysFrom_cons_of_isName hname]
      rfl
  | depth, segment :: rest, h => by
      rw [List.cons_append]
      rcases segment_cases segment with hidle | rfl | hstep
      · rw [staysFrom_cons_of_idle hidle] at h ⊢
        exact staysFrom_concat hname depth rest h
      · rw [staysFrom_cons_up, Bool.and_eq_true] at h ⊢
        exact ⟨h.1, staysFrom_concat hname (depth - 1) rest h.2⟩
      · rw [staysFrom_cons_of_isName hstep] at h ⊢
        exact staysFrom_concat hname (depth + 1) rest h

/-- A name behind a path that stays inside stays inside. -/
theorem stays_join {name : String} (hp : p.stays = true) (hname : IsFileName name) :
    (p.join name).stays = true := by
  obtain ⟨habsolute, hstays⟩ := (Bool.and_eq_true _ _).mp hp
  have hrelative : IsRelative name := fun h => hname.2 (List.mem_of_mem_head? h)
  have hsteps : names (p.join name).segments = names p.segments ++ [name] := by
    rw [names_join p hrelative, segments_of_notMem hname.2, names_cons_of_isName hname.1]
    rfl
  rw [stays, isAbsolute_join p hrelative, habsolute, Bool.true_and, staysFrom_names, hsteps]
  rw [staysFrom_names] at hstays
  exact staysFrom_concat hname.1 0 _ hstays

theorem segments_ofNames (hl : ∀ n ∈ l, IsFileName n) :
    (ofNames l).segments = "" :: l ∨ l = [] := by
  by_cases h : l = []
  · exact Or.inr h
  · left
    rw [ofNames_eq h]
    refine segments_mk_intercalate (List.cons_ne_nil _ _) fun s hs => ?_
    rcases List.mem_cons.mp hs with rfl | hs
    · exact List.not_mem_nil
    · exact (hl s hs).2

theorem names_segments_ofNames (hl : ∀ n ∈ l, IsFileName n) : names (ofNames l).segments = l := by
  rcases segments_ofNames hl with h | rfl
  · have hkept : names l = l := List.filter_eq_self.mpr fun n hn => by
      obtain ⟨⟨hempty, hdot, _⟩, _⟩ := hl n hn
      simp [hempty, hdot]
    rw [h, names_cons_of_idle (Or.inl rfl), hkept]
  · rfl

theorem up_notMem_segments_ofNames (hl : ∀ n ∈ l, IsFileName n) : ".." ∉ (ofNames l).segments := by
  rcases segments_ofNames hl with h | rfl
  · rw [h, List.mem_cons, not_or]
    exact ⟨by decide, fun hmem => (hl _ hmem).1.2.2 rfl⟩
  · decide

theorem stays_ofNames (hl : ∀ n ∈ l, IsFileName n) : (ofNames l).stays = true := by
  have hnames := staysFrom_append_names 0 l [] fun n hn => (hl n hn).1
  rw [List.append_nil] at hnames
  rw [stays, isAbsolute_ofNames, Bool.true_and, staysFrom_names, names_segments_ofNames hl, hnames]
  rfl

end Path

namespace Identity

variable {root : Location} {m : Identity}

/-- A module of a project as one of a tree that has the project at a location. -/
def below (root : Location) (m : Identity) : Identity :=
  ⟨root ++ m.location⟩

theorem below_injective (root : Location) : (below root).Injective := by
  intro m m' h
  cases m
  cases m'
  exact congrArg mk (List.append_cancel_left (congrArg location h))

theorem path_below (h : m.location ≠ []) : (m.below root).path = m.path.below root :=
  (Path.below_ofNames h).symm

theorem getLast?_below (h : m.location ≠ []) :
    (m.below root).location.getLast? = m.location.getLast? :=
  List.getLast?_append_of_ne_nil _ h

theorem extension_below (h : m.location ≠ []) : (m.below root).extension = m.extension := by
  rw [extension, getLast?_below h, extension]

theorem stem_below (h : m.location ≠ []) : (m.below root).stem = m.stem := by
  rw [stem, getLast?_below h, stem]

end Identity

/-! ## §3. Trees that hold a project. -/

namespace FileTree

variable {tree project : FileTree} {root here l : Location} {p : Path} {follow : Bool}

/-- **The tree holds the project at a directory**: the directory is there and has the files of the
project, and above it there is no directory of packages. -/
structure Holds (tree project : FileTree) (root : Location) : Prop where
  names : ∀ n ∈ root, IsFileName n
  stands : tree.Stands root
  entry?_eq : ∀ l, tree.entry? (root ++ l) = project.entry? l
  alone : ∀ d, d <+: root → d ≠ root → tree.entry? (d ++ ["node_modules"]) = none

/-- The files of a project: there are no links, and all names are such as files have. -/
structure Ordinary (project : FileTree) : Prop where
  linkFree : project.LinkFree
  names : ∀ e ∈ project.entries, ∀ n ∈ e.1, IsFileName n

theorem Ordinary.names_of_entry? {e : Entry} (h : project.Ordinary)
    (hentry : project.entry? l = some e) : ∀ n ∈ l, IsFileName n := by
  by_cases hl : l = []
  · obtain rfl := hl
    exact List.forall_mem_nil _
  · exact h.names _ ( mem_of_entry? hentry hl)

/-- What a path leads to has the name of a file. -/
theorem Ordinary.names_of_resolve {e : Entry} (h : project.Ordinary) (hp : p.isAbsolute = true)
    (hresolve : project.resolve p = .ok (l, e)) : ∀ n ∈ l, IsFileName n := by
  have hreaches := reaches_of_resolve hresolve
  rw [base, if_pos hp] at hreaches
  exact h.names_of_entry? (hreaches.stands stands_nil).1

/-- The place in a tree that has the project at a directory. -/
def Place.below (root : Location) : Place → Place
  | .occupied at_ e => .occupied (root ++ at_) e
  | .vacant at_ slash => .vacant (root ++ at_) slash

/-- A walk goes through the directories that lead to another. -/
theorem walk_names (follow : Bool) : ∀ {root here : Location} (fuel links : Nat) (rest : List String),
    (∀ n ∈ root, IsName n) → tree.Stands (here ++ root) →
      tree.walk follow (root.length + fuel) links here (root ++ rest)
        = tree.walk follow fuel links (here ++ root) rest
  | [], here, fuel, links, rest, _, _ => by simp
  | n :: root, here, fuel, links, rest, hnames, h => by
      obtain ⟨⟨hempty, hdot, hup⟩, hnames⟩ := List.forall_mem_cons.mp hnames
      have hsame : here ++ n :: root = (here ++ [n]) ++ root := by simp
      have hentry : tree.entry? (here ++ [n]) = some .directory :=
        h _ ⟨root, by simp⟩
      have ih := walk_names follow fuel links rest hnames (hsame ▸ h)
      rw [hsame, ← ih, List.length_cons, Nat.add_right_comm, List.cons_append, walk]
      simp [hempty, hdot, hup, hentry]

/-- **The same segments lead to the same place**, from a directory of the project on, as long as they
stay inside. The bounds do not matter without links. -/
theorem Holds.walk_below (h : tree.Holds project root) (hlinks : project.LinkFree) :
    ∀ (fuel fuel' links links' : Nat) {here : Location} {segments : List String},
      segments.length < fuel → segments.length < fuel' →
      Path.staysFrom here.length segments = true →
      tree.walk follow fuel links (root ++ here) segments
        = (project.walk follow fuel' links' here segments).map (Place.below root) := by
  intro fuel
  induction fuel with
  | zero => exact fun _ _ _ _ _ hlength => absurd hlength (Nat.not_lt_zero _)
  | succ fuel ih =>
      intro fuel' links links' here segments hlength hlength' hstays
      obtain ⟨fuel', rfl⟩ : ∃ n, fuel' = n + 1 := ⟨fuel' - 1, by omega⟩
      cases segments with
      | nil => simp [walk, Except.map, Place.below]
      | cons segment rest =>
          have hrest : rest.length < fuel := Nat.lt_of_succ_lt_succ hlength
          have hrest' : rest.length < fuel' := Nat.lt_of_succ_lt_succ hlength'
          rw [Path.staysFrom] at hstays
          rw [walk, walk]
          split
          next hidle =>
            rw [if_pos hidle] at hstays
            exact ih fuel' links links' hrest hrest' hstays
          next hidle =>
            rw [if_neg hidle] at hstays
            split
            next hup =>
              rw [if_pos hup] at hstays
              -- there is a directory of the project above this one
              obtain ⟨hdepth, hstays⟩ := (Bool.and_eq_true _ _).mp hstays
              have hne : here ≠ [] := by
                rintro rfl
                cases hdepth
              rw [List.dropLast_append_of_ne_nil hne]
              rw [← List.length_dropLast] at hstays
              exact ih fuel' links links' hrest hrest' hstays
            next hup =>
              rw [if_neg hup] at hstays
              have hentry : tree.entry? (root ++ here ++ [segment])
                  = project.entry? (here ++ [segment]) := by
                rw [List.append_assoc, h.entry?_eq]
              dsimp only
              rw [hentry]
              split
              next => split <;> simp [Except.map, Place.below]
              next =>
                have hdepth : (here ++ [segment]).length = here.length + 1 := by simp
                rw [List.append_assoc]
                exact ih fuel' links links' hrest hrest' (hdepth ▸ hstays)
              next => split <;> simp [Except.map, Place.below]
              next target hlink => exact absurd hlink (hlinks.entry?_ne target)

/-- A path behind a directory that is there is followed from this directory on. -/
theorem exists_walk_of_find (follow : Bool) (hnames : ∀ n ∈ root, IsFileName n)
    (hstands : tree.Stands root) (hp : p.isAbsolute = true) :
    ∃ fuel rest, p.segments = "" :: rest ∧ rest.length < fuel
      ∧ tree.find follow (p.below root) = tree.walk follow fuel maxLinks root rest := by
  obtain ⟨rest, hsegments, hbelow⟩ := Path.segments_below hnames hp
  have habsolute := Path.isAbsolute_below root hp
  have htext : ((p.below root).text == "") = false := by
    refine beq_false_of_ne fun heq => ?_
    simp [Path.isAbsolute, heq] at habsolute
  -- the empty segment before the root and the names of the directory come first
  obtain ⟨fuel, hfuel, hlt⟩ : ∃ fuel, tree.segmentBound ("" :: root ++ rest).length
      = root.length + fuel + 1 ∧ rest.length < fuel := by
    have hbound := tree.length_lt_segmentBound ("" :: root ++ rest).length
    refine ⟨tree.segmentBound ("" :: root ++ rest).length - root.length - 1, ?_, ?_⟩ <;>
      simp only [List.cons_append, List.length_cons, List.length_append] at hbound ⊢ <;> omega
  refine ⟨fuel, rest, hsegments, hlt, ?_⟩
  have hwalk := walk_names follow fuel maxLinks rest (fun n hn => (hnames n hn).1)
    (show tree.Stands ([] ++ root) from hstands)
  unfold find
  dsimp only
  rw [htext, if_neg Bool.false_ne_true, habsolute, if_pos rfl, hbelow, hfuel, List.cons_append,
    walk, if_pos (by rfl)]
  exact hwalk

/-- **A path of the project leads to the same place**, behind the directory of the project. -/
theorem Holds.find_below (h : tree.Holds project root) (hlinks : project.LinkFree)
    (hp : p.stays = true) :
    tree.find follow (p.below root) = (project.find follow p).map (Place.below root) := by
  obtain ⟨habsolute, hstays⟩ := (Bool.and_eq_true _ _).mp hp
  obtain ⟨fuel, rest, hsegments, hfuel, hfind⟩ :=
    exists_walk_of_find follow h.names h.stands habsolute
  obtain ⟨fuel', rest', hsegments', hfuel', hfind'⟩ :=
    exists_walk_of_find follow (List.forall_mem_nil _) (@stands_nil project) habsolute
  obtain rfl : rest = rest' := (List.cons.inj (hsegments.symm.trans hsegments')).2
  rw [hsegments] at hstays
  have hrest : Path.staysFrom ([] : Location).length rest = true := hstays
  rw [hfind, ← Path.below_nil (p := p), hfind',
    ← h.walk_below hlinks fuel fuel' maxLinks maxLinks hfuel hfuel' hrest, List.append_nil]

/-! ## §4. Questions. -/

theorem Holds.resolve_below (h : tree.Holds project root) (hlinks : project.LinkFree)
    (hp : p.stays = true) :
    tree.resolve (p.below root)
      = (project.resolve p).map fun found => (root ++ found.1, found.2) := by
  unfold resolve
  rw [h.find_below hlinks hp]
  rcases project.find true p with e | ⟨at_, e⟩ | ⟨at_, slash⟩ <;> rfl

theorem Holds.isFile_below (h : tree.Holds project root) (hlinks : project.LinkFree)
    (hp : p.stays = true) :
    tree.isFile (p.below root) = project.isFile p := by
  unfold isFile
  rw [h.resolve_below hlinks hp]
  rcases project.resolve p with e | ⟨at_, _ | _ | _⟩ <;> rfl

theorem Holds.isDirectory_below (h : tree.Holds project root) (hlinks : project.LinkFree)
    (hp : p.stays = true) :
    tree.isDirectory (p.below root) = project.isDirectory p := by
  unfold isDirectory
  rw [h.resolve_below hlinks hp]
  rcases project.resolve p with e | ⟨at_, _ | _ | _⟩ <;> rfl

theorem Holds.exists_below (h : tree.Holds project root) (hlinks : project.LinkFree)
    (hp : p.stays = true) :
    tree.exists_ (p.below root) = project.exists_ p := by
  unfold exists_
  rw [h.resolve_below hlinks hp]
  rcases project.resolve p with e | ⟨at_, e⟩ <;> rfl

theorem Holds.canonical_below (h : tree.Holds project root) (hlinks : project.LinkFree)
    (hp : p.stays = true) :
    tree.canonical (p.below root) = (project.canonical p).map (root ++ ·) := by
  unfold canonical
  rw [h.resolve_below hlinks hp]
  rcases project.resolve p with e | ⟨at_, e⟩ <;> rfl

theorem Holds.read_below (h : tree.Holds project root) (hlinks : project.LinkFree)
    (hp : p.stays = true) :
    tree.read (p.below root) = project.read p := by
  unfold read
  rw [h.resolve_below hlinks hp]
  rcases project.resolve p with e | ⟨at_, _ | _ | _⟩ <;> rfl

theorem resolve_ofNames_of_stands (hl : ∀ n ∈ l, IsFileName n) (h : tree.Stands l) :
    tree.resolve (Path.ofNames l) = .ok (l, .directory) := by
  have hplace : tree.base (Path.ofNames l) ++ names (Path.ofNames l).segments = l := by
    rw [base, if_pos (Path.isAbsolute_ofNames l), Path.names_segments_ofNames hl, List.nil_append]
  have hresolve : tree.resolve (Path.ofNames l)
      = .ok (tree.base (Path.ofNames l) ++ names (Path.ofNames l).segments, .directory) :=
    resolve_of_stands (by simp [Path.ofNames]) (Path.up_notMem_segments_ofNames hl)
      (by rwa [hplace])
  rw [hresolve, hplace]

/-- A file is read at its location; the root of the project is no file. -/
theorem Holds.read_ofNames (h : tree.Holds project root) (hlinks : project.LinkFree)
    (hl : ∀ n ∈ l, IsFileName n) :
    tree.read (Path.ofNames (root ++ l)) = project.read (Path.ofNames l) := by
  by_cases hne : l = []
  · obtain rfl := hne
    unfold read
    rw [List.append_nil, resolve_ofNames_of_stands h.names h.stands,
      resolve_ofNames_of_stands hl stands_nil]
  · rw [← Path.below_ofNames hne, h.read_below hlinks (Path.stays_ofNames hl)]

/-- What is read at a location of the project stands there. -/
theorem Ordinary.entry?_of_read {content : ByteArray} (h : project.Ordinary)
    (hl : ∀ n ∈ l, IsFileName n) (hread : project.read (Path.ofNames l) = .ok content) :
    project.entry? l = some (.file content) := by
  unfold read at hread
  split at hread
  next at_ _ hresolve =>
    cases hread
    have hreaches := reaches_of_resolve hresolve
    have hat : at_ = l := by
      have hplace := hreaches.eq_append_names h.linkFree (Path.up_notMem_segments_ofNames hl)
      rwa [base, if_pos (Path.isAbsolute_ofNames l), Path.names_segments_ofNames hl] at hplace
    exact hat ▸ hreaches.entry?_eq nofun
  next => cases hread
  next => cases hread

theorem Holds.readText_below (h : tree.Holds project root) (hlinks : project.LinkFree)
    (hp : p.stays = true) :
    tree.readText (p.below root) = project.readText p := by
  unfold readText
  rw [h.read_below hlinks hp]

/-! ## §5. A project put at a location. -/

/-- A tree inside a directory. -/
def nested (name : String) (tree : FileTree) : FileTree :=
  { tree with entries := ([name], .directory) :: tree.entries.map fun e => (name :: e.1, e.2) }

/-- A project put at a location. -/
def placed (project : FileTree) (root : Location) : FileTree :=
  root.foldr nested project

theorem entry?_nested (name : String) (l : Location) :
    entry? (tree.nested name) (name :: l) = tree.entry? l := by
  have hlookup : ∀ entries : List (Location × Entry),
      (entries.map fun e => (name :: e.1, e.2)).lookup (name :: l) = entries.lookup l := by
    intro entries
    induction entries with
    | nil => rfl
    | cons e entries ih =>
        have hsame : (name :: l == name :: e.1) = (l == e.1) := by simp
        rw [List.map_cons, List.lookup_cons, List.lookup_cons, hsame, ih]
  cases l with
  | nil => simp [ entry?, nested]
  | cons n l =>
      have hne : (name :: n :: l == [name]) = false := by simp
      unfold entry? nested
      rw [List.lookup_cons, hne]
      exact hlookup tree.entries

theorem entry?_nested_of_ne {name other : String} (h : other ≠ name) :
    entry? (tree.nested name) [other] = none := by
  have hlookup : ∀ entries : List (Location × Entry),
      (entries.map fun e => (name :: e.1, e.2)).lookup [other] = none := by
    intro entries
    rw [List.lookup_eq_none_iff]
    intro e he
    obtain ⟨e, _, rfl⟩ := List.mem_map.mp he
    simp [h]
  have hne : ([other] == [name]) = false := by simp [h]
  unfold entry? nested
  rw [List.lookup_cons, hne]
  exact hlookup tree.entries

theorem Holds.nested {name : String} (h : tree.Holds project root) (hname : IsFileName name)
    (hne : name ≠ "node_modules") : (tree.nested name).Holds project (name :: root) where
  names := List.forall_mem_cons.mpr ⟨hname, h.names⟩
  stands d hd := by
    rcases List.prefix_cons_iff.mp hd with rfl | ⟨d, rfl, hrest⟩
    · rfl
    · rw [entry?_nested, h.stands d hrest]
  entry?_eq l := by rw [List.cons_append, entry?_nested, h.entry?_eq]
  alone d hd hproper := by
    rcases List.prefix_cons_iff.mp hd with rfl | ⟨d, rfl, hrest⟩
    · exact entry?_nested_of_ne hne.symm
    · rw [List.cons_append, entry?_nested, h.alone d hrest fun heq => hproper (heq ▸ rfl)]

/-- **A project put at a location is there.** -/
theorem holds_placed : ∀ {root : Location}, (∀ n ∈ root, IsFileName n ∧ n ≠ "node_modules") →
    (project.placed root).Holds project root
  | [], _ =>
      { names := List.forall_mem_nil _
        stands := stands_nil
        entry?_eq := fun _ => rfl
        alone := fun _ hd hne => absurd (List.prefix_nil.mp hd) hne }
  | name :: root, hroot => by
      obtain ⟨⟨hname, hne⟩, hroot⟩ := List.forall_mem_cons.mp hroot
      exact (holds_placed hroot).nested hname hne

end FileTree

end AssetBundler
