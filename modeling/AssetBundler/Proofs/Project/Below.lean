/-
  AssetBundler.Proofs.Project.Below
  ────────────────────────────────
  **A PROJECT RESOLVES THE SAME WHEREVER IT IS.**

  What a specifier means is said in paths below the root of the project and
  below the importing module.  As long as none of the paths that are tried
  leaves the project, they lead to the same files wherever the project is:

    • `Resolve.requestInside` — the paths that are tried stay inside,
    • `Resolve.Alike` — the same file found in the project and in the tree,
    • `Resolve.requestedFile_below` — the files that requests mean,
    • `Resolve.specifier_below`, `Resolve.entry_below` — the modules.
-/
import AssetBundler.Project.Resolve
import AssetBundler.Proofs.Files.Below

namespace AssetBundler

open FileTree

/-- The configuration of a project that lies at a location. -/
def Config.placedAt (config : Config) (root : Location) : Config :=
  { config with root := Path.ofNames root }

namespace Resolve

open AssetBundler.Text

/-! ## §1. Requests that stay inside. -/

/-- Every file that is tried for a target lies inside the project. -/
def targetInside (extensions : List String) (target : Path) : Bool :=
  (target :: candidates extensions target ++ candidates extensions (target.join "index")).all
    Path.stays

/-- What a text means from a place lies inside the project; a text that begins with a slash would mean the
same from everywhere. -/
def joinedInside (extensions : List String) (p : Path) (q : String) : Bool :=
  q.toList.head? != some '/' && targetInside extensions (p.join q)

/-- The entries that the description of a package names, if it can be read. -/
def entriesIn (project : FileTree) (package : Path) : List String :=
  match project.readText (package.join "package.json") with
  | .ok text => ((Data.Json.parse? text).map describedEntries).getD []
  | .error _ => []

/-- What a request means in one package directory lies inside the project. -/
def packageInside (extensions : List String) (project : FileTree) (packages : Path)
    (request : PackageRequest) : Bool :=
  let package := packages.join request.name
  request.name.toList.head? != some '/' && package.stays &&
    match request.subpath? with
    | some sub => joinedInside extensions package sub
    | none => joinedInside extensions package "index"
      && (entriesIn project package).all (joinedInside extensions package)

/-- What a request means in the package directories beside some locations lies inside the project, as far
as they are searched. -/
def directoriesInside (extensions : List String) (project : FileTree) (request : PackageRequest) :
    List Location → Bool
  | [] => true
  | location :: rest =>
    let packages := (Path.ofNames location).join "node_modules"
    if project.isDirectory packages then
      packageInside extensions project packages request
        && match inPackages project extensions packages request with
          | .ok none => directoriesInside extensions project request rest
          | _ => true
    else directoriesInside extensions project request rest

/-- The equation is stated by hand, since that of the definition takes long to be made. -/
theorem directoriesInside_cons (extensions : List String) (project : FileTree)
    (request : PackageRequest) (location : Location) (rest : List Location) :
    directoriesInside extensions project request (location :: rest)
      = if project.isDirectory ((Path.ofNames location).join "node_modules") then
          packageInside extensions project ((Path.ofNames location).join "node_modules") request
            && match inPackages project extensions ((Path.ofNames location).join "node_modules")
                request with
              | .ok none => directoriesInside extensions project request rest
              | _ => true
        else directoriesInside extensions project request rest := by
  rfl

/-- **What a request means in a directory lies inside the project.** -/
def requestInside (extensions : List String) (project : FileTree) (request : String)
    (dir : Location) : Bool :=
  if request == "" then true
  else if isRelative request then joinedInside extensions (Path.ofNames dir) request
  else match dropPrefix? ['/'] request.toList with
    | some rooted => joinedInside extensions (Path.ofNames []) (String.ofList rooted)
    | none =>
      (packageRequest? request).all fun package =>
        directoriesInside extensions project package (upwards dir)

/-! ## §2. Files. -/

/-- **The same answer** in a project and in a tree that has it at a location: the same file inside the
project, no file, or some fault. -/
inductive Alike (root : Location) :
    Except ResolutionFault (Option Path) → Except ResolutionFault (Option Path) → Prop
  | nothing : Alike root (.ok none) (.ok none)
  | found {p : Path} (h : p.stays = true) : Alike root (.ok (some p)) (.ok (some (p.below root)))
  | fault {e e' : ResolutionFault} : Alike root (.error e) (.error e')

variable {tree project : FileTree} {root here : Location} {extensions : List String} {p : Path}
  {q : String} {found : Option Path}

/-- The first of some paths that leads to a file. -/
theorem alike_find? (h : tree.Holds project root) (hlinks : project.LinkFree) :
    ∀ (paths : List Path), (∀ p ∈ paths, p.stays = true) →
      Alike root (.ok (paths.find? project.isFile))
        (.ok ((paths.map (Path.below root)).find? tree.isFile))
  | [], _ => .nothing
  | p :: paths, hstays => by
      obtain ⟨hp, hstays⟩ := List.forall_mem_cons.mp hstays
      rw [List.map_cons, List.find?_cons, List.find?_cons, h.isFile_below hlinks hp]
      cases project.isFile p with
      | true => exact .found hp
      | false => exact alike_find? h hlinks paths hstays

theorem candidates_below (p : Path) :
    candidates extensions (p.below root) = (candidates extensions p).map (Path.below root) := by
  simp [candidates, Path.below_append, Function.comp_def]

/-- **The file that a path means.** -/
theorem alike_file? (h : tree.Holds project root) (hlinks : project.LinkFree)
    (hinside : targetInside extensions p = true) :
    Alike root (.ok (file? project extensions p)) (.ok (file? tree extensions (p.below root))) := by
  unfold targetInside at hinside
  rw [List.all_eq_true] at hinside
  have hp : p.stays = true := hinside p (by simp)
  have hindex : (p.below root).join "index" = (p.join "index").below root :=
    Path.below_join ((Bool.and_eq_true _ _).mp hp).1 (by simp [Path.IsRelative])
  unfold file?
  rw [h.isFile_below hlinks hp, h.isDirectory_below hlinks hp, candidates_below, hindex,
    candidates_below]
  split
  next => exact .found hp
  next =>
    have hfirst := alike_find? h hlinks (candidates extensions p) fun q hq =>
      hinside q (by simp [hq])
    generalize (candidates extensions p).find? project.isFile = first at hfirst ⊢
    generalize ((candidates extensions p).map (Path.below root)).find? tree.isFile = first'
      at hfirst ⊢
    cases hfirst with
    | found hq => exact .found hq
    | nothing =>
        dsimp only
        split
        next =>
          exact alike_find? h hlinks (candidates extensions (p.join "index")) fun q hq =>
            hinside q (by simp [hq])
        next => exact .nothing

/-- The file that a text means from a place. -/
theorem alike_joined (h : tree.Holds project root) (hlinks : project.LinkFree)
    (hp : p.isAbsolute = true) (hinside : joinedInside extensions p q = true) :
    Alike root (.ok (file? project extensions (p.join q)))
      (.ok (file? tree extensions ((p.below root).join q))) := by
  obtain ⟨hrelative, hinside⟩ := (Bool.and_eq_true _ _).mp hinside
  rw [Path.below_join hp (by simpa [Path.IsRelative] using hrelative)]
  exact alike_file? h hlinks hinside

/-- The file that a text means from a location. -/
theorem alike_joined_ofNames (h : tree.Holds project root) (hlinks : project.LinkFree)
    (hinside : joinedInside extensions (Path.ofNames here) q = true) :
    Alike root (.ok (file? project extensions ((Path.ofNames here).join q)))
      (.ok (file? tree extensions ((Path.ofNames (root ++ here)).join q))) := by
  obtain ⟨hrelative, hinside⟩ := (Bool.and_eq_true _ _).mp hinside
  rw [Path.join_ofNames h.names (by simpa [Path.IsRelative] using hrelative)]
  exact alike_file? h hlinks hinside

/-! ## §3. Packages. -/

theorem isFileName_description : IsFileName "package.json" :=
  ⟨by simp [IsName], by simp⟩

theorem isFileName_packages : IsFileName "node_modules" :=
  ⟨by simp [IsName], by simp⟩

/-- The first of some entries of a package that leads to a file. -/
theorem alike_findSome? (h : tree.Holds project root) (hlinks : project.LinkFree)
    (hp : p.isAbsolute = true) : ∀ {entries : List String},
      (∀ q ∈ entries, joinedInside extensions p q = true) →
      Alike root (.ok (entries.findSome? fun q => file? project extensions (p.join q)))
        (.ok (entries.findSome? fun q => file? tree extensions ((p.below root).join q)))
  | [], _ => .nothing
  | q :: entries, hinside => by
      obtain ⟨hq, hinside⟩ := List.forall_mem_cons.mp hinside
      have hfirst := alike_joined h hlinks hp hq
      rw [List.findSome?_cons, List.findSome?_cons]
      generalize file? project extensions (p.join q) = first at hfirst ⊢
      generalize file? tree extensions ((p.below root).join q) = first' at hfirst ⊢
      cases hfirst with
      | found hfound => exact .found hfound
      | nothing => exact alike_findSome? h hlinks hp hinside

/-- **The file of a package that its description names.** -/
theorem alike_describedFile (h : tree.Holds project root) (hlinks : project.LinkFree)
    (hp : p.stays = true)
    (hinside : ∀ q ∈ entriesIn project p, joinedInside extensions p q = true) :
    Alike root (describedFile project extensions p)
      (describedFile tree extensions (p.below root)) := by
  have habsolute : p.isAbsolute = true := ((Bool.and_eq_true _ _).mp hp).1
  have hdescription : (p.below root).join "package.json" = (p.join "package.json").below root :=
    Path.below_join habsolute (by simp [Path.IsRelative])
  have hstays : (p.join "package.json").stays = true := Path.stays_join hp isFileName_description
  unfold describedFile
  dsimp only
  rw [hdescription, h.isFile_below hlinks hstays, h.readText_below hlinks hstays]
  split
  next => exact .nothing
  next =>
    unfold entriesIn at hinside
    cases htext : project.readText (p.join "package.json") with
    | error e => exact .fault
    | ok text =>
        rw [htext] at hinside
        dsimp only at hinside ⊢
        cases hvalue : Data.Json.parse? text with
        | none => exact .fault
        | some value =>
            rw [hvalue] at hinside
            exact alike_findSome? h hlinks habsolute hinside

/-- **The file that a request means in one package directory.** -/
theorem alike_inPackages (h : tree.Holds project root) (hlinks : project.LinkFree)
    {request : PackageRequest} (hp : p.isAbsolute = true)
    (hinside : packageInside extensions project p request = true) :
    Alike root (inPackages project extensions p request)
      (inPackages tree extensions (p.below root) request) := by
  unfold packageInside at hinside
  simp only [Bool.and_eq_true] at hinside
  obtain ⟨⟨hrelative, hstays⟩, hinside⟩ := hinside
  have hpackage : (p.below root).join request.name = (p.join request.name).below root :=
    Path.below_join hp (by simpa [Path.IsRelative] using hrelative)
  have habsolute : (p.join request.name).isAbsolute = true := ((Bool.and_eq_true _ _).mp hstays).1
  unfold inPackages
  dsimp only
  rw [hpackage, h.isDirectory_below hlinks hstays]
  split
  next => exact .nothing
  next =>
    cases hsub : request.subpath? with
    | some sub =>
        rw [hsub] at hinside
        exact alike_joined h hlinks habsolute hinside
    | none =>
        rw [hsub] at hinside
        simp only [Bool.and_eq_true, List.all_eq_true] at hinside
        have hdescribed := alike_describedFile h hlinks hstays hinside.2
        dsimp only
        generalize describedFile project extensions (p.join request.name) = first at hdescribed ⊢
        generalize describedFile tree extensions ((p.join request.name).below root) = first'
          at hdescribed ⊢
        cases hdescribed with
        | fault => exact .fault
        | found hfound => exact .found hfound
        | nothing => exact alike_joined h hlinks habsolute hinside.1

/-- There are no packages beside a directory that has no directory of them. -/
theorem isDirectory_packages {d : Location} (hnames : ∀ n ∈ d, IsFileName n)
    (hstands : tree.Stands d) (hnone : tree.entry? (d ++ ["node_modules"]) = none) :
    tree.isDirectory ((Path.ofNames d).join "node_modules") = false := by
  have hjoin : (Path.ofNames d).join "node_modules"
      = ((Path.ofNames []).join "node_modules").below d := by
    rw [← Path.join_ofNames hnames (by simp [Path.IsRelative]), List.append_nil]
  obtain ⟨fuel, rest, hsegments, hfuel, hfind⟩ := exists_walk_of_find true
    (p := (Path.ofNames []).join "node_modules") hnames hstands (by decide)
  obtain rfl : ["node_modules"] = rest := (List.cons.inj (hsegments ▸ rfl :
    "" :: ["node_modules"] = "" :: rest)).2
  obtain ⟨fuel, rfl⟩ : ∃ n, fuel = n + 1 := ⟨fuel - 1, by simp at hfuel; omega⟩
  unfold isDirectory resolve
  rw [hjoin, hfind, walk]
  simp [hnone]

theorem inDirectories_alone (request? : Option PackageRequest) {above : List Location}
    (h : ∀ d ∈ above, tree.isDirectory ((Path.ofNames d).join "node_modules") = false) :
    inDirectories tree extensions request? above = .ok none := by
  induction above with
  | nil => rfl
  | cons d above ih =>
      obtain ⟨hd, h⟩ := List.forall_mem_cons.mp h
      cases request? with
      | none => rfl
      | some request =>
          rw [inDirectories]
          simp [hd, orElse, ih h]

/-- **The file that a request means in the package directories** beside some locations of the project. -/
theorem alike_inDirectories (h : tree.Holds project root) (hlinks : project.LinkFree)
    {request : PackageRequest} {above locations : List Location}
    (habove : ∀ d ∈ above, tree.isDirectory ((Path.ofNames d).join "node_modules") = false)
    (hnames : ∀ l ∈ locations, ∀ n ∈ l, IsFileName n)
    (hinside : directoriesInside extensions project request locations = true) :
    Alike root (inDirectories project extensions (some request) locations)
      (inDirectories tree extensions (some request) (locations.map (root ++ ·) ++ above)) := by
  induction locations with
  | nil =>
      rw [List.map_nil, List.nil_append, inDirectories_alone _ habove]
      exact .nothing
  | cons l locations ih =>
      obtain ⟨hl, hnames⟩ := List.forall_mem_cons.mp hnames
      have hstays : ((Path.ofNames l).join "node_modules").stays = true :=
        Path.stays_join (Path.stays_ofNames hl) isFileName_packages
      have hjoin : (Path.ofNames (root ++ l)).join "node_modules"
          = ((Path.ofNames l).join "node_modules").below root :=
        Path.join_ofNames h.names (by simp [Path.IsRelative])
      rw [directoriesInside_cons] at hinside
      rw [List.map_cons, List.cons_append, inDirectories, inDirectories]
      rw [hjoin, h.isDirectory_below hlinks hstays]
      split at hinside
      next hdirectory =>
        obtain ⟨hpackage, hrest⟩ := (Bool.and_eq_true _ _).mp hinside
        have hfirst := alike_inPackages h hlinks ((Bool.and_eq_true _ _).mp hstays).1 hpackage
        rw [if_pos hdirectory, if_pos hdirectory]
        generalize inPackages project extensions ((Path.ofNames l).join "node_modules") request
          = first at hfirst hrest ⊢
        generalize inPackages tree extensions
          (((Path.ofNames l).join "node_modules").below root) request = first' at hfirst ⊢
        cases hfirst with
        | fault => exact .fault
        | found hfound => exact .found hfound
        | nothing => exact ih hnames hrest
      next hdirectory =>
        rw [if_neg hdirectory, if_neg hdirectory]
        exact ih hnames hinside

theorem upwards_concat (l : Location) (n : String) :
    upwards (l ++ [n]) = (l ++ [n]) :: upwards l := by
  unfold upwards
  rw [List.length_append, List.length_singleton, List.range_succ, List.reverse_append,
    List.reverse_singleton, List.singleton_append, List.map_cons, List.take_of_length_le (by simp)]
  congr 1
  refine List.map_congr_left fun i hi => ?_
  rw [List.mem_reverse, List.mem_range] at hi
  exact List.take_append_of_le_length (by omega)

/-- The directories from one of the project upwards: those of the project, and those above it. -/
theorem exists_upwards_append (root : Location) (l : Location) :
    ∃ above, upwards (root ++ l) = (upwards l).map (root ++ ·) ++ above
      ∧ ∀ d ∈ above, d <+: root ∧ d ≠ root := by
  induction l using List.reverseRecOn with
  | nil =>
      rcases List.eq_nil_or_concat root with rfl | ⟨up, n, hconcat⟩
      · exact ⟨[], rfl, List.forall_mem_nil _⟩
      · rw [List.concat_eq_append] at hconcat
        refine ⟨upwards up, ?_, fun d hd => ?_⟩
        · rw [List.append_nil, hconcat, upwards_concat]
          simp [upwards]
        · obtain ⟨i, _, rfl⟩ := List.mem_map.mp hd
          have hbegins : List.take i up <+: up := List.take_prefix i up
          refine ⟨hbegins.trans ⟨[n], hconcat.symm⟩, fun heq => ?_⟩
          have hlength := hbegins.length_le
          rw [heq, hconcat, List.length_append, List.length_singleton] at hlength
          omega
  | append_singleton l n ih =>
      obtain ⟨above, hsplit, habove⟩ := ih
      refine ⟨above, ?_, habove⟩
      rw [← List.append_assoc, upwards_concat, hsplit, upwards_concat, List.map_cons,
        List.append_assoc, List.cons_append]

/-! ## §4. Specifiers. -/

variable {config : Config} {m : Identity}

/-- **The file that a request means.** -/
theorem alike_requestedFile (h : tree.Holds project root) (hlinks : project.LinkFree)
    (hm : m.location ≠ []) (hnames : ∀ n ∈ m.location, IsFileName n) {request : String}
    (hinside : requestInside config.resolution.extensions project request
      m.location.dropLast = true) :
    Alike root (requestedFile (config.placedAt []) project request m)
      (requestedFile (config.placedAt root) tree request (m.below root)) := by
  have hdir : (m.below root).location.dropLast = root ++ m.location.dropLast :=
    List.dropLast_append_of_ne_nil hm
  unfold requestInside at hinside
  unfold requestedFile
  dsimp only [Config.placedAt]
  rw [hdir]
  split
  next => exact .fault
  next hempty =>
    rw [if_neg hempty] at hinside
    split
    next hrelative =>
      rw [if_pos hrelative] at hinside
      exact alike_joined_ofNames h hlinks hinside
    next hrelative =>
      rw [if_neg hrelative] at hinside
      split
      next rooted hrooted =>
        rw [hrooted] at hinside
        have hfile := alike_joined_ofNames h hlinks hinside
        rwa [List.append_nil] at hfile
      next hrooted =>
        rw [hrooted] at hinside
        split
        next => exact .fault
        next =>
          cases hpackage : packageRequest? request with
          | none =>
              have hnone : ∀ (files : FileTree) (locations : List Location),
                  inDirectories files config.resolution.extensions none locations = .ok none := by
                intro files locations
                cases locations <;> rfl
              rw [hnone, hnone]
              exact .nothing
          | some package =>
              rw [hpackage] at hinside
              obtain ⟨above, hsplit, habove⟩ := exists_upwards_append root m.location.dropLast
              rw [hsplit]
              refine alike_inDirectories h hlinks (fun d hd => ?_) (fun l hl n hn => ?_) hinside
              · obtain ⟨hbegins, hne⟩ := habove d hd
                exact isDirectory_packages (fun n hn => h.names n (hbegins.mem hn))
                  (h.stands.above hbegins) (h.alone d hbegins hne)
              · obtain ⟨i, _, rfl⟩ := List.mem_map.mp hl
                exact hnames n (List.dropLast_subset _ (List.mem_of_mem_take hn))

/-- The module at the end of a path of the project. -/
theorem ofPath_below (h : tree.Holds project root) (hlinks : project.LinkFree)
    (hp : p.stays = true) :
    Identity.ofPath tree (p.below root)
      = (Identity.ofPath project p).map (Identity.below root) := by
  unfold Identity.ofPath
  rw [h.canonical_below hlinks hp]
  cases project.canonical p <;> rfl

/-- **THE MODULE THAT A SPECIFIER MEANS** does not depend on where the project is. -/
theorem specifier_below (h : tree.Holds project root) (hlinks : project.LinkFree)
    (hm : m.location ≠ []) (hnames : ∀ n ∈ m.location, IsFileName n) {text : String}
    (hinside : requestInside config.resolution.extensions project (request text)
      m.location.dropLast = true) :
    (specifier (config.placedAt root) tree text (m.below root)).toOption
      = (specifier (config.placedAt []) project text m).toOption.map (Identity.below root) := by
  have hfile := alike_requestedFile h hlinks hm hnames hinside
  unfold specifier
  dsimp only
  generalize requestedFile (config.placedAt []) project (request text) m = first at hfile ⊢
  generalize requestedFile (config.placedAt root) tree (request text) (m.below root) = first'
    at hfile ⊢
  cases hfile with
  | fault => rfl
  | nothing => rfl
  | @found p hp =>
      dsimp only
      rw [ofPath_below h hlinks hp]
      cases Identity.ofPath project p <;> rfl

/-- **The module of an entry file** does not depend on where the project is. -/
theorem entry_below (h : tree.Holds project root) (hlinks : project.LinkFree)
    (hp : p.stays = true) :
    (entry (config.placedAt root) tree (p.below root)).toOption
      = (entry (config.placedAt []) project p).toOption.map (Identity.below root) := by
  unfold entry
  rw [ofPath_below h hlinks hp]
  cases Identity.ofPath project p <;> rfl

end Resolve

end AssetBundler
