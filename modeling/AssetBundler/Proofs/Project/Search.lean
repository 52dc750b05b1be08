/-
  AssetBundler.Proofs.Project.Search
  ────────────────────────────────
  **WHICH FILE A SPECIFIER MEANS.**

  The request of a package goes through the directories from the importing
  module up.  The nearest one that has the package and a file for the request
  decides, and a description of a package that cannot be used ends the search:

    • `Resolve.Gives`, `Resolve.Broken`, `Resolve.PassesOver` — what one
      directory of packages comes to,
    • `Resolve.inDirectories_upwards` — the nearest one, by induction on the
      location,
    • `Resolve.specifier_finds_first_file` — specifiers and their modules.
-/
import AssetBundler.Proofs.Build.Action
import AssetBundler.Proofs.Project.Below
import AssetBundler.Proofs.Project.Request
import AssetBundler.Proofs.Project.Resolve

namespace AssetBundler.Resolve

open FileTree AssetBundler.Text

variable {files : FileTree} {extensions : List String} {m : Identity} {target : Path}

/-! ## §1. One directory of packages. -/

variable {here dir : Location} {q : PackageRequest}

/-- The directory of packages beside a location. -/
def packagesAt (dir : Location) : Path :=
  (Path.ofNames dir).join "node_modules"

/-- The directory of the package that a request asks for, beside a location. -/
def packageAt (dir : Location) (q : PackageRequest) : Path :=
  (packagesAt dir).join q.name

/-- The packages beside a location include the one that a request asks for. -/
def HasPackage (files : FileTree) (dir : Location) (q : PackageRequest) : Prop :=
  files.isDirectory (packagesAt dir) = true ∧ files.isDirectory (packageAt dir q) = true

/-- A package has a description that cannot be read, or that cannot be understood. -/
inductive Unusable (files : FileTree) (package : Path) : Prop
  | unreadable {e : FileError} (hfile : files.isFile (package.join "package.json") = true)
      (h : files.readText (package.join "package.json") = .error e)
  | malformed {text : String} (hfile : files.isFile (package.join "package.json") = true)
      (h : files.readText (package.join "package.json") = .ok text)
      (hparse : Data.Json.parse? text = none)

/-- The description of the package is asked for, since the request gives no way to a file, and it cannot be
used. -/
def Spoiled (files : FileTree) (dir : Location) (q : PackageRequest) : Prop :=
  q.subpath? = none ∧ Unusable files (packageAt dir q)

/-- **The paths that are read in a package**: those for the file of the request, or else those for the
entries of the description and at last for the index. -/
def packageReadings (files : FileTree) (extensions : List String) (dir : Location)
    (q : PackageRequest) : List Path :=
  match q.subpath? with
  | some sub => readings files extensions ((packageAt dir q).join sub)
  | none => (entriesIn files (packageAt dir q) ++ ["index"]).flatMap fun entry =>
      readings files extensions ((packageAt dir q).join entry)

/-- **The packages beside a location give a module.** -/
def Gives (files : FileTree) (extensions : List String) (dir : Location) (q : PackageRequest)
    (m : Identity) : Prop :=
  HasPackage files dir q ∧ ¬ Spoiled files dir q ∧ First files (packageReadings files extensions dir q) m

/-- **The packages beside a location end the search.** -/
def Broken (files : FileTree) (dir : Location) (q : PackageRequest) : Prop :=
  HasPackage files dir q ∧ Spoiled files dir q

/-- **The packages beside a location are passed over**: there is no such package, or no file in it. -/
def PassesOver (files : FileTree) (extensions : List String) (dir : Location)
    (q : PackageRequest) : Prop :=
  ¬ HasPackage files dir q
    ∨ ¬ Spoiled files dir q
      ∧ ∀ p ∈ packageReadings files extensions dir q, files.isFile p = false

/-- What the packages beside a location come to. -/
def beside (files : FileTree) (extensions : List String) (dir : Location) (q : PackageRequest) :
    Except ResolutionFault (Option Path) :=
  if files.isDirectory (packagesAt dir) then inPackages files extensions (packagesAt dir) q
  else .ok none

theorem find?_flatMap_readings (entries : List String) (package : Path) :
    (entries.flatMap fun entry => readings files extensions (package.join entry)).find? files.isFile
      = entries.findSome? fun entry => file? files extensions (package.join entry) := by
  simp only [file?_eq_find?]
  induction entries with
  | nil => rfl
  | cons entry rest ih =>
      rw [List.flatMap_cons, List.find?_append, List.findSome?_cons, ih]
      cases (readings files extensions (package.join entry)).find? files.isFile <;> rfl

/-- The description of a package, if there is one and it can be used, gives the first of its entries that
leads to a file. -/
theorem describedFile_of_usable {package : Path} (h : ¬ Unusable files package) :
    describedFile files extensions package
      = .ok ((entriesIn files package).findSome? fun entry =>
          file? files extensions (package.join entry)) := by
  unfold describedFile entriesIn
  dsimp only
  by_cases hfile : files.isFile (package.join "package.json") = true
  · rw [if_neg (by simp [hfile])]
    cases htext : files.readText (package.join "package.json") with
    | error e => exact absurd (.unreadable hfile htext) h
    | ok text =>
        cases hvalue : Data.Json.parse? text with
        | none => exact absurd (.malformed hfile htext hvalue) h
        | some value =>
            dsimp only
            rw [hvalue]
            rfl
  · -- what is no file is not read as one
    have hnone : ∀ text, files.readText (package.join "package.json") ≠ .ok text := by
      intro text htext
      refine hfile ?_
      unfold FileTree.readText FileTree.read at htext
      unfold FileTree.isFile
      split at htext
      next hresolve => rw [hresolve]
      next => cases htext
      next => cases htext
    rw [if_pos (by simpa using hfile)]
    cases htext : files.readText (package.join "package.json") with
    | error e => rfl
    | ok text => exact absurd htext (hnone text)

theorem exists_describedFile_of_unusable (extensions : List String) {package : Path}
    (h : Unusable files package) :
    ∃ e, describedFile files extensions package = .error e := by
  unfold describedFile
  cases h with
  | unreadable hfile htext =>
      dsimp only
      rw [if_neg (by simp [hfile]), htext]
      exact ⟨_, rfl⟩
  | malformed hfile htext hparse =>
      dsimp only
      rw [if_neg (by simp [hfile]), htext]
      dsimp only
      rw [hparse]
      exact ⟨_, rfl⟩

theorem beside_of_not_hasPackage (h : ¬ HasPackage files dir q) :
    beside files extensions dir q = .ok none := by
  unfold beside inPackages
  split
  next hpackages =>
    have hpackage : ¬ files.isDirectory ((packagesAt dir).join q.name) = true := fun hdir =>
      h ⟨hpackages, hdir⟩
    exact if_pos (by simpa using hpackage)
  next => rfl

theorem exists_beside_of_broken (extensions : List String) (h : Broken files dir q) :
    ∃ e, beside files extensions dir q = .error e := by
  obtain ⟨⟨hpackages, hpackage⟩, hsub, hunusable⟩ := h
  obtain ⟨e, he⟩ := exists_describedFile_of_unusable extensions hunusable
  refine ⟨e, ?_⟩
  unfold beside inPackages
  rw [if_pos hpackages]
  dsimp only
  rw [if_neg (by simpa [packageAt] using hpackage), hsub]
  dsimp only
  rw [show (packagesAt dir).join q.name = packageAt dir q from rfl, he]

/-- **A package that can be used** gives the first of its paths that leads to a file. -/
theorem beside_of_usable (h : HasPackage files dir q) (husable : ¬ Spoiled files dir q) :
    beside files extensions dir q
      = .ok ((packageReadings files extensions dir q).find? files.isFile) := by
  obtain ⟨hpackages, hpackage⟩ := h
  unfold beside inPackages packageReadings
  rw [if_pos hpackages]
  dsimp only
  rw [if_neg (by simpa [packageAt] using hpackage)]
  rw [show (packagesAt dir).join q.name = packageAt dir q from rfl]
  cases hsub : q.subpath? with
  | some sub =>
      dsimp only
      rw [file?_eq_find?]
  | none =>
      dsimp only
      rw [describedFile_of_usable fun hunusable => husable ⟨hsub, hunusable⟩, find?_flatMap_readings,
        List.findSome?_append]
      cases (entriesIn files (packageAt dir q)).findSome? fun entry =>
        file? files extensions ((packageAt dir q).join entry) with
      | some found => rfl
      | none =>
          dsimp only
          rw [Option.none_or, List.findSome?_singleton]

/-- A search gives a file of a module. -/
def FileFound (files : FileTree) (found : Except ResolutionFault (Option Path)) (m : Identity) :
    Prop :=
  ∃ path, found = .ok (some path) ∧ LeadsTo files path m

theorem fileFound_beside_iff :
    FileFound files (beside files extensions dir q) m ↔ Gives files extensions dir q m := by
  unfold FileFound Gives
  rw [first_iff]
  by_cases hpackage : HasPackage files dir q
  · by_cases hspoiled : Spoiled files dir q
    · obtain ⟨e, he⟩ := exists_beside_of_broken extensions ⟨hpackage, hspoiled⟩
      simp [he, hspoiled]
    · simp [beside_of_usable hpackage hspoiled, hpackage, hspoiled]
  · simp [beside_of_not_hasPackage hpackage, hpackage]

theorem exists_beside_eq_error_iff :
    (∃ e, beside files extensions dir q = .error e) ↔ Broken files dir q := by
  refine ⟨fun ⟨e, he⟩ => ?_, exists_beside_of_broken extensions⟩
  by_contra h
  by_cases hpackage : HasPackage files dir q
  · have husable : ¬ Spoiled files dir q := fun hspoiled => h ⟨hpackage, hspoiled⟩
    rw [beside_of_usable hpackage husable] at he
    cases he
  · rw [beside_of_not_hasPackage hpackage] at he
    cases he

theorem beside_eq_none_iff :
    beside files extensions dir q = .ok none ↔ PassesOver files extensions dir q := by
  unfold PassesOver
  rw [← find?_eq_none_iff]
  by_cases hpackage : HasPackage files dir q
  · by_cases hspoiled : Spoiled files dir q
    · obtain ⟨e, he⟩ := exists_beside_of_broken extensions ⟨hpackage, hspoiled⟩
      simp [he, hpackage, hspoiled]
    · simp [beside_of_usable hpackage hspoiled, hpackage, hspoiled]
  · simp [beside_of_not_hasPackage hpackage, hpackage]

/-! ## §2. The nearest packages. -/

/-- **The nearest location above the importing module** whose packages matter: those beside the locations
further in are passed over. -/
def Nearest (files : FileTree) (extensions : List String) (here : Location) (q : PackageRequest)
    (dir : Location) : Prop :=
  dir <+: here
    ∧ ∀ inner, inner <+: here → dir.length < inner.length → PassesOver files extensions inner q

theorem inDirectories_cons (rest : List Location) :
    inDirectories files extensions (some q) (dir :: rest)
      = orElse (beside files extensions dir q) (inDirectories files extensions (some q) rest) := by
  rw [inDirectories]
  rfl

/-- The search ends at packages that are not passed over. -/
theorem orElse_beside (h : ¬ PassesOver files extensions dir q)
    (rest : Except ResolutionFault (Option Path)) :
    orElse (beside files extensions dir q) rest = beside files extensions dir q := by
  unfold orElse
  split
  next hnone => exact absurd (beside_eq_none_iff.mp hnone) h
  next => rfl

theorem Nearest.self (files : FileTree) (extensions : List String) (here : Location)
    (q : PackageRequest) : Nearest files extensions here q here :=
  ⟨List.prefix_rfl, fun _ hinner hlength => absurd hinner.length_le (not_le.mpr hlength)⟩

/-- Further in, there is one more location whose packages are passed over. -/
theorem Nearest.concat {name : String} (h : Nearest files extensions here q dir)
    (hpasses : PassesOver files extensions (here ++ [name]) q) :
    Nearest files extensions (here ++ [name]) q dir := by
  refine ⟨h.1.trans (List.prefix_append _ _), fun inner hinner hlength => ?_⟩
  rcases List.prefix_concat_iff.mp hinner with rfl | hinner
  · exact hpasses
  · exact h.2 inner hinner hlength

/-- **The search upwards** ends at the nearest packages that are not passed over. -/
theorem inDirectories_upwards (files : FileTree) (extensions : List String) (q : PackageRequest)
    (here : Location) :
    (inDirectories files extensions (some q) (upwards here) = .ok none
        ∧ ∀ dir, dir <+: here → PassesOver files extensions dir q)
      ∨ ∃ dir, Nearest files extensions here q dir ∧ ¬ PassesOver files extensions dir q
        ∧ inDirectories files extensions (some q) (upwards here) = beside files extensions dir q := by
  induction here using List.reverseRecOn with
  | nil =>
      have hup : upwards [] = [[]] := rfl
      rw [hup, inDirectories_cons]
      by_cases hpasses : PassesOver files extensions [] q
      · refine Or.inl ⟨?_, fun dir hdir => List.prefix_nil.mp hdir ▸ hpasses⟩
        rw [beside_eq_none_iff.mpr hpasses]
        rfl
      · exact Or.inr ⟨[], .self .., hpasses, orElse_beside hpasses _⟩
  | append_singleton here name ih =>
      rw [upwards_concat, inDirectories_cons]
      by_cases hpasses : PassesOver files extensions (here ++ [name]) q
      · -- the search goes on in the location above
        rw [beside_eq_none_iff.mpr hpasses]
        show (inDirectories files extensions (some q) (upwards here) = .ok none ∧ _)
          ∨ ∃ dir, _ ∧ _ ∧ inDirectories files extensions (some q) (upwards here) = _
        rcases ih with ⟨hnone, habove⟩ | ⟨dir, hnearest, hmatters, heq⟩
        · refine Or.inl ⟨hnone, fun dir hdir => ?_⟩
          rcases List.prefix_concat_iff.mp hdir with rfl | hdir
          · exact hpasses
          · exact habove dir hdir
        · exact Or.inr ⟨dir, hnearest.concat hpasses, hmatters, heq⟩
      · exact Or.inr ⟨here ++ [name], .self .., hpasses, orElse_beside hpasses _⟩

/-- Two locations whose packages are the nearest that matter are one. -/
theorem Nearest.unique {dir' : Location} (h : Nearest files extensions here q dir)
    (h' : Nearest files extensions here q dir') (hdir : ¬ PassesOver files extensions dir q)
    (hdir' : ¬ PassesOver files extensions dir' q) : dir = dir' := by
  have hle : dir.length ≤ dir'.length := not_lt.mp fun hlt => hdir (h'.2 dir h.1 hlt)
  have hle' : dir'.length ≤ dir.length := not_lt.mp fun hlt => hdir' (h.2 dir' h'.1 hlt)
  exact (List.prefix_of_prefix_length_le h.1 h'.1 hle).eq_of_length (le_antisymm hle hle')

theorem Gives.not_passesOver (h : Gives files extensions dir q m) :
    ¬ PassesOver files extensions dir q := by
  obtain ⟨path, hpath, _⟩ := fileFound_beside_iff.mpr h
  rw [← beside_eq_none_iff, hpath]
  nofun

theorem Broken.not_passesOver (h : Broken files dir q) : ¬ PassesOver files extensions dir q := by
  obtain ⟨e, he⟩ := exists_beside_of_broken extensions h
  rw [← beside_eq_none_iff, he]
  nofun

theorem fileFound_inDirectories_iff :
    FileFound files (inDirectories files extensions (some q) (upwards here)) m
      ↔ ∃ dir, Nearest files extensions here q dir ∧ Gives files extensions dir q m := by
  rcases inDirectories_upwards files extensions q here with
    ⟨hnone, hpasses⟩ | ⟨nearest, hnearest, hmatters, heq⟩
  · rw [hnone]
    constructor
    · rintro ⟨path, hpath, _⟩
      cases hpath
    · rintro ⟨dir, hdir, hgives⟩
      exact absurd (hpasses dir hdir.1) hgives.not_passesOver
  · rw [heq, fileFound_beside_iff]
    constructor
    · exact fun hgives => ⟨nearest, hnearest, hgives⟩
    · rintro ⟨dir, hdir, hgives⟩
      rwa [hdir.unique hnearest hgives.not_passesOver hmatters] at hgives

/-- The search upwards finds nothing if all packages are passed over, and it fails if the nearest that
matter are broken. -/
theorem inDirectories_fails_iff :
    ((inDirectories files extensions (some q) (upwards here) = .ok none)
        ∨ ∃ e, inDirectories files extensions (some q) (upwards here) = .error e)
      ↔ (∀ dir, dir <+: here → PassesOver files extensions dir q)
        ∨ ∃ dir, Nearest files extensions here q dir ∧ Broken files dir q := by
  rcases inDirectories_upwards files extensions q here with
    ⟨hnone, hpasses⟩ | ⟨nearest, hnearest, hmatters, heq⟩
  · exact ⟨fun _ => Or.inl hpasses, fun _ => Or.inl hnone⟩
  · rw [heq, beside_eq_none_iff, exists_beside_eq_error_iff]
    constructor
    · rintro (hpasses | hbroken)
      · exact absurd hpasses hmatters
      · exact Or.inr ⟨nearest, hnearest, hbroken⟩
    · rintro (hpasses | ⟨dir, hdir, hbroken⟩)
      · exact absurd (hpasses nearest hnearest.1) hmatters
      · rw [hdir.unique hnearest hbroken.not_passesOver hmatters] at hbroken
        exact Or.inr hbroken

/-! ## §3. Specifiers. -/

variable {config : Config} {text request : String} {importer : Identity}

theorem specifier_eq_ok_iff :
    specifier config files text importer = .ok m
      ↔ FileFound files (requestedFile config files (Resolve.request text) importer) m := by
  unfold specifier FileFound
  dsimp only
  cases hrequested : requestedFile config files (Resolve.request text) importer with
  | error fault => simp
  | ok found? =>
      cases found? with
      | none => simp
      | some path =>
          dsimp only
          have hpath := ofPath_eq_ok_iff (m := m) (isFile_of_requestedFile hrequested)
          cases hofPath : Identity.ofPath files path with
          | ok m' =>
              rw [hofPath] at hpath
              simpa using hpath
          | error e =>
              rw [hofPath] at hpath
              simpa using hpath

/-- A specifier fails if no file is found, or if the search for one fails. -/
theorem specifier_fails_iff :
    (∃ e, specifier config files text importer = .error e)
      ↔ requestedFile config files (Resolve.request text) importer = .ok none
        ∨ ∃ e, requestedFile config files (Resolve.request text) importer = .error e := by
  constructor
  · rintro ⟨e, he⟩
    cases hrequested : requestedFile config files (Resolve.request text) importer with
    | error fault => exact Or.inr ⟨fault, rfl⟩
    | ok found? =>
        cases found? with
        | none => exact Or.inl rfl
        | some path =>
            -- a file that is found is that of a module
            obtain ⟨m, hm⟩ := exists_leadsTo (isFile_of_requestedFile hrequested)
            rw [specifier_eq_ok_iff.mpr ⟨path, hrequested, hm⟩] at he
            cases he
  · intro h
    cases hspecifier : specifier config files text importer with
    | error e => exact ⟨e, rfl⟩
    | ok m =>
        obtain ⟨path, hpath, _⟩ := specifier_eq_ok_iff.mp hspecifier
        rw [hpath] at h
        rcases h with h | ⟨e, h⟩ <;> cases h

theorem requestedFile_of_targetOf (h : TargetOf config importer request target) :
    requestedFile config files request importer
      = .ok (file? files config.resolution.extensions target) := by
  unfold requestedFile
  dsimp only
  cases h with
  | relative h =>
      have hne : ¬ (request == "") = true := by
        rw [beq_iff_eq]
        rintro rfl
        simp at h
      rw [if_neg hne, if_pos (isRelative_iff.mpr h)]
  | rooted rest =>
      have hrelative : ¬ isRelative ("/" ++ rest) = true := by
        rw [isRelative_iff, ← String.toList_inj, ← String.toList_inj]
        simp
      have hne : ¬ ("/" ++ rest == "") = true := by
        rw [beq_iff_eq, ← String.toList_inj]
        simp
      rw [if_neg hne, if_neg hrelative]
      simp [dropPrefix?]

theorem requestedFile_of_isBare (h : IsBare request) :
    requestedFile config files request importer
      = inDirectories files config.resolution.extensions (packageRequest? request)
          (upwards importer.location.dropLast) := by
  unfold requestedFile
  dsimp only
  have hrooted : dropPrefix? ['/'] request.toList = none := by
    refine Option.eq_none_iff_forall_ne_some.mpr fun rest hrest => h.notRooted ?_
    rw [dropPrefix?_eq_some_iff.mp hrest]
    rfl
  rw [if_neg (by simpa using h.ne_empty), if_neg (by simp [h.notRelative]), hrooted]
  dsimp only
  rw [if_neg (by simpa using h.notAddress)]

theorem exists_requestedFile_of_other (h : ∀ target, ¬ TargetOf config importer request target)
    (hbare : ¬ IsBare request) : ∃ e, requestedFile config files request importer = .error e := by
  unfold requestedFile
  dsimp only
  split
  next => exact ⟨_, rfl⟩
  next hne =>
    split
    next hrelative => exact absurd (.relative (isRelative_iff.mp hrelative)) (h _)
    next hrelative =>
      split
      next rest hrest =>
        have hrooted : request = "/" ++ String.ofList rest :=
          String.toList_inj.mp (by simp [dropPrefix?_eq_some_iff.mp hrest])
        rw [hrooted] at h
        exact absurd (TargetOf.rooted _) (h _)
      next hrooted =>
        split
        next => exact ⟨_, rfl⟩
        next haddress =>
          refine absurd ⟨by simpa using hne, by simpa using hrelative, fun hhead => ?_,
            by simpa using haddress⟩ hbare
          obtain ⟨rest, hrest⟩ := List.head?_eq_some_iff.mp hhead
          rw [dropPrefix?_eq_some_iff.mpr hrest] at hrooted
          cases hrooted

/-- The search for a request that is for no package finds nothing. -/
theorem inDirectories_none (directories : List Location) :
    inDirectories files extensions none directories = .ok none := by
  cases directories <;> rfl

/-- **The module of a request that names a package** is that of the nearest packages. -/
theorem fileFound_of_isBare (h : IsBare request) :
    FileFound files (requestedFile config files request importer) m
      ↔ ∃ q dir, Asks request q
        ∧ Nearest files config.resolution.extensions importer.location.dropLast q dir
        ∧ Gives files config.resolution.extensions dir q m := by
  rw [requestedFile_of_isBare h]
  cases hpackage : packageRequest? request with
  | none =>
      rw [inDirectories_none]
      constructor
      · rintro ⟨path, hpath, _⟩
        cases hpath
      · rintro ⟨q, dir, hasks, _⟩
        rw [packageRequest?_of_asks hasks] at hpackage
        cases hpackage
  | some q =>
      rw [fileFound_inDirectories_iff]
      constructor
      · rintro ⟨dir, hdir, hgives⟩
        exact ⟨q, dir, packageRequest?_eq_some_iff.mp hpackage, hdir, hgives⟩
      · rintro ⟨q', dir, hasks, hdir, hgives⟩
        obtain rfl := Option.some.inj (hpackage.symm.trans (packageRequest?_of_asks hasks))
        exact ⟨dir, hdir, hgives⟩

/-- **A request that names a package fails** if all packages are passed over or the nearest are broken. -/
theorem requestedFile_fails_of_isBare (h : IsBare request) :
    (requestedFile config files request importer = .ok none
        ∨ ∃ e, requestedFile config files request importer = .error e)
      ↔ (∀ q, Asks request q → ∀ dir, dir <+: importer.location.dropLast →
          PassesOver files config.resolution.extensions dir q)
        ∨ ∃ q dir, Asks request q
          ∧ Nearest files config.resolution.extensions importer.location.dropLast q dir
          ∧ Broken files dir q := by
  rw [requestedFile_of_isBare h]
  cases hpackage : packageRequest? request with
  | none =>
      rw [inDirectories_none]
      refine ⟨fun _ => Or.inl fun q hasks => ?_, fun _ => Or.inl rfl⟩
      rw [packageRequest?_of_asks hasks] at hpackage
      cases hpackage
  | some q =>
      have hasks : Asks request q := packageRequest?_eq_some_iff.mp hpackage
      have hunique : ∀ q', Asks request q' → q' = q := fun q' hasks' =>
        Option.some.inj ((packageRequest?_of_asks hasks').symm.trans hpackage)
      rw [inDirectories_fails_iff]
      constructor
      · rintro (hpasses | ⟨dir, hdir, hbroken⟩)
        · exact Or.inl fun q' hasks' => hunique q' hasks' ▸ hpasses
        · exact Or.inr ⟨q, dir, hasks, hdir, hbroken⟩
      · rintro (hpasses | ⟨q', dir, hasks', hdir, hbroken⟩)
        · exact Or.inl (hpasses q hasks)
        · obtain rfl := hunique q' hasks'
          exact Or.inr ⟨dir, hdir, hbroken⟩

/-- A module that a specifier leads to is that of a file at its location. -/
theorem isFileAt_of_specifier (hfiles : files.Grounded)
    (h : specifier config files text importer = .ok m) : files.IsFileAt m.location := by
  obtain ⟨path, _, content, hresolve⟩ := specifier_eq_ok_iff.mp h
  exact isFileAt_of_resolve hfiles hresolve

/-- **THE MODULE THAT A SPECIFIER MEANS.**  If its request, what it is without query and fragment, means
a path, then it leads to the first file among the path itself, the path with each of the extensions,
and the index of the directory with each of them; it fails if none of these is a file.  If its request
names a package, then it leads to what the nearest packages give that are not passed over, and it fails
if all are passed over or the nearest of them have a description that cannot be used.  It fails for any
other request.  A module that it leads to has the location of a file, to which there is no other path
without links and dots: two specifiers whose modules have one file lead to one module.  This last part
is said of trees whose working directory is given as such a location too. -/
theorem specifier_finds_first_file (config : Config) (files : FileTree) (text : String)
    (importer : Identity) :
    (∀ target, TargetOf config importer (Resolve.request text) target →
        (∀ m, specifier config files text importer = .ok m
            ↔ First files (readings files config.resolution.extensions target) m)
          ∧ ((∃ e, specifier config files text importer = .error e)
            ↔ ∀ p ∈ readings files config.resolution.extensions target, files.isFile p = false))
      ∧ (IsBare (Resolve.request text) →
        (∀ m, specifier config files text importer = .ok m
            ↔ ∃ q dir, Asks (Resolve.request text) q
              ∧ Nearest files config.resolution.extensions importer.location.dropLast q dir
              ∧ Gives files config.resolution.extensions dir q m)
          ∧ ((∃ e, specifier config files text importer = .error e)
            ↔ (∀ q, Asks (Resolve.request text) q → ∀ dir, dir <+: importer.location.dropLast →
                PassesOver files config.resolution.extensions dir q)
              ∨ ∃ q dir, Asks (Resolve.request text) q
                ∧ Nearest files config.resolution.extensions importer.location.dropLast q dir
                ∧ Broken files dir q))
      ∧ ((∀ target, ¬ TargetOf config importer (Resolve.request text) target) →
        ¬ IsBare (Resolve.request text) → ∃ e, specifier config files text importer = .error e)
      ∧ (files.Grounded → ∀ m, specifier config files text importer = .ok m →
        files.IsFileAt m.location ∧ files.canonical m.path = .ok m.location
          ∧ ∀ text' importer' m', specifier config files text' importer' = .ok m' →
            files.canonical m'.path = files.canonical m.path → m' = m) := by
  refine ⟨fun target htarget => ⟨fun m => ?_, ?_⟩, fun hbare => ⟨fun m => ?_, ?_⟩,
    fun htarget hbare => ?_, fun hfiles m hm => ?_⟩
  · rw [specifier_eq_ok_iff, requestedFile_of_targetOf htarget, file?_eq_find?, first_iff]
    simp [FileFound]
  · rw [specifier_fails_iff, requestedFile_of_targetOf htarget, file?_eq_find?, ← find?_eq_none_iff]
    simp
  · rw [specifier_eq_ok_iff, fileFound_of_isBare hbare]
  · rw [specifier_fails_iff, requestedFile_fails_of_isBare hbare]
  · exact specifier_fails_iff.mpr (Or.inr (exists_requestedFile_of_other htarget hbare))
  · have hcanonical : files.canonical m.path = .ok m.location :=
      (isFileAt_of_specifier hfiles hm).canonical_ofNames
    refine ⟨isFileAt_of_specifier hfiles hm, hcanonical, fun text' importer' m' hm' hsame => ?_⟩
    have hcanonical' : files.canonical m'.path = .ok m'.location :=
      (isFileAt_of_specifier hfiles hm').canonical_ofNames
    rw [hcanonical, hcanonical'] at hsame
    cases m
    cases m'
    cases hsame
    rfl

/-- A tree with a link to a script, and with a package in two places: the nearer one has a description
whose entry is missing, and an index. -/
def shelf : FileTree where
  entries :=
    [(["app"], .directory), (["app", "main.js"], .file "".toUTF8),
      (["app", "alias.js"], .link "../lib.js"), (["lib.js"], .file "".toUTF8),
      (["app", "node_modules"], .directory), (["app", "node_modules", "p"], .directory),
      (["app", "node_modules", "p", "package.json"], .file "\x7b\"main\":\"gone.js\"\x7d".toUTF8),
      (["app", "node_modules", "p", "index.js"], .file "".toUTF8),
      (["node_modules"], .directory), (["node_modules", "p"], .directory),
      (["node_modules", "p", "index.js"], .file "".toUTF8)]

/-- The configuration of the project. -/
def shelfConfig : Config :=
  { project := ⟨"demo", "0.1.0"⟩, entrypoints := [], output := {}, resolution := {}, assets := {},
    define := [], dev := {}, ownRules := [], root := ⟨"/app"⟩ }

/-- The link is followed to the script, and the entry that is missing leaves the index of the nearer
package. -/
theorem shelf_finds_first_file :
    First shelf (readings shelf [".js", ".jsx"] ((Path.ofNames ["app"]).join "./alias"))
        ⟨["lib.js"]⟩
      ∧ (∃ q dir, Asks "p" q ∧ Nearest shelf [".js", ".jsx"] ["app"] q dir
        ∧ Gives shelf [".js", ".jsx"] dir q ⟨["app", "node_modules", "p", "index.js"]⟩)
      ∧ shelf.IsFileAt ["lib.js"] := by
  have hrelative := specifier_finds_first_file shelfConfig shelf "./alias?raw" ⟨["app", "main.js"]⟩
  have hbare := specifier_finds_first_file shelfConfig shelf "p" ⟨["app", "main.js"]⟩
  have hlib : specifier shelfConfig shelf "./alias?raw" ⟨["app", "main.js"]⟩
      = .ok ⟨["lib.js"]⟩ := toOption_eq_some.mp (by decide +kernel)
  have hindex : specifier shelfConfig shelf "p" ⟨["app", "main.js"]⟩
      = .ok ⟨["app", "node_modules", "p", "index.js"]⟩ := toOption_eq_some.mp (by decide +kernel)
  have htarget : TargetOf shelfConfig ⟨["app", "main.js"]⟩ (Resolve.request "./alias?raw")
      ((Path.ofNames ["app"]).join "./alias") :=
    .relative (Or.inr (Or.inr (Or.inl (by decide))))
  have hp : IsBare (Resolve.request "p") := ⟨by decide, by decide, by decide, by decide⟩
  exact ⟨((hrelative.1 _ htarget).1 _).mp hlib, ((hbare.2.1 hp).1 _).mp hindex,
    (hrelative.2.2.2 ⟨List.forall_mem_nil _, stands_nil⟩ _ hlib).1⟩

end AssetBundler.Resolve
