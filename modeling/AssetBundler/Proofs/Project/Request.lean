/-
  AssetBundler.Proofs.Project.Request
  ────────────────────────────────
  **WHAT A REQUEST ASKS FOR.**

  A path is looked up by reading other paths one after the other, and the
  first that leads to a file decides.  A request means such a path, or it
  names a package and perhaps a file in it:

    • `Resolve.readings`, `Resolve.First` — the paths that are read, and the
      first of them that leads to a file,
    • `Resolve.file?_eq_find?` — looking up a path is reading them,
    • `Resolve.TargetOf`, `Resolve.IsBare`, `Resolve.Asks` — the kinds of
      requests,
    • `Resolve.packageRequest?_eq_some_iff` — the package of a request.
-/
import AssetBundler.Proofs.Files.Canonical
import AssetBundler.Proofs.Text.Search
import AssetBundler.Project.Resolve

namespace AssetBundler.Resolve

open FileTree AssetBundler.Text

variable {files : FileTree} {extensions : List String} {m : Identity} {path target : Path}

/-! ## §1. The first file. -/

/-- The paths that are read for a target: itself, itself with each of the extensions, and if it is a
directory its index with each of the extensions. -/
def readings (files : FileTree) (extensions : List String) (target : Path) : List Path :=
  target :: candidates extensions target
    ++ if files.isDirectory target then candidates extensions (target.join "index") else []

theorem file?_eq_find? :
    file? files extensions target = (readings files extensions target).find? files.isFile := by
  unfold file? readings
  rw [List.cons_append, List.find?_cons, List.find?_append]
  cases files.isFile target with
  | true => rfl
  | false =>
      rw [if_neg Bool.false_ne_true]
      cases (candidates extensions target).find? files.isFile with
      | some found => rfl
      | none =>
          dsimp only
          rw [Option.none_or]
          split <;> rfl

/-- The path leads to the file of a module. -/
def LeadsTo (files : FileTree) (path : Path) (m : Identity) : Prop :=
  ∃ content, files.resolve path = .ok (m.location, .file content)

/-- **The first of some paths that leads to a file** leads to that of the module. -/
def First (files : FileTree) (paths : List Path) (m : Identity) : Prop :=
  ∃ before found after, paths = before ++ found :: after
    ∧ (∀ p ∈ before, files.isFile p = false) ∧ LeadsTo files found m

theorem LeadsTo.isFile (h : LeadsTo files path m) : files.isFile path = true := by
  obtain ⟨content, hresolve⟩ := h
  unfold FileTree.isFile
  rw [hresolve]

theorem exists_leadsTo (h : files.isFile path = true) : ∃ m, LeadsTo files path m := by
  unfold FileTree.isFile at h
  split at h
  next at_ content hresolve => exact ⟨⟨at_⟩, content, hresolve⟩
  next => cases h

/-- A path that leads to a file is given the module of that. -/
theorem ofPath_eq_ok_iff (h : files.isFile path = true) :
    Identity.ofPath files path = .ok m ↔ LeadsTo files path m := by
  obtain ⟨m', content', hresolve'⟩ := exists_leadsTo h
  unfold Identity.ofPath FileTree.canonical LeadsTo
  rw [hresolve']
  constructor
  · intro hm
    cases hm
    exact ⟨content', rfl⟩
  · rintro ⟨content, hcontent⟩
    cases m
    cases m'
    cases hcontent
    rfl

theorem first_iff {paths : List Path} :
    First files paths m ↔ ∃ path, paths.find? files.isFile = some path ∧ LeadsTo files path m := by
  constructor
  · rintro ⟨before, found, after, hpaths, hbefore, hfound⟩
    refine ⟨found, List.find?_eq_some_iff_append.mpr ⟨hfound.isFile, before, after, hpaths, ?_⟩, hfound⟩
    intro p hp
    rw [hbefore p hp]
    rfl
  · rintro ⟨found, hfind, hfound⟩
    obtain ⟨-, before, after, hpaths, hbefore⟩ := List.find?_eq_some_iff_append.mp hfind
    exact ⟨before, found, after, hpaths, fun p hp => by simpa using hbefore p hp, hfound⟩

theorem find?_eq_none_iff {paths : List Path} :
    paths.find? files.isFile = none ↔ ∀ p ∈ paths, files.isFile p = false := by
  simp [List.find?_eq_none]

/-! ## §2. Requests. -/

/-- **The path that a request means** in a module: one from the directory of the module, or one from the
root of the project. -/
inductive TargetOf (config : Config) (importer : Identity) : String → Path → Prop
  | relative {request : String}
      (h : request = "." ∨ request = ".." ∨ "./".toList <+: request.toList
        ∨ "../".toList <+: request.toList) :
      TargetOf config importer request ((Path.ofNames importer.location.dropLast).join request)
  | rooted (rest : String) : TargetOf config importer ("/" ++ rest) (config.root.join rest)

/-- The request names a package. -/
structure IsBare (request : String) : Prop where
  ne_empty : request ≠ ""
  notRelative : isRelative request = false
  notRooted : request.toList.head? ≠ some '/'
  /-- Addresses of other places have a colon. -/
  notAddress : ':' ∉ request.toList

/-- **The package that a request asks for**, and the file in it: a name has one part, or two if it begins
with `@`, and what stands behind the next slash is the way to a file. -/
inductive Asks : String → PackageRequest → Prop
  | onePart {name : String} (hat : name.toList.head? ≠ some '@') (hname : '/' ∉ name.toList) :
      Asks name ⟨name, none⟩
  | inOnePart {name : String} (sub : String) (hat : name.toList.head? ≠ some '@')
      (hname : '/' ∉ name.toList) : Asks (name ++ "/" ++ sub) ⟨name, some sub⟩
  | twoParts {scope name : String} (hat : scope.toList.head? = some '@')
      (hscope : '/' ∉ scope.toList) (hname : '/' ∉ name.toList) :
      Asks (scope ++ "/" ++ name) ⟨scope ++ "/" ++ name, none⟩
  | inTwoParts {scope name : String} (sub : String) (hat : scope.toList.head? = some '@')
      (hscope : '/' ∉ scope.toList) (hname : '/' ∉ name.toList) :
      Asks (scope ++ "/" ++ name ++ "/" ++ sub) ⟨scope ++ "/" ++ name, some sub⟩

theorem isRelative_iff {request : String} :
    isRelative request = true
      ↔ request = "." ∨ request = ".." ∨ "./".toList <+: request.toList
        ∨ "../".toList <+: request.toList := by
  unfold isRelative
  simp only [Bool.or_eq_true, startsWith_iff, beq_iff_eq]
  tauto

theorem cutAtSlash_of_notMem {text : List Char} (h : '/' ∉ text) :
    cutAtSlash text = (text, none) := by
  have hkept : text.dropWhile (· != '/') = [] := by
    rw [List.dropWhile_eq_nil_iff]
    intro c hc
    exact bne_iff_ne.mpr fun heq : c = '/' => h (heq ▸ hc)
  unfold cutAtSlash
  rw [hkept]

theorem cutAtSlash_append {before : List Char} (h : '/' ∉ before) (after : List Char) :
    cutAtSlash (before ++ '/' :: after) = (before, some after) := by
  have hall : ∀ c ∈ before, (c != '/') = true := fun c hc =>
    bne_iff_ne.mpr fun heq : c = '/' => h (heq ▸ hc)
  unfold cutAtSlash
  rw [List.dropWhile_append_of_pos hall, List.takeWhile_append_of_pos hall]
  simp

/-- A text has no slash, or it is cut at its first. -/
theorem slash_cases (text : String) :
    '/' ∉ text.toList
      ∨ ∃ before after : String, '/' ∉ before.toList ∧ text = before ++ "/" ++ after := by
  by_cases h : '/' ∈ text.toList
  · obtain ⟨before, after, htext, hbefore⟩ := List.eq_append_cons_of_mem h
    refine Or.inr ⟨String.ofList before, String.ofList after, by simpa using hbefore, ?_⟩
    exact String.toList_inj.mp (by simp [htext])
  · exact Or.inl h

/-- A text begins with what stands before a slash in it. -/
theorem head?_slash (before after : String) :
    (before ++ "/" ++ after).toList.head? = some '@' ↔ before.toList.head? = some '@' := by
  cases hbefore : before.toList <;> simp [hbefore]

theorem packageRequest?_of_asks {request : String} {q : PackageRequest} (h : Asks request q) :
    packageRequest? request = some q := by
  have htext : ∀ before after : String,
      (before ++ "/" ++ after).toList = before.toList ++ '/' :: after.toList := by simp
  have hname : ∀ scope name : String,
      String.ofList (scope.toList ++ '/' :: name.toList) = scope ++ "/" ++ name := fun scope name =>
    String.toList_inj.mp (by simp)
  unfold packageRequest?
  cases h with
  | onePart hat hslash =>
      rw [cutAtSlash_of_notMem hslash]
      dsimp only
      rw [if_neg (by simpa using hat), String.ofList_toList]
      rfl
  | @inOnePart name sub hat hslash =>
      have hat' := mt (head?_slash name sub).mp hat
      rw [htext, cutAtSlash_append hslash, ← htext]
      dsimp only
      rw [if_neg (by simpa using hat'), String.ofList_toList, Option.map_some, String.ofList_toList]
  | @twoParts scope name hat hscope hslash =>
      have hat' := (head?_slash scope name).mpr hat
      rw [htext, cutAtSlash_append hscope, ← htext]
      dsimp only
      rw [if_pos (by simpa using hat'), cutAtSlash_of_notMem hslash]
      dsimp only
      rw [hname, Option.map_none]
  | @inTwoParts scope name sub hat hscope hslash =>
      have hat' := (head?_slash scope (name ++ "/" ++ sub)).mpr hat
      have hsplit : scope ++ "/" ++ name ++ "/" ++ sub = scope ++ "/" ++ (name ++ "/" ++ sub) := by
        simp [String.append_assoc]
      rw [hsplit, htext, cutAtSlash_append hscope, ← htext]
      dsimp only
      rw [if_pos (by simpa using hat'), htext, cutAtSlash_append hslash]
      dsimp only
      rw [hname, Option.map_some, String.ofList_toList]

/-- A request asks for a package, unless it has the first part of a name only. -/
theorem asks_cases (request : String) :
    (∃ q, Asks request q) ∨ packageRequest? request = none := by
  by_cases hat : request.toList.head? = some '@'
  · rcases slash_cases request with hslash | ⟨scope, rest, hscope, rfl⟩
    · right
      unfold packageRequest?
      rw [cutAtSlash_of_notMem hslash]
      dsimp only
      rw [if_pos (by simpa using hat)]
    · have hat' := (head?_slash scope rest).mp hat
      rcases slash_cases rest with hname | ⟨name, sub, hname, rfl⟩
      · exact Or.inl ⟨_, .twoParts hat' hscope hname⟩
      · left
        have hrequest := Asks.inTwoParts sub hat' hscope hname
        have hsplit : scope ++ "/" ++ name ++ "/" ++ sub = scope ++ "/" ++ (name ++ "/" ++ sub) := by
          simp [String.append_assoc]
        exact ⟨_, hsplit ▸ hrequest⟩
  · rcases slash_cases request with hslash | ⟨name, sub, hname, rfl⟩
    · exact Or.inl ⟨_, .onePart hat hslash⟩
    · exact Or.inl ⟨_, .inOnePart sub (mt (head?_slash name sub).mpr hat) hname⟩

/-- **The package of a request.** -/
theorem packageRequest?_eq_some_iff {request : String} {q : PackageRequest} :
    packageRequest? request = some q ↔ Asks request q := by
  refine ⟨fun h => ?_, packageRequest?_of_asks⟩
  rcases asks_cases request with ⟨q', hq'⟩ | hnone
  · -- a request asks for one package only
    obtain rfl := Option.some.inj (h.symm.trans (packageRequest?_of_asks hq'))
    exact hq'
  · rw [hnone] at h
    cases h

end AssetBundler.Resolve
