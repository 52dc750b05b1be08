/-
  AssetBundler.Proofs.Serve.WatchFilter
  ────────────────────────────────
  **CHANGES AND WHERE A PROJECT LIES.**

  Of a changed file the filter looks at the way from the root of the project,
  at the way from the output directory, and at the names of all directories
  above it.  The two ways are the same wherever the project lies.  The names
  are those of the project and those above its root, so a root that lies in a
  package makes every file one of a package:

    • `Path.components_join`, `Path.relativeTo?_join` — paths behind a root,
    • `WatchFilter.answerAt_eq` — the answer of a project at a root,
    • `WatchFilter.answers_agree_iff` — two places of one project.
-/
import AssetBundler.Proofs.Files.Steps
import AssetBundler.Serve.WatchFilter

namespace AssetBundler

open FileTree

/-! ## §1. Paths behind a root. -/

namespace Path

variable {root : Path} {o p q : String}

/-- The components of a path that begins at the place where it is used. -/
def stepsOf (q : String) : List PathComponent :=
  (names (Path.mk q).segments).map stepComponent

theorem components_of_isAbsolute (h : root.isAbsolute = true) :
    root.components = .root :: (names root.segments).map stepComponent := by
  obtain ⟨s, rest, hsegments⟩ := isAbsolute_iff.mp h
  rw [components, h, hsegments, names_cons_of_idle (.inl rfl), ← filterMap_componentOf?]
  rfl

/-- **The components of a path behind a root** are those of the root and its own. -/
theorem components_join (hroot : root.isAbsolute = true) (hq : IsRelative q) :
    (root.join q).components = root.components ++ stepsOf q := by
  have hjoin : (root.join q).isAbsolute = true := (isAbsolute_join root hq).trans hroot
  rw [components_of_isAbsolute hjoin, components_of_isAbsolute hroot, names_join root hq,
    List.map_append]
  rfl

/-- **The way from a root** to a path behind it does not depend on the root. -/
theorem relativeTo?_join (hroot : root.isAbsolute = true) (hq : IsRelative q) :
    (root.join q).relativeTo? root = some (ofComponents (stepsOf q)) := by
  have hsame : ((root.join q).isAbsolute != root.isAbsolute) = false := by
    rw [isAbsolute_join root hq, bne_self_eq_false]
  rw [relativeTo?, hsame, if_neg Bool.false_ne_true, components_join hroot hq, difference_append]
  rfl

theorem startsWith_join (hroot : root.isAbsolute = true) (ho : IsRelative o) (hp : IsRelative p) :
    (root.join p).startsWith (root.join o) = (stepsOf o).isPrefixOf (stepsOf p) := by
  rw [startsWith, components_join hroot ho, components_join hroot hp, Bool.eq_iff_iff,
    List.isPrefixOf_iff_prefix, List.isPrefixOf_iff_prefix, List.prefix_append_right_inj]

end Path

/-! ## §2. Projects at different places. -/

namespace WatchFilter

open AssetBundler.Path

variable {config : Config} {root root' : Path} {o p : String}

/-- The answer for a file of a project at a root, whose output goes to a directory behind this root. -/
def answerAt (config : Config) (root : Path) (o p : String) : Except SetupError Bool :=
  (create { config with root } (root.join o)).map fun filter => filter.isRelevant (root.join p)

/-- The directory above all others. -/
def top : Path := ⟨"/"⟩

theorem isAbsolute_top : top.isAbsolute = true := rfl

/-- A file lies in a skipped directory of the project, or its project lies in one. -/
theorem isSkipped_join (hroot : root.isAbsolute = true) (hp : IsRelative p) :
    isSkipped (root.join p) = (isSkipped root || isSkipped (top.join p)) := by
  unfold isSkipped
  rw [components_join hroot hp, components_join isAbsolute_top hp, List.any_append, List.any_append]
  rfl

/-- **The answer of a project at a root** is that of the project at the top, unless its root lies in a
skipped directory: then no change counts. -/
theorem answerAt_eq (config : Config) (hroot : root.isAbsolute = true) (ho : IsRelative o)
    (hp : IsRelative p) :
    answerAt config root o p = (answerAt config top o p).map (!isSkipped root && ·) := by
  have hname : (root.join p).moduleId root = (top.join p).moduleId top := by
    rw [moduleId, moduleId, relativeTo?_join hroot hp, relativeTo?_join isAbsolute_top hp]
    rfl
  unfold answerAt create
  cases globs config.dev.ignored with
  | error e => rfl
  | ok ignored =>
      simp only [Except.map, isRelevant, hname, startsWith_join hroot ho hp,
        startsWith_join isAbsolute_top ho hp, isSkipped_join hroot hp]
      cases isSkipped root <;> simp

/-- **Two places of one project** give the same answer for a file unless just one of them lies in a skipped
directory, and the change counts where none does. -/
theorem answers_agree_iff (config : Config) (hroot : root.isAbsolute = true)
    (hroot' : root'.isAbsolute = true) (ho : IsRelative o) (hp : IsRelative p) :
    answerAt config root o p = answerAt config root' o p
      ↔ isSkipped root = isSkipped root' ∨ answerAt config top o p ≠ .ok true := by
  rw [answerAt_eq config hroot ho hp, answerAt_eq config hroot' ho hp]
  cases answerAt config top o p with
  | error e => simp [Except.map]
  | ok answer => cases answer <;> simp [Except.map]

/-- The configuration of a project whose logs do not count. -/
def loggingConfig : Config where
  project := { name := "demo" }
  entrypoints := [("main", "src/index.js")]
  output := {}
  resolution := {}
  assets := {}
  define := []
  dev := { ignored := ["**/*.log"] }
  ownRules := []
  root := top

/-- A script counts, at both of two places. -/
theorem script_counts_at_both :
    answerAt loggingConfig ⟨"/home/demo"⟩ "dist" "src/index.js"
      = answerAt loggingConfig ⟨"/srv/web/demo"⟩ "dist" "src/index.js" ∧
    (answerAt loggingConfig ⟨"/home/demo"⟩ "dist" "src/index.js").toOption = some true := by
  have hskipped : isSkipped ⟨"/home/demo"⟩ = isSkipped ⟨"/srv/web/demo"⟩ := by decide +kernel
  have hout : IsRelative "dist" := by simp [IsRelative]
  have hscript : IsRelative "src/index.js" := by simp [IsRelative]
  exact ⟨(answers_agree_iff loggingConfig rfl rfl hout hscript).mpr (.inl hskipped),
    by decide +kernel⟩

/-- The same script does not count when its project lies in a package. -/
theorem packaged_script_does_not_count :
    (answerAt loggingConfig ⟨"/srv/node_modules/demo"⟩ "dist" "src/index.js").toOption = some false ∧
    (answerAt loggingConfig ⟨"/srv/web/demo"⟩ "dist" "src/index.js").toOption = some true := by
  decide +kernel

end WatchFilter

end AssetBundler
