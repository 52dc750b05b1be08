/-
  AssetBundler.Proofs.Files.Path
  ────────────────────────────────
  **LOCATIONS AS PATHS.**

  A location that is written out as a path has the components of its names,
  one name after the other, so a location above another begins it as a path,
  too:

    • `Text.splitAt_append` — the pieces of two texts with a separator between,
    • `Path.components_ofNames` — the components of a location,
    • `Path.startsWith_ofNames` — locations above others.
-/
import AssetBundler.Files.Path
import Mathlib.Data.List.Infix

namespace AssetBundler

/-! ## §1. Pieces. -/

namespace Text

variable {test : Char → Bool} {c : Char}

theorem splitAt_ne_nil (test : Char → Bool) (xs : List Char) : Text.splitAt test xs ≠ [] := by
  cases xs with
  | nil => simp [Text.splitAt]
  | cons x xs =>
      unfold Text.splitAt
      split
      next => exact List.cons_ne_nil _ _
      next => split <;> exact List.cons_ne_nil _ _

theorem splitAt_append (hc : test c = true) (ys : List Char) : ∀ xs : List Char,
    Text.splitAt test (xs ++ c :: ys) = Text.splitAt test xs ++ Text.splitAt test ys
  | [] => by
      simp [Text.splitAt, hc]
  | x :: xs => by
      have ih := splitAt_append hc ys xs
      by_cases hx : test x = true
      · simp [Text.splitAt, hx, ih]
      · obtain ⟨piece, pieces, hxs⟩ := List.exists_cons_of_ne_nil (splitAt_ne_nil test xs)
        simp [Text.splitAt, hx, ih, hxs]

end Text

/-! ## §2. Components. -/

namespace Path

/-- The components that a text spells behind the root. -/
def spelled (text : List Char) : List PathComponent :=
  ((Text.splitAt (· == '/') text).map String.ofList).filterMap (componentOf? false)

theorem spelled_append (xs ys : List Char) : spelled (xs ++ '/' :: ys) = spelled xs ++ spelled ys := by
  unfold spelled
  rw [Text.splitAt_append (by rfl), List.map_append, List.filterMap_append]

theorem spelled_intercalate : ∀ texts : List (List Char),
    spelled (['/'].intercalate texts) = texts.flatMap spelled
  | [] => rfl
  | [text] => by
      simp
  | text :: text' :: rest => by
      rw [List.intercalate_cons_cons, List.append_assoc, List.singleton_append, spelled_append,
        spelled_intercalate (text' :: rest)]
      rfl

theorem components_ofNames (names : List String) :
    (ofNames names).components = .root :: names.flatMap fun name => spelled name.toList := by
  have htext : (ofNames names).text.toList = '/' :: ['/'].intercalate (names.map String.toList) := by
    simp [ofNames, String.toList_intercalate]
  have hspelled := spelled_intercalate (names.map String.toList)
  rw [List.flatMap_map] at hspelled
  rw [← hspelled, components, isAbsolute, segments, htext]
  rfl

/-- **A location above another** begins it as a path. -/
theorem startsWith_ofNames {l r : List String} (h : l <+: r) :
    (ofNames r).startsWith (ofNames l) = true := by
  unfold startsWith
  rw [components_ofNames, components_ofNames, List.isPrefixOf_iff_prefix]
  exact List.cons_prefix_cons.mpr ⟨rfl, h.flatMap _⟩

/-- From a beginning the rest leads on. -/
theorem difference_append (rest : List PathComponent) : ∀ base : List PathComponent,
    difference true (base ++ rest) base = some rest
  | [] => by cases rest <;> rfl
  | c :: base => by
      rw [List.cons_append, difference, if_pos (by simp)]
      exact difference_append rest base

end Path

end AssetBundler
