/-
  AssetBundler.Proofs.Text.Search
  ────────────────────────────────
  **BEGINNINGS OF TEXTS.**

    • `Text.dropPrefix?_eq_some_iff` — what is left behind a beginning,
    • `Text.dropPrefix?_append` — a text that is put behind a beginning,
    • `Text.startsWith_iff` — whether there is the beginning at all.
-/
import AssetBundler.Text.Search

namespace AssetBundler.Text

variable {expected text rest : List Char}

theorem dropPrefix?_eq_some_iff :
    dropPrefix? expected text = some rest ↔ text = expected ++ rest := by
  induction expected generalizing text with
  | nil => simp [dropPrefix?, eq_comm]
  | cons a expected ih =>
      cases text with
      | nil => simp [dropPrefix?]
      | cons b text =>
          by_cases hab : a = b
          · simp [dropPrefix?, hab, ih]
          · simp [dropPrefix?, hab, Ne.symm hab]

theorem dropPrefix?_append (expected rest : List Char) :
    dropPrefix? expected (expected ++ rest) = some rest :=
  dropPrefix?_eq_some_iff.mpr rfl

theorem startsWith_iff : startsWith expected text = true ↔ expected <+: text := by
  rw [startsWith, Option.isSome_iff_exists]
  constructor
  · rintro ⟨rest, hrest⟩
    exact ⟨rest, (dropPrefix?_eq_some_iff.mp hrest).symm⟩
  · rintro ⟨rest, hrest⟩
    exact ⟨rest, dropPrefix?_eq_some_iff.mpr hrest.symm⟩

end AssetBundler.Text
