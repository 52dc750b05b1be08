/-
  AssetBundler.Mode
  ────────────────────────────────
  **BUILD MODES.**
-/
namespace AssetBundler

/-- What a build is for. -/
inductive Mode where
  | development
  | production
  deriving DecidableEq, Repr

namespace Mode

/-- The mode in words. -/
def text : Mode → String
  | development => "development"
  | production => "production"

/-- The mode that a text names. -/
def ofText? (s : String) : Option Mode :=
  [development, production].find? fun m => m.text == s

end Mode

end AssetBundler
