/-
  AssetBundler.Config.Load
  ────────────────────────────────
  **LOADING A CONFIGURATION.**

  A configuration document is read, decoded and checked against the files of
  the project.
-/
import AssetBundler.Config.Decode
import AssetBundler.Data.Toml
import AssetBundler.Files.Tree

namespace AssetBundler

/-- Why a project cannot be set up. -/
inductive SetupError where
  | unreadable (file : Path)
  | malformed
  | noEntrypoint
  | missingEntry (name : String) (file : Path)
  | badExtension
  | badTest (rule : String)
  | badExclude (rule : String)
  | unknownStep (rule step : String)
  | outputContainsRoot (dir : Path)
  | badIgnore (pattern : String)

/-- The error in words. -/
def SetupError.message : SetupError → String
  | unreadable file => "Failed to read config file: " ++ file.text
  | malformed => "Failed to parse weft.toml"
  | noEntrypoint => "At least one entrypoint must be specified in weft.toml"
  | missingEntry name file =>
    "Entrypoint '" ++ name ++ "' points to non-existent file: " ++ file.text
  | badExtension => "Resolve extensions must start with '.'"
  | badTest rule => "Invalid test pattern in rule '" ++ rule ++ "'"
  | badExclude rule => "Invalid exclude pattern in rule '" ++ rule ++ "'"
  | unknownStep rule step =>
    "Rule '" ++ rule ++ "' uses unknown transform step '" ++ step ++ "'"
  | outputContainsRoot dir =>
    "Output directory " ++ dir.text ++ " would contain the project root"
  | badIgnore pattern => "Invalid ignore pattern '" ++ pattern ++ "'"

namespace Config

/-- What is wrong with a configuration, if anything: there is an entry, every entry is a file, and every
extension begins with a dot. -/
def problem? (config : Config) (files : FileTree) : Option SetupError :=
  if config.entrypoints.isEmpty then some .noEntrypoint
  else match config.entryPaths.find? fun e => !files.isFile e.2 with
    | some (name, path) => some (.missingEntry name path)
    | none =>
      if config.resolution.extensions.all fun e => e.toList.head? == some '.' then none
      else some .badExtension

/-- The configuration that a document describes, for a project at a root. -/
def parse (files : FileTree) (document : String) (root : Path) : Except SetupError Config :=
  match (Data.Toml.parse? document).bind (Decode.config root) with
  | none => .error .malformed
  | some config =>
    match config.problem? files with
    | some e => .error e
    | none => .ok config

/-- The configuration in a file, whose directory is the root of the project. -/
def load (files : FileTree) (file : Path) : Except SetupError Config :=
  let file := (Path.ofNames files.here).join file.text
  match files.readText file with
  | .error _ => .error (.unreadable file)
  | .ok document => parse files document (file.parent?.getD ⟨"."⟩)

end Config

end AssetBundler
