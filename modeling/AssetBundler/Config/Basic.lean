/-
  AssetBundler.Config.Basic
  ────────────────────────────────
  **THE CONFIGURATION OF A PROJECT.**

  What a configuration document can say, with the value of everything it
  leaves out, and what follows from it: the paths below the root, the rule
  table, and the compile-time constants of a mode.
-/
import AssetBundler.Files.Path
import AssetBundler.Mode

namespace AssetBundler

open AssetBundler.Text

/-! ## §1. Maps in the order of their keys. -/

/-- Texts by key, in the order of the keys; no key occurs twice. -/
abbrev TextMap (α : Type) := List (String × α)

/-- A map with a value put under a key. -/
def TextMap.insert {α : Type} (key : String) (value : α) : TextMap α → TextMap α
  | [] => [(key, value)]
  | (k, v) :: rest =>
    if key = k then (key, value) :: rest
    else if key < k then (key, value) :: (k, v) :: rest
    else (k, v) :: TextMap.insert key value rest

/-- The map of some keys and values; of those with one key the last counts. -/
def TextMap.ofList {α : Type} (entries : List (String × α)) : TextMap α :=
  entries.foldl (fun map e => TextMap.insert e.1 e.2 map) []

/-! ## §2. Sections. -/

namespace Config

/-- What the project is called. -/
structure Project where
  name : String
  version : String := "0.1.0"

/-- Where output goes and how it is addressed. -/
structure Output where
  dir : String := "dist"
  /-- What every public address begins with. -/
  publicPath : String := "/"
  template : String := "public/index.html"
  htmlFilename : String := "index.html"
  /-- A manifest is written. -/
  manifest : Bool := true

/-- How specifiers are resolved. -/
structure Resolution where
  /-- Extensions that are tried, in order. -/
  extensions : List String := [".js", ".jsx"]

/-- How assets are named and when they are inlined. -/
structure Assets where
  /-- Assets smaller than this many bytes are inlined. -/
  inlineLimit : Nat := 8192
  name : String := "static/media/[name].[hash:8].[ext]"

/-- The development server. -/
structure Dev where
  port : Nat := 8080
  host : String := "localhost"
  openBrowser : Bool := false
  compress : Bool := true
  historyApiFallback : Bool := true
  overlay : Bool := true
  liveReload : Bool := true
  debounceMs : Nat := 100
  /-- Patterns of paths whose changes do not count. -/
  ignored : List String := []

/-- One rule of the transform table. -/
structure Rule where
  name : String
  /-- The pattern of the paths that the rule is for. -/
  test : String
  /-- The pattern of paths that it is not for. -/
  exclude? : Option String := none
  /-- The mode that it is limited to. -/
  mode? : Option Mode := none
  steps : List String
  inlineLimit? : Option Nat := none
  assetName? : Option String := none

/-- The rules of projects that name none. -/
def defaultRules : List Rule :=
  [{ name := "scripts", test := "\\.(js|jsx)$", steps := ["define", "script"] },
   { name := "stylesheets-extract", test := "\\.css$", mode? := some .production,
     steps := ["css"] },
   { name := "stylesheets", test := "\\.css$", steps := ["css", "style"] },
   { name := "svg", test := "\\.svg$", steps := ["svg"] },
   { name := "images", test := "(?i)\\.(png|jpg|jpeg|gif)$", steps := ["url"] },
   { name := "fonts", test := "\\.(eot|otf|ttf|woff|woff2)$", steps := ["file"] }]

end Config

/-! ## §3. Configurations. -/

/-- The configuration of a project. -/
structure Config where
  project : Config.Project
  /-- Entry files by name. -/
  entrypoints : TextMap String
  output : Config.Output
  resolution : Config.Resolution
  assets : Config.Assets
  /-- Compile-time constants by name. -/
  define : TextMap String
  dev : Config.Dev
  /-- The rules, if the project names any. -/
  ownRules : List Config.Rule
  /-- The directory of the project. -/
  root : Path

namespace Config

/-- Where output is written. -/
def outputDir (config : Config) : Path :=
  config.root.join config.output.dir

/-- Where the page template is. -/
def templatePath (config : Config) : Path :=
  config.root.join config.output.template

/-- The entry files with their names, in the order of the names. -/
def entryPaths (config : Config) : List (String × Path) :=
  config.entrypoints.map fun (name, path) => (name, config.root.join path)

/-- The rule table in force. -/
def rules (config : Config) : List Rule :=
  if config.ownRules.isEmpty then defaultRules else config.ownRules

/-- The compile-time constants of a mode, in the order of their names. -/
def defines (config : Config) (mode : Mode) : TextMap String :=
  TextMap.insert "process.env.NODE_ENV" ("\"" ++ mode.text ++ "\"") config.define

/-- The public path with one slash at each end. -/
def publicPath (config : Config) : String :=
  let isSlash (c : Char) := c == '/'
  let trimmed := trimEndWhile isSlash (config.output.publicPath.toList.dropWhile isSlash)
  if trimmed.isEmpty then "/" else "/" ++ String.ofList trimmed ++ "/"

end Config

end AssetBundler
