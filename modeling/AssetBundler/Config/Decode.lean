/-
  AssetBundler.Config.Decode
  ────────────────────────────────
  **READING A CONFIGURATION FROM A DOCUMENT.**

  A section is a table by member names, or a list in the order of its
  members.  Members that are left out have their default value; members that
  no section knows are passed over.
-/
import AssetBundler.Config.Basic
import AssetBundler.Data.Value

namespace AssetBundler.Config.Decode

open AssetBundler.Data

/-! ## §1. Values. -/

/-- A text. -/
def text : Value → Option String
  | .text s => some s
  | _ => none

/-- A truth value. -/
def boolean : Value → Option Bool
  | .boolean b => some b
  | _ => none

/-- A number from zero up to a bound that is left out. -/
def natural (bound : Nat) : Value → Option Nat
  | .integer n => if 0 ≤ n && n < bound then some n.toNat else none
  | _ => none

/-- A list of values of one kind. -/
def list {α : Type} (item : Value → Option α) : Value → Option (List α)
  | .list items => items.mapM item
  | _ => none

/-- The members of a table; a moment is a table of one member. -/
def members : Value → Option (List (String × Value))
  | .table members => some members
  | .moment spelling => some [("$__toml_private_datetime", .text spelling)]
  | _ => none

/-- A map of texts. -/
def textMap (v : Value) : Option (TextMap String) := do
  let entries ← (← members v).mapM fun (key, v) => do return (key, ← text v)
  return TextMap.ofList entries

/-- A value that may be absent: nothing stands for nothing. -/
def optional {α : Type} (item : Value → Option α) : Value → Option (Option α)
  | .null => some none
  | v => (item v).map some

/-- A mode by its name, or as the one member of a table, which holds nothing. -/
def mode : Value → Option Mode
  | .text s => Mode.ofText? s
  | .table [(name, .null)] | .table [(name, .list [])] | .table [(name, .table [])] =>
    Mode.ofText? name
  | _ => none

/-! ## §2. Sections. -/

/-- A section: its members by name, or by place. -/
inductive Section where
  | named (members : List (String × Value))
  | placed (items : List Value)

/-- The section that a value is. -/
def section? (v : Value) : Option Section :=
  match v with
  | .list items => some (.placed items)
  | v => (members v).map .named

/-- The value of a member of a section, if it has one. -/
def Section.find? (name : String) (place : Nat) : Section → Option Value
  | named members => Value.lastMember? name members
  | placed items => items[place]?

/-- A member that may be left out. -/
def Section.orElse {α : Type} (s : Section) (name : String) (place : Nat)
    (item : Value → Option α) (default : α) : Option α :=
  match s.find? name place with
  | some v => item v
  | none => some default

/-- A member that must be there. -/
def Section.get {α : Type} (s : Section) (name : String) (place : Nat)
    (item : Value → Option α) : Option α :=
  (s.find? name place).bind item

/-- The section about the project. -/
def project (v : Value) : Option Project := do
  let s ← section? v
  let name ← s.get "name" 0 text
  let default : Project := { name }
  return { default with version := ← s.orElse "version" 1 text default.version }

/-- The section about output. -/
def output (v : Value) : Option Output := do
  let s ← section? v
  let default : Output := {}
  return {
    dir := ← s.orElse "dir" 0 text default.dir
    publicPath := ← s.orElse "public_path" 1 text default.publicPath
    template := ← s.orElse "template" 2 text default.template
    htmlFilename := ← s.orElse "html_filename" 3 text default.htmlFilename
    manifest := ← s.orElse "manifest" 4 boolean default.manifest }

/-- The section about resolution. -/
def resolution (v : Value) : Option Resolution := do
  let s ← section? v
  let default : Resolution := {}
  return { extensions := ← s.orElse "extensions" 0 (list text) default.extensions }

/-- The section about assets. -/
def assets (v : Value) : Option Assets := do
  let s ← section? v
  let default : Assets := {}
  return {
    inlineLimit := ← s.orElse "inline_limit" 0 (natural UInt64.size) default.inlineLimit
    name := ← s.orElse "name" 1 text default.name }

/-- The section about the development server. -/
def dev (v : Value) : Option Dev := do
  let s ← section? v
  let default : Dev := {}
  return {
    port := ← s.orElse "port" 0 (natural UInt16.size) default.port
    host := ← s.orElse "host" 1 text default.host
    openBrowser := ← s.orElse "open" 2 boolean default.openBrowser
    compress := ← s.orElse "compress" 3 boolean default.compress
    historyApiFallback :=
      ← s.orElse "history_api_fallback" 4 boolean default.historyApiFallback
    overlay := ← s.orElse "overlay" 5 boolean default.overlay
    liveReload := ← s.orElse "live_reload" 6 boolean default.liveReload
    debounceMs := ← s.orElse "debounce_ms" 7 (natural UInt64.size) default.debounceMs
    ignored := ← s.orElse "ignore" 8 (list text) default.ignored }

/-- One rule. -/
def rule (v : Value) : Option Rule := do
  let s ← section? v
  return {
    name := ← s.get "name" 0 text
    test := ← s.get "test" 1 text
    exclude? := ← s.orElse "exclude" 2 (optional text) none
    mode? := ← s.orElse "mode" 3 (optional mode) none
    steps := ← s.get "use" 4 (list text)
    inlineLimit? := ← s.orElse "inline_limit" 5 (optional (natural UInt64.size)) none
    assetName? := ← s.orElse "asset_name" 6 (optional text) none }

/-! ## §3. Documents. -/

/-- The configuration of a project at a root. -/
def config (root : Path) (v : Value) : Option Config := do
  let s ← section? v
  return {
    project := ← s.get "project" 0 project
    entrypoints := ← s.orElse "entrypoints" 1 textMap []
    output := ← s.orElse "output" 2 output {}
    resolution := ← s.orElse "resolve" 3 resolution {}
    assets := ← s.orElse "assets" 4 assets {}
    define := ← s.orElse "define" 5 textMap []
    dev := ← s.orElse "dev" 6 dev {}
    ownRules := ← s.orElse "rules" 7 (list rule) []
    root }

end AssetBundler.Config.Decode
