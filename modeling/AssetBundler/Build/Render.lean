/-
  AssetBundler.Build.Render
  ────────────────────────────────
  **THE TEXT OF CHUNKS.**

  A script chunk registers each of its modules as a function together with a
  map from the specifiers it uses to module names.  Extracted stylesheets map
  to nothing, since their rules are in a stylesheet chunk.
-/
import AssetBundler.Build.Plan
import AssetBundler.Build.SourceMap

namespace AssetBundler

open AssetBundler.Text

namespace Render

/-! ## §1. Modules. -/

/-- The statements that run as the body of a module. -/
def moduleBody (r : ModuleRecord) : String :=
  match r.artifact with
  | .script code _ => code
  | .asset url _ =>
    "Object.defineProperty(exports, \"__esModule\", \x7b value: true \x7d);\nexports.default = "
      ++ quote url ++ ";"
  | _ => ""

/-- The specifiers of a module with the names of their modules; stylesheets have none. -/
def requireTargets (g : ModuleGraph) (root : Path) (r : ModuleRecord) :
    TextMap (Option String) :=
  TextMap.ofList (r.dependencies.map fun d =>
    match g.artifact? d.target with
    | some (.stylesheet ..) => (d.specifier, none)
    | _ => (d.specifier, some (Path.moduleId d.target.path root)))

/-- The map from specifiers to module names, as an expression. -/
def requireMap (g : ModuleGraph) (root : Path) (r : ModuleRecord) : String :=
  let entries := (requireTargets g root r).map fun (specifier, target?) =>
    quote specifier ++ ": " ++ (target?.map quote).getD "null"
  "\x7b" ++ ", ".intercalate entries ++ "\x7d"

/-- The body of a module without white space at its end. -/
def trimmedBody (r : ModuleRecord) : String :=
  String.ofList (trimEnd (moduleBody r).toList)

/-- The statement that registers a module. -/
def registration (g : ModuleGraph) (root : Path) (r : ModuleRecord) : String :=
  "modules[" ++ quote (Path.moduleId r.identity.path root)
    ++ "] = [function (module, exports, require, __import__) \x7b\n" ++ trimmedBody r
    ++ "\n\x7d, " ++ requireMap g root r ++ "];\n"

/-! ## §2. Script chunks. -/

/-- The records of a chunk. -/
def recordsOf (g : ModuleGraph) (chunk : Chunk) : List ModuleRecord :=
  chunk.modules.filterMap g.get?

/-- The text of a script chunk: its registrations, and for an entry the call that runs it. -/
def script (g : ModuleGraph) (root : Path) (chunk : Chunk) : String :=
  let entry := match chunk.entryModule? with
    | some m => "self.__weft_require__(" ++ quote (Path.moduleId m.path root) ++ ");\n"
    | none => ""
  "(function (modules) \x7b\n"
    ++ String.join ((recordsOf g chunk).map (registration g root))
    ++ "\x7d)(self.__weft_modules__ = self.__weft_modules__ || \x7b\x7d);\n" ++ entry

/-- How many line breaks a text has. -/
def breakCount (text : String) : Nat :=
  text.toList.count '\n'

/-- How many lines a text has; a line break at its end begins no line. -/
def lineCount (text : String) : Nat :=
  match text.toList.getLast? with
  | none => 0
  | some '\n' => breakCount text
  | some _ => breakCount text + 1

/-- The map of some records, whose registrations begin at a line: each line of a body leads to the same
line of its source, as far as that has lines. -/
def mapRecords (root : Path) : Nat → List ModuleRecord → SourceMap → SourceMap
  | _, [], map => map
  | line, r :: rest, map =>
    let bodyBreaks := breakCount (trimmedBody r)
    let map := match r.source? with
      | some source =>
        let (map, index) := map.addSource ("/" ++ Path.moduleId r.identity.path root) source
        map.addLines (line + 1) index (min (bodyBreaks + 1) (lineCount source))
      | none => map
    mapRecords root (line + bodyBreaks + 3) rest map

/-- The source map of a script chunk. -/
def scriptMap (g : ModuleGraph) (root : Path) (chunk : Chunk) : SourceMap :=
  mapRecords root 1 (recordsOf g chunk) {}

/-! ## §3. Stylesheet chunks. -/

/-- The public address of the file that a stylesheet refers to by its `index`-th import. -/
def addressOf (g : ModuleGraph) (r : ModuleRecord) (index : Nat) :
    Except TransformFault (List Char) :=
  match r.dependencies[index]? with
  | none => .error (.danglingPlaceholder index)
  | some d =>
    match g.artifact? d.target with
    | some (.asset url _) => .ok url.toList
    | some other => .error (.notAsset d.specifier other.kind)
    | none => .error (.notBuilt d.specifier)

/-- The rules of an extracted stylesheet with the addresses put in; other modules have none. -/
def rulesOf (g : ModuleGraph) (r : ModuleRecord) : Except BuildError (List Char) :=
  match r.artifact with
  | .stylesheet css _ =>
    match Style.Placeholder.replace (addressOf g r) css.toList with
    | .ok text => .ok text
    | .error (.index e) => .error (.transform "css" r.identity (.placeholder e))
    | .error (.lookup fault) => .error (.transform "css" r.identity fault)
  | _ => .ok []

/-- The text of a stylesheet chunk: the rules of its modules, each on lines of their own. -/
def stylesheet (g : ModuleGraph) (chunk : Chunk) : Except BuildError String := do
  let parts ← (recordsOf g chunk).mapM (rulesOf g)
  let texts := (parts.filter fun text => !text.isEmpty).map String.ofList
  return "\n".intercalate texts ++ "\n"

end Render

/-! ## §4. Chunks. -/

/-- The text of a chunk, with its source map in development. -/
structure RenderedChunk where
  code : String
  map? : Option SourceMap

/-- The text of a chunk. -/
def renderChunk (g : ModuleGraph) (root : Path) (mode : Mode) (chunk : Chunk) :
    Except BuildError RenderedChunk :=
  match chunk.kind with
  | .script =>
    let map? := if mode = .development then some (Render.scriptMap g root chunk) else none
    .ok ⟨Render.script g root chunk, map?⟩
  | .stylesheet => (Render.stylesheet g chunk).map fun code => ⟨code, none⟩

end AssetBundler
