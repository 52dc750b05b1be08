/-
  AssetBundler.Build.Output
  ────────────────────────────────
  **WHAT A BUILD GIVES.**

  Chunk files are named after the digest of their text.  The whole output is
  put together first and written afterwards: in development over what is
  there, in production beside it and then in its place.
-/
import AssetBundler.Build.Page
import AssetBundler.Build.Render
import AssetBundler.Html.Compact

namespace AssetBundler

/-! ## §1. Output. -/

/-- Output paths by logical names. -/
structure OutputManifest where
  scripts : TextMap String := []
  stylesheets : TextMap String := []
  /-- Emitted assets by module names. -/
  media : TextMap String := []

namespace OutputManifest

/-- Every path that the manifest names. -/
def paths (m : OutputManifest) : List String :=
  m.scripts.map (·.2) ++ m.stylesheets.map (·.2) ++ m.media.map (·.2)

/-- The manifest as a value of a document. -/
def toValue (m : OutputManifest) : Data.Value :=
  let table (map : TextMap String) : Data.Value :=
    .table (map.map fun (name, path) => (name, .text path))
  .table [("scripts", table m.scripts), ("stylesheets", table m.stylesheets),
    ("media", table m.media)]

end OutputManifest

/-- A chunk file. -/
structure EmittedChunk where
  name : String
  kind : ChunkKind
  role : ChunkRole
  path : String
  size : Nat
  deriving DecidableEq, Repr

/-- The output of a build. -/
structure BuildOutput where
  manifest : OutputManifest := {}
  chunks : List EmittedChunk := []
  /-- Contents by their paths below the output directory. -/
  files : TextMap ByteArray := []
  /-- The path of the page. -/
  html : String := ""

namespace BuildOutput

/-- The content of a file. -/
def file? (o : BuildOutput) (path : String) : Option ByteArray :=
  o.files.lookup path

/-- How many bytes all files have. -/
def totalSize (o : BuildOutput) : Nat :=
  o.files.foldl (fun size f => size + f.2.size) 0

/-- The output with a file put at a path. -/
def putFile (o : BuildOutput) (path : String) (content : ByteArray) : BuildOutput :=
  { o with files := TextMap.insert path content o.files }

end BuildOutput

namespace Emit

/-! ## §2. Chunks and assets. -/

/-- The file name of a chunk with a text. -/
def chunkFile (chunk : Chunk) (code : String) : String :=
  chunk.name ++ "." ++ Digest.ofContent code.toUTF8 ++ "." ++ chunk.kind.extension

/-- The path of a chunk file. -/
def chunkPath (chunk : Chunk) (code : String) : String :=
  chunk.kind.directory ++ "/" ++ chunkFile chunk code

/-- The text that is written for a chunk: one with a source map names its file. -/
def chunkText (chunk : Chunk) (rendered : RenderedChunk) : String :=
  match rendered.map? with
  | some _ =>
    rendered.code ++ "//# sourceMappingURL=" ++ chunkFile chunk rendered.code ++ ".map\n"
  | none => rendered.code

/-- The manifest with the path of a chunk. -/
def addToManifest (m : OutputManifest) (chunk : Chunk) (path : String) : OutputManifest :=
  match chunk.kind with
  | .script => { m with scripts := TextMap.insert chunk.name path m.scripts }
  | .stylesheet => { m with stylesheets := TextMap.insert chunk.name path m.stylesheets }

/-- The output with a chunk and its source map. -/
def addChunk (o : BuildOutput) (chunk : Chunk) (rendered : RenderedChunk) : BuildOutput :=
  let path := chunkPath chunk rendered.code
  let text := chunkText chunk rendered
  let withMap := match rendered.map? with
    | some map =>
      o.putFile (path ++ ".map") (map.text (chunkFile chunk rendered.code)).toUTF8
    | none => o
  let emitted : EmittedChunk :=
    { name := chunk.name, kind := chunk.kind, role := chunk.role, path
      size := text.utf8ByteSize }
  let withFile := withMap.putFile path text.toUTF8
  { withFile with
    manifest := addToManifest o.manifest chunk path
    chunks := o.chunks ++ [emitted] }

/-- The output with the file of a module that is an asset with one. -/
def addAsset (root : Path) (o : BuildOutput) (r : ModuleRecord) : BuildOutput :=
  match r.artifact with
  | .asset _ (some file) =>
    let name := Path.moduleId r.identity.path root
    let withFile := o.putFile file.path file.bytes
    { withFile with
      manifest := { o.manifest with media := TextMap.insert name file.path o.manifest.media } }
  | _ => o

/-! ## §3. The page. -/

/-- The addresses of the chunks of a plan. -/
def addresses (publicPath : String) (plan : ChunkPlan) (contents : List RenderedChunk) :
    List String :=
  (plan.chunks.zip contents).map fun (chunk, rendered) =>
    publicPath ++ chunkPath chunk rendered.code

/-- The addresses of the chunks of one kind in some groups. -/
def addressesOf (plan : ChunkPlan) (addresses : List String) (kind : ChunkKind)
    (groups : List Nat) : List String :=
  groups.filterMap fun group => (plan.chunkIndex? group kind).bind fun i => addresses[i]?

/-- The groups that a page loads: those of each entry, each group once. -/
def initialGroups (plan : ChunkPlan) : List Nat :=
  firstOccurrences ((plan.groupsOf .entry).flatMap plan.loadSequence)

/-- The files of deferred modules by their names. -/
def deferredFiles (root : Path) (plan : ChunkPlan) (addresses : List String) :
    TextMap DeferredFiles :=
  TextMap.ofList ((plan.groupsOf .async).filterMap fun group =>
    (plan.groups[group]?.bind (·.root?)).map fun m =>
      let groups := plan.loadSequence group
      (Path.moduleId m.path root,
        { js := addressesOf plan addresses .script groups
          css := addressesOf plan addresses .stylesheet groups }))

/-- What is put into the page. -/
def shell (root : Path) (plan : ChunkPlan) (addresses : List String) : Page.Shell :=
  let groups := initialGroups plan
  { stylesheets := addressesOf plan addresses .stylesheet groups
    scripts := addressesOf plan addresses .script groups
    chunkMap := deferredFiles root plan addresses }

/-- The template of the page. -/
def template (config : Config) (files : FileTree) : Except BuildError String :=
  let path := config.templatePath
  if !files.exists_ path then .ok (Page.defaultTemplate config.project.name)
  else match files.readText path with
    | .ok text => .ok text
    | .error e => .error (.emission path e)

/-! ## §4. The whole output. -/

/-- The output with the chunks and assets of a build. -/
def contentOutput (g : ModuleGraph) (root : Path) (plan : ChunkPlan)
    (contents : List RenderedChunk) : BuildOutput :=
  let chunks := (plan.chunks.zip contents).foldl (fun o (chunk, rendered) =>
    addChunk o chunk rendered) {}
  g.records.foldl (addAsset root) chunks

/-- The text of a page; for production it is written anew. -/
def pageText (mode : Mode) (page : Page.Shell) (template : String) : String :=
  match mode with
  | .development => page.render template
  | .production => Html.compact (page.render template)

/-- The output of a build; `contents` holds the text of each chunk of the plan. -/
def output (config : Config) (mode : Mode) (files : FileTree) (root : Path) (g : ModuleGraph)
    (plan : ChunkPlan) (contents : List RenderedChunk) : Except BuildError BuildOutput := do
  let o := contentOutput g root plan contents
  let page := shell root plan (addresses config.publicPath plan contents)
  let html := pageText mode page (← template config files)
  let path := config.output.htmlFilename
  let o := { o.putFile path html.toUTF8 with html := path }
  return if config.output.manifest then
    o.putFile "manifest.json" (Data.Json.pretty 0 o.manifest.toValue).toUTF8
  else o

end Emit

/-! ## §5. Writing. -/

namespace BuildOutput

/-- Files as they are after an operation, and why it failed, if it did. -/
abbrev WriteResult := FileTree × Option BuildError

/-- Writes some files below a directory, until one fails. -/
def writeFiles (dir : Path) : List (String × ByteArray) → FileTree → WriteResult
  | [], files => (files, none)
  | (relative, content) :: rest, files =>
    let path := dir.join relative
    let parent := path.parent?.getD ⟨""⟩
    match files.createDirectories parent with
    | (files, some e) => (files, some (.emission parent e))
    | (files, none) =>
      match files.write path content with
      | .ok files => writeFiles dir rest files
      | .error e => (files, some (.emission path e))

/-- The directory beside an output directory where production output is put together. -/
def stagingDir (outdir : Path) : Path :=
  outdir.withFileName (outdir.fileName?.getD "dist" ++ ".weft-staging")

/-- Takes a directory away if something stands there. -/
def clear (dir : Path) (files : FileTree) : WriteResult :=
  if files.exists_ dir then
    match files.removeAll dir with
    | (files, some e) => (files, some (.emission dir e))
    | (files, none) => (files, none)
  else (files, none)

/-- Puts the staged output in the place of the output directory. -/
def swap (staging outdir : Path) (files : FileTree) : WriteResult :=
  match clear outdir files with
  | (files, some e) => (files, some e)
  | (files, none) =>
    match files.rename staging outdir with
    | .ok files => (files, none)
    | .error e => (files, some (.emission outdir e))

/-- Writes the output in place of an output directory, by way of a staging directory. -/
def replaceDir (o : BuildOutput) (outdir : Path) (files : FileTree) : WriteResult :=
  let staging := stagingDir outdir
  match clear staging files with
  | (files, some e) => (files, some e)
  | (files, none) =>
    match writeFiles staging o.files files with
    | (files, some e) => ((files.removeAll staging).1, some e)
    | (files, none) => swap staging outdir files

/-- Writes the output to a directory. -/
def write (o : BuildOutput) (outdir : Path) (mode : Mode) (files : FileTree) : WriteResult :=
  match mode with
  | .development => writeFiles outdir o.files files
  | .production => o.replaceDir outdir files

end BuildOutput

end AssetBundler
