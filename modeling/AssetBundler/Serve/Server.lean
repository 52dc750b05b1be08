/-
  AssetBundler.Serve.Server
  ────────────────────────────────
  **THE STATE OF THE DEVELOPMENT SERVER.**

  The server keeps the output of the last build that succeeded and the error
  of the last one that failed.  Requests are answered from that output, and
  addresses without a file lead to the page of the project.
-/
import AssetBundler.Build.Output
import AssetBundler.Serve.Client
import AssetBundler.Serve.Message

namespace AssetBundler

open AssetBundler.Text

/-! ## §1. States. -/

/-- The development server. -/
structure Server where
  /-- The output of the last build that succeeded. -/
  output? : Option BuildOutput := none
  /-- Why the last build failed, if it did. -/
  lastError? : Option String := none
  liveReload : Bool
  /-- Failures are shown in pages. -/
  overlay : Bool
  /-- Addresses without a file lead to the page. -/
  fallback : Bool
  publicPath : String

namespace Server

/-- The server of a project before its first build. -/
def ofConfig (config : Config) (liveReload : Bool) : Server :=
  { liveReload
    overlay := config.dev.overlay
    fallback := config.dev.historyApiFallback
    publicPath := config.publicPath }

/-- Takes over the result of a build: the server, and what pages are told. A build that was told to stop
leaves everything as it is. -/
def publish (s : Server) (result : Except BuildError BuildOutput) (reason : String) :
    Server × List ReloadMessage :=
  match result with
  | .ok o => ({ s with output? := some o, lastError? := none }, [.reload reason])
  | .error e =>
    if e.isCancelled then (s, [])
    else
      ({ s with lastError? := some e.message },
        [.buildError e.component e.message (e.module?.map (·.text))])

/-! ## §2. Routes. -/

/-- A text without a beginning, if it has that. -/
def stripStart? (start text : String) : Option String :=
  (dropPrefix? start.toList text.toList).map String.ofList

/-- The path below the output directory that a request path means. -/
def relativePath (publicPath path : String) : String :=
  ((stripStart? publicPath path).or (stripStart? "/" path)).getD path

/-- The last segment of a path has no dot, as those of pages have none. -/
def looksLikePage (path : String) : Bool :=
  !(((splitAt (· == '/') path.toList).getLast?.getD []).contains '.')

/-- The output file that a request path leads to. -/
def route (o : BuildOutput) (path publicPath : String) (fallback : Bool) : Option String :=
  let relative := relativePath publicPath path
  let key := if relative == "" then o.html else relative
  if (o.file? key).isSome then some key
  else if fallback && looksLikePage key then some o.html
  else none

/-! ## §3. Answers. -/

/-- An answer to a request. -/
structure Response where
  status : Nat
  contentType? : Option String
  body : ByteArray

namespace Response

/-- A page. -/
def page (status : Nat) (html : String) : Response :=
  ⟨status, some "text/html; charset=utf-8", html.toUTF8⟩

/-- Plain text. -/
def plain (status : Nat) (text : String) : Response :=
  ⟨status, some "text/plain; charset=utf-8", text.toUTF8⟩

end Response

/-- What is shown before the first build has ended. -/
def unfinished : String := "The first build has not finished yet."

/-- The answer with a file of the output; pages get the script by which they hear of new builds. -/
def fileResponse (liveReload : Bool) (path : String) (content : ByteArray) : Response :=
  let extension := (Path.extension? ⟨path⟩).getD ""
  if extension == "html" then
    let html := Utf8.decodeLossy content
    Response.page 200 (if liveReload then Client.inject html else html)
  else ⟨200, some (ContentType.ofExtension extension), content⟩

/-- The answer to a request for a path. -/
def respond (s : Server) (path : String) : Response :=
  match s.output? with
  | none => Response.page 503 (Client.errorPage (s.lastError?.getD unfinished) s.liveReload)
  | some o =>
    match route o path s.publicPath s.fallback with
    | none => Response.plain 404 ("File not found: " ++ path)
    | some key =>
      match o.file? key with
      | some content => fileResponse s.liveReload key content
      | none => ⟨404, none, ByteArray.empty⟩

/-- The answer with the script by which pages hear of new builds. -/
def clientResponse (s : Server) : Response :=
  ⟨200, some "application/javascript; charset=utf-8", (Client.script s.overlay).toUTF8⟩

end Server

end AssetBundler
