/-
  AssetBundler.Main
  ────────────────────────────────
  **THE PROGRAM.**

  The arguments name a command.  The files of the project come in as a
  document, the first line of standard input.  A build puts the files as they
  are afterwards on standard output.  The development server takes further
  lines: request addresses, which it answers, and documents of changed files,
  after which it builds anew.  What is meant for the user goes to standard
  error.
-/
import AssetBundler.CommandLine.Parse
import AssetBundler.CommandLine.Report
import AssetBundler.Files.Archive
import AssetBundler.Serve.Address

namespace AssetBundler.Main

open AssetBundler.CommandLine

/-- Puts lines on a stream. -/
def putLines (out : IO.FS.Stream) (lines : List String) : IO Unit := do
  for line in lines do
    out.putStrLn line

/-- The directory that relative paths start from. -/
def workingDirectory : Location := ["project"]

/-- The answer of the development server to one line of input, and its state and files afterwards. -/
def answer (server : DevServer) (files : FileTree) (line : String) :
    DevServer × FileTree × List String :=
  if line.startsWith "/" then
    match Address.path? line with
    | some path =>
      let r := server.loop.server.respond path
      (server, files, [toString r.status, Text.Utf8.decodeLossy r.body])
    | none => (server, files, ["400"])
  else
    match Data.Json.parse? line with
    | some (.table members) =>
      match files.addEntries? members with
      | some files =>
        let paths := members.map fun m => (Path.ofNames files.here).join m.1
        let batch := paths.filter server.filter.isRelevant
        let steps := if batch.isEmpty then [] else server.loop.changeSteps [batch] files
        let loop := (server.loop.run? steps).getD server.loop
        let news := loop.sent.drop server.loop.sent.length
        ({ server with loop }, files, news.map ReloadMessage.text)
      | none => (server, files, ["400"])
    | _ => (server, files, ["400"])

/-- Answers lines of input until there are no more. -/
partial def serve (input out : IO.FS.Stream) (server : DevServer) (files : FileTree) :
    IO Unit := do
  let line ← input.getLine
  unless line.isEmpty do
    let (server, files, lines) := answer server files (line.trimAsciiEnd.toString)
    putLines out lines
    out.flush
    serve input out server files

/-- Does what arguments ask for; the number tells of success or failure. -/
def runInvocation (i : Invocation) : IO UInt32 := do
  let input ← IO.getStdin
  let out ← IO.getStdout
  let err ← IO.getStderr
  match FileTree.parse? workingDirectory (← input.getLine) with
  | none =>
    putLines err ["Error: standard input holds no files"]
    return 2
  | some files =>
    match i.command with
    | .build outdir? mode =>
      let outcome := runBuild files ⟨i.config⟩ outdir? mode
      putLines out [outcome.files.text]
      match outcome.result with
      | .ok o =>
        putLines err (outputLines o)
        return 0
      | .error e =>
        putLines err (errorLines e)
        return 1
    | .dev port? host? openBrowser noReload =>
      match startDev files ⟨i.config⟩ port? host? openBrowser noReload with
      | .ok server =>
        serve input out server files
        return 0
      | .error e =>
        putLines err (errorLines (.setup e))
        return 1

end AssetBundler.Main

/-- The program with its arguments. -/
def main (args : List String) : IO UInt32 := do
  match AssetBundler.CommandLine.parse args with
  | .ok i => AssetBundler.Main.runInvocation i
  | .error e =>
    let out ← if e.isFault then IO.getStderr else IO.getStdout
    AssetBundler.Main.putLines out (AssetBundler.CommandLine.usageLines e)
    return if e.isFault then 2 else 0
