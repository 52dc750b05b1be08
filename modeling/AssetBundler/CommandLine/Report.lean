/-
  AssetBundler.CommandLine.Report
  ────────────────────────────────
  **WHAT THE PROGRAM TELLS ITS USER.**

  The lines about a build and the wording of help and of faults in the
  arguments.
-/
import AssetBundler.CommandLine.Run
import AssetBundler.Measure

namespace AssetBundler.CommandLine

/-! ## §1. Builds. -/

/-- A role in words. -/
def roleText : ChunkRole → String
  | .entry => "entry"
  | .async => "async"
  | .shared => "shared"

/-- A number of bytes in words. -/
def sizeText (size : Nat) : String :=
  Measure.formatSize size.toUInt64

/-- The lines about the output of a build. -/
def outputLines (o : BuildOutput) : List String :=
  ["Built " ++ toString o.chunks.length ++ " chunk(s)"]
    ++ o.chunks.map (fun c => "  " ++ c.path ++ " " ++ sizeText c.size ++ " " ++ roleText c.role)
    ++ o.manifest.media.map (fun (_, path) =>
      "  " ++ path ++ " " ++ sizeText ((o.file? path).map ByteArray.size |>.getD 0))
    ++ ["  Total: " ++ sizeText o.totalSize]

/-- The lines about a command that has failed. -/
def errorLines : CommandError → List String
  | .setup e => ["Error: " ++ e.message]
  | .build e =>
    ["Build failed in " ++ e.component]
      ++ (e.module?.map fun p => "  " ++ p.text).toList ++ ["Error: " ++ e.message]

/-! ## §2. Arguments. -/

/-- The version of the program. -/
def versionLine : String := "weft 0.4.0"

/-- How the program is called. -/
def helpLines : List String :=
  ["Usage: weft [OPTIONS] <COMMAND>",
   "",
   "Commands:",
   "  build  Build the project",
   "  dev    Start development server with live reload",
   "  help   Print this message or the help of the given subcommand(s)",
   "",
   "Options:",
   "  -v, --verbose          Enable verbose output",
   "  -c, --config <CONFIG>  Path to weft.toml config file [default: weft.toml]",
   "  -h, --help             Print help",
   "  -V, --version          Print version"]

/-- The lines about arguments that give no invocation. -/
def usageLines : UsageError → List String
  | .helpAsked | .nothingGiven => helpLines
  | .versionAsked => [versionLine]
  | .unknownArgument => ["error: unexpected argument found"]
  | .invalidSubcommand => ["error: unrecognized subcommand"]
  | .missingSubcommand => ["error: a subcommand is required but one was not provided"]
  | .invalidValue => ["error: invalid value for an option"]
  | .valueValidation => ["error: the value of an option cannot be read"]
  | .tooManyValues => ["error: unexpected value for an option"]
  | .argumentConflict => ["error: an option cannot be used multiple times"]

/-- Arguments that ask for a text only are no fault. -/
def UsageError.isFault : UsageError → Bool
  | .helpAsked | .versionAsked => false
  | _ => true

end AssetBundler.CommandLine
