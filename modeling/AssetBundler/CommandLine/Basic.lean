/-
  AssetBundler.CommandLine.Basic
  ────────────────────────────────
  **COMMANDS AND THEIR OPTIONS.**

  What the program can be told to do, the options of each command, and why
  arguments are not understood.
-/
import AssetBundler.Files.Path
import AssetBundler.Mode

namespace AssetBundler.CommandLine

/-! ## §1. Invocations. -/

/-- What the program is told to do. -/
inductive Command where
  /-- Builds the project and writes its output. -/
  | build (outdir? : Option Path) (mode : Mode)
  /-- Serves the project and builds it anew on changes. -/
  | dev (port? : Option Nat) (host? : Option String) (openBrowser noReload : Bool)

/-- A command with the options that every command takes. -/
structure Invocation where
  command : Command
  verbose : Bool
  /-- The configuration file. -/
  config : String

/-- Why arguments give no invocation. -/
inductive UsageError where
  | unknownArgument
  | invalidSubcommand
  | missingSubcommand
  /-- There are no arguments at all. -/
  | nothingGiven
  | invalidValue
  | valueValidation
  | tooManyValues
  /-- An option that is to be given once is given again. -/
  | argumentConflict
  /-- Help is asked for. -/
  | helpAsked
  /-- The version is asked for. -/
  | versionAsked
  deriving DecidableEq, Repr

/-! ## §2. Options. -/

/-- The options of the program and of its commands. -/
inductive OptionName where
  | verbose | config | help | version | outdir | mode | port | host | openBrowser | noReload
  deriving DecidableEq, Repr

namespace OptionName

/-- A value goes with the option. -/
def takesValue : OptionName → Bool
  | config | outdir | mode | port | host => true
  | _ => false

/-- The number that a text denotes: digits, behind a sign or not. -/
def integer? (text : List Char) : Option Int :=
  let digits (cs : List Char) : Option Nat :=
    if !cs.isEmpty && cs.all Text.isAsciiDigit then some (Text.decimalNumber cs) else none
  match text with
  | '-' :: rest => (digits rest).map fun n => -(n : Int)
  | '+' :: rest => (digits rest).map fun n => (n : Int)
  | rest => (digits rest).map fun n => (n : Int)

/-- The port that a text denotes. -/
def port? (text : String) : Option Nat :=
  (integer? text.toList).bind fun n => if 0 ≤ n && n < UInt16.size then some n.toNat else none

/-- What is wrong with the value of an option, if anything. -/
def fault? (name : OptionName) (value : String) : Option UsageError :=
  match name with
  | outdir => if value == "" then some .invalidValue else none
  | mode => if (Mode.ofText? value).isNone then some .invalidValue else none
  | port => if (port? value).isNone then some .valueValidation else none
  | _ => none

end OptionName

/-- An option with its long and its short name. -/
structure OptionSpec where
  name : OptionName
  long : String
  short? : Option Char

/-- The options that stand before and behind the name of a command. -/
def globalOptions : List OptionSpec :=
  [⟨.verbose, "verbose", some 'v'⟩, ⟨.config, "config", some 'c'⟩, ⟨.help, "help", some 'h'⟩,
   ⟨.version, "version", some 'V'⟩]

/-- The commands by their names. -/
inductive CommandName where
  | build | dev
  deriving DecidableEq, Repr

namespace CommandName

/-- The command of a name. -/
def ofText? (text : String) : Option CommandName :=
  [("build", build), ("dev", dev)].lookup text

/-- The options of a command alone. -/
def options : CommandName → List OptionSpec
  | build => [⟨.outdir, "outdir", some 'o'⟩, ⟨.mode, "mode", some 'm'⟩]
  | dev =>
    [⟨.port, "port", some 'p'⟩, ⟨.host, "host", none⟩, ⟨.openBrowser, "open", none⟩,
     ⟨.noReload, "no-reload", none⟩]

end CommandName

end AssetBundler.CommandLine
