/-
  AssetBundler.CommandLine.Parse
  ────────────────────────────────
  **READING ARGUMENTS.**

  Arguments are read one after the other, first the options of the program up
  to the name of a command, then those of the command.  An option whose value
  follows as an argument of its own stays pending until the next option or the
  end.
-/
import AssetBundler.CommandLine.Basic

namespace AssetBundler.CommandLine

open AssetBundler.Text

/-! ## §1. The options given so far. -/

/-- Options with their values; those that take none have an empty one. -/
abbrev GivenOptions := List (OptionName × String)

/-- What has been read of the arguments of the program or of a command. -/
structure ReadState where
  given : GivenOptions := []
  /-- An option that has not been checked yet; its value may still be missing. -/
  pending? : Option (OptionName × Option String) := none
  /-- Two hyphens have been read: no options follow. -/
  onlyPlain : Bool := false

namespace ReadState

/-- The state with an option that is complete. -/
def give (s : ReadState) (name : OptionName) (value : String) : Except UsageError ReadState :=
  if (s.given.lookup name).isSome then .error .argumentConflict
  else match name.fault? value with
    | some e => .error e
    | none => .ok { s with given := s.given ++ [(name, value)] }

/-- The state without a pending option. -/
def settle (s : ReadState) : Except UsageError ReadState :=
  match s.pending? with
  | none => .ok s
  | some (_, none) => .error .invalidValue
  | some (name, some value) => { s with pending? := none }.give name value

/-- The state behind an option that is complete. -/
def addOption (s : ReadState) (name : OptionName) (value : String) :
    Except UsageError ReadState := do
  let s ← s.settle
  match name with
  | .help => throw .helpAsked
  | .version => throw .versionAsked
  | name => s.give name value

/-- The state behind an option whose value may follow. -/
def awaitValue (s : ReadState) (name : OptionName) : Except UsageError ReadState := do
  let s ← s.settle
  return { s with pending? := some (name, none) }

/-- The next argument may be the value of an option. -/
def isWaiting (s : ReadState) : Bool :=
  match s.pending? with
  | some (_, none) => true
  | _ => false

/-- The state behind the value of the pending option. -/
def addValue (s : ReadState) (value : String) : ReadState :=
  { s with pending? := s.pending?.map fun (name, _) => (name, some value) }

end ReadState

/-! ## §2. One argument. -/

/-- The name of a long option and its value, if one is attached. -/
def splitLong (text : List Char) : List Char × Option String :=
  match text.dropWhile (· != '=') with
  | _ :: value => (text.takeWhile (· != '='), some (String.ofList value))
  | [] => (text, none)

/-- The state behind a long option, given without its hyphens. -/
def readLong (options : List OptionSpec) (s : ReadState) (text : List Char) :
    Except UsageError ReadState :=
  let (long, value?) := splitLong text
  match options.find? fun o => o.long.toList == long with
  | none => .error .unknownArgument
  | some o =>
    match o.name.takesValue, value? with
    | true, some value => s.addOption o.name value
    | true, none => s.awaitValue o.name
    | false, some _ => .error .tooManyValues
    | false, none => s.addOption o.name ""

/-- The value that is attached to a short option. -/
def attachedValue? : List Char → Option String
  | [] => none
  | '=' :: rest => some (String.ofList rest)
  | rest => some (String.ofList rest)

/-- The state behind short options, given without their hyphen. -/
def readShort (options : List OptionSpec) (s : ReadState) :
    List Char → Except UsageError ReadState
  | [] => .ok s
  | c :: rest =>
    match options.find? fun o => o.short? == some c with
    | none => .error .unknownArgument
    | some o =>
      if o.name.takesValue then
        match attachedValue? rest with
        | some value => s.addOption o.name value
        | none => s.awaitValue o.name
      else (s.addOption o.name "").bind fun s => readShort options s rest

/-- What an argument is. -/
inductive Argument where
  | escape
  | long (text : List Char)
  | short (text : List Char)
  | plain

/-- What an argument looks like. A single hyphen is no option. -/
def Argument.ofText (text : String) : Argument :=
  match text.toList with
  | ['-', '-'] => .escape
  | '-' :: '-' :: rest => .long rest
  | '-' :: c :: rest => .short (c :: rest)
  | _ => .plain

/-- The state behind an argument that is no command; `onPlain` is the error for one that is neither an
option nor a value. -/
def readArgument (options : List OptionSpec) (onPlain : UsageError) (s : ReadState)
    (text : String) : Except UsageError ReadState :=
  if s.onlyPlain then .error onPlain
  else match Argument.ofText text with
    | .escape => .ok { s with onlyPlain := true }
    | .long rest => readLong options s rest
    | .short rest => readShort options s rest
    | .plain => if s.isWaiting then .ok (s.addValue text) else .error onPlain

/-! ## §3. All arguments. -/

/-- The arguments of a command. -/
def readCommand (options : List OptionSpec) (args : List String) :
    Except UsageError GivenOptions := do
  let s ← args.foldlM (readArgument options .unknownArgument) {}
  return (← s.settle).given

/-- The names of subcommands, help among them. -/
def isSubcommand (text : String) : Bool :=
  text == "help" || (CommandName.ofText? text).isSome

/-- What help on some subcommands leads to. -/
def helpOn : List String → UsageError
  | [] => .helpAsked
  | [name] => if isSubcommand name then .helpAsked else .invalidSubcommand
  | _ :: _ :: _ => .invalidSubcommand

/-- The options before the name of a command, and the command with its options. -/
abbrev ReadResult := GivenOptions × Option (CommandName × GivenOptions)

/-- Reads the arguments of the program from a state on. -/
def readProgram (s : ReadState) : List String → Except UsageError ReadResult
  | [] => do return ((← s.settle).given, none)
  | text :: rest =>
    if !s.onlyPlain && !s.isWaiting && text == "help" then .error (helpOn rest)
    else
      match if s.onlyPlain || s.isWaiting then none else CommandName.ofText? text with
      | some name => do
        let own ← readCommand (globalOptions ++ name.options) rest
        return ((← s.settle).given, some (name, own))
      | none =>
        let onPlain :=
          if s.onlyPlain && isSubcommand text then .unknownArgument else .invalidSubcommand
        match readArgument globalOptions onPlain s text with
        | .ok s => readProgram s rest
        | .error e => .error e

/-- The command with some options. -/
def commandOf (name : CommandName) (given : GivenOptions) : Command :=
  let has (o : OptionName) : Bool := (given.lookup o).isSome
  match name with
  | .build =>
    .build ((given.lookup .outdir).map Path.mk)
      (((given.lookup .mode).bind Mode.ofText?).getD .production)
  | .dev =>
    .dev ((given.lookup .port).bind OptionName.port?) (given.lookup .host) (has .openBrowser)
      (has .noReload)

/-- The configuration file of projects that name none. -/
def defaultConfig : String := "weft.toml"

/-- The invocation that arguments spell. Options of all commands may stand on both sides of the name of
the command, where those behind it count. -/
def parse (args : List String) : Except UsageError Invocation := do
  match ← readProgram {} args with
  | ([], none) => throw .nothingGiven
  | (_, none) => throw .missingSubcommand
  | (before, some (name, own)) =>
    let all := own ++ before
    return {
      command := commandOf name own
      verbose := (all.lookup .verbose).isSome
      config := (all.lookup .config).getD defaultConfig }

end AssetBundler.CommandLine
