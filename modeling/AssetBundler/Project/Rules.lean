/-
  AssetBundler.Project.Rules
  ────────────────────────────────
  **THE RULE TABLE.**

  The first rule whose pattern matches the path of a module, and whose mode
  and exclusion allow it, decides which steps transform the module.  Static
  assets that no rule covers are emitted as they are.
-/
import AssetBundler.Config.Load
import AssetBundler.Pattern.Parser
import AssetBundler.Project.Error

namespace AssetBundler

/-! ## §1. Rules. -/

/-- A rule with its patterns and steps read. -/
structure TransformRule where
  name : String
  test : Pattern
  exclude? : Option Pattern
  mode? : Option Mode
  steps : List Step
  inlineLimit : Nat
  assetName : String

namespace TransformRule

/-- The rule is for a path in a mode. -/
def applies (rule : TransformRule) (mode : Mode) (path : String) : Bool :=
  rule.mode?.all (· == mode) && rule.test.isMatch path
    && !(rule.exclude?.any fun p => p.isMatch path)

/-- The steps of a rule by their names. -/
def stepsOf (rule : String) : List String → Except SetupError (List Step)
  | [] => .ok []
  | name :: rest =>
    match Step.ofName? name with
    | none => .error (.unknownStep rule name)
    | some step => (stepsOf rule rest).map (step :: ·)

/-- The pattern by which a rule leaves paths out. -/
def excludeOf (rule : Config.Rule) : Except SetupError (Option Pattern) :=
  match rule.exclude? with
  | none => .ok none
  | some text =>
    match Pattern.parse? text with
    | some p => .ok (some p)
    | none => .error (.badExclude rule.name)

/-- Reads a rule. -/
def compile (assets : Config.Assets) (rule : Config.Rule) : Except SetupError TransformRule := do
  let some test := Pattern.parse? rule.test | throw (.badTest rule.name)
  let exclude? ← excludeOf rule
  let steps ← stepsOf rule.name rule.steps
  return {
    name := rule.name
    test
    exclude?
    mode? := rule.mode?
    steps
    inlineLimit := rule.inlineLimit?.getD assets.inlineLimit
    assetName := rule.assetName?.getD assets.name }

end TransformRule

/-! ## §2. The table. -/

/-- The rules of a project, and what every step knows. -/
structure RuleTable where
  rules : List TransformRule
  mode : Mode
  publicPath : String
  defines : List (String × String)
  /-- The name template of assets that no rule covers. -/
  assetName : String

namespace RuleTable

/-- Reads the rules of a configuration. -/
def compile (config : Config) (mode : Mode) : Except SetupError RuleTable := do
  let rules ← config.rules.mapM (TransformRule.compile config.assets)
  return {
    rules
    mode
    publicPath := config.publicPath
    defines := config.defines mode
    assetName := config.assets.name }

/-- The rule for a module. -/
def select (table : RuleTable) (m : Identity) : Option TransformRule :=
  table.rules.find? fun rule => rule.applies table.mode m.matchText

/-- What the steps of a rule know of a module. -/
def context (table : RuleTable) (m : Identity) (inlineLimit : Nat) (assetName : String) :
    StepContext :=
  { stem := m.stem
    extension := m.extension
    mode := table.mode
    publicPath := table.publicPath
    defines := table.defines
    inlineLimit
    assetName }

/-- Applies steps one after the other: which were begun, and the artifact or the fault of the last. -/
def runSteps (ctx : StepContext) :
    List Step → Artifact → List Step × Except TransformFault Artifact
  | [], a => ([], .ok a)
  | step :: rest, a =>
    match step.apply ctx a with
    | .error e => ([step], .error (.step step e))
    | .ok a =>
      let (begun, result) := runSteps ctx rest a
      (step :: begun, result)

/-- The artifact of a chain of steps, which must not leave the module raw. -/
def finished (rule : String) (m : Identity) :
    Except TransformFault Artifact → Except BuildError Artifact
  | .error fault => .error (.transform rule m fault)
  | .ok (.raw _) => .error (.transform rule m .noArtifact)
  | .ok a => .ok a

/-- Transforms a module: the steps of its rule that were begun, and the artifact. -/
def transform (table : RuleTable) (m : Identity) (source : ByteArray) :
    List Step × Except BuildError Artifact :=
  match table.select m with
  | some rule =>
    let ctx := table.context m rule.inlineLimit rule.assetName
    let (begun, result) := runSteps ctx rule.steps (.raw source)
    (begun, finished rule.name m result)
  | none =>
    if ContentType.isStaticAsset m.extension then
      ([], .ok (emitFile (table.context m 0 table.assetName) source))
    else ([], .error (.noMatchingRule m))

end RuleTable

end AssetBundler
