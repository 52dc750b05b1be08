/-
  AssetBundler.Transform.Step
  ────────────────────────────────
  **TRANSFORM STEPS.**

  A step takes an artifact and the context of its module to the next
  artifact.  Rules name their steps; `Step.apply` is what each of them does.
-/
import AssetBundler.ContentType
import AssetBundler.Mode
import AssetBundler.Script.Define
import AssetBundler.Script.Lowering
import AssetBundler.Style.Stylesheet
import AssetBundler.Text.Base64
import AssetBundler.Text.Utf8
import AssetBundler.Transform.AssetName

namespace AssetBundler

open AssetBundler.Text

/-! ## §1. Names, contexts and errors. -/

/-- The steps that a rule may name. -/
inductive Step where
  /-- Replaces compile-time constants. -/
  | define
  /-- Turns a module into a function body and finds its imports. -/
  | script
  /-- Finds the references of a stylesheet. -/
  | css
  /-- Turns a stylesheet into a script that injects it. -/
  | style
  /-- Turns vector graphics into a script that exports their markup. -/
  | svg
  /-- Puts small files into their address, and emits large ones. -/
  | url
  /-- Emits a file. -/
  | file
  deriving DecidableEq, Repr

namespace Step

/-- All steps with their names. -/
def table : List (String × Step) :=
  [("define", define), ("script", script), ("css", css), ("style", style), ("svg", svg),
   ("url", url), ("file", file)]

/-- The step of a name. -/
def ofName? (name : String) : Option Step :=
  table.lookup name

/-- The name of a step. -/
def name : Step → String
  | define => "define"
  | script => "script"
  | css => "css"
  | style => "style"
  | svg => "svg"
  | url => "url"
  | file => "file"

end Step

/-- What a step knows of its module and the build. -/
structure StepContext where
  stem : String
  extension : String
  mode : Mode
  publicPath : String
  defines : List (String × String)
  inlineLimit : Nat
  assetName : String

/-- Why a step fails. -/
inductive StepError where
  | invalidText (e : Utf8.DecodeError)
  | notSource (kind : ArtifactKind)
  | notBytes (step : Step) (kind : ArtifactKind)
  | notStylesheet (kind : ArtifactKind)
  | syntaxError
  | noGraphic
  | placeholder (e : Style.Placeholder.IndexError)
  | danglingPlaceholder (index : Nat)

/-- The kind of an artifact in words. -/
def ArtifactKind.text : ArtifactKind → String
  | raw => "raw"
  | script => "script"
  | stylesheet => "stylesheet"
  | asset => "asset"

/-- The error in words. -/
def StepError.message : StepError → String
  | invalidText e => "module source is not valid UTF-8: " ++ e.message
  | notSource kind => "expected raw source, got " ++ kind.text ++ " artifact"
  | notBytes step kind =>
    "'" ++ step.name ++ "' expects raw bytes, got " ++ kind.text ++ " artifact"
  | notStylesheet kind => "'style' expects a stylesheet, got " ++ kind.text ++ " artifact"
  | syntaxError => "syntax error"
  | noGraphic => "no <svg> element found"
  | placeholder e => e.message
  | danglingPlaceholder index => "dangling url placeholder " ++ toString index

/-! ## §2. What a step starts from. -/

/-- The text of a raw artifact. -/
def Artifact.sourceText : Artifact → Except StepError String
  | raw bytes =>
    match Utf8.decode bytes with
    | .ok text => .ok text
    | .error e => .error (.invalidText e)
  | other => .error (.notSource other.kind)

/-- The code of a script, or the text of a raw artifact. -/
def Artifact.codeText : Artifact → Except StepError String
  | script code _ => .ok code
  | other => other.sourceText

/-! ## §3. Steps on scripts and stylesheets. -/

/-- Compile-time constants are replaced in scripts and in source texts. -/
def Step.applyDefine (ctx : StepContext) : Artifact → Except StepError Artifact
  | .script code imports =>
    .ok (.script (String.ofList (Script.applyDefines ctx.defines code.toList)) imports)
  | other => do
    let text ← other.sourceText
    return .raw (String.ofList (Script.applyDefines ctx.defines text.toList)).toUTF8

/-- Markup elements are expressions in files with this extension. -/
def hasMarkup (extension : String) : Bool :=
  ContentType.lowered extension == "jsx"

/-- A module becomes a function body. -/
def Step.applyScript (ctx : StepContext) (input : Artifact) : Except StepError Artifact := do
  let code ← input.codeText
  match Script.lower? (hasMarkup ctx.extension) code.toList with
  | some lowered => return .script (String.ofList lowered.code) lowered.imports
  | none => throw .syntaxError

/-- The references of a stylesheet are found. -/
def Step.applyCss (input : Artifact) : Except StepError Artifact := do
  let text ← input.sourceText
  let sheet := Style.extract text.toList
  return .stylesheet (String.ofList sheet.css) sheet.imports

/-- A stylesheet becomes a script that injects it. -/
def Step.applyStyle : Artifact → Except StepError Artifact
  | .stylesheet text imports =>
    match Style.inject text imports with
    | .ok (code, imports) => .ok (.script code imports)
    | .error (.index e) => .error (.placeholder e)
    | .error (.lookup e) => .error (.danglingPlaceholder e.index)
  | other => .error (.notStylesheet other.kind)

/-! ## §4. Steps on assets. -/

/-- The text from the first occurrence of a pattern on. -/
def fromFirst? (pattern : List Char) : List Char → Option (List Char)
  | [] => none
  | c :: rest =>
    if startsWith pattern (c :: rest) then some (c :: rest) else fromFirst? pattern rest

/-- White space alone between two tags is left out. -/
def joinTags : Nat → List Char → List Char
  | _, [] => []
  | skip + 1, _ :: rest => joinTags skip rest
  | 0, c :: rest =>
    let blanks := rest.takeWhile isSpace
    let between := c == '>' && (rest.dropWhile isSpace).head? == some '<'
    c :: joinTags (if between then blanks.length else 0) rest

/-- The markup of vector graphics becomes the default export of a script. -/
def Step.applySvg (input : Artifact) : Except StepError Artifact := do
  let markup ← input.sourceText
  match fromFirst? "<svg".toList markup.toList with
  | none => throw .noGraphic
  | some graphic =>
    let code := "Object.defineProperty(exports, \"__esModule\", \x7b value: true \x7d);\n"
      ++ "exports.default = "
      ++ String.ofList (quotedChars (joinTags 0 (trim graphic))) ++ ";\n"
    return .script code []

/-- The bytes of a raw artifact. -/
def Step.rawBytes (step : Step) : Artifact → Except StepError ByteArray
  | .raw bytes => .ok bytes
  | other => .error (.notBytes step other.kind)

/-- A file of its own, under the name that the template gives. -/
def emitFile (ctx : StepContext) (bytes : ByteArray) : Artifact :=
  let path := AssetName.expand ctx.assetName ⟨ctx.stem, ctx.extension, bytes⟩
  .asset (ctx.publicPath ++ path) (some ⟨path, bytes⟩)

/-- An address that holds the file. -/
def dataUrl (extension : String) (bytes : ByteArray) : String :=
  "data:" ++ ContentType.ofExtension extension ++ ";base64," ++ Base64.encode bytes

/-! ## §5. All steps. -/

/-- What a step does. -/
def Step.apply (ctx : StepContext) (input : Artifact) : Step → Except StepError Artifact
  | .define => applyDefine ctx input
  | .script => applyScript ctx input
  | .css => applyCss input
  | .style => applyStyle input
  | .svg => applySvg input
  | .url => do
    let bytes ← rawBytes .url input
    return if bytes.size < ctx.inlineLimit then .asset (dataUrl ctx.extension bytes) none
      else emitFile ctx bytes
  | .file => do
    let bytes ← rawBytes .file input
    return emitFile ctx bytes

end AssetBundler
