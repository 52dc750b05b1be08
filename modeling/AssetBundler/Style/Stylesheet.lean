/-
  AssetBundler.Style.Stylesheet
  ────────────────────────────────
  **STYLESHEETS AND THEIR REFERENCES.**

  `extract` takes the import rules of a stylesheet out, puts placeholders in
  the place of local file references and records both.  `inject` makes a
  script that puts the stylesheet into the document.
-/
import AssetBundler.Style.Placeholder
import AssetBundler.Style.Reference
import AssetBundler.Text.Quoted
import AssetBundler.Transform.Artifact

namespace AssetBundler.Style

open AssetBundler.Text

/-! ## §1. Extraction. -/

/-- A stylesheet with the references found in it. -/
structure Stylesheet where
  css : List Char
  imports : List Import

/-- The imports with one more, if it is new. -/
def record (imports : List Import) (i : Import) : List Import :=
  if imports.contains i then imports else imports ++ [i]

/-- The text without its local import rules, and the imports with those of the rules; `skip`
characters of a rule are still to be passed over. -/
def removeImports : Nat → List Char → List Import → Stylesheet
  | _, [], imports => ⟨[], imports⟩
  | skip + 1, _ :: rest, imports => removeImports skip rest imports
  | 0, c :: rest, imports =>
    match importRule? (c :: rest) with
    | none =>
      let sheet := removeImports 0 rest imports
      { sheet with css := c :: sheet.css }
    | some found =>
      if isExternal found.target then
        let sheet := removeImports (found.length - 1) rest imports
        { sheet with css := (c :: rest).take found.length ++ sheet.css }
      else
        removeImports (found.length - 1) rest
          (record imports ⟨String.ofList found.target, .style⟩)

/-- The text with placeholders for its local file references, and the imports with those of the
references; `skip` characters of a reference are still to be passed over. -/
def replaceUrls : Nat → List Char → List Import → Stylesheet
  | _, [], imports => ⟨[], imports⟩
  | skip + 1, _ :: rest, imports => replaceUrls skip rest imports
  | 0, c :: rest, imports =>
    match urlReference? (c :: rest) with
    | none =>
      let sheet := replaceUrls 0 rest imports
      { sheet with css := c :: sheet.css }
    | some found =>
      if isExternal found.target then
        let sheet := replaceUrls (found.length - 1) rest imports
        { sheet with css := (c :: rest).take found.length ++ sheet.css }
      else
        let i : Import := ⟨String.ofList found.target, .url⟩
        let imports := record imports i
        let sheet := replaceUrls (found.length - 1) rest imports
        { sheet with
          css := "url(".toList ++ Placeholder.text (imports.idxOf i) ++ ')' :: sheet.css }

/-- The stylesheet of a source text. -/
def extract (source : List Char) : Stylesheet :=
  let withoutImports := removeImports 0 source []
  let sheet := replaceUrls 0 withoutImports.css withoutImports.imports
  { sheet with css := trim sheet.css }

/-! ## §2. Injection. -/

/-- No import has this index. -/
structure DanglingPlaceholder where
  index : Nat

/-- The expression that a placeholder becomes inside the quoted text of a stylesheet. -/
def addressExpression (imports : List Import) (index : Nat) :
    Except DanglingPlaceholder (List Char) :=
  match imports[index]? with
  | some i => .ok ("\" + require(" ++ quote i.specifier ++ ").default + \"").toList
  | none => .error ⟨index⟩

/-- A script that loads the imports of a stylesheet and puts its text into the document. -/
def inject (css : String) (imports : List Import) :
    Except (Placeholder.Failure DanglingPlaceholder) (String × List Import) :=
  let loads := imports.filterMap fun i =>
    if i.kind = .style then some ("require(" ++ quote i.specifier ++ ");\n") else none
  match Placeholder.replace (addressExpression imports) (quotedChars css.toList) with
  | .error e => .error e
  | .ok text =>
    let code := String.join loads
      ++ "var style = document.createElement(\"style\");\nstyle.textContent = "
      ++ String.ofList text
      ++ ";\ndocument.head.appendChild(style);\nmodule.exports = \x7b\x7d;\n"
    .ok (code, imports.map fun i => ⟨i.specifier, .static⟩)

end AssetBundler.Style
