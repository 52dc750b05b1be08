/-
  AssetBundler.Style.Syntax.Rule
  ────────────────────────────────
  **RULES OF STYLESHEETS.**

  Which texts are stylesheets: rules with selectors and declarations, rules
  that begin with an at sign, and the order in which imports and namespaces
  must stand before all others.  Properties may have any value that is made of
  proper tokens.
-/
import AssetBundler.Style.Syntax.Selector

namespace AssetBundler.Style.Syntax

open AssetBundler.Text

/-! ## §1. Declarations. -/

/-- A mark of importance, or nothing. -/
def isImportance (ns : List Node) : Bool :=
  match dropBlanks ns with
  | [] => true
  | .token (.mark '!') :: rest =>
    match trimBlanks rest with
    | [n] => n.isName "important"
    | _ => false
  | _ => false

/-- The words that every property takes. -/
def generalValues : List String := ["initial", "inherit", "unset", "default", "revert", "revert-layer"]

/-- A declaration: its name, and what follows that. -/
def isDeclaration (name : List Char) (behind : List Node) : Bool :=
  match dropBlanks behind with
  | .token .colon :: rest =>
    let ends (n : Node) : Bool := (n matches .token (.mark '!')) || (!isDashed name && n.isBraces)
    let value := rest.takeWhile fun n => !ends n
    let proper := if name.map asciiLower == "all".toList then
        match trimBlanks value with
        | [n] => generalValues.any fun word => n.isName word
        | _ => false
      else isValue value
    proper && isImportance (rest.dropWhile fun n => !ends n)
  | _ => false

/-! ## §2. Rules that begin with an at sign. -/

/-- What the body of such a rule holds. -/
inductive BodyKind where
  /-- Rules as at the place of the rule itself. -/
  | rules
  /-- Declarations, and rules in a rule. -/
  | style
  /-- Declarations alone. -/
  | declarations
  | keyframes
  /-- Anything. -/
  | free
  deriving DecidableEq

/-- What such a rule is like. -/
structure AtRule where
  /-- What stands between name and body is proper. -/
  isPrelude : List Node → Bool
  /-- What the body holds, if the rule has one. -/
  body? : Option BodyKind
  /-- It may end without a body. -/
  bare : Bool := false
  /-- It may stand in a rule. -/
  nests : Bool := false

/-- One string or address, and proper nodes. -/
def isImportPrelude (ns : List Node) : Bool :=
  match dropBlanks ns with
  | .token .string :: rest | .token .url :: rest => isValue rest
  | .block (.function name) body :: rest =>
    name.map asciiLower == "url".toList && isQuotedUrl body && isValue rest
  | _ => false

/-- One string or address, behind a name or not. -/
def isNamespacePrelude (ns : List Node) : Bool :=
  let target (ns : List Node) : Bool :=
    match ns with
    | [.token .string] | [.token .url] => true
    | [.block (.function name) body] => name.map asciiLower == "url".toList && isQuotedUrl body
    | _ => false
  match trimBlanks ns with
  | .token (.name _) :: rest => target (dropBlanks rest)
  | rest => target rest

/-- One condition on the medium: words, and conditions in parentheses. -/
def isCondition (ns : List Node) : Bool :=
  isValue ns && ns.all fun
    | .token (.name _) | .token .blank | .block .. => true
    | _ => false

/-- Conditions on the medium with commas between them, or nothing. -/
def isMediaPrelude (ns : List Node) : Bool :=
  (trimBlanks ns).isEmpty
    || (splitNodes Node.isComma ns).all fun part =>
      !(trimBlanks part).isEmpty && isCondition part

/-- A condition that is not empty. -/
def isConditionPrelude (ns : List Node) : Bool :=
  !(trimBlanks ns).isEmpty && isCondition ns

/-- A single name or string. -/
def isNamePrelude (ns : List Node) : Bool :=
  match trimBlanks ns with
  | [.token (.name _)] | [.token .string] => true
  | _ => false

/-- A single name that begins with two hyphens. -/
def isDashedPrelude (ns : List Node) : Bool :=
  match trimBlanks ns with
  | [.token (.name name)] => isDashed name
  | _ => false

/-- The name of a layer: names with points between them. -/
def isLayerName : List Node → Bool
  | [.token (.name _)] => true
  | .token (.name _) :: .token (.mark '.') :: rest => isLayerName rest
  | _ => false

/-- Names of layers with commas between them. -/
def isLayerPrelude (ns : List Node) : Bool :=
  (trimBlanks ns).isEmpty
    || (splitNodes Node.isComma ns).all fun part => isLayerName (trimBlanks part)

/-- Nothing. -/
def isEmptyPrelude (ns : List Node) : Bool :=
  (trimBlanks ns).isEmpty

/-- Names that stand for keyframe rules. -/
def keyframeNames : List String :=
  ["keyframes", "-webkit-keyframes", "-moz-keyframes", "-o-keyframes", "-ms-keyframes"]

/-- The rules that begin with an at sign, besides imports and namespaces; one that is not known may hold
anything. -/
def atRule (name : String) : AtRule :=
  if keyframeNames.contains name then ⟨isNamePrelude, some .keyframes, false, false⟩
  else match name with
    | "media" => ⟨isMediaPrelude, some .rules, false, true⟩
    | "supports" | "container" => ⟨isConditionPrelude, some .rules, false, true⟩
    | "layer" => ⟨isLayerPrelude, some .rules, true, true⟩
    | "starting-style" => ⟨isEmptyPrelude, some .rules, false, true⟩
    | "scope" => ⟨isValue, some .rules, false, true⟩
    | "font-face" | "view-transition" => ⟨isEmptyPrelude, some .declarations, false, false⟩
    | "page" | "font-feature-values" => ⟨isValue, some .free, false, false⟩
    | "font-palette-values" | "property" => ⟨isDashedPrelude, some .declarations, false, false⟩
    | "counter-style" => ⟨isNamePrelude, some .declarations, false, false⟩
    | _ => ⟨isValue, some .free, true, true⟩

/-! ## §3. Bodies. -/

/-- Where a rule stands. -/
structure RulePlace where
  /-- What may stand there. -/
  kind : BodyKind
  /-- The place is in a rule with selectors. -/
  inStyle : Bool

/-- The part of a percentage or a word that a keyframe begins with. -/
def isKeyframePoint (ns : List Node) : Bool :=
  match trimBlanks ns with
  | [.token .percentage] => true
  | [n] => n.isName "from" || n.isName "to"
  | [.token (.name _), .token .blank, .token .percentage] => true
  | _ => false

/-- What stands before the braces of a rule without an at sign. -/
def isRulePrelude (place : RulePlace) (ns : List Node) : Bool :=
  if place.kind = .keyframes then (splitNodes Node.isComma ns).all isKeyframePoint
  else isSelectorList (ns.length + 1) (if place.inStyle then .inner else .outer) ns

/-- The inside of the braces of a rule without an at sign. -/
def ruleBody (place : RulePlace) : RulePlace :=
  if place.kind = .keyframes then ⟨.declarations, false⟩ else ⟨.style, true⟩

/-- What follows a rule without an at sign at the start of some nodes, when it is proper; `isBody` tells
whether nodes may stand at a place. -/
def afterRule? (isBody : RulePlace → List Node → Bool) (place : RulePlace) (ns : List Node) :
    Option (List Node) :=
  let ends (n : Node) : Bool := n.isBraces || (place.kind = .style && n.isSemicolon)
  match ns.dropWhile fun n => !ends n with
  | .block _ body :: rest =>
    if isRulePrelude place (ns.takeWhile fun n => !ends n) && isBody (ruleBody place) body then
      some rest
    else none
  | _ => none

/-- The place inside the braces of a rule with an at sign. -/
def atRuleBody (place : RulePlace) : BodyKind → RulePlace
  | .rules => if place.inStyle then ⟨.style, true⟩ else ⟨.rules, false⟩
  | kind => ⟨kind, false⟩

/-- What follows a rule with an at sign, whose name has been read, when it is proper. -/
def afterAtRule? (isBody : RulePlace → List Node → Bool) (place : RulePlace)
    (name : List Char) (ns : List Node) : Option (List Node) :=
  let rule := atRule (String.ofList (name.map asciiLower))
  let ends (n : Node) : Bool := n.isBraces || n.isSemicolon
  let prelude := ns.takeWhile fun n => !ends n
  if !rule.isPrelude prelude || (place.inStyle && !rule.nests) then none
  else match ns.dropWhile fun n => !ends n with
    | .block _ body :: rest =>
      match rule.body? with
      | some kind => if isBody (atRuleBody place kind) body then some rest else none
      | none => none
    | rest => if rule.bare then some rest.tail else none

/-- What follows the first item of a body, which begins with the given node. -/
def afterItem? (isBody : RulePlace → List Node → Bool) (place : RulePlace) (first : Node)
    (rest : List Node) : Option (List Node) :=
  let qualified : Option (List Node) :=
    if place.kind = .declarations then none else afterRule? isBody place (first :: rest)
  match first with
  | .token (.atName name) => afterAtRule? isBody place name rest
  | .token (.name name) =>
    let declaration := rest.takeWhile fun n => !n.isSemicolon
    if (place.kind = .style || place.kind = .declarations) && isDeclaration name declaration then
      some (rest.drop declaration.length)
    else qualified
  | _ => qualified

/-- The items of a body, when all are proper; the first argument bounds their number. -/
def isItems (isBody : RulePlace → List Node → Bool) (place : RulePlace) :
    Nat → List Node → Bool
  | 0, _ => false
  | bound + 1, ns =>
    match ns.dropWhile fun n => n.isBlank || n.isSemicolon with
    | [] => true
    | first :: rest =>
      match afterItem? isBody place first rest with
      | some rest => isItems isBody place bound rest
      | none => false

/-- Nodes may stand at a place; the first argument bounds how deep blocks stand in one another. -/
def isBody : Nat → RulePlace → List Node → Bool
  | 0, _, _ => false
  | depth + 1, place, ns =>
    if place.kind = .free then isValue ns else isItems (isBody depth) place (ns.length + 1) ns

/-! ## §4. Stylesheets. -/

/-- What may still come in a stylesheet. -/
inductive SheetStage where
  | layers | imports | namespaces | body
  deriving DecidableEq

/-- The order of the stages. -/
def SheetStage.rank : SheetStage → Nat
  | layers => 0
  | imports => 1
  | namespaces => 2
  | body => 3

/-- The stage behind a rule of a name that ends without a body, if it may stand at a stage; other rules
than those that must come first lead to the last stage. -/
def stageBehind? (stage : SheetStage) (name : String) (bare : Bool) : Option SheetStage :=
  if name == "import" then if stage.rank ≤ 1 && bare then some .imports else none
  else if name == "namespace" then if stage.rank ≤ 2 && bare then some .namespaces else none
  else if name == "charset" then if bare then some stage else none
  else if name == "layer" && bare && stage = .layers then some .layers
  else some .body

/-- What stands between the name and the end of a rule that must come first. -/
def isFirstPrelude (name : String) (ns : List Node) : Bool :=
  if name == "import" then isImportPrelude ns
  else if name == "namespace" then isNamespacePrelude ns
  else match trimBlanks ns with
    | [.token .string] => true
    | _ => false

/-- The rules that must come first, and the declaration of a character set. -/
def firstRules : List String := ["import", "namespace", "charset"]

/-- The place of the rules of a stylesheet. -/
def sheetPlace : RulePlace := ⟨.rules, false⟩

/-- What follows a rule with an at sign in a stylesheet, when it is proper. -/
def afterSheetRule? (depth : Nat) (name : List Char) (rest : List Node) : Option (List Node) :=
  let text := String.ofList (name.map asciiLower)
  if firstRules.contains text then
    let ends (n : Node) : Bool := n.isBraces || n.isSemicolon
    if isFirstPrelude text (rest.takeWhile fun n => !ends n) then
      some (rest.dropWhile fun n => !ends n).tail
    else none
  else afterAtRule? (isBody depth) sheetPlace name rest

/-- The node may stand between rules without a meaning. -/
def isIdle (n : Node) : Bool :=
  n.isBlank || (n matches .token .pageMark)

/-- The rule whose name has been read ends without a body. -/
def endsBare (rest : List Node) : Bool :=
  match rest.find? fun n => n.isBraces || n.isSemicolon with
  | some n => n.isSemicolon
  | none => true

/-- The rules of a stylesheet from a stage on, when all are proper; the first argument bounds their
number. -/
def isSheetFrom (depth : Nat) : Nat → SheetStage → List Node → Bool
  | 0, _, _ => false
  | bound + 1, stage, ns =>
    match ns.dropWhile isIdle with
    | [] => true
    | .token (.atName name) :: rest =>
      match stageBehind? stage (String.ofList (name.map asciiLower)) (endsBare rest),
          afterSheetRule? depth name rest with
      | some stage, some rest => isSheetFrom depth bound stage rest
      | _, _ => false
    | first :: rest =>
      match afterRule? (isBody depth) sheetPlace (first :: rest) with
      | some rest => isSheetFrom depth bound .body rest
      | none => false

/-- A declaration of the character set at the very start does not count. -/
def dropCharset (ns : List Node) : List Node :=
  match ns.dropWhile isIdle with
  | .token (.atName name) :: rest =>
    if name.map asciiLower == "charset".toList then
      (rest.dropWhile fun n => !(n.isBraces || n.isSemicolon)).tail
    else ns
  | _ => ns

/-- The text is a stylesheet. -/
def isStylesheet (text : List Char) : Bool :=
  let ns := nodes text
  isSheetFrom (text.length + 1) (text.length + 1) .layers (dropCharset ns)

end AssetBundler.Style.Syntax
