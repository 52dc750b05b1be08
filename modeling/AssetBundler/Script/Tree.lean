/-
  AssetBundler.Script.Tree
  ────────────────────────────────
  **THE SYNTAX OF A MODULE.**

  Statements, expressions and patterns are trees of one type: a kind, the
  range of source it covers, and the parts in source order.  Import and
  export declarations are records of their own, because rewriting a module is
  about them; a module is a list of items, each a declaration or a statement.
-/
import AssetBundler.Script.Token

namespace AssetBundler.Script

/-! ## §1. Trees. -/

/-- How a variable is declared. -/
inductive VariableKind where
  | var | let_ | const_ | using_
  deriving DecidableEq, Repr

/-- The kinds of syntax. Only the distinctions that the grammar, the rewriting or a statement about
them needs are made. -/
inductive NodeKind where
  /-- A name used as an expression. -/
  | identifier (name : Name)
  /-- A name that a declaration, parameter or pattern binds. -/
  | binding (name : Name)
  /-- A string literal with its value. -/
  | string (value : String)
  /-- A leaf without names: another literal, `this`, `super`, a property name. -/
  | leaf
  | parenthesized
  /-- An array literal; the flag tells of a comma before the closing bracket. -/
  | array (trailingComma : Bool)
  /-- An object literal; the flag tells of a comma before the closing brace. -/
  | object (trailingComma : Bool)
  | hole
  | spread
  /-- A property with its name and value. -/
  | property
  /-- A property that is a name alone. -/
  | shorthand (name : Name)
  /-- A name with a default, which only a pattern may hold. -/
  | shorthandDefault (name : Name)
  /-- A method or accessor of an object or class. -/
  | method
  /-- A field of a class. -/
  | field
  | arrayPattern
  | objectPattern
  /-- A target with its default. -/
  | defaulted
  | rest
  /-- A callee and its arguments. -/
  | call
  /-- A dynamic import, `import(…)`, with the specifier expression first. -/
  | importCall
  | construct
  | member
  | index
  /-- An expression that holds an optional link. -/
  | chain
  | template
  | unary
  /-- A choice by nullness, `a ?? b`. -/
  | coalesce
  /-- A conjunction or disjunction, `a && b` or `a || b`. -/
  | logical
  | binary
  /-- An assignment with `=`; compound assignments are `binary`. -/
  | assignment
  | sequence
  | arrow
  | function (name? : Option Name)
  | class_ (name? : Option Name)
  | element
  /-- Declared variables, one `declarator` each. -/
  | variables (kind : VariableKind)
  | declarator
  | block
  | labelled (name : Name)
  /-- An import or export declaration below the top level. -/
  | nestedDeclaration
  /-- Any other statement or expression. -/
  | other

/-- A kind, a range and the parts. -/
inductive Tree where
  | node (kind : NodeKind) (range : Range) (children : List Tree)

namespace Tree

def kind : Tree → NodeKind
  | node k _ _ => k

def range : Tree → Range
  | node _ r _ => r

def children : Tree → List Tree
  | node _ _ cs => cs

mutual
/-- What `f` finds in the tree and all its parts, outermost first. -/
def collect {α : Type} (f : Tree → List α) : Tree → List α
  | node k r cs => f (node k r cs) ++ collectList f cs
/-- What `f` finds in some trees and their parts. -/
def collectList {α : Type} (f : Tree → List α) : List Tree → List α
  | [] => []
  | t :: ts => collect f t ++ collectList f ts
end

/-- The tree itself and all its parts. -/
def subtrees (t : Tree) : List Tree :=
  t.collect fun t => [t]

mutual
/-- The names that a binding pattern binds, in source order; defaults bind nothing. -/
def boundNames : Tree → List Name
  | node (.binding name) _ _ => [name]
  | node .arrayPattern _ parts => boundNamesList parts
  | node .objectPattern _ parts => boundNamesList parts
  | node .rest _ parts => boundNamesList parts
  | node .property _ [_, value] => boundNames value
  | node .defaulted _ (target :: _) => boundNames target
  | _ => []
/-- The names that some binding patterns bind. -/
def boundNamesList : List Tree → List Name
  | [] => []
  | t :: ts => boundNames t ++ boundNamesList ts
end

/-- The names that a declaration declares; none for any other tree. -/
def declaredNames : Tree → List Name
  | node (.variables _) _ declarators =>
    declarators.flatMap fun
      | node .declarator _ (pattern :: _) => boundNames pattern
      | _ => []
  | node (.function name?) _ _ => name?.toList
  | node (.class_ name?) _ _ => name?.toList
  | _ => []

end Tree

/-! ## §2. Modules. -/

/-- The name under which a module shares a value: an identifier or any text in quotes. -/
inductive ExportName where
  | identifier (name : Name)
  | quoted (text : String)
  deriving DecidableEq

/-- The name without its quotes. -/
def ExportName.text : ExportName → String
  | identifier name => name.text
  | quoted text => text

/-- What an import declaration binds. -/
inductive ImportBinding where
  /-- One export of the module, `imported as name`. -/
  | member (imported : ExportName) (name : Name)
  /-- The default export. -/
  | default (name : Name)
  /-- The whole module. -/
  | all (name : Name)
  deriving DecidableEq

/-- A member that an export list names: what it is called inside and outside. -/
structure ExportMember where
  source : ExportName
  exported : ExportName
  deriving DecidableEq

/-- One item of a module. -/
inductive ModuleItem where
  /-- An import, `import … from "specifier"`, or `import "specifier"` when there are no bindings. -/
  | importFrom (range : Range) (specifier : String) (bindings? : Option (List ImportBinding))
  /-- All exports of a module, `export * from "specifier"`, or that module as one export,
  `export * as name from "specifier"`. -/
  | exportAll (range : Range) (specifier : String) (name? : Option ExportName)
  /-- Some exports of a module, `export { … } from "specifier"`. -/
  | exportFrom (range : Range) (specifier : String) (members : List ExportMember)
  /-- Some names of this module, `export { … }`. -/
  | exportList (range : Range) (members : List ExportMember)
  /-- A declaration that is exported as well. -/
  | exportDeclaration (range : Range) (declaration : Tree)
  /-- The default export: a declaration or an expression. -/
  | exportDefault (range : Range) (value : Tree)
  | statement (tree : Tree)

namespace ModuleItem

/-- The trees that stand in the item. -/
def trees : ModuleItem → List Tree
  | exportDeclaration _ declaration => [declaration]
  | exportDefault _ value => [value]
  | statement tree => [tree]
  | _ => []

/-- The range of source that the item covers. -/
def range : ModuleItem → Range
  | importFrom range _ _ | exportAll range _ _ | exportFrom range _ _ | exportList range _
  | exportDeclaration range _ | exportDefault range _ => range
  | statement tree => tree.range

/-- The item as a statement among others: a declaration below the top level keeps its parts only. -/
def toTree (item : ModuleItem) : Tree :=
  match item with
  | statement tree => tree
  | item => .node .nestedDeclaration item.range item.trees

/-- The names under which the item shares values; `export *` names none. -/
def exportedNames : ModuleItem → List String
  | exportAll _ _ (some name) => [name.text]
  | exportFrom _ _ members | exportList _ members => members.map (·.exported.text)
  | exportDeclaration _ declaration => declaration.declaredNames.map Name.text
  | exportDefault _ _ => ["default"]
  | _ => []

/-- The names that the item declares at the top level of the module. -/
def declaredNames : ModuleItem → List Name
  | importFrom _ _ (some bindings) =>
    bindings.map fun | .member _ name | .default name | .all name => name
  | exportDeclaration _ declaration => declaration.declaredNames
  | exportDefault _ value => value.declaredNames
  | statement tree => tree.declaredNames
  | _ => []

/-- The item is an export declaration. -/
def isExport : ModuleItem → Bool
  | exportAll .. | exportFrom .. | exportList .. | exportDeclaration .. | exportDefault .. => true
  | _ => false

end ModuleItem

end AssetBundler.Script
