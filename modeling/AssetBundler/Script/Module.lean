/-
  AssetBundler.Script.Module
  ────────────────────────────────
  **READING A MODULE.**

  `Grammar.parseGoal` ties the productions together by recursion on a bound
  on their depth; a source text never needs more depth than a fixed multiple
  of its length.  `parse?` reads a whole module, and fails exactly when the
  text is no module.
-/
import AssetBundler.Script.Grammar.Statement

namespace AssetBundler.Script

open AssetBundler.Script.Lexer

namespace Grammar

/-- The production of a goal, over a function for the goals inside it. -/
def production (bound : Nat) (parse : ParseGoal) (goal : Goal) (ctx : Context) : Parser Tree :=
  match goal with
  | .statement single => statement bound parse ctx single
  | .block => block bound parse ctx
  | .expression => expression bound parse ctx
  | .assignment => assignment bound parse ctx
  | .binary above => binary bound parse ctx above
  | .unary => unary parse ctx
  | .leftHandSide => members bound true parse ctx
  | .constructor => members bound false parse ctx
  | .pattern => bindingPattern bound parse ctx
  | .element => markupElement bound parse ctx

/-- Parses goals nested at most `depth` deep. -/
def parseGoal (bound : Nat) : Nat → ParseGoal
  | 0, _, _ => fail
  | depth + 1, goal, ctx => production bound (parseGoal bound depth) goal ctx

/-- The context at the top of a module. -/
def moduleContext (markup : Bool) : Context :=
  { allowIn := true, await := true, yield := false, return_ := false, decorator := false, markup }

/-- One item of a module. -/
def moduleItem (bound : Nat) (parse : ParseGoal) (ctx : Context) : Parser ModuleItem := do
  if ← atItem then declarationItem bound parse ctx
  else return .statement (← parse (.statement false) ctx)

/-- Depth that suffices for a text of a given length: no more than ten goals begin at one token. -/
def depthFor (length : Nat) : Nat :=
  16 * (length + 2)

end Grammar

/-- A module is complete when it shares no name twice and no name with a default stands outside a
pattern. -/
def isComplete (items : List ModuleItem) : Bool :=
  Grammar.allDistinct (items.flatMap ModuleItem.exportedNames)
    && items.all fun item => item.trees.all Tree.isFinished

/-- The items of a module, with markup elements as expressions or without; `none` when the text is no
module. -/
def parse? (markup : Bool) (source : List Char) : Option (List ModuleItem) := do
  let first ← start source
  let bound := source.length + 2
  let parse := Grammar.parseGoal bound (Grammar.depthFor source.length)
  let item := Grammar.moduleItem bound parse (Grammar.moduleContext markup)
  let (items, _) ← Grammar.many Grammar.atEnd item bound first
  if isComplete items then some items else none

end AssetBundler.Script
