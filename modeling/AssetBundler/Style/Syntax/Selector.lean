/-
  AssetBundler.Style.Syntax.Selector
  ────────────────────────────────
  **SELECTORS.**

  Lists of selectors: compounds of simple selectors with combinators between
  them.  Inside a rule a selector may begin with a combinator.
-/
import AssetBundler.Style.Syntax.Node

namespace AssetBundler.Style.Syntax

open AssetBundler.Text

/-! ## §1. Parts of a selector. -/

/-- What follows the element name at the start of a compound, with its namespace, if there is one. -/
def afterElement? : List Node → Option (List Node)
  | .token (.name _) :: .token (.mark '|') :: .token (.name _) :: rest
  | .token (.name _) :: .token (.mark '|') :: .token (.mark '*') :: rest
  | .token (.mark '*') :: .token (.mark '|') :: .token (.name _) :: rest
  | .token (.mark '*') :: .token (.mark '|') :: .token (.mark '*') :: rest
  | .token (.mark '|') :: .token (.name _) :: rest
  | .token (.mark '|') :: .token (.mark '*') :: rest
  | .token (.name _) :: rest
  | .token (.mark '*') :: rest => some rest
  | _ => none

/-- The value that an attribute is compared with, and how letter case counts. -/
def isAttributeValue (ns : List Node) : Bool :=
  match dropBlanks ns with
  | .token .string :: rest | .token (.name _) :: rest =>
    match dropBlanks rest with
    | [] => true
    | [n] => n.isName "i" || n.isName "s"
    | _ => false
  | _ => false

/-- The inside of an attribute selector. -/
def isAttribute (body : List Node) : Bool :=
  match afterElement? (trimBlanks body) with
  | none => false
  | some rest =>
    match dropBlanks rest with
    | [] => true
    | .token (.matches _) :: value | .token (.mark '=') :: value =>
      isAttributeValue (trimBlanks value)
    | _ => false

/-- Names that select a pseudo-element even behind a single colon. -/
def oldPseudoElements : List String := ["before", "after", "first-line", "first-letter"]

/-- Functions whose argument is a list of selectors. -/
def selectorFunctions : List String :=
  ["not", "host", "host-context", "slotted", "-webkit-any", "-moz-any"]

/-- Functions that pick elements by their number. -/
def numberFunctions : List String :=
  ["nth-child", "nth-last-child", "nth-of-type", "nth-last-of-type", "nth-col", "nth-last-col"]

/-- The argument of a function that picks elements by their number: a word, a number, or a multiple
with a number added. -/
def isPosition (args : List Node) : Bool :=
  match trimBlanks args with
  | .token (.name name) :: _ =>
    let name := name.map asciiLower
    name == "even".toList || name == "odd".toList || name.head? == some 'n'
      || startsWith "-n".toList name
  | .token .number :: _ => true
  | .token (.dimension suffix) :: _ => (suffix.map asciiLower).head? == some 'n'
  | .token (.mark '+') :: .token (.name name) :: _ => (name.map asciiLower).head? == some 'n'
  | _ => false

/-! ## §2. Compounds and lists. -/

/-- Where the selectors of a list stand. -/
inductive SelectorPlace where
  /-- On their own. -/
  | outer
  /-- In a rule, so that they may begin with a combinator. -/
  | inner
  deriving DecidableEq

/-- A pseudo-class or pseudo-element with arguments; `isList` tells whether nodes are a list of
selectors. -/
def isPseudoFunction (isList : SelectorPlace → List Node → Bool) (name : List Char)
    (args : List Node) : Bool :=
  let name := String.ofList (name.map asciiLower)
  if selectorFunctions.contains name then isList .outer args
  else if name == "has" then isList .inner args
  else if numberFunctions.contains name then isPosition args
  else isValue args

/-- What follows the simple selectors at the start of some nodes; `behindElement` tells of a
pseudo-element among those before. The first argument bounds their number. -/
def afterSimples? (isList : SelectorPlace → List Node → Bool) :
    Nat → Bool → List Node → Option (List Node)
  | 0, _, _ => none
  | bound + 1, behindElement, ns =>
    match ns with
    | .token (.hash _ identifier) :: rest =>
      if identifier && !behindElement then afterSimples? isList bound false rest else none
    | .token (.mark '.') :: .token (.name _) :: rest
    | .token (.mark '&') :: rest =>
      if behindElement then none else afterSimples? isList bound false rest
    | .token (.mark '.') :: _ => none
    | .block (.opening '[') body :: rest =>
      if isAttribute body && !behindElement then afterSimples? isList bound false rest else none
    | .token .colon :: .token .colon :: .token (.name _) :: rest =>
      afterSimples? isList bound true rest
    | .token .colon :: .token .colon :: .block (.function name) args :: rest =>
      if isPseudoFunction isList name args then afterSimples? isList bound true rest else none
    | .token .colon :: .token (.name name) :: rest =>
      let isElement := oldPseudoElements.contains (String.ofList (name.map asciiLower))
      afterSimples? isList bound (behindElement || isElement) rest
    | .token .colon :: .block (.function name) args :: rest =>
      if isPseudoFunction isList name args then afterSimples? isList bound behindElement rest
      else none
    | .token .colon :: _ => none
    | _ => some ns

/-- What follows the compound at the start of some nodes, which must not be empty. -/
def afterCompound? (isList : SelectorPlace → List Node → Bool) (ns : List Node) :
    Option (List Node) :=
  let behindName := (afterElement? ns).getD ns
  match afterSimples? isList (ns.length + 1) false behindName with
  | some rest => if rest.length < ns.length then some rest else none
  | none => none

/-- What follows the combinator at the start of some nodes, blanks around it passed over. -/
def afterCombinator? (ns : List Node) : Option (List Node) :=
  match dropBlanks ns with
  | .token (.mark '>') :: rest | .token (.mark '+') :: rest | .token (.mark '~') :: rest =>
    some (dropBlanks rest)
  | rest => if rest.length < ns.length then some rest else none

/-- Compounds with combinators between them; the first argument bounds their number. -/
def isComplex (isList : SelectorPlace → List Node → Bool) : Nat → List Node → Bool
  | 0, _ => false
  | bound + 1, ns =>
    match afterCompound? isList ns with
    | none => false
    | some [] => true
    | some rest =>
      match afterCombinator? rest with
      | none => false
      | some next => isComplex isList bound next

/-- A selector. -/
def isSelector (isList : SelectorPlace → List Node → Bool) (place : SelectorPlace)
    (ns : List Node) : Bool :=
  let ns := trimBlanks ns
  let start := if place = .inner then
      match ns with
      | .token (.mark _) :: _ => (afterCombinator? ns).getD ns
      | _ => ns
    else ns
  isComplex isList (ns.length + 1) start

/-- Nodes are a list of selectors; the first argument bounds how deep lists stand in selectors. -/
def isSelectorList : Nat → SelectorPlace → List Node → Bool
  | 0, _, _ => false
  | depth + 1, place, ns =>
    (splitNodes Node.isComma ns).all (isSelector (isSelectorList depth) place)

end AssetBundler.Style.Syntax
