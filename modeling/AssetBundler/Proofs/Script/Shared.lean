/-
  AssetBundler.Proofs.Script.Shared
  ────────────────────────────────
  **WHAT A MODULE SHARES.**

  What a module exports is said of its declarations alone: which names a
  pattern binds, what a declaration declares, under which names its items
  export something and where each value comes from.  What a lowered module
  assigns is said of the pieces of its code.  Both are the same:

    • `mem_declaredNames`, `mem_exports` — the executable lists are the
      judgements,
    • `parse?_exportsValue` — a default export is a function, a class or an
      expression, never a list of variables,
    • `modulePieces_shares` — what the pieces assign,
    • `lower?_shares_exports` — every export is assigned, from what the
      declaration names, and nothing else is.
-/
import AssetBundler.Proofs.Script.Generated

namespace AssetBundler.Script

/-! ## §1. Names that are declared. -/

namespace Tree

/-- A pattern binds a name. Defaults and computed keys bind nothing. -/
inductive Binds (name : Name) : Tree → Prop
  | name {range : Range} {parts : List Tree} : Binds name (node (.binding name) range parts)
  | element {range : Range} {parts : List Tree} {part : Tree} (hpart : part ∈ parts)
      (h : Binds name part) :
      Binds name (node .arrayPattern range parts)
  | property {range : Range} {parts : List Tree} {part : Tree} (hpart : part ∈ parts)
      (h : Binds name part) :
      Binds name (node .objectPattern range parts)
  | rest {range : Range} {parts : List Tree} {part : Tree} (hpart : part ∈ parts)
      (h : Binds name part) :
      Binds name (node .rest range parts)
  | value {range : Range} {key value : Tree} (h : Binds name value) :
      Binds name (node .property range [key, value])
  | target {range : Range} {target : Tree} {parts : List Tree} (h : Binds name target) :
      Binds name (node .defaulted range (target :: parts))

/-- A declaration declares a name: as one of its variables, or as its function or class. -/
inductive Declares (name : Name) : Tree → Prop
  | variable {kind : VariableKind} {range place : Range} {declarators rest : List Tree} {pattern : Tree}
      (hdeclarator : node .declarator place (pattern :: rest) ∈ declarators) (h : pattern.Binds name) :
      Declares name (node (.variables kind) range declarators)
  | function {range : Range} {parts : List Tree} :
      Declares name (node (.function (some name)) range parts)
  | class_ {range : Range} {parts : List Tree} : Declares name (node (.class_ (some name)) range parts)

variable {name : Name}

mutual

theorem binds_of_mem : ∀ {tree : Tree}, name ∈ tree.boundNames → tree.Binds name
  | node kind range parts, h => by
    unfold boundNames at h
    split at h
    next heq =>
      cases heq
      obtain rfl := List.mem_singleton.mp h
      exact .name
    next heq =>
      cases heq
      obtain ⟨part, hpart, hbinds⟩ := exists_binds_of_mem h
      exact .element hpart hbinds
    next heq =>
      cases heq
      obtain ⟨part, hpart, hbinds⟩ := exists_binds_of_mem h
      exact .property hpart hbinds
    next heq =>
      cases heq
      obtain ⟨part, hpart, hbinds⟩ := exists_binds_of_mem h
      exact .rest hpart hbinds
    next heq =>
      cases heq
      exact .value (binds_of_mem h)
    next heq =>
      cases heq
      exact .target (binds_of_mem h)
    next => cases h

theorem exists_binds_of_mem : ∀ {trees : List Tree}, name ∈ boundNamesList trees →
    ∃ tree ∈ trees, tree.Binds name
  | [], h => by simp [boundNamesList] at h
  | tree :: trees, h => by
    rw [boundNamesList] at h
    rcases List.mem_append.mp h with h | h
    · exact ⟨tree, List.mem_cons_self, binds_of_mem h⟩
    · obtain ⟨found, hfound, hbinds⟩ := exists_binds_of_mem h
      exact ⟨found, List.mem_cons_of_mem _ hfound, hbinds⟩

end

theorem mem_boundNamesList {tree : Tree} :
    ∀ {trees : List Tree}, tree ∈ trees → name ∈ tree.boundNames →
    name ∈ boundNamesList trees
  | _ :: _, hmem, h => by
    rw [boundNamesList]
    rcases List.mem_cons.mp hmem with rfl | hmem
    · exact List.mem_append_left _ h
    · exact List.mem_append_right _ (mem_boundNamesList hmem h)

/-- The names that are collected from a pattern are those that it binds. -/
theorem mem_boundNames {tree : Tree} : name ∈ tree.boundNames ↔ tree.Binds name := by
  refine ⟨binds_of_mem, fun h => ?_⟩
  induction h with
  | name => simp [boundNames]
  | element hpart _ ih | property hpart _ ih | rest hpart _ ih =>
    rw [boundNames]
    exact mem_boundNamesList hpart ih
  | value _ ih | target _ ih =>
    rw [boundNames]
    exact ih

/-- The names that are collected from a declaration are those that it declares. -/
theorem mem_declaredNames {tree : Tree} : name ∈ tree.declaredNames ↔ tree.Declares name := by
  constructor
  · intro h
    unfold declaredNames at h
    split at h
    next =>
      obtain ⟨declarator, hdeclarator, h⟩ := List.mem_flatMap.mp h
      split at h
      next => exact .variable hdeclarator (mem_boundNames.mp h)
      next => cases h
    next =>
      obtain rfl := Option.mem_toList.mp h
      exact .function
    next =>
      obtain rfl := Option.mem_toList.mp h
      exact .class_
    next => cases h
  · rintro (⟨hdeclarator, h⟩ | _ | _)
    · exact List.mem_flatMap.mpr ⟨_, hdeclarator, mem_boundNames.mpr h⟩
    · simp [declaredNames]
    · simp [declaredNames]

/-- The tree has a value: it is no list of variables. -/
def HasValue (tree : Tree) : Prop :=
  ∀ kind, tree.kind ≠ .variables kind

/-- The name of a function or class, if it has one. -/
def ownName? (tree : Tree) : Option Name :=
  match tree.kind with
  | .function name? | .class_ name? => name?
  | _ => none

/-- What has a value declares its own name at most. -/
theorem HasValue.declaredNames_eq {tree : Tree} (h : tree.HasValue) :
    tree.declaredNames = tree.ownName?.toList := by
  obtain ⟨kind, range, parts⟩ := tree
  cases kind
  all_goals first | rfl | exact absurd rfl (h _)

end Tree

/-! ## §2. What a module exports. -/

/-- Where the value of an export comes from. -/
inductive Origin where
  /-- A variable of the module. -/
  | variable (name : String)
  /-- An export of another module. -/
  | member (specifier name : String)
  /-- Another module. -/
  | module (specifier : String)
  /-- The expression that begins at an offset. -/
  | expression (offset : Nat)
  deriving DecidableEq

namespace ModuleItem

/-- The item exports a value under a name. `export *` exports nothing under a name of its own. -/
inductive Exports : ModuleItem → String → Origin → Prop
  | module {range : Range} {specifier : String} {name : ExportName} :
      Exports (exportAll range specifier (some name)) name.text (.module specifier)
  | member {range : Range} {specifier : String} {members : List ExportMember} {m : ExportMember}
      (h : m ∈ members) :
      Exports (exportFrom range specifier members) m.exported.text (.member specifier m.source.text)
  | listed {range : Range} {members : List ExportMember} {m : ExportMember} (h : m ∈ members) :
      Exports (exportList range members) m.exported.text (.variable m.source.text)
  | declared {range : Range} {declaration : Tree} {name : Name} (h : declaration.Declares name) :
      Exports (exportDeclaration range declaration) name.text (.variable name.text)
  | named {range : Range} {value : Tree} {name : Name} (h : value.ownName? = some name) :
      Exports (exportDefault range value) "default" (.variable name.text)
  | value {range : Range} {value : Tree} (h : value.ownName? = none) :
      Exports (exportDefault range value) "default" (.expression value.range.start)

/-- What the item exports, as a list. -/
def exports : ModuleItem → List (String × Origin)
  | exportAll _ specifier (some name) => [(name.text, .module specifier)]
  | exportFrom _ specifier members => members.map fun m =>
      (m.exported.text, .member specifier m.source.text)
  | exportList _ members => members.map fun m => (m.exported.text, .variable m.source.text)
  | exportDeclaration _ declaration => declaration.declaredNames.map fun n => (n.text, .variable n.text)
  | exportDefault _ value =>
    match value.ownName? with
    | some name => [("default", .variable name.text)]
    | none => [("default", .expression value.range.start)]
  | _ => []

/-- The list of what an item exports is what it exports. -/
theorem mem_exports {item : ModuleItem} {name : String} {origin : Origin} :
    (name, origin) ∈ item.exports ↔ item.Exports name origin := by
  constructor
  · intro h
    unfold exports at h
    split at h
    next =>
      cases List.mem_singleton.mp h
      exact .module
    next =>
      obtain ⟨m, hm, ⟨⟩⟩ := List.mem_map.mp h
      exact .member hm
    next =>
      obtain ⟨m, hm, ⟨⟩⟩ := List.mem_map.mp h
      exact .listed hm
    next =>
      obtain ⟨n, hn, ⟨⟩⟩ := List.mem_map.mp h
      exact .declared (Tree.mem_declaredNames.mp hn)
    next =>
      split at h
      next hown =>
        cases List.mem_singleton.mp h
        exact .named hown
      next hown =>
        cases List.mem_singleton.mp h
        exact .value hown
    next => cases h
  · rintro (_ | hm | hm | hn | hown | hown)
    · exact List.mem_singleton.mpr rfl
    · exact List.mem_map_of_mem hm
    · exact List.mem_map_of_mem hm
    · exact List.mem_map_of_mem (f := fun n : Name => (n.text, Origin.variable n.text))
        (Tree.mem_declaredNames.mpr hn)
    · simp [exports, hown]
    · simp [exports, hown]

/-- The names under which an item exports something are those that no other may use. -/
theorem map_exports (item : ModuleItem) : item.exports.map (·.1) = item.exportedNames := by
  cases item with
  | exportAll range specifier name? => cases name? <;> rfl
  | exportDefault range value =>
    cases hown : value.ownName? <;> simp [exports, exportedNames, hown]
  | _ => simp [exports, exportedNames]

end ModuleItem

/-! ## §3. A default export has a value. -/

/-- What a default export exports has a value. -/
def ModuleItem.ExportsValue (item : ModuleItem) : Prop :=
  ∀ range value, item = .exportDefault range value → value.HasValue

namespace Grammar

open Lexer

/-- Whatever the parser gives satisfies a property. -/
def Yields {α : Type} (P : α → Prop) (p : Parser α) : Prop :=
  ∀ ⦃c d : Cursor⦄ ⦃a : α⦄, p c = some (a, d) → P a

section Rules

variable {α β : Type} {P : β → Prop}

theorem Yields.bind {Q : α → Prop} {p : Parser α} {f : α → Parser β} (hp : Yields Q p)
    (hf : ∀ a, Q a → Yields P (f a)) : Yields P (p >>= f) := by
  intro c e b h
  obtain ⟨a, d, ha, hb⟩ := bind_eq_some h
  exact hf a (hp ha) hb

/-- What the first parser gives does not matter. -/
theorem Yields.behind {p : Parser α} {f : α → Parser β} (hf : ∀ a, Yields P (f a)) :
    Yields P (p >>= f) :=
  .bind (Q := fun _ => True) (fun _ _ _ _ => trivial) fun a _ => hf a

theorem Yields.map {Q : α → Prop} {p : Parser α} {f : α → β} (hp : Yields Q p)
    (hf : ∀ a, Q a → P (f a)) :
    Yields P (f <$> p) := by
  intro c e b h
  rw [map_eq_pure_bind] at h
  obtain ⟨a, d, ha, ⟨⟩⟩ := bind_eq_some h
  exact hf a (hp ha)

theorem pure_yields {b : β} (h : P b) : Yields P (pure b : Parser β) := by
  rintro c d _ ⟨⟩
  exact h

theorem fail_yields : Yields P (fail : Parser β) :=
  fun _ _ _ h => nomatch h

theorem Yields.ite {p q : Parser β} {b : Prop} [Decidable b] (hp : Yields P p) (hq : Yields P q) :
    Yields P (if b then p else q) := by
  split
  · exact hp
  · exact hq

/-- A node of a kind that no list of variables has. -/
theorem node_yields {kind : NodeKind} {start : Nat} {parts : List Tree} (h : ∀ k, kind ≠ .variables k) :
    Yields Tree.HasValue (node kind start parts) :=
  .behind fun _ => pure_yields h

theorem extend_yields {P : Tree → Prop} {step : Tree → Parser (Option Tree)}
    (hstep : ∀ tree, Yields (fun next => ∀ t ∈ next, P t) (step tree)) :
    ∀ (bound : Nat) {tree : Tree}, P tree → Yields P (extend step bound tree)
  | 0, _, _ => fail_yields
  | bound + 1, tree, h => by
    refine .bind (hstep tree) fun next hnext => ?_
    split
    next => exact extend_yields hstep bound (hnext _ rfl)
    next => exact pure_yields h

theorem many_yields {P : α → Prop} {stop : Parser Bool} {item : Parser α} (hitem : Yields P item) :
    ∀ bound, Yields (fun items => ∀ i ∈ items, P i) (many stop item bound)
  | 0 => fail_yields
  | bound + 1 => .behind fun _ => .ite (pure_yields nofun) (.bind hitem fun _ hfirst =>
      .bind (many_yields hitem bound) fun _ hrest =>
        pure_yields (List.forall_mem_cons.mpr ⟨hfirst, hrest⟩))

end Rules

/-- The goal is an expression or an operand of one. -/
def Goal.isOperand : Goal → Bool
  | .expression | .assignment | .binary _ | .unary | .leftHandSide | .constructor | .element => true
  | _ => false

/-- All expressions have a value. -/
def AllHaveValue (parse : ParseGoal) : Prop :=
  ∀ goal ctx, goal.isOperand = true → Yields Tree.HasValue (parse goal ctx)

section Productions

variable {bound : Nat} {parse : ParseGoal} {ctx : Context}

theorem functionFromKeyword_value {start : Nat} {async : Bool} {form : FunctionForm} :
    Yields Tree.HasValue (functionFromKeyword bound parse ctx start async form) := by
  refine .behind fun _ => .behind fun generator => .behind fun _ => ?_
  extract_lets next
  have hnext (name? : Option Name) : Yields Tree.HasValue (next name?) :=
    .behind fun _ => .behind fun _ => node_yields nofun
  exact .ite (.behind hnext) (.behind hnext)

theorem classFromKeyword_value {start : Nat} {marks : List Tree} :
    Yields Tree.HasValue (classFromKeyword bound parse ctx start marks) := by
  refine .behind fun _ => .behind fun first => ?_
  extract_lets named
  have hnamed (name? : Option Name) : Yields Tree.HasValue (named name?) := by
    refine .behind fun _ => ?_
    extract_lets next
    have hnext (parent : List Tree) : Yields Tree.HasValue (next parent) :=
      .behind fun _ => .behind fun _ => .behind fun _ => node_yields nofun
    exact .ite (.behind fun _ => .behind hnext) (.behind hnext)
  exact .ite (.behind hnamed) (.behind hnamed)

theorem wordOperand_value : Yields Tree.HasValue (wordOperand bound parse ctx) := by
  refine .behind fun start => .behind fun t => ?_
  dsimp only
  split
  iterate 4 exact .behind fun _ => node_yields nofun
  next => exact functionFromKeyword_value
  next => exact classFromKeyword_value
  next =>
    exact .behind fun _ => .ite (.behind fun _ => functionFromKeyword_value)
      (.behind fun _ => node_yields nofun)
  next => exact .behind fun _ => node_yields nofun

theorem regexLiteral_value : Yields Tree.HasValue regexLiteral := by
  refine .behind fun start => .behind fun t => ?_
  split
  next => exact .behind fun _ => .behind fun _ => node_yields nofun
  next => exact fail_yields

theorem primary_value (hp : AllHaveValue parse) : Yields Tree.HasValue (primary bound parse ctx) := by
  refine .behind fun start => .behind fun t => ?_
  split
  next => exact wordOperand_value
  iterate 2 exact .behind fun _ => node_yields nofun
  next => exact .behind fun _ => .behind fun _ => node_yields nofun
  iterate 3 exact .behind fun _ => .behind fun _ => .behind fun _ => .behind fun _ => node_yields nofun
  iterate 2 exact regexLiteral_value
  next => exact .behind fun _ => classFromKeyword_value
  next => exact .behind fun _ => .bind (hp _ _ rfl) fun _ h => .behind fun _ => pure_yields h
  next => exact fail_yields

theorem importExpression_value {calls : Bool} :
    Yields Tree.HasValue (importExpression calls parse ctx) := by
  refine .behind fun start => .behind fun _ => .behind fun _ => ?_
  extract_lets called phased
  have hcalled (u : Unit) : Yields Tree.HasValue (called u) := by
    refine .behind fun _ => .behind fun _ => .behind fun specifier => .behind fun _ =>
      .behind fun _ => ?_
    extract_lets next
    have hnext (options : List Tree) : Yields Tree.HasValue (next options) :=
      .behind fun _ => node_yields nofun
    exact .ite (.behind fun _ => .behind fun _ => .behind hnext) (.behind hnext)
  have hphased (b : Bool) : Yields Tree.HasValue (phased b) := .behind hcalled
  refine .ite (.behind fun _ => .ite (node_yields nofun) ?_) (hcalled ())
  exact .behind fun _ => .ite (.behind hphased) (.behind hphased)

theorem superExpression_value {calls : Bool} : Yields Tree.HasValue (superExpression calls) := by
  refine .behind fun start => .behind fun _ => .behind fun _ => .behind fun t => ?_
  extract_lets next
  have hnext (u : Unit) : Yields Tree.HasValue (next u) := node_yields nofun
  split
  next => exact .behind hnext
  next => exact hnext ()
  next => exact .behind hnext
  next => exact .behind hnext

theorem newExpression_value : Yields Tree.HasValue (newExpression bound parse ctx) := by
  refine .behind fun start => .behind fun _ => .behind fun _ =>
    .ite (.behind fun _ => node_yields nofun) ?_
  refine .behind fun callee => .behind fun _ => .behind fun _ => .behind fun _ => ?_
  exact .ite (.behind fun _ => node_yields nofun) (.behind fun _ => node_yields nofun)

theorem memberBase_value (hp : AllHaveValue parse) {calls : Bool} :
    Yields Tree.HasValue (memberBase bound calls parse ctx) := by
  refine .behind fun t => ?_
  split
  next => exact newExpression_value
  next => exact superExpression_value
  next => exact importExpression_value
  next => exact primary_value hp

/-- Another link is a node of its own. -/
theorem memberLink_value {calls : Bool} (tree : Tree) :
    Yields (fun next => ∀ t ∈ next, t.HasValue) (memberLink bound calls parse ctx tree) := by
  unfold memberLink
  extract_lets start
  rcases splitChain tree with ⟨inner, chained⟩
  dsimp -zeta only
  extract_lets link index
  have hnone : Yields (fun next => ∀ t ∈ next, Tree.HasValue t) (pure none : Parser (Option Tree)) :=
    pure_yields nofun
  have hsome {tree : Tree} (h : tree.HasValue) : ∀ t ∈ some tree, t.HasValue := by
    rintro _ ⟨⟩
    exact h
  have hlink (chained : Bool) (kind : NodeKind) (hkind : ∀ k, kind ≠ .variables k) (parts : List Tree) :
      Yields (fun next => ∀ t ∈ next, Tree.HasValue t) (link chained kind parts) :=
    .bind (node_yields hkind) fun linked hlinked =>
      .ite (.map (node_yields nofun) fun _ => hsome) (pure_yields (hsome hlinked))
  have hindex (chained : Bool) : Yields (fun next => ∀ t ∈ next, Tree.HasValue t) (index chained) :=
    .behind fun _ => .behind fun _ => .behind fun _ => hlink _ .index nofun _
  refine .behind fun t => ?_
  split
  next => exact .behind fun _ => .behind fun _ => hlink _ .member nofun _
  next =>
    refine .ite (.behind fun _ => .behind fun t => ?_) hnone
    split
    next => exact .behind fun _ => hlink _ .call nofun _
    next => exact hindex _
    next => exact .behind fun _ => hlink _ .member nofun _
  next => exact .ite hnone (hindex _)
  next => exact .ite (.behind fun _ => hlink _ .call nofun _) hnone
  next => exact .behind fun _ => .behind fun _ => hlink _ .template nofun _
  next => exact hnone

theorem members_value (hp : AllHaveValue parse) {calls : Bool} :
    Yields Tree.HasValue (members bound calls parse ctx) :=
  .bind (memberBase_value hp) fun _ h => extend_yields memberLink_value _ h

theorem updated_value (hp : AllHaveValue parse) : Yields Tree.HasValue (updated parse ctx) := by
  refine .bind (hp _ _ rfl) fun operand hoperand => .behind fun t => .ite ?_ (pure_yields hoperand)
  exact .behind fun _ => .behind fun _ => node_yields nofun

theorem unary_value (hp : AllHaveValue parse) : Yields Tree.HasValue (unary parse ctx) := by
  refine .behind fun start => .behind fun t => ?_
  extract_lets prefixed
  have hprefixed : Yields Tree.HasValue prefixed := .behind fun _ => .behind fun _ => node_yields nofun
  have hupdated : Yields Tree.HasValue (updated parse ctx) := updated_value hp
  split
  iterate 4 exact hprefixed
  iterate 2 exact .behind fun _ => .behind fun _ => .behind fun _ => node_yields nofun
  next =>
    split
    iterate 3 exact hprefixed
    next => exact .ite hprefixed (.behind fun _ => .behind fun _ => hupdated)
    next => exact hupdated

theorem binaryOperator?_value {t : Token} {operator : BinaryOperator}
    (h : binaryOperator? ctx t = some operator) :
    ∀ k, operator.kind ≠ .variables k := by
  unfold binaryOperator? at h
  split at h
  all_goals try (cases h; nofun)
  split at h
  next => cases h; nofun
  next => split at h <;> cases h; nofun
  next => cases h

theorem binaryStep_value {above : Nat} (left : Tree) :
    Yields (fun next => ∀ t ∈ next, t.HasValue) (binaryStep parse ctx above left) := by
  refine .behind fun t => ?_
  split
  next => exact pure_yields nofun
  next operator h =>
    refine .ite (pure_yields nofun)
      (.behind fun _ => .behind fun _ => .behind fun right => .behind fun _ => ?_)
    refine .map (node_yields (binaryOperator?_value h)) fun tree htree => ?_
    rintro _ ⟨⟩
    exact htree

theorem binary_value (hp : AllHaveValue parse) {above : Nat} :
    Yields Tree.HasValue (binary bound parse ctx above) := by
  refine .behind fun t => ?_
  extract_lets next
  have hnext (first : Tree) (h : first.HasValue) : Yields Tree.HasValue (next first) :=
    extend_yields binaryStep_value _ h
  split
  next =>
    refine .bind ?_ hnext
    exact .behind fun _ => .behind fun _ => .behind fun _ => .behind fun _ => .behind fun _ =>
      node_yields nofun
  next => exact .bind (hp _ _ rfl) hnext

theorem yieldExpression_value : Yields Tree.HasValue (yieldExpression parse ctx) := by
  refine .behind fun start => .behind fun _ => .behind fun t => .ite (node_yields nofun) ?_
  exact .behind fun _ => .ite (node_yields nofun) (.behind fun _ => node_yields nofun)

theorem conditional_value (hp : AllHaveValue parse) : Yields Tree.HasValue (conditional parse ctx) :=
  .bind (hp _ _ rfl) fun _ htest => .behind fun _ =>
    .ite (.behind fun _ => .behind fun _ => .behind fun _ => node_yields nofun) (pure_yields htest)

theorem assignmentRest_value {left : Tree} (h : left.HasValue) :
    Yields Tree.HasValue (assignmentRest parse ctx left) := by
  refine .behind fun t => ?_
  split
  next =>
    split
    next => exact .behind fun _ => .behind fun _ => node_yields nofun
    next => exact fail_yields
  iterate 2 exact .behind fun _ => .behind fun _ => .behind fun _ => node_yields nofun
  next => exact pure_yields h

theorem assignment_value (hp : AllHaveValue parse) :
    Yields Tree.HasValue (assignment bound parse ctx) := by
  refine .behind fun start => .behind fun t => ?_
  extract_lets next begun
  have hnext (head? : Option (Bool × List Tree)) : Yields Tree.HasValue (next head?) := by
    unfold next
    split
    next => exact .behind fun _ => node_yields nofun
    next => exact .bind (conditional_value hp) fun _ => assignmentRest_value
  have hbegun (u : Unit) : Yields Tree.HasValue (begun u) := .ite (.behind hnext) (.behind hnext)
  exact .ite (.ite yieldExpression_value (.behind fun _ => .behind hbegun)) (hbegun ())

theorem expression_value (hp : AllHaveValue parse) :
    Yields Tree.HasValue (expression bound parse ctx) :=
  .behind fun _ => .bind (hp _ _ rfl) fun _ hfirst => .behind fun _ =>
    .ite (.behind fun _ => node_yields nofun) (pure_yields hfirst)

theorem markupElement_value : Yields Tree.HasValue (markupElement bound parse ctx) := by
  refine .behind fun start => .behind fun _ => .behind fun _ => .behind fun _ => ?_
  extract_lets atTagEnd named
  have hnamed (name : List Char) : Yields Tree.HasValue (named name) := by
    unfold named
    extract_lets attributed
    have hattributed (attributes : List (List Tree)) :
      Yields Tree.HasValue (attributed attributes) := by
      refine .behind fun _ => ?_
      extract_lets finished
      have hfinished (children : List Tree) : Yields Tree.HasValue (finished children) :=
        .behind fun _ => node_yields nofun
      refine .ite (.behind fun _ => .behind hfinished) ?_
      refine .behind fun _ => .behind fun _ => .behind fun _ => .behind fun _ => ?_
      extract_lets closed
      have hclosed (closing : List Char) : Yields Tree.HasValue (closed closing) :=
        .behind fun _ => .behind hfinished
      exact .ite (.behind hclosed) (.behind hclosed)
    exact .ite (.behind hattributed) (.behind hattributed)
  exact .ite (.behind hnamed) (.behind hnamed)

theorem production_value (hp : AllHaveValue parse) : AllHaveValue (production bound parse) := by
  intro goal ctx hgoal
  cases goal with
  | statement | block | pattern => cases hgoal
  | expression => exact expression_value hp
  | assignment => exact assignment_value hp
  | binary above => exact binary_value hp
  | unary => exact unary_value hp
  | leftHandSide => exact members_value hp
  | constructor => exact members_value hp
  | element => exact markupElement_value

theorem parseGoal_value (bound : Nat) : ∀ depth, AllHaveValue (parseGoal bound depth)
  | 0, _, _, _ => fail_yields
  | depth + 1, goal, ctx, hgoal => production_value (parseGoal_value bound depth) goal ctx hgoal

theorem exportDefaultItem_value (hp : AllHaveValue parse) {start : Nat} {marks : List Tree} :
    Yields ModuleItem.ExportsValue (exportDefaultItem bound parse ctx start marks) := by
  have hexport {tree : Tree} (h : tree.HasValue) : Yields ModuleItem.ExportsValue (do
      return .exportDefault (← rangeFrom start) tree) :=
    .behind fun _ => pure_yields (by rintro _ _ ⟨⟩; exact h)
  refine .behind fun _ => .behind fun _ => .ite ?_ (.behind fun _ => .behind fun _ => .ite ?_ ?_)
  · exact .bind (.behind fun _ => .behind fun _ => .behind fun _ => classFromKeyword_value)
      fun _ => hexport
  · exact .bind (.behind fun _ => .behind fun _ => functionFromKeyword_value) fun _ => hexport
  · exact .bind (hp _ _ rfl) fun _ h => .behind fun _ => hexport h

theorem importItem_value : Yields ModuleItem.ExportsValue (importItem bound ctx) := by
  refine .behind fun start => .behind fun _ => .behind fun t => ?_
  have himport {specifier : String} {bindings? : Option (List ImportBinding)} :
      Yields ModuleItem.ExportsValue (do return .importFrom (← rangeFrom start) specifier bindings?) :=
    .behind fun _ => pure_yields nofun
  split
  next => exact .behind fun _ => himport
  next =>
    refine .behind fun phased? => ?_
    extract_lets next
    have hnext (bindings : List ImportBinding) : Yields ModuleItem.ExportsValue (next bindings) :=
      .behind fun _ => himport
    split
    next => exact .behind hnext
    next => exact .behind fun _ => .behind fun _ => .behind hnext

theorem exportItem_value (hp : AllHaveValue parse) {marks : List Tree} :
    Yields ModuleItem.ExportsValue (exportItem bound parse ctx marks) := by
  refine .behind fun start => .behind fun _ => .behind fun _ => .ite (exportDefaultItem_value hp) ?_
  refine .behind fun _ => .behind fun _ => .ite (.behind fun _ => .behind fun _ => pure_yields nofun) ?_
  refine .behind fun _ => .behind fun t => ?_
  split
  next =>
    have hall (name? : Option ExportName) : Yields ModuleItem.ExportsValue (do
        expectKeyword .from_
        let specifier ← sourceModule bound
        return .exportAll (← rangeFrom start) specifier name?) :=
      .behind fun _ => .behind fun _ => .behind fun _ => pure_yields nofun
    exact .behind fun _ => .behind fun _ => .ite (.behind hall) (.behind hall)
  next =>
    have hlist (members : List (ExportMember × Bool)) : Yields ModuleItem.ExportsValue (do
        require (members.all (·.2))
        endStatement
        return .exportList (← rangeFrom start) (members.map (·.1))) :=
      .behind fun _ => .behind fun _ => .behind fun _ => pure_yields nofun
    refine .behind fun _ => .behind fun members => .behind fun _ => .behind fun _ => .behind fun _ => ?_
    exact .ite (.behind fun _ => .behind fun _ => .behind fun _ => pure_yields nofun) (hlist _)
  next => exact .behind fun _ => .behind fun _ => .behind fun _ => .behind fun _ => pure_yields nofun
  next => exact fail_yields

theorem declarationItem_value (hp : AllHaveValue parse) :
    Yields ModuleItem.ExportsValue (declarationItem bound parse ctx) := by
  refine .behind fun _ => .ite importItem_value
    (.behind fun start => .behind fun marks => .behind fun _ => ?_)
  exact .ite (exportItem_value hp) (.behind fun _ => pure_yields nofun)

theorem moduleItem_value (hp : AllHaveValue parse) :
    Yields ModuleItem.ExportsValue (moduleItem bound parse ctx) :=
  .behind fun _ => .ite (declarationItem_value hp) (.behind fun _ => pure_yields nofun)

end Productions

end Grammar

open Grammar in
/-- **A default export** is a function, a class or an expression, never a list of variables. -/
theorem parse?_exportsValue {markup : Bool} {source : List Char} {items : List ModuleItem}
    (h : parse? markup source = some items) : ∀ item ∈ items, item.ExportsValue := by
  simp only [parse?, Option.bind_eq_bind, Option.bind_eq_some_iff] at h
  obtain ⟨first, hfirst, ⟨found, last⟩, hmany, h⟩ := h
  split at h
  next =>
    cases h
    exact many_yields (moduleItem_value (parseGoal_value _ _)) _ hmany
  next => cases h

/-! ## §4. What the code assigns. -/

/-- Where a value comes from that is read behind some statements: the last one that binds the variable of
a module tells which module that is. -/
inductive Value.From (before : List Generated) : Value → Origin → Prop
  | variable {name : String} : From before (.var name) (.variable name)
  | module {specifier : String} : From before (.module specifier) (.module specifier)
  | member {holder specifier name : String} {earlier later : List Generated}
      (hbind : before = earlier ++ .bind holder (.module specifier) :: later)
      (hkept : ∀ value, .bind holder value ∉ later) :
      From before (.member holder name) (.member specifier name)

/-- Some statements assign an export; the source goes on behind them at an offset. -/
inductive Assigns (written : List Generated) (next : Nat) : String → Origin → Prop
  | share {name : String} {value : Value} {origin : Origin} {before after : List Generated}
      (h : written = before ++ .share name value :: after) (hvalue : value.From before origin) :
      Assigns written next name origin
  | shareNext {before : List Generated} (h : written = before ++ [.shareNext]) :
      Assigns written next "default" (.expression next)

/-- The pieces assign an export, in the place of a declaration or behind the body. -/
inductive Shares (pieces : List Piece) (name : String) (origin : Origin) : Prop
  | inPlace {range : Range} {written : List Generated}
      (h : .replaced ⟨range, .statements written⟩ ∈ pieces)
      (hassigns : Assigns written range.stop name origin)
  | behind {value : Value} (h : .tail (.share name value) ∈ pieces) (hvalue : value.From [] origin)

/-- The name of the export that a statement assigns. -/
def Generated.sharedName? : Generated → Option String
  | share name _ => some name
  | shareNext => some "default"
  | _ => none

/-- The generated statements of a piece. -/
def Piece.statements : Piece → List Generated
  | replaced ⟨_, .statements written⟩ => written
  | tail statement => [statement]
  | _ => []

/-- The names of all exports that some pieces assign. -/
def sharedNames (pieces : List Piece) : List String :=
  pieces.flatMap fun piece => piece.statements.filterMap Generated.sharedName?

variable {name : String} {origin : Origin}

@[simp] theorem from_var {before : List Generated} {source : String} :
    Value.From before (.var source) origin ↔ .variable source = origin := by
  constructor
  · rintro ⟨⟩
    rfl
  · rintro rfl
    exact .variable

@[simp] theorem from_module {before : List Generated} {specifier : String} :
    Value.From before (.module specifier) origin ↔ .module specifier = origin := by
  constructor
  · rintro ⟨⟩
    rfl
  · rintro rfl
    exact .module

theorem not_assigns_nil {next : Nat} : ¬ Assigns [] next name origin := by
  rintro (⟨h, -⟩ | h) <;> simp at h

theorem assigns_one {statement : Generated} {next : Nat} : Assigns [statement] next name origin ↔
    (∃ value, statement = .share name value ∧ value.From [] origin)
      ∨ statement = .shareNext ∧ name = "default" ∧ origin = .expression next := by
  constructor
  · rintro (⟨h, hvalue⟩ | h)
    · obtain ⟨rfl, hshare⟩ | ⟨-, hnil⟩ := List.append_eq_singleton_iff.mp h.symm
      · cases hshare
        exact .inl ⟨_, rfl, hvalue⟩
      · cases hnil
    · obtain ⟨rfl, hshare⟩ | ⟨-, hnil⟩ := List.append_eq_singleton_iff.mp h.symm
      · cases hshare
        exact .inr ⟨rfl, rfl, rfl⟩
      · cases hnil
  · rintro (⟨value, rfl, hvalue⟩ | ⟨rfl, rfl, rfl⟩)
    · exact .share (List.nil_append _).symm hvalue
    · exact .shareNext (List.nil_append _).symm

/-- Without a statement that assigns an export none is assigned. -/
theorem not_assigns {written : List Generated} {next : Nat} (h : ∀ s ∈ written, s.sharedName? = none) :
    ¬ Assigns written next name origin := by
  rintro (⟨rfl, -⟩ | rfl)
  · exact nomatch h (.share name _) (List.mem_append_right _ List.mem_cons_self)
  · exact nomatch h .shareNext (List.mem_append_right _ List.mem_cons_self)

/-- Exports of a module in a variable are taken from that module. -/
theorem assigns_members {holder specifier : String} {members : List ExportMember} {next : Nat} :
    Assigns (.bind holder (.module specifier)
        :: members.map fun m => .share m.exported.text (.member holder m.source.text)) next name origin
      ↔ ∃ m ∈ members, m.exported.text = name ∧ .member specifier m.source.text = origin := by
  constructor
  · rintro (⟨h, hvalue⟩ | h)
    · obtain ⟨before, rfl, hmap⟩ := (List.cons_eq_append_iff.mp h).resolve_left (by simp)
      obtain ⟨front, rest, rfl, hfront, hrest⟩ := List.map_eq_append_iff.mp hmap
      obtain ⟨m, back, rfl, hshare, -⟩ := List.map_eq_cons_iff.mp hrest
      cases hshare
      refine ⟨m, by simp, rfl, ?_⟩
      -- all that stands between assigns exports, so the first statement is the last to bind the variable
      cases hvalue with
      | @member _ found _ earlier later hbind hkept =>
        rcases List.cons_eq_append_iff.mp hbind with ⟨rfl, hhead⟩ | ⟨earlier, rfl, hlater⟩
        · cases hhead
          rfl
        · have hmem : Generated.bind holder (.module found) ∈ before := by
            rw [hlater]
            exact List.mem_append_right _ List.mem_cons_self
          simp [← hfront] at hmem
    · obtain ⟨before, rfl, hmap⟩ := (List.cons_eq_append_iff.mp h).resolve_left (by simp)
      obtain ⟨m, -, hm⟩ := List.mem_map.mp (hmap ▸ List.mem_append_right before List.mem_cons_self)
      cases hm
  · rintro ⟨m, hm, rfl, rfl⟩
    obtain ⟨front, back, rfl⟩ := List.append_of_mem hm
    rw [List.map_append, List.map_cons, ← List.cons_append]
    exact .share rfl (.member (List.nil_append _).symm (by simp))

/-- **What the statements of one item assign** is what the item exports. -/
theorem item_shares {item : ModuleItem} (hvalue : item.ExportsValue) (n : Nat) :
    (∃ words, item.words? = some words ∧ Assigns (item.inPlace n) words.stop name origin)
        ∨ (∃ value, .share name value ∈ item.behind ∧ value.From [] origin)
      ↔ (name, origin) ∈ item.exports := by
  cases item with
  | importFrom range specifier bindings? =>
    cases bindings? with
    | none => simp [ModuleItem.words?, ModuleItem.inPlace, ModuleItem.behind, ModuleItem.exports,
        assigns_one]
    | some bindings =>
      have hnone :
          ¬ Assigns ((ModuleItem.importFrom range specifier (some bindings)).inPlace n) range.stop
          name origin := not_assigns (by simp [ModuleItem.inPlace, Generated.sharedName?])
      simp [ModuleItem.words?, ModuleItem.range, ModuleItem.behind, ModuleItem.exports, hnone]
  | exportAll range specifier name? =>
    cases name? with
    | none => simp [ModuleItem.words?, ModuleItem.inPlace, ModuleItem.behind, ModuleItem.exports,
        assigns_one]
    | some shared =>
      simp [ModuleItem.words?, ModuleItem.inPlace, ModuleItem.behind, ModuleItem.exports,
        assigns_one, and_comm,
        eq_comm]
  | exportFrom range specifier members =>
    simp [ModuleItem.words?, ModuleItem.range, ModuleItem.inPlace, ModuleItem.behind,
      ModuleItem.exports,
      assigns_members]
  | exportList range members =>
    simp [ModuleItem.words?, ModuleItem.inPlace, ModuleItem.behind, ModuleItem.exports,
      not_assigns_nil, and_assoc]
  | exportDeclaration range declaration =>
    simp [ModuleItem.words?, ModuleItem.inPlace, ModuleItem.behind, ModuleItem.exports,
      not_assigns_nil, and_assoc]
  | exportDefault range value =>
    have hnames := (hvalue range value rfl).declaredNames_eq
    cases hown : value.ownName? with
    | none =>
      simp [ModuleItem.words?, ModuleItem.inPlace, ModuleItem.behind, ModuleItem.exports, hnames,
        hown, assigns_one,
        exportWords]
    | some own =>
      simp [ModuleItem.words?, ModuleItem.inPlace, ModuleItem.behind, ModuleItem.exports, hnames, hown,
        not_assigns_nil, eq_comm]
  | statement tree => simp [ModuleItem.words?, ModuleItem.behind, ModuleItem.exports]

/-- **What the pieces of a module assign** is what its items export. -/
theorem modulePieces_shares {markup : Bool} {source : List Char} {items : List ModuleItem}
    (h : parse? markup source = some items) :
    Shares (modulePieces source items) name origin ↔ ∃ item ∈ items, item.Exports name origin := by
  have hvalue := parse?_exportsValue h
  constructor
  · rintro (⟨hpiece, hassigns⟩ | ⟨hpiece, hfrom⟩)
    · rcases mem_replacements_of_pieces hpiece with hr | hr
      · obtain ⟨item, hitem, k, hwords, hcontent⟩ := mem_itemReplacements hr
        cases hcontent
        exact ⟨item, hitem, ModuleItem.mem_exports.mp ((item_shares (hvalue item hitem) k).mp
          (.inl ⟨_, hwords, hassigns⟩))⟩
      · obtain ⟨_, _, _, _, _, _, _, _, hcall⟩ := mem_callReplacements hr
        cases hcall
    · obtain ⟨item, hitem, hbehind⟩ := tail_mem_modulePieces.mp hpiece
      exact ⟨item, hitem, ModuleItem.mem_exports.mp ((item_shares (hvalue item hitem) 0).mp
        (.inr ⟨_, hbehind, hfrom⟩))⟩
  · rintro ⟨item, hitem, hexports⟩
    -- the number that the item has in the module, if it is replaced
    obtain ⟨k, hk⟩ : ∃ k, ∀ words, item.words? = some words →
        ⟨words, .statements (item.inPlace k)⟩ ∈ itemReplacements 0 items := by
      cases hwords : item.words? with
      | none => exact ⟨0, nofun⟩
      | some words =>
        obtain ⟨k, hk⟩ := exists_itemReplacement hwords hitem
        exact ⟨k, fun _ heq => Option.some.inj heq ▸ hk⟩
    rcases (item_shares (hvalue item hitem) k).mpr (ModuleItem.mem_exports.mpr hexports) with
      ⟨words, hwords, hassigns⟩ | ⟨value, hbehind, hfrom⟩
    · exact .inPlace (pieces_complete h (hk words hwords)) hassigns
    · exact .behind (tail_mem_modulePieces.mpr ⟨item, hitem, hbehind⟩) hfrom

/-- The statements of one item assign exports under the names that the item exports. -/
theorem item_sharedNames {item : ModuleItem} (hvalue : item.ExportsValue) (n : Nat) :
    name ∈ (item.inPlace n ++ item.behind).filterMap Generated.sharedName?
      ↔ name ∈ item.exports.map (·.1) := by
  cases item with
  | importFrom range specifier bindings? =>
    cases bindings? <;>
      simp [ModuleItem.inPlace, ModuleItem.behind, ModuleItem.exports, Generated.sharedName?]
  | exportAll range specifier name? =>
    cases name? <;> simp [ModuleItem.inPlace, ModuleItem.behind, ModuleItem.exports,
      Generated.sharedName?]
  | exportDefault range value =>
    have hnames := (hvalue range value rfl).declaredNames_eq
    cases hown : value.ownName? <;>
      simp [ModuleItem.inPlace, ModuleItem.behind, ModuleItem.exports, hnames, hown,
        Generated.sharedName?]
  | _ => simp [ModuleItem.inPlace, ModuleItem.behind, ModuleItem.exports, Generated.sharedName?]

/-- The pieces of a module assign exports under the names that its items export. -/
theorem mem_sharedNames {markup : Bool} {source : List Char} {items : List ModuleItem}
    (h : parse? markup source = some items) :
    name ∈ sharedNames (modulePieces source items)
      ↔ ∃ item ∈ items, ∃ origin, item.Exports name origin := by
  have hvalue := parse?_exportsValue h
  constructor
  · intro hname
    obtain ⟨piece, hpiece, hname⟩ := List.mem_flatMap.mp hname
    obtain ⟨item, hitem, k, hmem⟩ : ∃ item ∈ items, ∃ k,
        name ∈ (item.inPlace k ++ item.behind).filterMap Generated.sharedName? := by
      rw [List.mem_filterMap] at hname
      obtain ⟨statement, hstatement, hname⟩ := hname
      unfold Piece.statements at hstatement
      split at hstatement
      next =>
        rcases mem_replacements_of_pieces hpiece with hr | hr
        · obtain ⟨item, hitem, k, -, hcontent⟩ := mem_itemReplacements hr
          cases hcontent
          exact ⟨item, hitem, k, List.mem_filterMap.mpr ⟨_, List.mem_append_left _ hstatement, hname⟩⟩
        · obtain ⟨_, _, _, _, _, _, _, _, hcall⟩ := mem_callReplacements hr
          cases hcall
      next =>
        obtain rfl := List.mem_singleton.mp hstatement
        obtain ⟨item, hitem, hbehind⟩ := tail_mem_modulePieces.mp hpiece
        exact ⟨item, hitem, 0, List.mem_filterMap.mpr ⟨_, List.mem_append_right _ hbehind, hname⟩⟩
      next => cases hstatement
    obtain ⟨⟨_, origin⟩, hexports, rfl⟩ :=
      List.mem_map.mp ((item_sharedNames (hvalue item hitem) k).mp hmem)
    exact ⟨item, hitem, origin, ModuleItem.mem_exports.mp hexports⟩
  · rintro ⟨item, hitem, origin, hexports⟩
    rcases (modulePieces_shares h).mpr ⟨item, hitem, hexports⟩ with ⟨hpiece, hassigns⟩ | ⟨hpiece, -⟩
    · refine List.mem_flatMap.mpr ⟨_, hpiece, List.mem_filterMap.mpr ?_⟩
      rcases hassigns with ⟨rfl, -⟩ | rfl
      · exact ⟨_, List.mem_append_right _ List.mem_cons_self, rfl⟩
      · exact ⟨_, List.mem_append_right _ List.mem_cons_self, rfl⟩
    · exact List.mem_flatMap.mpr ⟨_, hpiece, List.mem_filterMap.mpr ⟨_, List.mem_cons_self, rfl⟩⟩

/-! ## §5. Every export is assigned. -/

theorem nodup_of_allDistinct {α : Type} [BEq α] [LawfulBEq α] :
    ∀ {xs : List α}, Grammar.allDistinct xs = true → xs.Nodup
  | [], _ => .nil
  | x :: xs, h => by
    simp only [Grammar.allDistinct, Bool.and_eq_true, Bool.not_eq_true', List.contains_eq_mem,
      decide_eq_false_iff_not] at h
    exact List.nodup_cons.mpr ⟨h.1, nodup_of_allDistinct h.2⟩

/-- No name is exported twice. -/
theorem nodup_exports {markup : Bool} {source : List Char} {items : List ModuleItem}
    (h : parse? markup source = some items) : ((items.flatMap ModuleItem.exports).map (·.1)).Nodup := by
  simp only [parse?, Option.bind_eq_bind, Option.bind_eq_some_iff] at h
  obtain ⟨_, -, ⟨found, _⟩, -, h⟩ := h
  split at h
  next hcomplete =>
    cases h
    rw [List.map_flatMap]
    simp only [ModuleItem.map_exports]
    exact nodup_of_allDistinct (Bool.and_eq_true_iff.mp hcomplete).1
  next => cases h

/-- The text is an identifier. -/
def IsName (text : String) : Prop :=
  ∃ name : Name, text = name.text

theorem isName_of_isIdentifier {name : ExportName} (h : name.isIdentifier = true) :
    IsName name.text := by
  cases name with
  | identifier name => exact ⟨name, rfl⟩
  | quoted text => cases h

theorem isName_default : IsName "default" :=
  ⟨⟨"default".toList, by decide⟩, by simp [Name.text]⟩

/-- The name of an export is an identifier, and so is that of the member from which it comes. -/
theorem ModuleItem.Exports.isName {item : ModuleItem} (h : item.Exports name origin)
    (hplain : item.Plain) :
    IsName name ∧ ∀ specifier member, origin = .member specifier member → IsName member := by
  cases h with
  | module => exact ⟨isName_of_isIdentifier (hplain _ List.mem_cons_self), nofun⟩
  | member hm =>
    refine ⟨isName_of_isIdentifier (hplain _ (List.mem_flatMap.mpr ⟨_, hm, by simp⟩)), ?_⟩
    rintro _ _ ⟨⟩
    exact isName_of_isIdentifier (hplain _ (List.mem_flatMap.mpr ⟨_, hm, by simp⟩))
  | listed hm => exact ⟨isName_of_isIdentifier (hplain _ (List.mem_flatMap.mpr ⟨_, hm, by simp⟩)),
      nofun⟩
  | declared => exact ⟨⟨_, rfl⟩, nofun⟩
  | named => exact ⟨isName_default, nofun⟩
  | value => exact ⟨isName_default, nofun⟩

/-- **Every export is assigned**, from what its declaration names, and nothing else is. The code of a
module whose import and export names are identifiers assigns exports under exactly the names that its
items export, each from the variable, module, member or expression that the declaration names, and
from no other; it begins with the mark of a module exactly when there is an export declaration. -/
theorem lower?_shares_exports {markup : Bool} {source : List Char} {lowered : LoweredModule}
    (hlower : lower? markup source = some lowered)
    (hplain : ∀ items, parse? markup source = some items → ∀ item ∈ items, item.Plain) :
    ∃ items, parse? markup source = some items ∧ lowered.code = piecesText (modulePieces source items) ∧
      (∀ name, name ∈ sharedNames (modulePieces source items) ↔
        ∃ item ∈ items, ∃ origin, item.Exports name origin) ∧
      (∀ name origin, Shares (modulePieces source items) name origin
        ↔ ∃ item ∈ items, item.Exports name origin) ∧
      (∀ name a b, Shares (modulePieces source items) name a →
        Shares (modulePieces source items) name b → a = b) ∧
      (∀ name origin, Shares (modulePieces source items) name origin →
        IsName name ∧ ∀ specifier member, origin = .member specifier member → IsName member) ∧
      ((modulePieces source items).head? = some .mark ↔ ∃ item ∈ items, item.isExport = true) := by
  obtain ⟨items, hitems, rfl⟩ := Option.map_eq_some_iff.mp hlower
  refine ⟨items, hitems, lowerModule_pieces source items, fun _ => mem_sharedNames hitems,
    fun _ _ => modulePieces_shares hitems, fun name a b ha hb => ?_, fun name origin h => ?_, ?_⟩
  · have hexports {origin : Origin} (h : Shares (modulePieces source items) name origin) :
        (name, origin) ∈ items.flatMap ModuleItem.exports := by
      obtain ⟨item, hitem, h⟩ := (modulePieces_shares hitems).mp h
      exact List.mem_flatMap.mpr ⟨item, hitem, ModuleItem.mem_exports.mpr h⟩
    have hsame := List.inj_on_of_nodup_map (nodup_exports hitems) (hexports ha) (hexports hb) rfl
    exact congrArg Prod.snd hsame
  · obtain ⟨item, hitem, h⟩ := (modulePieces_shares hitems).mp h
    exact h.isName (hplain items hitems item hitem)
  · refine ⟨fun h => mark_mem_modulePieces.mp (List.mem_of_head? h), fun h => ?_⟩
    have hany : items.any ModuleItem.isExport = true := List.any_eq_true.mpr h
    simp [modulePieces, bodyPieces, hany]

/-- Exports of every kind: names of a nested pattern, of another module and the default one. -/
def manyExports : List Char :=
  "export let {a, b: [c]} = x;\nexport {d as e} from 'y';\nexport default f".toList

/-- What is assigned here is what is exported. -/
theorem manyExports_shared : ∃ lowered items, lower? false manyExports = some lowered ∧
    parse? false manyExports = some items ∧ lowered.code = piecesText (modulePieces manyExports items) ∧
    ∀ name origin, Shares (modulePieces manyExports items) name origin
      ↔ ∃ item ∈ items, item.Exports name origin := by
  have hread : (parse? false manyExports).any
      (fun items => items.all fun item => item.exportNames.all (·.isIdentifier)) = true := by
    decide +kernel
  obtain ⟨items, hitems, hall⟩ := (Option.any_eq_true _ _).mp hread
  have hlower := lower?_of_parse? hitems
  have hplain : ∀ found, parse? false manyExports = some found → ∀ item ∈ found, item.Plain := by
    intro found hfound item hitem name hname
    obtain rfl := Option.some.inj (hitems.symm.trans hfound)
    exact List.all_eq_true.mp (List.all_eq_true.mp hall item hitem) name hname
  obtain ⟨found, hfound, hcode, -, hshares, -⟩ := lower?_shares_exports hlower hplain
  exact ⟨_, found, hlower, hfound, hcode, hshares⟩

end AssetBundler.Script
