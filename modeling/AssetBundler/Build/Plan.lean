/-
  AssetBundler.Build.Plan
  ────────────────────────────────
  **CHUNKS AND GROUPS.**

  Every entry and every target of a deferred import is the root of a group.
  A root stays in its own group; any other module goes by the set of roots
  that reach it: into the group of the only one, or into a group shared by
  the modules of that set.  A group yields a script chunk and a stylesheet
  chunk, as far as it has modules for them.
-/
import AssetBundler.Build.Graph

namespace AssetBundler

/-! ## §1. Plans. -/

/-- What a chunk holds. -/
inductive ChunkKind where
  | script | stylesheet
  deriving DecidableEq, Repr

namespace ChunkKind

/-- The extension of a chunk file. -/
def extension : ChunkKind → String
  | script => "js"
  | stylesheet => "css"

/-- The directory of chunk files. -/
def directory : ChunkKind → String
  | script => "assets/js"
  | stylesheet => "assets/css"

end ChunkKind

/-- Why a chunk exists. -/
inductive ChunkRole where
  /-- For an entry; it is loaded with the page. -/
  | entry
  /-- For the target of a deferred import; it is loaded on demand. -/
  | async
  /-- For modules that several roots reach. -/
  | shared
  deriving DecidableEq, Repr

/-- Modules that become one file. -/
structure Chunk where
  name : String
  kind : ChunkKind
  role : ChunkRole
  /-- The modules in the order of the graph. -/
  modules : List Identity
  /-- The module that runs when the chunk is loaded. -/
  entryModule? : Option Identity

/-- Modules that are loaded together. -/
structure ChunkGroup where
  name : String
  role : ChunkRole
  root? : Option Identity
  /-- The index of the script chunk, if there is one. -/
  script? : Option Nat := none
  /-- The index of the stylesheet chunk, if there is one. -/
  stylesheet? : Option Nat := none
  /-- The groups to be loaded before, each after those that it needs. -/
  loadOrder : List Nat := []

/-- How a graph is divided. -/
structure ChunkPlan where
  chunks : List Chunk
  groups : List ChunkGroup

namespace ChunkPlan

/-- The groups to be loaded for a group, itself the last. -/
def loadSequence (plan : ChunkPlan) (group : Nat) : List Nat :=
  match plan.groups[group]? with
  | some g => g.loadOrder ++ [group]
  | none => []

/-- The index of the chunk of a group. -/
def chunkIndex? (plan : ChunkPlan) (group : Nat) (kind : ChunkKind) : Option Nat :=
  plan.groups[group]?.bind fun g => match kind with
    | .script => g.script?
    | .stylesheet => g.stylesheet?

/-- The chunk of a group. -/
def chunkOf? (plan : ChunkPlan) (group : Nat) (kind : ChunkKind) : Option Chunk :=
  (plan.chunkIndex? group kind).bind fun i => plan.chunks[i]?

/-- The names of the chunks that are loaded before a group. -/
def dependenciesOf (plan : ChunkPlan) (group : Nat) (kind : ChunkKind) : List String :=
  match plan.groups[group]? with
  | some g => g.loadOrder.filterMap fun d => (plan.chunkOf? d kind).map (·.name)
  | none => []

/-- The groups of a role. -/
def groupsOf (plan : ChunkPlan) (role : ChunkRole) : List Nat :=
  (List.range plan.groups.length).filter fun i =>
    plan.groups[i]?.any fun g => g.role = role

end ChunkPlan

namespace Plan

/-! ## §2. Roots. -/

/-- A name that is not taken: the base itself, or the base with the first number that is free. -/
def freeName (taken : List String) (base : String) : String :=
  let numbered := (List.range taken.length).map fun n => base ++ "~" ++ toString (n + 1)
  ((base :: numbered).find? fun name => !taken.contains name).getD base

/-- Groups with one more, under a free name. -/
def addGroup (groups : List ChunkGroup) (base : String) (role : ChunkRole)
    (root? : Option Identity) : List ChunkGroup :=
  groups ++ [{ name := freeName (groups.map (·.name)) base, role, root? }]

/-- The roots of groups, in order. -/
def rootsOf (groups : List ChunkGroup) : List Identity :=
  groups.filterMap (·.root?)

/-- The groups of the entries and of the targets of deferred imports; a target that is a root already
has no group of its own. -/
def rootGroups (g : ModuleGraph) : List ChunkGroup :=
  let entries := g.entries.foldl (fun groups (name, m) =>
    addGroup groups name .entry (some m)) []
  g.deferredRoots.foldl (fun groups m =>
    if (rootsOf groups).contains m then groups
    else addGroup groups m.stem .async (some m)) entries

/-! ## §3. Reachability. -/

/-- The targets that a module loads together with itself. -/
def syncTargets (g : ModuleGraph) (m : Identity) : List Identity :=
  match g.get? m with
  | some r => r.syncDependencies.map (·.target)
  | none => []

/-- Some modules and those that they load together with themselves, up to a number of links away. -/
def reachable (g : ModuleGraph) : Nat → List Identity → List Identity
  | 0, found => found
  | n + 1, found =>
    reachable g n (firstOccurrences (found ++ found.flatMap (syncTargets g)))

/-- The modules that are loaded together with a root. -/
def reachedFrom (g : ModuleGraph) (root : Identity) : List Identity :=
  reachable g g.records.length [root]

/-- The indices of the roots that reach a module, in order. -/
def rootSet (reached : List (List Identity)) (m : Identity) : List Nat :=
  (List.range reached.length).filter fun i => reached[i]?.any fun found => found.contains m

/-! ## §4. Groups of modules. -/

/-- The order of sets of numbers, given as ascending lists. -/
def setBefore : List Nat → List Nat → Bool
  | _, [] => false
  | [], _ :: _ => true
  | a :: as, b :: bs => a < b || (a == b && setBefore as bs)

/-- Modules by the sets of roots that reach them, the sets in order. -/
abbrev SharedModules := List (List Nat × List Identity)

/-- Adds a module to those of its set. -/
def addShared (set : List Nat) (m : Identity) : SharedModules → SharedModules
  | [] => [(set, [m])]
  | (s, ms) :: rest =>
    if s == set then (s, ms ++ [m]) :: rest
    else if setBefore set s then (set, [m]) :: (s, ms) :: rest
    else (s, ms) :: addShared set m rest

/-- Modules with the indices of their groups. -/
abbrev GroupIndex := List (Identity × Nat)

/-- The group of a module that is a root or reached by one root alone. -/
def ownGroup? (roots : List Identity) (reached : List (List Identity)) (m : Identity) :
    Option Nat :=
  match roots.idxOf? m with
  | some i => some i
  | none =>
    match rootSet reached m with
    | [only] => some only
    | _ => none

/-- The modules that several roots reach, by their sets. -/
def sharedModules (g : ModuleGraph) (roots : List Identity) (reached : List (List Identity)) :
    SharedModules :=
  (g.order.filter fun m => (ownGroup? roots reached m).isNone).foldl (fun shared m =>
    match rootSet reached m with
    | [] => shared
    | set => addShared set m shared) []

/-- The groups of some modules, numbered from a first index on. -/
def indexShared (first : Nat) : SharedModules → GroupIndex
  | [] => []
  | (_, ms) :: rest => ms.map (fun m => (m, first)) ++ indexShared (first + 1) rest

/-! ## §5. Load order. -/

/-- A set of numbers, as an ascending list, with one more. -/
def insertNumber (n : Nat) : List Nat → List Nat
  | [] => [n]
  | m :: rest =>
    if n < m then n :: m :: rest else if n = m then m :: rest else m :: insertNumber n rest

/-- The groups that a group loads modules from, in order. -/
def directDependencies (g : ModuleGraph) (index : GroupIndex) (group : Nat) : List Nat :=
  (g.records.filter fun r => index.lookup r.identity == some group).foldl (fun found r =>
    r.syncDependencies.foldl (fun found d =>
      match index.lookup d.target with
      | some other => if other = group then found else insertNumber other found
      | none => found) found) []

/-- Groups met so far, and the groups to be loaded in order. -/
abbrev LoadState := List Nat × List Nat

/-- Puts what some groups need, and then each of them, into the order; groups met before are passed
over. `fuel` exceeds the number of groups. -/
def loadAfter (direct : Nat → List Nat) : Nat → List Nat → LoadState → LoadState
  | 0, _, s => s
  | fuel + 1, dependencies, s =>
    dependencies.foldl (fun s d =>
      if s.1.contains d then s
      else
        let s := loadAfter direct fuel (direct d) (s.1 ++ [d], s.2)
        (s.1, s.2 ++ [d])) s

/-- The groups to be loaded before a group. -/
def loadOrder (direct : Nat → List Nat) (count group : Nat) : List Nat :=
  (loadAfter direct (count + 1) (direct group) ([group], [])).2

/-! ## §6. Chunks. -/

/-- The modules that scripts import. -/
def scriptImported (g : ModuleGraph) : List Identity :=
  (g.records.flatMap (·.dependencies)).filterMap fun d =>
    if d.kind = .static || d.kind = .deferred then some d.target else none

/-- The kind of chunk for a module: extracted stylesheets, and assets that no script imports, need no
script. -/
def chunkKindOf (imported : List Identity) (r : ModuleRecord) : ChunkKind :=
  match r.artifact with
  | .stylesheet .. => .stylesheet
  | .asset .. => if imported.contains r.identity then .script else .stylesheet
  | _ => .script

/-- The modules of a group for one kind of chunk. -/
def members (g : ModuleGraph) (index : GroupIndex) (imported : List Identity) (group : Nat)
    (kind : ChunkKind) : List Identity :=
  (g.records.filter fun r =>
    index.lookup r.identity == some group && chunkKindOf imported r = kind).map (·.identity)

/-- The module that runs when the script chunk of a group is loaded. -/
def entryModule? (group : ChunkGroup) (scripts : List Identity) : Option Identity :=
  if group.role = .entry then group.root?.filter fun m => scripts.contains m else none

/-- A plan with the chunks of one more group. -/
def addChunks (plan : ChunkPlan) (group : ChunkGroup) (scripts stylesheets : List Identity) :
    ChunkPlan :=
  let chunk (kind : ChunkKind) (modules : List Identity) (entryModule? : Option Identity) :
      Chunk :=
    { name := group.name, kind, role := group.role, modules, entryModule? }
  let first := plan.chunks.length
  let script := if scripts.isEmpty then []
    else [chunk .script scripts (entryModule? group scripts)]
  let stylesheet := if stylesheets.isEmpty then [] else [chunk .stylesheet stylesheets none]
  let group := { group with
    script? := if scripts.isEmpty then none else some first
    stylesheet? := if stylesheets.isEmpty then none else some (first + script.length) }
  { chunks := plan.chunks ++ script ++ stylesheet, groups := plan.groups ++ [group] }

/-- The groups of a graph, without their chunks, and the group of every module. -/
def grouping (g : ModuleGraph) : List ChunkGroup × GroupIndex :=
  let groups := rootGroups g
  let roots := rootsOf groups
  let reached := roots.map (reachedFrom g)
  let shared := sharedModules g roots reached
  let own := g.order.filterMap fun m => (ownGroup? roots reached m).map fun i => (m, i)
  (shared.foldl (fun groups _ => addGroup groups "common" .shared none) groups,
    own ++ indexShared groups.length shared)

/-- Adds the chunks of groups, of which the first has a given index. -/
def assemble (g : ModuleGraph) (index : GroupIndex) (count : Nat) :
    Nat → List ChunkGroup → ChunkPlan → ChunkPlan
  | _, [], plan => plan
  | i, group :: rest, plan =>
    let imported := scriptImported g
    let group := { group with loadOrder := loadOrder (directDependencies g index) count i }
    assemble g index count (i + 1) rest
      (addChunks plan group (members g index imported i .script)
        (members g index imported i .stylesheet))

end Plan

/-- Divides a graph into groups and chunks. -/
def ModuleGraph.split (g : ModuleGraph) : ChunkPlan :=
  let (groups, index) := Plan.grouping g
  Plan.assemble g index groups.length 0 groups ⟨[], []⟩

end AssetBundler
