/-
  AssetBundler.Proofs.Script.Interop
  ────────────────────────────────
  **WHAT THE GENERATED STATEMENTS DO.**

  Generated statements read members of objects, run modules, set variables
  and assign exports; a `World` gives what they meet there, whatever values
  it has.  So run, an import binds what it names, and an export from another
  module shares what it names.  The default export of a module has two
  meanings, though: an import of it looks whether the module is marked and
  takes the whole module when it is not, a member called `default` is taken
  as it stands:

    • `runAll_importFrom`, `runAll_exportFrom` — what declarations bind and
      share,
    • `default_forms_agree_iff` — for which modules all forms of an import
      of the default agree.
-/
import AssetBundler.Proofs.Script.Shared
import Mathlib.Logic.Function.Basic

namespace AssetBundler.Script

/-! ## §1. Running generated statements. -/

/-- What generated statements meet when they run. -/
structure World (V : Type) where
  /-- What `require` returns for a specifier. -/
  require : String → V
  /-- The value of a member. -/
  member : V → String → V
  /-- The names that a loop over an object goes through. -/
  keys : V → List String
  /-- The value counts as true. -/
  truthy : V → Bool

/-- The variables and the exports of a module that is running. -/
structure Frame (V : Type) where
  bound : String → V
  exports : String → Option V

variable {V : Type}

namespace Frame

/-- Sets a variable. -/
def bind (frame : Frame V) (name : String) (value : V) : Frame V :=
  { frame with bound := Function.update frame.bound name value }

/-- Assigns an export. -/
def share (frame : Frame V) (name : String) (value : V) : Frame V :=
  { frame with exports := Function.update frame.exports name (some value) }

@[simp] theorem bound_bind (frame : Frame V) (name : String) (value : V) :
    (frame.bind name value).bound = Function.update frame.bound name value := rfl

@[simp] theorem bound_share (frame : Frame V) (name : String) (value : V) :
    (frame.share name value).bound = frame.bound := rfl

@[simp] theorem exports_share (frame : Frame V) (name : String) (value : V) :
    (frame.share name value).exports = Function.update frame.exports name (some value) := rfl

end Frame

namespace World

variable (world : World V)

/-- What an import of the default export takes of a module: the member of that name when the module is
marked, and the module itself when it is not. -/
def defaultOf (m : V) : V :=
  if world.truthy (world.member m "__esModule") then world.member m "default" else m

/-- The value of what a generated statement reads. -/
def eval (frame : Frame V) : Value → V
  | .module specifier => world.require specifier
  | .var name => frame.bound name
  | .member holder name => world.member (frame.bound holder) name
  | .interop holder => world.defaultOf (frame.bound holder)

/-- Assigns an export under a name unless there is one, as a statement for all exports does. -/
def copy (m : V) (frame : Frame V) (key : String) : Frame V :=
  if key ≠ "default" ∧ frame.exports key = none then frame.share key (world.member m key) else frame

/-- Runs a generated statement; `next` is the value of the expression behind it. -/
def run (next : V) (frame : Frame V) : Generated → Frame V
  | .load _ => frame
  | .bind name value => frame.bind name (world.eval frame value)
  | .share name value => frame.share name (world.eval frame value)
  | .shareAll specifier =>
    (world.keys (world.require specifier)).foldl (world.copy (world.require specifier)) frame
  | .shareNext => frame.share "default" next

/-- Runs some generated statements. -/
def runAll (next : V) (frame : Frame V) (written : List Generated) : Frame V :=
  written.foldl (world.run next) frame

@[simp] theorem runAll_cons (next : V) (frame : Frame V) (first : Generated) (rest : List Generated) :
    world.runAll next frame (first :: rest) = world.runAll next (world.run next frame first) rest := rfl

/-- What an import takes of a module. -/
def taken (m : V) : ImportBinding → V
  | .member imported _ => world.member m imported.text
  | .default _ => world.defaultOf m
  | .all _ => m

theorem eval_value (frame : Frame V) (holder : String) (b : ImportBinding) :
    world.eval frame (b.value holder) = world.taken (frame.bound holder) b := by
  cases b <;> rfl

/-! ## §2. What declarations bind and share. -/

variable {world}

/-- A variable that no statement binds keeps its value. -/
theorem bound_runAll {next : V} {holder x : String} :
    ∀ {bindings : List ImportBinding} {frame : Frame V},
    (∀ b ∈ bindings, b.name.text ≠ x) →
      (world.runAll next frame
        (bindings.map fun b => .bind b.name.text (b.value holder))).bound x = frame.bound x
  | [], _, _ => rfl
  | b :: bindings, frame, h => by
    obtain ⟨hb, hrest⟩ := List.forall_mem_cons.mp h
    rw [List.map_cons, runAll_cons, bound_runAll hrest]
    simp [run, hb.symm]

/-- Every import of a list is bound to what it takes of the module in a variable. -/
theorem runAll_bindings {next m : V} {holder : String} :
    ∀ {bindings : List ImportBinding} {frame : Frame V},
    frame.bound holder = m → (bindings.map fun b => b.name.text).Nodup →
    (∀ b ∈ bindings, b.name.text ≠ holder) → ∀ b ∈ bindings,
      (world.runAll next frame
        (bindings.map fun b => .bind b.name.text (b.value holder))).bound b.name.text = world.taken m b
  | first :: rest, frame, hm, hnodup, hholder, b, hb => by
    obtain ⟨hfirst, hrest⟩ := List.nodup_cons.mp hnodup
    obtain ⟨hne, hnes⟩ := List.forall_mem_cons.mp hholder
    rw [List.map_cons, runAll_cons]
    rcases List.mem_cons.mp hb with rfl | hb
    · rw [bound_runAll fun c hc heq => hfirst (List.mem_map.mpr ⟨c, hc, heq⟩)]
      simp [run, eval_value, hm]
    · refine runAll_bindings ?_ hrest hnes b hb
      simp [run, hne.symm, hm]

/-- **What an import declaration binds**: every name gets what its import takes of the module. -/
theorem runAll_importFrom (world : World V) (next : V) (frame : Frame V) (n : Nat) (range : Range)
    (specifier : String)
    (bindings : List ImportBinding) (hnodup : (bindings.map fun b => b.name.text).Nodup)
    (hholder : ∀ b ∈ bindings, b.name.text ≠ moduleVariable n) :
    ∀ b ∈ bindings,
      (world.runAll next frame
        ((ModuleItem.importFrom range specifier (some bindings)).inPlace n)).bound
        b.name.text = world.taken (world.require specifier) b := by
  rw [ModuleItem.inPlace, runAll_cons]
  exact runAll_bindings (by simp [run, eval]) hnodup hholder

/-- An export that no statement assigns stays as it is. -/
theorem exports_runAll {next : V} {holder x : String} :
    ∀ {members : List ExportMember} {frame : Frame V},
    (∀ m ∈ members, m.exported.text ≠ x) →
      (world.runAll next frame
        (members.map fun m => .share m.exported.text (.member holder m.source.text))).exports x
          = frame.exports x
  | [], _, _ => rfl
  | m :: members, frame, h => by
    obtain ⟨hm, hrest⟩ := List.forall_mem_cons.mp h
    rw [List.map_cons, runAll_cons, exports_runAll hrest]
    simp [run, hm.symm]

/-- Every export of a list is assigned the member of the module in a variable. -/
theorem runAll_members {next module : V} {holder : String} :
    ∀ {members : List ExportMember} {frame : Frame V},
    frame.bound holder = module → (members.map fun m => m.exported.text).Nodup → ∀ m ∈ members,
      (world.runAll next frame
        (members.map fun m => .share m.exported.text (.member holder m.source.text))).exports
          m.exported.text
          = some (world.member module m.source.text)
  | first :: rest, frame, hmodule, hnodup, m, hm => by
    obtain ⟨hfirst, hrest⟩ := List.nodup_cons.mp hnodup
    rw [List.map_cons, runAll_cons]
    rcases List.mem_cons.mp hm with rfl | hm
    · rw [exports_runAll fun c hc heq => hfirst (List.mem_map.mpr ⟨c, hc, heq⟩)]
      simp [run, eval, hmodule]
    · exact runAll_members (by simpa [run] using hmodule) hrest m hm

/-- **What an export from another module shares**: under every name the member that it names. -/
theorem runAll_exportFrom (world : World V) (next : V) (frame : Frame V) (n : Nat) (range : Range)
    (specifier : String)
    (members : List ExportMember) (hnodup : (members.map fun m => m.exported.text).Nodup) :
    ∀ m ∈ members,
      (world.runAll next frame ((ModuleItem.exportFrom range specifier members).inPlace n)).exports
        m.exported.text = some (world.member (world.require specifier) m.source.text) := by
  rw [ModuleItem.inPlace, runAll_cons]
  exact runAll_members (by simp [run, eval]) hnodup

end World

/-! ## §3. The forms of a default import. -/

/-- **The forms of a default import.** An import and an export of the member `default` always give the
same value.  An import of the default export gives that value too just when the module is marked or
is its own default export. -/
theorem default_forms_agree_iff (world : World V) (next : V) (frame : Frame V) (range : Range)
    (specifier : String)
    (imported exported : ExportName) (d : Name) (k l n : Nat) (himported : imported.text = "default")
    (hk : d.text ≠ moduleVariable k) (hl : d.text ≠ moduleVariable l) :
    let module := world.require specifier
    let first := world.runAll next frame
      ((ModuleItem.importFrom range specifier (some [.default d])).inPlace k)
    let second :=
      world.runAll next frame ((ModuleItem.importFrom range specifier
        (some [.member imported d])).inPlace l)
    let third := world.runAll next frame
      ((ModuleItem.exportFrom range specifier [⟨imported, exported⟩]).inPlace n)
    third.exports exported.text = some (second.bound d.text) ∧
      (first.bound d.text = second.bound d.text ↔
        world.truthy (world.member module "__esModule") = true
          ∨ module = world.member module "default") := by
  intro module first second third
  have hfirst : first.bound d.text = world.defaultOf module :=
    World.runAll_importFrom world next frame k range specifier [.default d] (List.nodup_singleton _)
      (by simpa [ImportBinding.name] using hk) _ List.mem_cons_self
  have hsecond : second.bound d.text = world.member module imported.text :=
    World.runAll_importFrom world next frame l range specifier [.member imported d]
      (List.nodup_singleton _)
      (by simpa [ImportBinding.name] using hl) _ List.mem_cons_self
  have hthird : third.exports exported.text = some (world.member module imported.text) :=
    World.runAll_exportFrom world next frame n range specifier [⟨imported, exported⟩]
      (List.nodup_singleton _) _
      List.mem_cons_self
  rw [hfirst, hsecond, hthird, himported]
  refine ⟨rfl, ?_⟩
  unfold World.defaultOf
  cases world.truthy (world.member module "__esModule") <;> simp

/-- A world of two values: a module without members, and the value of all members. -/
def bareWorld : World Bool where
  require _ := true
  member _ _ := false
  keys _ := []
  truthy value := value

/-- A frame in which nothing has run. -/
def bareFrame : Frame Bool where
  bound _ := false
  exports _ := none

/-- The name of a variable. -/
def nameD : Name := ⟨['d'], by decide +kernel⟩

/-- The forms do not agree in a world of modules without members. -/
theorem bareWorld_forms :
    let named := ExportName.quoted "default"
    let first := bareWorld.runAll false bareFrame
      ((ModuleItem.importFrom ⟨0, 0⟩ "c" (some [.default nameD])).inPlace 1)
    let second :=
      bareWorld.runAll false bareFrame
        ((ModuleItem.importFrom ⟨0, 0⟩ "c" (some [.member named nameD])).inPlace 2)
    let third := bareWorld.runAll false bareFrame
      ((ModuleItem.exportFrom ⟨0, 0⟩ "c" [⟨named, named⟩]).inPlace 3)
    "d" ≠ moduleVariable 1 ∧ "d" ≠ moduleVariable 2 ∧
      third.exports "default" = some (second.bound "d") ∧ first.bound "d" ≠ second.bound "d" := by
  intro named first second third
  have hd : nameD.text = "d" := rfl
  have hk : nameD.text ≠ moduleVariable 1 := by decide
  have hl : nameD.text ≠ moduleVariable 2 := by decide
  obtain ⟨hshared, hagree⟩ :=
    default_forms_agree_iff bareWorld false bareFrame ⟨0, 0⟩ "c" named named nameD 1 2 3 rfl hk hl
  refine ⟨hd ▸ hk, hd ▸ hl, hshared, fun heq => ?_⟩
  simpa [bareWorld] using hagree.mp heq

/-- The three forms of a default import. -/
def threeForms : List Char :=
  "import d from 'c';import {default as e} from 'c';export {default as f} from 'c'".toList

/-- Of a module without members the first takes the module, and the others what it lacks. -/
theorem threeForms_differ : ∃ items, parse? false threeForms = some items ∧
    let frame := bareWorld.runAll false bareFrame
      ((modulePieces threeForms items).flatMap Piece.statements)
    frame.bound "d" = true ∧ frame.bound "e" = false ∧ frame.exports "f" = some false := by
  have hrun : (parse? false threeForms).any (fun items =>
      let frame := bareWorld.runAll false bareFrame
        ((modulePieces threeForms items).flatMap Piece.statements)
      frame.bound "d" == true && frame.bound "e" == false && frame.exports "f" == some false)
        = true := by
    decide +kernel
  obtain ⟨items, hitems, hrun⟩ := (Option.any_eq_true _ _).mp hrun
  simp only [Bool.and_eq_true, beq_iff_eq] at hrun
  exact ⟨items, hitems, hrun.1.1, hrun.1.2, hrun.2⟩

end AssetBundler.Script
