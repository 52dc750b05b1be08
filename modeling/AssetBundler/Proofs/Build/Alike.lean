/-
  AssetBundler.Proofs.Build.Alike
  ────────────────────────────────
  **TWO GRAPHS OF THE SAME IMPORTS.**

  Two inputs may make different artifacts of the same modules and still import
  the same.  Their graphs then record the same modules in the same order, with
  the same links, and are divided into the same groups:

    • `GraphInput.Alike.mem_order` — the same modules,
    • `GraphInput.Alike.links_eq` — the same links,
    • `GraphInput.Alike.renames` — the same shape,
    • `Bundler.alike_of_create` — the default rules in the two modes.
-/
import AssetBundler.Proofs.Build.Trace
import AssetBundler.Proofs.Plan.Rename
import AssetBundler.Proofs.Transform.Modes

namespace AssetBundler

open Relation

/-! ## §1. Inputs. -/

/-- **The two inputs import the same**: they resolve specifiers in the same files, and whenever both make
an artifact of a module, the artifacts have the same imports. -/
structure GraphInput.Alike (input input' : GraphInput) : Prop where
  config : input'.config = input.config
  files : input'.files = input.files
  imports : ∀ m a a', input.Makes m a → input'.Makes m a' →
    List.Forall₂ Import.Alike a.imports a'.imports

namespace GraphInput.Alike

variable {input input' : GraphInput} {entries : List (String × Identity)} {g g' : ModuleGraph}
  {m target : Identity}

theorem symm (h : input.Alike input') : input'.Alike input where
  config := h.config.symm
  files := h.files.symm
  imports m a a' ha ha' := (h.imports m a' a ha' ha).flip.imp fun _ _ hi => ⟨hi.1.symm, hi.2.symm⟩

theorem resolves (h : input.Alike input') {i i' : Import} (hi : i.Alike i')
    (htarget : input.Resolves m i target) : input'.Resolves m i' target := by
  unfold Resolves at *
  rw [h.config, h.files, hi.1]
  exact htarget

/-- What is recorded in the one graph is recorded in the other. -/
theorem mem_order_of_mem (h : input.Alike input') (hg : input.Complete entries g)
    (hg' : input'.Complete entries g') (hm : m ∈ g.order) : m ∈ g'.order := by
  -- along the imports from the entries on, every module is recorded in the other graph
  refine Reachable.induction (fun e he => ?_) (fun m target hm hlink => ?_) (hg.mem_order_iff.mp hm)
  · exact hg'.entriesRecorded e (hg'.entries_eq ▸ he)
  · obtain ⟨a, ha, i, hi, htarget⟩ := hlink
    obtain ⟨r', hr', rfl, _⟩ := ModuleGraph.exists_record_of_mem_order hm
    have hmakes := (hg'.described r' hr').makes
    obtain ⟨i', hi', halike⟩ := exists_mem_right_of_forall₂ (h.imports _ _ _ ha hmakes) i hi
    obtain ⟨r, hget, d, hd, _, rfl⟩ :=
      hg'.exists_dependency (ModuleGraph.mem_order_of_mem hr') hmakes hi' (h.resolves halike htarget)
    exact hg'.closed r (ModuleGraph.mem_of_get? hget).1 d hd

theorem mem_order (h : input.Alike input') (hg : input.Complete entries g)
    (hg' : input'.Complete entries g') : m ∈ g.order ↔ m ∈ g'.order :=
  ⟨h.mem_order_of_mem hg hg', h.symm.mem_order_of_mem hg' hg⟩

/-- The records of a module have the same links. -/
theorem links_of_records (h : input.Alike input') {r r' : ModuleRecord} (hr : input.Describes r)
    (hr' : input'.Describes r') (hsame : r'.identity = r.identity) : r'.links = r.links := by
  have himports := h.imports _ _ _ hr.makes (hsame ▸ hr'.makes)
  have hfollows := hr.follows
  have hfollows' := hr'.follows
  rw [hsame] at hfollows'
  unfold ModuleRecord.links
  generalize r.artifact.imports = is at himports hfollows
  generalize r'.artifact.imports = is' at himports hfollows'
  generalize r.dependencies = ds at hfollows
  generalize r'.dependencies = ds' at hfollows'
  induction himports generalizing ds ds' with
  | nil =>
      cases hfollows
      cases hfollows'
      rfl
  | cons hi _ ih =>
      cases hfollows with
      | cons hd hrest =>
          cases hfollows' with
          | cons hd' hrest' =>
              -- both imports lead to one target, at once or later
              have htarget : _ = _ := Except.ok.inj (hd'.2.2.symm.trans (h.resolves hi hd.2.2))
              have hsync : _ = _ := hd'.isSync_eq.trans (hi.2.trans hd.isSync_eq.symm)
              rw [List.map_cons, List.map_cons, ih _ hrest _ hrest', Dependency.link,
                Dependency.link, htarget, hsync]

/-- **Both graphs have the same links.** -/
theorem links_eq (h : input.Alike input') (hg : input.Complete entries g)
    (hg' : input'.Complete entries g') : g'.links = g.links := by
  funext m
  unfold ModuleGraph.links
  cases hr : g.get? m with
  | none =>
      have hnone : g'.get? m = none := by
        rw [← Option.not_isSome_iff_eq_none, ModuleGraph.get?_isSome_iff, ← h.mem_order hg hg',
          ← ModuleGraph.get?_isSome_iff, hr]
        simp
      rw [hnone]
  | some r =>
      obtain ⟨hmem, rfl⟩ := ModuleGraph.mem_of_get? hr
      have horder := (h.mem_order hg hg').mp (ModuleGraph.mem_order_of_mem hmem)
      obtain ⟨r', hr', hidentity, hget⟩ := ModuleGraph.exists_record_of_mem_order horder
      rw [hget]
      exact h.links_of_records (hg.described r hmem) (hg'.described r' hr') hidentity

/-- **Both graphs have the same shape**, when they are what two traversals give. -/
theorem renames (h : input.Alike input') {signal signal' : CancelSignal} {s s' : Session}
    (hbuild : ((Graph.build input entries).exec signal s).1 = .ok g)
    (hbuild' : ((Graph.build input' entries).exec signal' s').1 = .ok g') : g.Renames id g' := by
  have hg := Graph.complete_of_build hbuild
  have hg' := Graph.complete_of_build hbuild'
  have hlinks := h.links_eq hg hg'
  have hentries : g'.entries = g.entries := hg'.entries_eq.trans hg.entries_eq.symm
  -- the same links give the same walk
  have hwalked := Graph.walked_of_build hbuild'
  rw [hlinks, hentries] at hwalked
  obtain ⟨horder, hroots⟩ := (Graph.walked_of_build hbuild).unique hwalked
  refine ⟨Function.injective_id, ?_, by simp [hentries], by simp [hroots], fun _ _ => rfl⟩
  have hidentity : List.Forall₂ (fun r r' => r'.identity = r.identity) g.records g'.records := by
    have hmaps : List.Forall₂ (fun a b => a = b) (g.records.map (·.identity))
        (g'.records.map (·.identity)) := by
      rw [List.forall₂_eq_eq_eq]
      exact horder
    exact (List.forall₂_map_right_iff.mp (List.forall₂_map_left_iff.mp hmaps)).imp
      fun _ _ heq => heq.symm
  -- a record and the other of its module have the same links
  have hmem : ∀ (rs rs' : List ModuleRecord), (∀ r ∈ rs, r ∈ g.records) →
      (∀ r' ∈ rs', r' ∈ g'.records) →
      List.Forall₂ (fun r r' => r'.identity = r.identity) rs rs' →
      List.Forall₂ (fun r r' => r'.identity = id r.identity
        ∧ r'.syncTargets = r.syncTargets.map id) rs rs' := by
    intro rs rs' hrs hrs' hall
    induction hall with
    | nil => exact .nil
    | @cons r r' _ _ hfirst _ ih =>
        obtain ⟨hr, hrest⟩ := List.forall_mem_cons.mp hrs
        obtain ⟨hr', hrest'⟩ := List.forall_mem_cons.mp hrs'
        refine .cons ⟨hfirst, ?_⟩ (ih hrest hrest')
        have hsame := h.links_of_records (hg.described r hr) (hg'.described r' hr') hfirst
        have htargets : ∀ r : ModuleRecord,
            r.syncTargets = (r.links.filter (·.isSync)).map (·.target) := by
          intro r
          simp [ModuleRecord.syncTargets, ModuleRecord.syncDependencies, ModuleRecord.links,
            List.filter_map, Function.comp_def, Dependency.link]
        rw [List.map_id, htargets, htargets, hsame]
  exact hmem _ _ (fun _ hr => hr) (fun _ hr => hr) hidentity

end GraphInput.Alike

/-! ## §2. Bundlers for the two modes. -/

/-- An action that succeeds ends with what it ends with. -/
theorem BuildM.ensures_result {α : Type} {signal : CancelSignal} {s : Session}
    (action : BuildM α) : Ensures signal s action
      (fun a _ => (action.exec signal s).1 = .ok a) (fun _ _ => True) := by
  unfold Ensures
  rcases hrun : action.exec signal s with ⟨_ | a, s'⟩
  · trivial
  · rfl

namespace Bundler

variable {config : Config} {mode : Mode} {files : FileTree} {outdir? : Option Path}
  {b bd bp : Bundler} {signal : CancelSignal} {s : Session} {g : ModuleGraph} {o : BuildOutput}

/-- The graph of a build comes from a traversal. -/
theorem exists_build_of_assemble (h : ((b.assemble files).exec signal s).1 = .ok (g, o)) :
    ∃ entries s', b.entries files = .ok entries
      ∧ ((Graph.build (b.graphInput files) entries).exec signal s').1 = .ok g := by
  have hgraph : ∀ s, BuildM.Ensures signal s (b.graph files)
      (fun g _ => ∃ entries s', b.entries files = .ok entries
        ∧ ((Graph.build (b.graphInput files) entries).exec signal s').1 = .ok g)
      (fun _ _ => True) := by
    intro s
    simp only [graph, BuildM.ensures_bind, BuildM.ensures_enter, BuildM.ensures_check,
      BuildM.ensures_ofExcept, implies_true, and_true]
    intro _ entries hentries _
    refine (BuildM.ensures_result _).mono (fun g _ hg => ?_) (fun _ _ h => h)
    exact ⟨entries, _, hentries, hg⟩
  have hassemble : BuildM.Ensures signal s (b.assemble files)
      (fun made _ => ∃ entries s', b.entries files = .ok entries
        ∧ ((Graph.build (b.graphInput files) entries).exec signal s').1 = .ok made.1)
      (fun _ _ => True) := by
    simp only [assemble, BuildM.ensures_bind]
    refine (hgraph s).mono (fun g _ hg => ?_) (fun _ _ h => h)
    simp only [BuildM.ensures_enter, BuildM.ensures_check, implies_true, and_true]
    refine fun _ => (contents_ensures g.split).mono (fun contents _ _ => ?_) (fun _ _ h => h)
    simp only [BuildM.ensures_ofExcept, BuildM.ensures_pure, implies_true, and_true]
    exact fun _ _ _ => hg
  exact hassemble.of_ok h

/-- What a bundler that has just been created starts from. -/
theorem graphInput_of_create (hb : create files config mode outdir? = .ok b) :
    ∃ table, RuleTable.compile config mode = .ok table
      ∧ b.graphInput files = { config, files, table, cache := [] } ∧ b.config = config := by
  cases htable : RuleTable.compile config mode with
  | error e =>
      unfold create at hb
      rw [htable] at hb
      cases hb
  | ok table =>
      rw [create_eq htable] at hb
      dsimp only at hb
      split at hb
      next => cases hb
      next =>
        cases hb
        exact ⟨table, rfl, rfl, rfl⟩

section

variable {outdir?' : Option Path} (hrules : config.ownRules = [])
  (himports : config.ImportsAgree files)
  (hd : create files config .development outdir? = .ok bd)
  (hp : create files config .production outdir?' = .ok bp)

include hrules himports hd hp

/-- The artifacts of a module in the two modes, with the default rules. -/
theorem twins_of_makes {m : Identity} {a a' : Artifact} (ha : (bd.graphInput files).Makes m a)
    (ha' : (bp.graphInput files).Makes m a') : RuleTable.Twins a a' := by
  obtain ⟨td, htd, hinput, _⟩ := graphInput_of_create hd
  obtain ⟨tp, htp, hinput', _⟩ := graphInput_of_create hp
  rw [hinput] at ha
  rw [hinput'] at ha'
  obtain ⟨content, hread, ha⟩ := ha
  obtain ⟨content', hread', ha'⟩ := ha'
  obtain rfl := Except.ok.inj (hread.symm.trans hread')
  exact RuleTable.transform_default hrules htd htp himports (FileTree.mem_contents_of_read hread)
    ha ha'

/-- **In the two modes modules import the same**, with the default rules. -/
theorem alike_of_create : (bd.graphInput files).Alike (bp.graphInput files) := by
  obtain ⟨_, _, hinput, _⟩ := graphInput_of_create hd
  obtain ⟨_, _, hinput', _⟩ := graphInput_of_create hp
  refine ⟨by rw [hinput, hinput'], by rw [hinput, hinput'], fun m a a' ha ha' => ?_⟩
  exact (twins_of_makes hrules himports hd hp ha ha').imports

end

end Bundler

end AssetBundler
