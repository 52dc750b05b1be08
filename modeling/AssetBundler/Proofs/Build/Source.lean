/-
  AssetBundler.Proofs.Build.Source
  ────────────────────────────────
  **WHAT A RECORD KEEPS OF ITS FILE.**

  Besides the artifact of its module a record keeps the extension in lower
  case and, for scripts in development, the text of the file.  Both depend on
  the module, its content and the mode alone, which no action changes:

    • `GraphInput.Keeps` — what a record keeps,
    • `GraphM.Keeping` — actions that keep the mode and make such records,
    • `Graph.keeps_of_build` — the records of a graph.
-/
import AssetBundler.Proofs.Build.Visit

namespace AssetBundler

/-- A record keeps of the file of its module what a build for the mode keeps. -/
def GraphInput.Keeps (input : GraphInput) (mode : Mode) (r : ModuleRecord) : Prop :=
  r.contentType = ContentType.lowered r.identity.extension
    ∧ ∃ content, input.files.read r.identity.path = .ok content
      ∧ r.source? = Graph.sourceOf mode r.identity content r.artifact

/-! ## §1. Actions. -/

namespace GraphM

variable {α β : Type} {input : GraphInput}

/-- **The action keeps the mode**, and every record that it makes keeps what a build for this mode
keeps. -/
def Keeping (input : GraphInput) (action : GraphM α) : Prop :=
  ∀ signal s st, Ensures signal s st action
    (fun _ st' s' => s'.mode = s.mode
      ∧ ∀ r ∈ st'.records, r ∈ st.records ∨ input.Keeps s.mode r)
    (fun _ _ => True)

/-- An action that makes no records and only looks at the modules found, or changes them. -/
theorem keeping_ofState (f : GraphState → α × GraphState) (hf : ∀ st, (f st).2.records = st.records) :
    Keeping input (fun st => pure (f st)) :=
  fun _ _ st => ⟨rfl, fun _ hr => Or.inl (hf st ▸ hr)⟩

theorem keeping_pure (a : α) : Keeping input (pure a : GraphM α) :=
  keeping_ofState (fun st => (a, st)) fun _ => rfl

theorem keeping_modify {f : GraphState → GraphState} (hf : ∀ st, (f st).records = st.records) :
    Keeping input (modify f) :=
  keeping_ofState (fun st => (PUnit.unit, f st)) hf

theorem Keeping.bind {action : GraphM α} {next : α → GraphM β} (h : Keeping input action)
    (hnext : ∀ a, Keeping input (next a)) : Keeping input (action >>= next) := by
  intro signal s st
  rw [ensures_bind]
  refine (h signal s st).mono fun a st₁ s₁ hfirst => ?_
  refine (hnext a signal s₁ st₁).mono fun b st₂ s₂ hrest => ?_
  obtain ⟨hmode, hrecords⟩ := hfirst
  obtain ⟨hmode', hrecords'⟩ := hrest
  refine ⟨hmode'.trans hmode, fun r hr => ?_⟩
  rcases hrecords' r hr with hr | hr
  · exact hrecords r hr
  · exact Or.inr (hmode ▸ hr)

end GraphM

/-! ## §2. The traversal. -/

namespace Graph

open GraphM

variable {input : GraphInput} {m : Identity}

/-- The imports of a module, given a way to visit their targets. -/
theorem visitImports_keeping {visit : Identity → GraphM Unit}
    (hvisit : ∀ target, Keeping input (visit target)) :
    ∀ imports : List Import, Keeping input (visitImports input visit m imports) := by
  intro imports
  induction imports with
  | nil => exact keeping_pure []
  | cons i rest ih =>
      intro signal s st
      simp only [visitImports, ensures_bind, ensures_lift, BuildM.ensures_ofExcept, implies_true,
        and_true]
      intro target _
      have hrest : Keeping input (visitImports input visit m rest >>= fun dependencies =>
          pure (⟨i.specifier, i.kind, target⟩ :: dependencies)) :=
        ih.bind fun _ => keeping_pure _
      -- either kind of import goes on in the same way
      split
      next => exact (hvisit target).bind (fun _ => hrest) signal s st
      next =>
        refine (keeping_modify fun st => ?_).bind (fun _ => hrest) signal s st
        split <;> rfl

/-- **A new module** gets a record that keeps what the mode says. -/
theorem visitNew_keeping {visit : Identity → GraphM Unit}
    (hvisit : ∀ target, Keeping input (visit target)) : Keeping input (visitNew input visit m) := by
  intro signal s st
  simp only [visitNew, ensures_bind, ensures_lift, BuildM.ensures_check, readModule_ensures,
    artifactOf_ensures, BuildM.ensures_mode, ensures_modify, implies_true, and_true]
  intro _ content hread a _
  refine (visitImports_keeping hvisit a.imports signal _ st).mono fun dependencies st' s' h => ?_
  obtain ⟨hmode, hrecords⟩ := h
  refine ⟨hmode, forall_mem_append_singleton.mpr ⟨hrecords, Or.inr ⟨rfl, content, hread, ?_⟩⟩⟩
  exact congrArg (fun mode => sourceOf mode m content a) hmode

/-- **Visiting a module**, whatever the bound. -/
theorem visit_keeping :
    ∀ (fuel : Nat) (path : List Identity) (m : Identity), Keeping input (visit input fuel path m) := by
  intro fuel
  induction fuel with
  | zero =>
      intro path m signal s st
      simp only [visit, ensures_lift, BuildM.ensures_fail]
  | succ fuel ih =>
      intro path m signal s st
      simp only [visit, ensures_bind, isRecorded_ensures]
      split
      next => exact keeping_pure () signal s st
      next =>
        split
        next => simp only [ensures_lift, BuildM.ensures_fail]
        next => exact visitNew_keeping (ih (m :: path)) signal s st

theorem visitEntries_keeping :
    ∀ entries : List (String × Identity), Keeping input (visitEntries input entries) := by
  intro entries
  induction entries with
  | nil => exact keeping_pure ()
  | cons e rest ih =>
      refine (keeping_modify fun st => ?_).bind fun _ => ?_
      · split <;> rfl
      · exact (visit_keeping (fuelFor input) [] e.2).bind fun _ => ih

theorem visitPending_keeping : ∀ fuel : Nat, Keeping input (visitPending input fuel) := by
  intro fuel
  induction fuel with
  | zero => exact keeping_pure []
  | succ fuel ih =>
      intro signal s st
      simp only [visitPending, ensures_bind, ensures_get]
      split
      next => exact keeping_pure [] signal s st
      next m rest _ =>
        have htaken : Keeping input
            (modify fun st : GraphState => { st with pendingRoots := rest }) :=
          keeping_modify fun _ => rfl
        refine htaken.bind (fun _ => ?_) signal s st
        exact (visit_keeping (fuelFor input) [] m).bind fun _ => ih.bind fun _ => keeping_pure _

/-- **The records of a graph** keep what the mode of the build says, and the mode stays. -/
theorem build_keeps (entries : List (String × Identity)) (signal : CancelSignal) (s : Session) :
    BuildM.Ensures signal s (build input entries)
      (fun g s' => s'.mode = s.mode ∧ ∀ r ∈ g.records, input.Keeps s.mode r) (fun _ _ => True) := by
  have hwalk : Keeping input (visitEntries input entries >>= fun _ =>
      visitPending input (fuelFor input)) :=
    (visitEntries_keeping entries).bind fun _ => visitPending_keeping _
  simp only [build, BuildM.ensures_bind]
  refine BuildM.Ensures.mono (hwalk signal s {}) ?_ (fun _ _ h => h)
  rintro ⟨roots, st⟩ s' ⟨hmode, hrecords⟩
  exact ⟨hmode, fun r hr => (hrecords r hr).resolve_left List.not_mem_nil⟩

end Graph

end AssetBundler
