/-
  AssetBundler.Proofs.Build.Agreement
  ────────────────────────────────
  **TWO RUNS OF A BUILD SIDE BY SIDE.**

  A build may be told to stop, and it may use artifacts of the last build.
  Neither changes what it ends with: a run that is not stopped ends with the
  same value or error as the run that nothing stops and that has no artifacts
  to use.  What the two have recorded and how often they asked the signal may
  differ, so the relation is about results alone.

    • `BuildM.Agrees.bind`, `GraphM.Agrees.bind` — two runs agree along their
      `do` blocks,
    • `Graph.artifactOf_agrees` — the one place where the cache is read,
    • `Graph.visit_agrees` — a module and what it loads, by induction on the
      bound,
    • `Graph.build_agrees` — the whole traversal.
-/
import AssetBundler.Proofs.Build.Visit

namespace AssetBundler

variable {α β : Type} {signal : CancelSignal}

/-! ## §1. Actions of a build. -/

/-- The build has not been stopped: nothing tells it to, or it ends in another way. -/
def Uncancelled (signal : CancelSignal) (result : Except BuildError α) : Prop :=
  (∀ s, signal s = false) ∨ result ≠ .error .cancelled

namespace BuildM

/-- Unless the first action is stopped, the second ends with the same result when nothing stops it. -/
def Agrees (signal : CancelSignal) (x y : BuildM α) : Prop :=
  ∀ s s', s.mode = s'.mode → Uncancelled signal (x.exec signal s).1 →
    (y.exec .never s').1 = (x.exec signal s).1
      ∧ (x.exec signal s).2.mode = (y.exec .never s').2.mode

/-- What follows need only agree on the values that the first action can give. -/
theorem Agrees.bind_of_ok {x y : BuildM α} {f g : α → BuildM β} (h : Agrees signal x y)
    (hnext : ∀ a, (∃ s, (x.exec signal s).1 = .ok a) → Agrees signal (f a) (g a)) :
    Agrees signal (x >>= f) (y >>= g) := by
  intro s s' hmode hrun
  have hfirst := h s s' hmode
  rw [exec_bind] at hrun ⊢
  rw [exec_bind]
  rcases hx : x.exec signal s with ⟨_ | a, t⟩
  · -- an action that fails leaves its error to the whole
    rw [hx] at hrun hfirst
    obtain ⟨hresult, hmode'⟩ := hfirst (hrun.imp_right fun hne he => hne (by cases he; rfl))
    rcases hy : y.exec .never s' with ⟨r, t'⟩
    rw [hy] at hresult hmode'
    obtain rfl := hresult
    exact ⟨rfl, hmode'⟩
  · rw [hx] at hrun hfirst
    obtain ⟨hresult, hmode'⟩ := hfirst (.inr nofun)
    rcases hy : y.exec .never s' with ⟨r, t'⟩
    rw [hy] at hresult hmode'
    obtain rfl := hresult
    exact hnext a ⟨s, by rw [hx]⟩ t t' hmode' hrun

theorem Agrees.bind {x y : BuildM α} {f g : α → BuildM β} (h : Agrees signal x y)
    (hnext : ∀ a, Agrees signal (f a) (g a)) : Agrees signal (x >>= f) (y >>= g) :=
  h.bind_of_ok fun a _ => hnext a

/-- A value or an error that is there already does not depend on the run. -/
theorem ofExcept_agrees (result : Except BuildError α) :
    Agrees signal (ofExcept result) (ofExcept result) := by
  intro s s' hmode _
  cases result <;> exact ⟨rfl, hmode⟩

theorem pure_agrees (a : α) : Agrees signal (pure a) (pure a) :=
  ofExcept_agrees (.ok a)

theorem fail_agrees (e : BuildError) : Agrees signal (fail e : BuildM α) (fail e) :=
  ofExcept_agrees (.error e)

theorem check_agrees : Agrees signal check check := by
  intro s s' hmode hrun
  unfold exec check at *
  cases hstop : signal s with
  | false => exact ⟨rfl, hmode⟩
  | true =>
      simp only [hstop, if_true] at hrun
      rcases hrun with hnever | hne
      · rw [hnever s] at hstop
        cases hstop
      · exact absurd rfl hne

/-- A phase is entered by a check on a session of the same mode. -/
theorem enter_agrees (p : Phase) : Agrees signal (enter p) (enter p) :=
  fun _ _ hmode hrun => check_agrees _ _ hmode hrun

/-- What is recorded has no influence on the result. -/
theorem record_agrees (events events' : List BuildEvent) :
    Agrees signal (record events) (record events') :=
  fun _ _ hmode _ => ⟨rfl, hmode⟩

theorem mode_agrees : Agrees signal mode mode :=
  fun _ _ hmode _ => ⟨congrArg Except.ok hmode.symm, hmode⟩

end BuildM

/-! ## §2. Actions that find modules. -/

namespace GraphM

/-- Two actions that agree from any modules found so far on. -/
def Agrees (signal : CancelSignal) (x y : GraphM α) : Prop :=
  ∀ st, BuildM.Agrees signal (x.run st) (y.run st)

theorem Agrees.bind {x y : GraphM α} {f g : α → GraphM β} (h : Agrees signal x y)
    (hnext : ∀ a, Agrees signal (f a) (g a)) : Agrees signal (x >>= f) (y >>= g) := by
  intro st
  rw [StateT.run_bind, StateT.run_bind]
  exact (h st).bind fun a => hnext a.1 a.2

/-- An action that only looks at the modules found, or changes them, does so in both runs. -/
theorem ofState_agrees (f : GraphState → α × GraphState) :
    Agrees signal (fun st => pure (f st) : GraphM α) (fun st => pure (f st)) :=
  fun st => BuildM.pure_agrees (f st)

theorem pure_agrees (a : α) : Agrees signal (pure a : GraphM α) (pure a) :=
  ofState_agrees fun st => (a, st)

theorem get_agrees : Agrees signal get get :=
  ofState_agrees fun st => (st, st)

theorem modify_agrees (f : GraphState → GraphState) : Agrees signal (modify f) (modify f) :=
  ofState_agrees fun st => (PUnit.unit, f st)

theorem lift_bind_agrees {x y : BuildM α} {f g : α → GraphM β} (h : BuildM.Agrees signal x y)
    (hnext : ∀ a, (∃ s, (x.exec signal s).1 = .ok a) → Agrees signal (f a) (g a)) :
    Agrees signal (liftM x >>= f) (liftM y >>= g) := by
  intro st
  show BuildM.Agrees signal ((x >>= fun a => pure (a, st)) >>= fun a => (f a.1).run a.2)
    ((y >>= fun a => pure (a, st)) >>= fun a => (g a.1).run a.2)
  simp only [bind_assoc, pure_bind]
  exact h.bind_of_ok fun a ha => hnext a ha st

theorem lift_agrees {x y : BuildM α} (h : BuildM.Agrees signal x y) :
    Agrees signal (liftM x : GraphM α) (liftM y) :=
  fun st => h.bind fun a => BuildM.pure_agrees (a, st)

end GraphM

/-! ## §3. One module. -/

/-- The project without artifacts of a last build. -/
def GraphInput.fresh (input : GraphInput) : GraphInput :=
  { input with cache := [] }

/-- The cache says of every module, with the content it has, what its rule says. -/
def GraphInput.CacheExact (input : GraphInput) : Prop :=
  ∀ m content, input.files.read m.path = .ok content →
    ∀ a, input.cache.lookup m (Digest.ofContent content) = some a →
      (input.table.transform m content).2 = .ok a

namespace Graph

variable {input : GraphInput} {m : Identity}

/-- Reading a module has nothing to do with the cache. -/
theorem readModule_agrees :
    BuildM.Agrees signal (readModule input m) (readModule input.fresh m) := by
  show BuildM.Agrees signal (readModule input m) (readModule input m)
  unfold readModule
  refine (BuildM.record_agrees [.read m] [.read m]).bind fun _ => ?_
  cases input.files.read m.path with
  | ok content => exact BuildM.pure_agrees content
  | error e => exact BuildM.fail_agrees (.read m e)

/-- What reading a module gives is the content of its file. -/
theorem read_eq_of_readModule {content : ByteArray}
    (h : ∃ s, ((readModule input m).exec signal s).1 = .ok content) :
    input.files.read m.path = .ok content := by
  obtain ⟨s, hs⟩ := h
  have hread : BuildM.Ensures signal s (readModule input m)
      (fun c _ => input.files.read m.path = .ok c) (fun _ _ => True) := by
    rw [readModule_ensures]
    exact ⟨fun c hc => hc, fun _ _ => trivial⟩
  exact hread.of_ok hs

/-- **An artifact of the last build is what the rule would give**, when the cache is exact. -/
theorem artifactOf_agrees (hcache : input.CacheExact) {content : ByteArray}
    (hread : input.files.read m.path = .ok content) :
    BuildM.Agrees signal (artifactOf input m content (Digest.ofContent content))
      (artifactOf input.fresh m content (Digest.ofContent content)) := by
  -- without a cache the rule is always applied
  show BuildM.Agrees signal (artifactOf input m content (Digest.ofContent content))
    (BuildM.record ((input.table.transform m content).1.map (.step m)) >>= fun _ =>
      BuildM.ofExcept (input.table.transform m content).2)
  unfold artifactOf
  cases hlookup : input.cache.lookup m (Digest.ofContent content) with
  | none =>
      exact (BuildM.record_agrees _ _).bind fun _ => BuildM.ofExcept_agrees _
  | some a =>
      rw [hcache m content hread a hlookup]
      exact (BuildM.record_agrees [] _).bind fun _ => BuildM.pure_agrees a

/-- **The imports of a module**: specifiers are resolved anew in every build. -/
theorem visitImports_agrees {visit visit' : Identity → GraphM Unit}
    (hvisit : ∀ target, GraphM.Agrees signal (visit target) (visit' target)) :
    ∀ imports : List Import, GraphM.Agrees signal (visitImports input visit m imports)
      (visitImports input.fresh visit' m imports) := by
  intro imports
  induction imports with
  | nil => exact GraphM.pure_agrees []
  | cons i rest ih =>
      refine GraphM.lift_bind_agrees (BuildM.ofExcept_agrees _) fun target _ => ?_
      have hrest : GraphM.Agrees signal
          (visitImports input visit m rest >>= fun dependencies =>
            pure (⟨i.specifier, i.kind, target⟩ :: dependencies))
          (visitImports input.fresh visit' m rest >>= fun dependencies =>
            pure (⟨i.specifier, i.kind, target⟩ :: dependencies)) :=
        ih.bind fun dependencies => GraphM.pure_agrees _
      -- either kind of import goes on in the same way
      split
      next => exact (hvisit target).bind fun _ => hrest
      next => exact (GraphM.modify_agrees _).bind fun _ => hrest

/-- **A module that is new**, given two ways to visit others that agree. -/
theorem visitNew_agrees (hcache : input.CacheExact) {visit visit' : Identity → GraphM Unit}
    (hvisit : ∀ target, GraphM.Agrees signal (visit target) (visit' target)) :
    GraphM.Agrees signal (visitNew input visit m) (visitNew input.fresh visit' m) := by
  refine GraphM.lift_bind_agrees BuildM.check_agrees fun _ _ => ?_
  refine GraphM.lift_bind_agrees readModule_agrees fun content hcontent => ?_
  have hread := read_eq_of_readModule hcontent
  refine GraphM.lift_bind_agrees (artifactOf_agrees hcache hread) fun artifact _ => ?_
  refine (visitImports_agrees hvisit artifact.imports).bind fun dependencies => ?_
  refine GraphM.lift_bind_agrees BuildM.mode_agrees fun mode _ => ?_
  exact GraphM.modify_agrees _

/-! ## §4. The traversal. -/

/-- **Visiting a module.**  The induction follows the bound, which is the same in both runs. -/
theorem visit_agrees (hcache : input.CacheExact) :
    ∀ (fuel : Nat) (path : List Identity) (m : Identity),
      GraphM.Agrees signal (visit input fuel path m) (visit input.fresh fuel path m) := by
  intro fuel
  induction fuel with
  | zero =>
      intro path m
      exact GraphM.lift_agrees (BuildM.fail_agrees _)
  | succ fuel ih =>
      intro path m
      have hrecorded : GraphM.Agrees signal (isRecorded m) (isRecorded m) :=
        GraphM.get_agrees.bind fun _ => GraphM.pure_agrees _
      unfold visit
      refine hrecorded.bind fun recorded => ?_
      cases recorded with
      | true => exact GraphM.pure_agrees ()
      | false =>
          cases cycleOf? path m with
          | some cycle => exact GraphM.lift_agrees (BuildM.fail_agrees _)
          | none => exact visitNew_agrees hcache (ih (m :: path))

theorem visitEntries_agrees (hcache : input.CacheExact) :
    ∀ entries : List (String × Identity),
      GraphM.Agrees signal (visitEntries input entries) (visitEntries input.fresh entries) := by
  intro entries
  induction entries with
  | nil => exact GraphM.pure_agrees ()
  | cons e rest ih =>
      refine (GraphM.modify_agrees _).bind fun _ => ?_
      exact (visit_agrees hcache (fuelFor input) [] e.2).bind fun _ => ih

theorem visitPending_agrees (hcache : input.CacheExact) :
    ∀ fuel : Nat,
      GraphM.Agrees signal (visitPending input fuel) (visitPending input.fresh fuel) := by
  intro fuel
  induction fuel with
  | zero => exact GraphM.pure_agrees []
  | succ fuel ih =>
      refine GraphM.get_agrees.bind fun st => ?_
      cases hpending : st.pendingRoots with
      | nil => exact GraphM.pure_agrees []
      | cons m rest =>
          refine (GraphM.modify_agrees _).bind fun _ => ?_
          refine (visit_agrees hcache (fuelFor input) [] m).bind fun _ => ?_
          exact ih.bind fun roots => GraphM.pure_agrees (m :: roots)

/-- **THE TRAVERSAL DOES NOT DEPEND ON THE CACHE**, as long as the cache is exact. -/
theorem build_agrees (hcache : input.CacheExact) (entries : List (String × Identity)) :
    BuildM.Agrees signal (build input entries) (build input.fresh entries) := by
  have hwalk : GraphM.Agrees signal
      (visitEntries input entries >>= fun _ => visitPending input (fuelFor input))
      (visitEntries input.fresh entries >>= fun _ => visitPending input.fresh (fuelFor input)) :=
    (visitEntries_agrees hcache entries).bind fun _ => visitPending_agrees hcache _
  exact (hwalk {}).bind fun found => BuildM.pure_agrees _

end Graph

end AssetBundler
