/-
  AssetBundler.Proofs.Build.Trace
  ────────────────────────────────
  **THE TRAVERSAL FOLLOWS THE LINKS.**

  In which order a traversal records modules, and in which order it discovers
  the targets of deferred imports, depends on nothing but where imports lead.
  A walk over the links of a graph says this without files, texts or bounds:
  it is what the traversal does to the names of the modules alone.  Two graphs
  with the same links therefore have the same order:

    • `Walk.unique`, `Walk.of_map` — a walk has one end, under any names,
    • `Graph.visit_walks` — visiting a module walks along its links, by
      induction on the bound,
    • `Graph.walked_of_build` — the order of a graph is that of a walk,
    • `Walked.unique`, `Walked.of_map` — orders of the same links.
-/
import AssetBundler.Proofs.Build.Graph

namespace AssetBundler

/-! ## §1. Links and walks. -/

/-- What an import asks of a traversal: to visit a module at once, or to note it for later. -/
structure Link where
  isSync : Bool
  target : Identity

/-- The link to a module under another name. -/
def Link.map (f : Identity → Identity) (l : Link) : Link :=
  ⟨l.isSync, f l.target⟩

/-- The modules that a walk has recorded, those that it has met as roots, and the roots that wait. -/
structure Trace where
  found : List Identity := []
  seen : List Identity := []
  pending : List Identity := []

namespace Trace

/-- The target of a deferred import is noted, if it is new. -/
def note (t : Trace) (m : Identity) : Trace :=
  if m ∈ t.seen then t else { t with seen := t.seen ++ [m], pending := t.pending ++ [m] }

/-- An entry is met. -/
def meet (t : Trace) (m : Identity) : Trace :=
  if m ∈ t.seen then t else { t with seen := t.seen ++ [m] }

/-- A module is recorded. -/
def push (t : Trace) (m : Identity) : Trace :=
  { t with found := t.found ++ [m] }

/-- The trace under other names. -/
def map (f : Identity → Identity) (t : Trace) : Trace :=
  ⟨t.found.map f, t.seen.map f, t.pending.map f⟩

variable {f : Identity → Identity}

theorem map_push (t : Trace) (m : Identity) : (t.map f).push (f m) = (t.push m).map f := by
  simp [push, map]

theorem map_note (hf : f.Injective) (t : Trace) (m : Identity) :
    (t.map f).note (f m) = (t.note m).map f := by
  unfold note
  by_cases hm : m ∈ t.seen <;> simp [map, hf.eq_iff, hm]

theorem map_meet (hf : f.Injective) (t : Trace) (m : Identity) :
    (t.map f).meet (f m) = (t.meet m).map f := by
  unfold meet
  by_cases hm : m ∈ t.seen <;> simp [map, hf.eq_iff, hm]

end Trace

/-- A walk over links: a module is recorded behind what it visits. -/
inductive Walk (links : Identity → List Link) : Trace → List Link → Trace → Prop
  | nil (t : Trace) : Walk links t [] t
  /-- The target of a deferred import waits. -/
  | note {t t' : Trace} {m : Identity} {rest : List Link} (h : Walk links (t.note m) rest t') :
      Walk links t (⟨false, m⟩ :: rest) t'
  /-- A module that has been recorded is passed over. -/
  | again {t t' : Trace} {m : Identity} {rest : List Link} (hm : m ∈ t.found)
      (h : Walk links t rest t') : Walk links t (⟨true, m⟩ :: rest) t'
  /-- A new module is recorded behind what its links lead to. -/
  | enter {t t₁ t' : Trace} {m : Identity} {rest : List Link} (hm : m ∉ t.found)
      (hlinks : Walk links t (links m) t₁) (h : Walk links (t₁.push m) rest t') :
      Walk links t (⟨true, m⟩ :: rest) t'

namespace Walk

variable {links links' : Identity → List Link} {t t' t'' : Trace} {tasks tasks' : List Link}

theorem append (h : Walk links t tasks t') (h' : Walk links t' tasks' t'') :
    Walk links t (tasks ++ tasks') t'' := by
  induction h with
  | nil t => exact h'
  | note _ ih => exact .note (ih h')
  | again hm _ ih => exact .again hm (ih h')
  | enter hm hlinks _ _ ih => exact .enter hm hlinks (ih h')

/-- **A walk has one end.** -/
theorem unique (h : Walk links t tasks t') (h' : Walk links t tasks t'') : t' = t'' := by
  induction h generalizing t'' with
  | nil t =>
      cases h'
      rfl
  | note _ ih =>
      cases h' with
      | note h' => exact ih h'
  | again hm _ ih =>
      cases h' with
      | again _ h' => exact ih h'
      | enter hnew _ _ => exact absurd hm hnew
  | enter hm _ _ ihlinks ih =>
      cases h' with
      | again hold _ => exact absurd hold hm
      | enter _ hlinks h' =>
          obtain rfl := ihlinks hlinks
          exact ih h'

/-- **A walk under other names** is a walk under those that there were before. -/
theorem of_map {f : Identity → Identity} (hf : f.Injective)
    (hlinks : ∀ m, links' (f m) = (links m).map (Link.map f)) {T : Trace}
    (h : Walk links' (t.map f) (tasks.map (Link.map f)) T) :
    ∃ t', T = t'.map f ∧ Walk links t tasks t' := by
  generalize hstart : t.map f = start at h
  generalize htasks : tasks.map (Link.map f) = todo at h
  induction h generalizing t tasks with
  | nil _ =>
      obtain rfl := List.map_eq_nil_iff.mp htasks
      exact ⟨t, hstart.symm, .nil t⟩
  | note _ ih =>
      obtain ⟨⟨sync, m⟩, rest, rfl, hlink, rfl⟩ := List.map_eq_cons_iff.mp htasks
      cases hlink
      obtain ⟨t', rfl, hwalk⟩ := ih (by rw [← Trace.map_note hf, hstart]) rfl
      exact ⟨t', rfl, .note hwalk⟩
  | again hm _ ih =>
      obtain ⟨⟨sync, m⟩, rest, rfl, hlink, rfl⟩ := List.map_eq_cons_iff.mp htasks
      cases hlink
      obtain ⟨t', rfl, hwalk⟩ := ih hstart rfl
      subst hstart
      exact ⟨t', rfl, .again ((List.mem_map_of_injective hf).mp hm) hwalk⟩
  | enter hm _ _ ihlinks ih =>
      obtain ⟨⟨sync, m⟩, rest, rfl, hlink, rfl⟩ := List.map_eq_cons_iff.mp htasks
      cases hlink
      obtain ⟨t₁, rfl, hinner⟩ := ihlinks hstart (hlinks m).symm
      obtain ⟨t', rfl, hwalk⟩ := ih (Trace.map_push t₁ m).symm rfl
      subst hstart
      exact ⟨t', rfl, .enter (fun h => hm (List.mem_map_of_mem h)) hinner hwalk⟩

/-- The same for a visit of one module. -/
theorem of_map_single {f : Identity → Identity} (hf : f.Injective)
    (hlinks : ∀ m, links' (f m) = (links m).map (Link.map f)) {T : Trace} {m : Identity}
    (h : Walk links' (t.map f) [⟨true, f m⟩] T) :
    ∃ t', T = t'.map f ∧ Walk links t [⟨true, m⟩] t' :=
  of_map hf hlinks (show Walk links' (t.map f) ([⟨true, m⟩].map (Link.map f)) T from h)

end Walk

/-! ## §2. Whole walks. -/

/-- The entries are met and visited one after the other. -/
inductive WalkEntries (links : Identity → List Link) : Trace → List Identity → Trace → Prop
  | nil (t : Trace) : WalkEntries links t [] t
  | cons {t t₁ t' : Trace} {m : Identity} {rest : List Identity}
      (hvisit : Walk links (t.meet m) [⟨true, m⟩] t₁) (h : WalkEntries links t₁ rest t') :
      WalkEntries links t (m :: rest) t'

/-- Roots that wait are visited one after the other. -/
inductive WalkPending (links : Identity → List Link) : Trace → List Identity → Trace → Prop
  | nil (t : Trace) : WalkPending links t [] t
  | cons {t t₁ t' : Trace} {m : Identity} {waiting rest : List Identity}
      (hpending : t.pending = m :: waiting)
      (hvisit : Walk links { t with pending := waiting } [⟨true, m⟩] t₁)
      (h : WalkPending links t₁ rest t') : WalkPending links t (m :: rest) t'

/-- From the entries on, the walk records modules in an order and visits deferred roots, until none
waits. -/
structure Walked (links : Identity → List Link) (entries order roots : List Identity) : Prop where
  intro ::
  walks : ∃ t t', WalkEntries links {} entries t ∧ WalkPending links t roots t'
    ∧ t'.pending = [] ∧ t'.found = order

section

variable {links links' : Identity → List Link} {t t' t'' : Trace} {ms ms' : List Identity}
  {f : Identity → Identity}

theorem WalkEntries.unique (h : WalkEntries links t ms t') (h' : WalkEntries links t ms t'') :
    t' = t'' := by
  induction h with
  | nil t =>
      cases h'
      rfl
  | cons hvisit _ ih =>
      cases h' with
      | cons hvisit' h' =>
          obtain rfl := hvisit.unique hvisit'
          exact ih h'

/-- When no root waits at the end, the roots that were visited are those that had to be. -/
theorem WalkPending.unique (h : WalkPending links t ms t') (h' : WalkPending links t ms' t'')
    (hempty : t'.pending = []) (hempty' : t''.pending = []) : ms = ms' ∧ t' = t'' := by
  induction h generalizing ms' with
  | nil t =>
      cases h' with
      | nil => exact ⟨rfl, rfl⟩
      | cons hpending _ _ => cases hempty.symm.trans hpending
  | cons hpending hvisit _ ih =>
      cases h' with
      | nil => cases hempty'.symm.trans hpending
      | cons hpending' hvisit' h' =>
          obtain ⟨rfl, rfl⟩ := List.cons_eq_cons.mp (hpending.symm.trans hpending')
          obtain rfl := hvisit.unique hvisit'
          obtain ⟨rfl, rfl⟩ := ih h' hempty
          exact ⟨rfl, rfl⟩

/-- **The same links give the same order.** -/
theorem Walked.unique {entries order order' roots roots' : List Identity}
    (h : Walked links entries order roots) (h' : Walked links entries order' roots') :
    order = order' ∧ roots = roots' := by
  obtain ⟨t, t', hentries, hpending, hempty, rfl⟩ := h.walks
  obtain ⟨u, u', hentries', hpending', hempty', rfl⟩ := h'.walks
  obtain rfl := hentries.unique hentries'
  obtain ⟨rfl, rfl⟩ := hpending.unique hpending' hempty hempty'
  exact ⟨rfl, rfl⟩

theorem WalkEntries.of_map (hf : f.Injective)
    (hlinks : ∀ m, links' (f m) = (links m).map (Link.map f)) {T : Trace} :
    ∀ {ms : List Identity} {t : Trace}, WalkEntries links' (t.map f) (ms.map f) T →
      ∃ t', T = t'.map f ∧ WalkEntries links t ms t'
  | [], t, h => by
      cases h
      exact ⟨t, rfl, .nil t⟩
  | m :: ms, t, h => by
      cases h with
      | cons hvisit h =>
          rw [Trace.map_meet hf] at hvisit
          obtain ⟨t₁, rfl, hwalk⟩ := hvisit.of_map_single hf hlinks
          obtain ⟨t', rfl, hrest⟩ := WalkEntries.of_map hf hlinks h
          exact ⟨t', rfl, .cons hwalk hrest⟩

theorem WalkPending.of_map (hf : f.Injective)
    (hlinks : ∀ m, links' (f m) = (links m).map (Link.map f)) {T : Trace} {roots' : List Identity}
    (h : WalkPending links' (t.map f) roots' T) :
    ∃ roots t', roots' = roots.map f ∧ T = t'.map f ∧ WalkPending links t roots t' := by
  generalize hstart : t.map f = start at h
  induction h generalizing t with
  | nil _ => exact ⟨[], t, rfl, hstart.symm, .nil t⟩
  | cons hpending hvisit _ ih =>
      subst hstart
      obtain ⟨m, waiting, hwaiting, rfl, rfl⟩ := List.map_eq_cons_iff.mp hpending
      obtain ⟨t₁, rfl, hwalk⟩ :=
        Walk.of_map_single (t := { t with pending := waiting }) hf hlinks hvisit
      obtain ⟨roots, t', rfl, rfl, hrest⟩ := ih rfl
      exact ⟨m :: roots, t', rfl, rfl, .cons hwaiting hwalk hrest⟩

/-- **Renamed links give the renamed order.** -/
theorem Walked.of_map (hf : f.Injective)
    (hlinks : ∀ m, links' (f m) = (links m).map (Link.map f))
    {entries order' roots' : List Identity} (h : Walked links' (entries.map f) order' roots') :
    ∃ order roots, order' = order.map f ∧ roots' = roots.map f
      ∧ Walked links entries order roots := by
  obtain ⟨T, T', hentries, hpending, hempty, rfl⟩ := h.walks
  obtain ⟨t, rfl, hfirst⟩ := WalkEntries.of_map (t := {}) hf hlinks hentries
  obtain ⟨roots, t', rfl, rfl, hrest⟩ := hpending.of_map hf hlinks
  exact ⟨t'.found, roots, rfl, rfl, ⟨t, t', hfirst, hrest, List.map_eq_nil_iff.mp hempty, rfl⟩⟩

end

/-! ## §3. The traversal walks. -/

/-- What a dependency asks of a traversal. -/
def Dependency.link (d : Dependency) : Link :=
  ⟨d.isSync, d.target⟩

/-- What the dependencies of a module ask of a traversal. -/
def ModuleRecord.links (r : ModuleRecord) : List Link :=
  r.dependencies.map Dependency.link

/-- The links of a recorded module. -/
def ModuleGraph.links (g : ModuleGraph) (m : Identity) : List Link :=
  ((g.get? m).map ModuleRecord.links).getD []

namespace GraphState

/-- The names of the modules that have been found. -/
def trace (st : GraphState) : Trace :=
  ⟨st.found, st.seenRoots, st.pendingRoots⟩

/-- The later state keeps the records of the earlier one, and it has been reached along `walk` over the
links of all that is recorded by then. -/
structure Reaches (walk : (Identity → List Link) → Trace → Trace → Prop) (st st' : GraphState) :
    Prop where
  kept : ∀ r ∈ st.records, r ∈ st'.records
  along : ∀ links, (∀ r ∈ st'.records, links r.identity = r.links) →
    walk links st.trace st'.trace

/-- The tasks have been walked along. -/
abbrev Walks (tasks : List Link) : GraphState → GraphState → Prop :=
  Reaches fun links t t' => Walk links t tasks t'

variable {st st' st'' : GraphState} {m : Identity}

/-- One way behind another. -/
theorem Reaches.trans {walk walk' walk'' : (Identity → List Link) → Trace → Trace → Prop}
    (h : Reaches walk st st') (h' : Reaches walk' st' st'')
    (hwalk : ∀ links, walk links st.trace st'.trace → walk' links st'.trace st''.trace →
      walk'' links st.trace st''.trace) : Reaches walk'' st st'' where
  kept r hr := h'.kept r (h.kept r hr)
  along links hlinks :=
    hwalk links (h.along links fun r hr => hlinks r (h'.kept r hr)) (h'.along links hlinks)

/-- A state whose records are the same has been reached without a visit. -/
theorem Reaches.of_records_eq {walk : (Identity → List Link) → Trace → Trace → Prop}
    (hrecords : st'.records = st.records) (hwalk : ∀ links, walk links st.trace st'.trace) :
    Reaches walk st st' where
  kept r hr := by rwa [hrecords]
  along links _ := hwalk links

/-- A new module is recorded behind what its links lead to. -/
theorem Walks.enter {r : ModuleRecord} (hnew : r.identity ∉ st.found)
    (h : Walks r.links st st') :
    Walks [⟨true, r.identity⟩] st { st' with records := st'.records ++ [r] } where
  kept a ha := List.mem_append_left _ (h.kept a ha)
  along links hlinks := by
    have hwalk := h.along links fun a ha => hlinks a (List.mem_append_left _ ha)
    have hlast : links r.identity = r.links :=
      hlinks r (List.mem_append_right _ List.mem_cons_self)
    refine .enter hnew (hlast ▸ hwalk) ?_
    have hpush : (st'.trace).push r.identity
        = GraphState.trace { st' with records := st'.records ++ [r] } := by
      simp [trace, Trace.push, found]
    exact hpush ▸ .nil _

end GraphState

/-- Two conditions that an action ensures hold together. -/
theorem GraphM.Ensures.and {α : Type} {signal : CancelSignal} {s : Session} {st : GraphState}
    {action : GraphM α} {post post' : α → GraphState → Session → Prop}
    {fault fault' : BuildError → Session → Prop} (h : Ensures signal s st action post fault)
    (h' : Ensures signal s st action post' fault') :
    Ensures signal s st action (fun a st' s' => post a st' s' ∧ post' a st' s')
      (fun _ _ => True) := by
  unfold Ensures BuildM.Ensures at *
  split
  next heq =>
    rw [heq] at h h'
    exact ⟨h, h'⟩
  next => trivial

namespace Graph

open GraphState

variable {input : GraphInput} {signal : CancelSignal} {m : Identity}

theorem noteRoot_walks (s : Session) (st : GraphState) :
    GraphM.Ensures signal s st (noteRoot m) (fun _ st' _ => Walks [⟨false, m⟩] st st')
      (fun _ _ => True) := by
  simp only [noteRoot, GraphM.ensures_modify]
  refine Reaches.of_records_eq (by split <;> rfl) fun links => .note ?_
  have hnote : st.trace.note m = GraphState.trace (if st.seenRoots.contains m then st
      else { st with seenRoots := st.seenRoots ++ [m], pendingRoots := st.pendingRoots ++ [m] }) := by
    by_cases hm : m ∈ st.seenRoots <;> simp [Trace.note, trace, found, hm]
  exact hnote ▸ .nil _

/-- Visiting the module walks along a link to it. -/
def VisitWalks (signal : CancelSignal) (visit : Identity → GraphM Unit) (m : Identity) : Prop :=
  ∀ s st, GraphM.Ensures signal s st (visit m) (fun _ st' _ => Walks [⟨true, m⟩] st st')
    (fun _ _ => True)

/-- The imports of a module are walked along one after the other. -/
theorem visitImports_walks {visit : Identity → GraphM Unit}
    (hvisit : ∀ target, VisitWalks signal visit target) :
    ∀ (imports : List Import) (s : Session) (st : GraphState),
      GraphM.Ensures signal s st (visitImports input visit m imports)
        (fun dependencies st' _ => Walks (dependencies.map Dependency.link) st st')
        (fun _ _ => True) := by
  intro imports
  induction imports with
  | nil =>
      intro s st
      simp only [visitImports, GraphM.ensures_pure]
      exact Reaches.of_records_eq rfl fun links => .nil _
  | cons i rest ih =>
      intro s st
      simp only [visitImports, GraphM.ensures_bind, GraphM.ensures_lift, BuildM.ensures_ofExcept,
        implies_true, and_true]
      intro target _
      -- either kind of import has its own link, and the rest follows in the same way
      have hgoOn : ∀ s₁ st₁, Walks [⟨i.isSync, target⟩] st st₁ →
          GraphM.Ensures signal s₁ st₁ (do
              let dependencies ← visitImports input visit m rest
              return ⟨i.specifier, i.kind, target⟩ :: dependencies)
            (fun dependencies st' _ => Walks (dependencies.map Dependency.link) st st')
            (fun _ _ => True) := by
        intro s₁ st₁ hfirst
        rw [GraphM.ensures_bind]
        refine (ih s₁ st₁).mono fun dependencies st₂ _ hrest => ?_
        exact hfirst.trans hrest fun links h h' => h.append h'
      split
      next hsync =>
        rw [GraphM.ensures_bind]
        refine (hvisit target s st).mono fun _ st₁ s₁ hfirst => hgoOn s₁ st₁ ?_
        rwa [hsync]
      next hsync =>
        rw [GraphM.ensures_bind]
        refine (noteRoot_walks s st).mono fun _ st₁ s₁ hfirst => hgoOn s₁ st₁ ?_
        rwa [Bool.eq_false_iff.mpr hsync]

/-- A new module is recorded behind what its imports lead to. -/
theorem visitNew_walks {visit : Identity → GraphM Unit} {st : GraphState}
    (hvisit : ∀ target, VisitWalks signal visit target) (hnew : m ∉ st.found) (s : Session) :
    GraphM.Ensures signal s st (visitNew input visit m)
      (fun _ st' _ => Walks [⟨true, m⟩] st st') (fun _ _ => True) := by
  simp only [visitNew, GraphM.ensures_bind, GraphM.ensures_lift, BuildM.ensures_check,
    readModule_ensures, artifactOf_ensures, BuildM.ensures_mode, GraphM.ensures_modify,
    implies_true, and_true]
  intro _ content _ a _
  refine (visitImports_walks hvisit a.imports _ st).mono fun dependencies st' s' h => ?_
  exact Walks.enter (r := ⟨m, ContentType.lowered m.extension, Digest.ofContent content, a,
    dependencies, sourceOf s'.mode m content a⟩) hnew h

/-- **Visiting a module walks along a link to it**, whatever the bound. -/
theorem visit_walks :
    ∀ (fuel : Nat) (path : List Identity) (m : Identity),
      VisitWalks signal (visit input fuel path) m := by
  intro fuel
  induction fuel with
  | zero =>
      intro path m s st
      simp only [visit, GraphM.ensures_lift, BuildM.ensures_fail]
  | succ fuel ih =>
      intro path m s st
      simp only [visit, GraphM.ensures_bind, isRecorded_ensures]
      split
      next hfound =>
        refine Reaches.of_records_eq rfl fun links => .again ?_ (.nil _)
        exact of_decide_eq_true hfound
      next hfound =>
        split
        next => simp only [GraphM.ensures_lift, BuildM.ensures_fail]
        next =>
          exact visitNew_walks (ih (m :: path)) (fun h => hfound (decide_eq_true h)) s

/-- The entries are met and visited. -/
theorem visitEntries_walks :
    ∀ (entries : List (String × Identity)) (s : Session) (st : GraphState),
      GraphM.Ensures signal s st (visitEntries input entries)
        (fun _ st' _ => Reaches (fun links t t' => WalkEntries links t (entries.map (·.2)) t') st st')
        (fun _ _ => True) := by
  intro entries
  induction entries with
  | nil =>
      intro s st
      simp only [visitEntries, GraphM.ensures_pure]
      exact Reaches.of_records_eq rfl fun links => .nil _
  | cons e rest ih =>
      intro s st
      simp only [visitEntries, GraphM.ensures_bind, GraphM.ensures_modify]
      set st₁ : GraphState := if st.seenRoots.contains e.2 then st
        else { st with seenRoots := st.seenRoots ++ [e.2] } with hst₁
      have hmeet : st₁.trace = st.trace.meet e.2 := by
        by_cases hm : e.2 ∈ st.seenRoots <;> simp [hst₁, Trace.meet, trace, found, hm]
      have hrecords : st₁.records = st.records := by
        rw [hst₁]
        split <;> rfl
      refine (visit_walks (fuelFor input) [] e.2 s st₁).mono fun _ st₂ s₂ hvisit => ?_
      refine (ih s₂ st₂).mono fun _ st₃ s₃ hrest => ?_
      have hfirst : Reaches (fun links t t' => Walk links (t.meet e.2) [⟨true, e.2⟩] t') st st₂ :=
        ⟨fun r hr => hvisit.kept r (hrecords ▸ hr),
          fun links hlinks => hmeet ▸ hvisit.along links hlinks⟩
      exact hfirst.trans hrest fun links h h' => .cons h h'

/-- Roots that wait are visited. -/
theorem visitPending_walks :
    ∀ (fuel : Nat) (s : Session) (st : GraphState),
      GraphM.Ensures signal s st (visitPending input fuel)
        (fun roots st' _ => Reaches (fun links t t' => WalkPending links t roots t') st st')
        (fun _ _ => True) := by
  intro fuel
  induction fuel with
  | zero =>
      intro s st
      simp only [visitPending, GraphM.ensures_pure]
      exact Reaches.of_records_eq rfl fun links => .nil _
  | succ fuel ih =>
      intro s st
      simp only [visitPending, GraphM.ensures_bind, GraphM.ensures_get]
      split
      next => exact Reaches.of_records_eq rfl fun links => .nil _
      next m waiting hpending =>
        simp only [GraphM.ensures_bind, GraphM.ensures_modify]
        refine (visit_walks (fuelFor input) [] m s _).mono fun _ st₁ s₁ hvisit => ?_
        refine (ih s₁ st₁).mono fun roots st₂ s₂ hrest => ?_
        have hfirst : Reaches
            (fun links t t' => Walk links { t with pending := waiting } [⟨true, m⟩] t') st st₁ :=
          ⟨hvisit.kept, hvisit.along⟩
        exact hfirst.trans hrest fun links h h' => .cons hpending h h'

/-- **The order of a graph is that of the walk over its links.** -/
theorem walked_of_build {entries : List (String × Identity)} {s : Session} {g : ModuleGraph}
    (h : ((build input entries).exec signal s).1 = .ok g) :
    Walked g.links (g.entries.map (·.2)) g.order g.deferredRoots := by
  have hg : input.Complete entries g := complete_of_build h
  -- every record is found under its module, so the links of the graph are those of its records
  have hlinks : ∀ r ∈ g.records, g.links r.identity = r.links := by
    intro r hr
    rw [ModuleGraph.links, ModuleGraph.get?_of_mem hg.nodup hr, Option.map_some, Option.getD_some]
  -- the queue is empty in the end, as the specification of the traversal says
  have hrun : GraphM.Ensures signal s {} (do
        visitEntries input entries
        visitPending input (fuelFor input))
      (fun roots st' _ => ∃ st,
        Reaches (fun links t t' => WalkEntries links t (entries.map (·.2)) t') {} st
          ∧ Reaches (fun links t t' => WalkPending links t roots t') st st'
          ∧ st'.pendingRoots = [])
      (fun _ _ => True) := by
    rw [GraphM.ensures_bind]
    refine ((visitEntries_walks entries s {}).and
      (visitEntries_ensures entries (fun _ he => he) s {} found_start)).mono ?_
    rintro _ st₁ s₁ ⟨hwalk, hadvance, _⟩
    refine ((visitPending_walks (fuelFor input) s₁ st₁).and
      (visitPending_ensures (fuelFor input) [] rfl s₁ st₁ hadvance.holds)).mono ?_
    rintro roots st₂ s₂ ⟨hrest, _, hempty, _⟩
    exact ⟨st₁, hwalk, hrest, hempty⟩
  have hbuild : BuildM.Ensures signal s (build input entries)
      (fun g _ => (∀ r ∈ g.records, g.links r.identity = r.links) →
        Walked g.links (g.entries.map (·.2)) g.order g.deferredRoots) (fun _ _ => True) := by
    simp only [build, BuildM.ensures_bind]
    refine BuildM.Ensures.mono hrun ?_ (fun _ _ h => h)
    rintro ⟨roots, st'⟩ s' ⟨st, hfirst, hrest, hempty⟩ hlinks
    exact ⟨st.trace, st'.trace, hfirst.along _ fun r hr => hlinks r (hrest.kept r hr),
      hrest.along _ hlinks, hempty, rfl⟩
  exact hbuild.of_ok h hlinks

end Graph

end AssetBundler
