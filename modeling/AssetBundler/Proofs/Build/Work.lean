/-
  AssetBundler.Proofs.Build.Work
  ────────────────────────────────
  **HOW MUCH A TRAVERSAL DOES.**

  A traversal goes on without end if it descends through one module after the
  other, or if its queue never runs empty.  It does neither: a path repeats no
  module and leads through files, and so does the queue.  Therefore the bounds
  that its functions have are never used up, and what would happen then does
  not matter.

  On its way it reads a file only when it enters a module, and it enters none
  that has a record or is being visited.  What has happened at the end,
  whether there is a graph or not, is what happens to some modules that are
  visited once each:

    • `Graph.buildWithin` — the traversal with other bounds, and with anything
      in place of what it does when they are used up,
    • `Graph.visit_eq_visitWithin` — a module and what it loads, by induction
      on the bound,
    • `Graph.VisitsOnce` — what one visit adds to the events,
    • `Graph.build_visits_once` — the whole traversal.
-/
import AssetBundler.Proofs.Build.Graph

namespace AssetBundler

/-! ## §1. Other bounds. -/

namespace Graph

/-- Visits a module within a bound; `stop` is what happens when the bound is used up. -/
def visitWithin (stop : List Identity → Identity → GraphM Unit) (input : GraphInput) :
    Nat → List Identity → Identity → GraphM Unit
  | 0, path, m => stop path m
  | bound + 1, path, m => do
    if ← isRecorded m then return ()
    match cycleOf? path m with
    | some cycle => BuildM.fail (.cyclicDependency cycle)
    | none => visitNew input (visitWithin stop input bound (m :: path)) m

/-- Visits the entries within a bound. -/
def visitEntriesWithin (stop : List Identity → Identity → GraphM Unit) (input : GraphInput)
    (bound : Nat) : List (String × Identity) → GraphM Unit
  | [] => return ()
  | (_, m) :: rest => do
    modify fun s =>
      if s.seenRoots.contains m then s else { s with seenRoots := s.seenRoots ++ [m] }
    visitWithin stop input bound [] m
    visitEntriesWithin stop input bound rest

/-- Visits the targets of deferred imports within a bound for each, and at most `count` of them; `leave`
is what happens when there are more. -/
def visitPendingWithin (stop : List Identity → Identity → GraphM Unit)
    (leave : GraphM (List Identity)) (input : GraphInput) (bound : Nat) :
    Nat → GraphM (List Identity)
  | 0 => leave
  | count + 1 => do
    match (← get).pendingRoots with
    | [] => return []
    | m :: rest =>
      modify fun s => { s with pendingRoots := rest }
      visitWithin stop input bound [] m
      return m :: (← visitPendingWithin stop leave input bound count)

/-- The graph of some entries, found within a bound. -/
def buildWithin (stop : List Identity → Identity → GraphM Unit) (leave : GraphM (List Identity))
    (bound : Nat) (input : GraphInput) (entries : List (String × Identity)) :
    BuildM ModuleGraph := do
  let action : GraphM (List Identity) := do
    visitEntriesWithin stop input bound entries
    visitPendingWithin stop leave input bound bound
  let (deferredRoots, s) ← action.run {}
  return { records := s.records, entries, deferredRoots }

variable {input : GraphInput} {entries : List (String × Identity)} {signal : CancelSignal}
  {path : List Identity} {m : Identity} {s : Session} {st : GraphState}

/-- The modules being visited, the newest first, when `m` is to be visited next: none is repeated, and
all but the first that was visited are files. -/
structure Descent (input : GraphInput) (path : List Identity) (m : Identity) : Prop where
  nodup : path.Nodup
  located : ∀ a ∈ (m :: path).dropLast, a.location ∈ input.files.locations

theorem Descent.start (input : GraphInput) (m : Identity) : Descent input [] m :=
  ⟨List.nodup_nil, nofun⟩

theorem Descent.extend (h : Descent input path m) (hm : m ∉ path) {target : Identity}
    (htarget : target.location ∈ input.files.locations) : Descent input (m :: path) target where
  nodup := List.nodup_cons.mpr ⟨hm, h.nodup⟩
  located := by
    intro a ha
    rw [List.dropLast_cons_cons] at ha
    rcases List.mem_cons.mp ha with rfl | ha
    · exact htarget
    · exact h.located a ha

theorem Descent.length_lt (h : Descent input path m) : path.length < fuelFor input := by
  refine length_lt_fuelFor h.nodup fun a ha => h.located a ?_
  -- without its oldest module the path is part of what is known to be files
  cases path with
  | nil => cases ha
  | cons first rest => exact List.mem_cons_of_mem m ha

/-- What follows a result that is there already need only agree on its value. -/
theorem ofExcept_bind_congr {α β : Type} {result : Except BuildError α} {next next' : α → GraphM β}
    (h : ∀ a, result = .ok a → next a = next' a) :
    (liftM (BuildM.ofExcept result) >>= next) = (liftM (BuildM.ofExcept result) >>= next') := by
  cases result with
  | ok a =>
      show next a = next' a
      exact h a rfl
  | error e => rfl

theorem visitImports_congr {visit visit' : Identity → GraphM Unit}
    (h : ∀ target : Identity, target.location ∈ input.files.locations →
      visit target = visit' target) :
    ∀ imports : List Import,
      visitImports input visit m imports = visitImports input visit' m imports := by
  intro imports
  induction imports with
  | nil => rfl
  | cons i rest ih =>
      unfold visitImports
      refine ofExcept_bind_congr fun target htarget => ?_
      rw [h target (Resolve.target_mem_locations htarget), ih]

theorem visitNew_congr {visit visit' : Identity → GraphM Unit}
    (h : ∀ target : Identity, target.location ∈ input.files.locations →
      visit target = visit' target) :
    visitNew input visit m = visitNew input visit' m := by
  unfold visitNew
  simp only [visitImports_congr h]

/-- **A bound that suffices is never used up.**  With the length of the path it makes up the bound for all
paths, and no path is as long as that. -/
theorem visit_eq_visitWithin (stop : List Identity → Identity → GraphM Unit) :
    ∀ (fuel bound : Nat) (path : List Identity) (m : Identity),
      fuel + path.length = fuelFor input → fuel ≤ bound → Descent input path m →
        visit input fuel path m = visitWithin stop input bound path m := by
  intro fuel
  induction fuel with
  | zero =>
      intro bound path m hfuel _ hdescent
      -- the path would be as long as the bound
      have hlength := hdescent.length_lt
      omega
  | succ fuel ih =>
      intro bound path m hfuel hbound hdescent
      obtain ⟨bound, rfl⟩ : ∃ bound', bound = bound' + 1 := ⟨bound - 1, by omega⟩
      unfold visit visitWithin
      cases hcycle : cycleOf? path m with
      | some cycle => rfl
      | none =>
          have hm : m ∉ path := by
            intro hmem
            simp [cycleOf?, hmem] at hcycle
          -- what the module loads is one step further down
          have hbelow : ∀ target : Identity, target.location ∈ input.files.locations →
              visit input fuel (m :: path) target
                = visitWithin stop input bound (m :: path) target := by
            intro target htarget
            refine ih bound (m :: path) target ?_ (by omega) (hdescent.extend hm htarget)
            rw [List.length_cons]
            omega
          simp only [visitNew_congr hbelow]

theorem visitEntries_eq_within (stop : List Identity → Identity → GraphM Unit) {bound : Nat}
    (hbound : fuelFor input ≤ bound) :
    ∀ rest : List (String × Identity),
      visitEntries input rest = visitEntriesWithin stop input bound rest := by
  intro rest
  induction rest with
  | nil => rfl
  | cons e rest ih =>
      unfold visitEntries visitEntriesWithin
      rw [visit_eq_visitWithin stop (fuelFor input) bound [] e.2 rfl hbound
        (Descent.start input e.2), ih]

/-- Two actions that are alike from some modules found on, and go on alike from wherever the first of them
can end. -/
theorem exec_bind_congr {α β : Type} {x x' : GraphM α} {next next' : α → GraphM β}
    (post : α → GraphState → Session → Prop) (fault : BuildError → Session → Prop)
    (hfirst : (x.run st).exec signal s = (x'.run st).exec signal s)
    (hends : GraphM.Ensures signal s st x post fault)
    (hnext : ∀ a st' s', post a st' s' →
      ((next a).run st').exec signal s' = ((next' a).run st').exec signal s') :
    ((x >>= next).run st).exec signal s = ((x' >>= next').run st).exec signal s := by
  rw [StateT.run_bind, StateT.run_bind, BuildM.exec_bind, BuildM.exec_bind, ← hfirst]
  unfold GraphM.Ensures BuildM.Ensures at hends
  split at hends
  next found s' hrun => exact hnext found.1 found.2 s' hends
  next e s' hrun => rfl

/-- Two actions that are alike go on alike. -/
theorem exec_bind_left {α β : Type} {x x' : GraphM α}
    (h : (x.run st).exec signal s = (x'.run st).exec signal s) (next : α → GraphM β) :
    ((x >>= next).run st).exec signal s = ((x' >>= next).run st).exec signal s := by
  rw [StateT.run_bind, StateT.run_bind, BuildM.exec_bind, BuildM.exec_bind, h]

/-- **The queue runs empty**, since all that it ever holds are files, and none is noted twice. -/
theorem visitPending_eq_within (stop : List Identity → Identity → GraphM Unit)
    (leave : GraphM (List Identity)) {bound : Nat} (hbound : fuelFor input ≤ bound) :
    ∀ (fuel count : Nat) (done : List Identity),
      fuel + done.length = fuelFor input → fuel ≤ count →
      ∀ s st, Found input entries done [] st →
        ((visitPending input fuel).run st).exec signal s
          = ((visitPendingWithin stop leave input bound count).run st).exec signal s := by
  intro fuel
  induction fuel with
  | zero =>
      intro count done hfuel _ s st hst
      -- as many roots as the bound says would be more than there are files
      have hlength := hst.queued.length_le
      have hbound : fuelFor input = input.files.entries.length + 2 := rfl
      omega
  | succ fuel ih =>
      intro count done hfuel hcount s st hst
      obtain ⟨count, rfl⟩ : ∃ count', count = count' + 1 := ⟨count - 1, by omega⟩
      unfold visitPending visitPendingWithin
      refine exec_bind_congr (fun a st' s' => a = st ∧ st' = st ∧ s' = s) (fun _ _ => True) rfl
        (GraphM.ensures_get.mpr ⟨rfl, rfl, rfl⟩) ?_
      intro found st' s' hsame
      rw [hsame.1, hsame.2.1, hsame.2.2]
      cases hpending : st.pendingRoots with
      | nil => rfl
      | cons m rest =>
          have hm : m ∈ done ++ st.pendingRoots := by
            rw [hpending]
            simp
          have hreach : input.Reachable entries m :=
            hst.queued.reachable m (hst.queued.noted m hm)
          -- the first of the queue counts as taken before it is visited
          have htaken : Found input entries (done ++ [m]) [] { st with pendingRoots := rest } :=
            ⟨hst.recorded, Queued.take (hpending ▸ hst.queued)⟩
          refine exec_bind_congr
            (fun _ st' s' => st' = { st with pendingRoots := rest } ∧ s' = s) (fun _ _ => True) rfl
            ((GraphM.ensures_modify _).mpr ⟨rfl, rfl⟩) ?_
          intro _ st' s' hsame
          rw [hsame.1, hsame.2]
          rw [← visit_eq_visitWithin stop (fuelFor input) bound [] m rfl hbound
            (Descent.start input m)]
          refine exec_bind_congr _ _ rfl (visit_start_ensures hreach s _ htaken) ?_
          rintro _ st₁ s₁ ⟨hvisited, _⟩
          have hlength : fuel + (done ++ [m]).length = fuelFor input := by
            rw [List.length_append, List.length_singleton]
            omega
          exact exec_bind_left (ih count (done ++ [m]) hlength (by omega) s₁ st₁ hvisited.holds) _

/-- **THE TRAVERSAL ENDS**: with any larger bound, and whatever happened when it were used up, it does the
same. -/
theorem buildWithin_eq (stop : List Identity → Identity → GraphM Unit)
    (leave : GraphM (List Identity)) {bound : Nat} (hbound : fuelFor input ≤ bound) :
    (buildWithin stop leave bound input entries).exec signal s
      = (build input entries).exec signal s := by
  have haction : ((do
        visitEntries input entries
        visitPending input (fuelFor input) : GraphM (List Identity)).run {}).exec signal s
      = ((do
        visitEntriesWithin stop input bound entries
        visitPendingWithin stop leave input bound bound : GraphM (List Identity)).run {}).exec
          signal s := by
    rw [← visitEntries_eq_within stop hbound]
    refine exec_bind_congr _ _ rfl
      (visitEntries_ensures entries (fun _ he => he) s {} found_start) ?_
    rintro _ st₁ s₁ ⟨hentries, _⟩
    exact visitPending_eq_within stop leave hbound _ _ [] rfl hbound s₁ st₁ hentries.holds
  unfold build buildWithin
  rw [BuildM.exec_bind, BuildM.exec_bind, haction]

/-! ## §2. Events. -/

/-- The steps that are begun to make the artifact of a module: none if its file cannot be read, and none if
the last build has the artifact of its content. -/
def stepsOf (input : GraphInput) (m : Identity) : List Step :=
  match input.files.read m.path with
  | .ok content => stepsBegun input m content
  | .error _ => []

/-- What happens to a module when it is visited for the first time. -/
def eventsOf (input : GraphInput) (m : Identity) : List BuildEvent :=
  .read m :: (stepsOf input m).map (.step m)

/-- **From one session to the other some modules have been visited**, each once and none that was held
before. -/
structure Visited (input : GraphInput) (held visited : List Identity) (s s' : Session) : Prop where
  nodup : visited.Nodup
  apart : ∀ a ∈ visited, a ∉ held
  events : s'.events = s.events ++ visited.flatMap (eventsOf input)

section

variable {held held' visited visited' : List Identity} {s' s'' : Session}

theorem Visited.still (h : s'.events = s.events) : Visited input held [] s s' :=
  ⟨List.nodup_nil, nofun, by rw [h]; exact (List.append_nil _).symm⟩

/-- What is visited later is none of what was held or visited before. -/
theorem Visited.append (h : Visited input held visited s s')
    (h' : Visited input held' visited' s' s'') (hheld : ∀ a ∈ held, a ∈ held')
    (hvisited : ∀ a ∈ visited, a ∈ held') : Visited input held (visited ++ visited') s s'' where
  nodup := by
    refine List.nodup_append.mpr ⟨h.nodup, h'.nodup, ?_⟩
    rintro a ha b hb rfl
    exact h'.apart a hb (hvisited a ha)
  apart := by
    intro a ha
    rcases List.mem_append.mp ha with ha | ha
    · exact h.apart a ha
    · exact fun hmem => h'.apart a ha (hheld a hmem)
  events := by
    rw [h'.events, h.events, List.flatMap_append, List.append_assoc]

end

/-- What an action reads are modules that neither have a record nor are being visited, each once; when the
action succeeds they all have records. -/
def VisitsOnce {α : Type} (input : GraphInput) (signal : CancelSignal) (path : List Identity)
    (action : GraphM α) (s : Session) (st : GraphState) : Prop :=
  GraphM.Ensures signal s st action
    (fun _ st' s' => ∃ visited, Visited input (path ++ st.found) visited s s'
      ∧ ∀ a, a ∈ st.found ∨ a ∈ visited → a ∈ st'.found)
    (fun _ s' => ∃ visited, Visited input (path ++ st.found) visited s s')

namespace VisitsOnce

variable {α β : Type} {x : GraphM α} {next : α → GraphM β}

/-- An action that reads nothing and finds nothing. -/
theorem of_still (h : GraphM.Ensures signal s st x
      (fun _ st' s' => st'.found = st.found ∧ s'.events = s.events)
      (fun _ s' => s'.events = s.events)) : VisitsOnce input signal path x s st := by
  refine BuildM.Ensures.mono h ?_ ?_
  · rintro ⟨_, st'⟩ s' ⟨hfound, hevents⟩
    refine ⟨[], Visited.still hevents, fun a ha => ?_⟩
    rw [hfound]
    exact ha.resolve_right List.not_mem_nil
  · intro _ s' hevents
    exact ⟨[], Visited.still hevents⟩

/-- **One action after the other**: what the first has visited is held when the second begins. -/
theorem bind (h : VisitsOnce input signal path x s st)
    (hnext : ∀ a s' st', VisitsOnce input signal path (next a) s' st') :
    VisitsOnce input signal path (x >>= next) s st := by
  show GraphM.Ensures signal s st (x >>= next) _ _
  rw [GraphM.ensures_bind]
  refine BuildM.Ensures.mono h ?_ fun _ _ he => he
  rintro ⟨a, st₁⟩ s₁ ⟨visited₁, hvisited₁, hfound₁⟩
  have hheld : ∀ b ∈ path ++ st.found, b ∈ path ++ st₁.found := by
    intro b hb
    rcases List.mem_append.mp hb with hb | hb
    · exact List.mem_append_left _ hb
    · exact List.mem_append_right _ (hfound₁ b (Or.inl hb))
  have hbefore : ∀ b ∈ visited₁, b ∈ path ++ st₁.found := fun b hb =>
    List.mem_append_right _ (hfound₁ b (Or.inr hb))
  refine BuildM.Ensures.mono (hnext a s₁ st₁) ?_ ?_
  · rintro ⟨_, st₂⟩ s₂ ⟨visited₂, hvisited₂, hfound₂⟩
    refine ⟨visited₁ ++ visited₂, hvisited₁.append hvisited₂ hheld hbefore, ?_⟩
    rintro b (hb | hb)
    · exact hfound₂ b (Or.inl (hfound₁ b (Or.inl hb)))
    · rcases List.mem_append.mp hb with hb | hb
      · exact hfound₂ b (Or.inl (hfound₁ b (Or.inr hb)))
      · exact hfound₂ b (Or.inr hb)
  · rintro _ s₂ ⟨visited₂, hvisited₂⟩
    exact ⟨visited₁ ++ visited₂, hvisited₁.append hvisited₂ hheld hbefore⟩

end VisitsOnce

/-! ## §3. What is visited. -/

theorem ofExcept_visitsOnce {α : Type} (result : Except BuildError α) :
    VisitsOnce input signal path (liftM (BuildM.ofExcept result)) s st :=
  VisitsOnce.of_still <| by
    rw [GraphM.ensures_lift, BuildM.ensures_ofExcept]
    exact ⟨fun _ _ => ⟨rfl, rfl⟩, fun _ _ => rfl⟩

theorem noteRoot_visitsOnce (m : Identity) : VisitsOnce input signal path (noteRoot m) s st := by
  refine VisitsOnce.of_still ((GraphM.ensures_modify _).mpr ⟨?_, rfl⟩)
  split <;> rfl

theorem visitImports_visitsOnce {visit : Identity → GraphM Unit}
    (hvisit : ∀ target s st, VisitsOnce input signal path (visit target) s st) :
    ∀ (imports : List Import) (s : Session) (st : GraphState),
      VisitsOnce input signal path (visitImports input visit m imports) s st := by
  intro imports
  induction imports with
  | nil => exact fun _ _ => VisitsOnce.of_still ⟨rfl, rfl⟩
  | cons i rest ih =>
      intro s st
      unfold visitImports
      refine (ofExcept_visitsOnce _).bind fun target s₁ st₁ => ?_
      have hrest : ∀ s₂ st₂, VisitsOnce input signal path (do
          let dependencies ← visitImports input visit m rest
          return ⟨i.specifier, i.kind, target⟩ :: dependencies) s₂ st₂ := fun s₂ st₂ =>
        (ih s₂ st₂).bind fun _ _ _ => VisitsOnce.of_still ⟨rfl, rfl⟩
      split
      next => exact (hvisit target s₁ st₁).bind fun _ => hrest
      next => exact (noteRoot_visitsOnce target).bind fun _ => hrest

/-- **A module that is new** is read once, and while its imports are visited it is being visited itself. -/
theorem visitNew_visitsOnce {visit : Identity → GraphM Unit} (hpath : m ∉ path)
    (hnew : m ∉ st.found)
    (hvisit : ∀ target s st, VisitsOnce input signal (m :: path) (visit target) s st) :
    VisitsOnce input signal path (visitNew input visit m) s st := by
  have hfirst : ∀ {s' : Session}, s'.events = s.events ++ eventsOf input m →
      Visited input (path ++ st.found) [m] s s' := by
    intro s' hevents
    refine ⟨List.nodup_singleton m, fun a ha => ?_, by simpa using hevents⟩
    rw [List.mem_singleton.mp ha, List.mem_append, not_or]
    exact ⟨hpath, hnew⟩
  unfold VisitsOnce
  simp only [visitNew, GraphM.ensures_bind, GraphM.ensures_lift, BuildM.ensures_check,
    readModule_ensures, artifactOf_ensures, BuildM.ensures_mode, GraphM.ensures_modify]
  refine ⟨fun _ => ⟨fun content hread => ?_, fun e he => ?_⟩, fun _ => ⟨[], Visited.still rfl⟩⟩
  · -- whether there is an artifact or not, the module has been read and its steps have been begun
    have hevents : ∀ checks : Nat, Visited input (path ++ st.found) [m] s
        { s with
          checks
          events := s.events ++ [.read m] ++ (stepsBegun input m content).map (.step m) } := by
      intro checks
      refine hfirst ?_
      simp [eventsOf, stepsOf, hread]
    refine ⟨fun a _ => ?_, fun _ _ => ⟨[m], hevents _⟩⟩
    have hheld : ∀ b ∈ path ++ st.found, b ∈ m :: path ++ st.found := fun b hb =>
      List.mem_cons_of_mem m hb
    have hm : ∀ b ∈ [m], b ∈ m :: path ++ st.found := fun b hb => by
      rw [List.mem_singleton.mp hb]
      exact List.mem_cons_self
    refine BuildM.Ensures.mono (visitImports_visitsOnce hvisit a.imports _ st) ?_ ?_
    · rintro ⟨dependencies, st'⟩ s' ⟨visited, hvisited, hfound⟩
      refine ⟨[m] ++ visited, (hevents _).append hvisited hheld hm, ?_⟩
      intro b hb
      show b ∈ (st'.records ++ [_]).map ModuleRecord.identity
      rw [List.map_append, List.mem_append]
      rcases hb with hb | hb
      · exact Or.inl (hfound b (Or.inl hb))
      · rcases List.mem_append.mp hb with hb | hb
        · exact Or.inr hb
        · exact Or.inl (hfound b (Or.inr hb))
    · rintro _ s' ⟨visited, hvisited⟩
      exact ⟨[m] ++ visited, (hevents _).append hvisited hheld hm⟩
  · refine ⟨[m], hfirst ?_⟩
    simp [eventsOf, stepsOf, he]

/-- **A module and what it loads**, whatever the bound. -/
theorem visit_visitsOnce :
    ∀ (fuel : Nat) (path : List Identity) (m : Identity) (s : Session) (st : GraphState),
      VisitsOnce input signal path (visit input fuel path m) s st := by
  intro fuel
  induction fuel with
  | zero => exact fun _ _ _ _ => ⟨[], Visited.still rfl⟩
  | succ fuel ih =>
      intro path m s st
      unfold VisitsOnce
      simp only [visit, GraphM.ensures_bind, isRecorded_ensures]
      split
      next => exact ⟨[], Visited.still rfl, fun a ha => ha.resolve_right List.not_mem_nil⟩
      next hfound =>
        have hnew : m ∉ st.found := fun h => hfound (decide_eq_true h)
        split
        next cycle _ => exact ⟨[], Visited.still rfl⟩
        next hcycle =>
          have hpath : m ∉ path := by
            intro hmem
            simp [cycleOf?, hmem] at hcycle
          exact visitNew_visitsOnce hpath hnew (ih (m :: path))

theorem visitEntries_visitsOnce : ∀ (rest : List (String × Identity)) (s : Session)
    (st : GraphState), VisitsOnce input signal [] (visitEntries input rest) s st := by
  intro rest
  induction rest with
  | nil => exact fun _ _ => VisitsOnce.of_still ⟨rfl, rfl⟩
  | cons e rest ih =>
      intro s st
      unfold visitEntries
      refine (VisitsOnce.of_still ?_).bind fun _ s₁ st₁ =>
        (visit_visitsOnce _ [] e.2 s₁ st₁).bind fun _ => ih
      rw [GraphM.ensures_modify]
      split <;> exact ⟨rfl, rfl⟩

theorem visitPending_visitsOnce : ∀ (fuel : Nat) (s : Session) (st : GraphState),
    VisitsOnce input signal [] (visitPending input fuel) s st := by
  intro fuel
  induction fuel with
  | zero => exact fun _ _ => VisitsOnce.of_still ⟨rfl, rfl⟩
  | succ fuel ih =>
      intro s st
      unfold visitPending
      refine (VisitsOnce.of_still (GraphM.ensures_get.mpr ⟨rfl, rfl⟩)).bind fun found s₁ st₁ => ?_
      split
      next => exact VisitsOnce.of_still ⟨rfl, rfl⟩
      next m rest _ =>
        refine (VisitsOnce.of_still ((GraphM.ensures_modify _).mpr ⟨rfl, rfl⟩)).bind
          fun _ s₂ st₂ => (visit_visitsOnce _ [] m s₂ st₂).bind fun _ s₃ st₃ => ?_
        exact (ih s₃ st₃).bind fun _ _ _ => VisitsOnce.of_still ⟨rfl, rfl⟩

/-- **The traversal**, whether it gives a graph or fails. -/
theorem exists_visited_of_build (input : GraphInput) (entries : List (String × Identity))
    (signal : CancelSignal) (s : Session) :
    ∃ visited, Visited input [] visited s ((build input entries).exec signal s).2 := by
  have hrun : VisitsOnce input signal [] (do
      visitEntries input entries
      visitPending input (fuelFor input)) s {} :=
    (visitEntries_visitsOnce entries s {}).bind fun _ => visitPending_visitsOnce _
  have hends : BuildM.Ensures signal s (build input entries)
      (fun _ s' => ∃ visited, Visited input [] visited s s')
      (fun _ s' => ∃ visited, Visited input [] visited s s') := by
    simp only [build, BuildM.ensures_bind]
    refine BuildM.Ensures.mono hrun ?_ fun _ _ he => he
    rintro _ s' ⟨visited, hvisited, _⟩
    exact ⟨visited, hvisited⟩
  unfold BuildM.Ensures at hends
  split at hends
  next hexec => rw [hexec]; exact hends
  next hexec => rw [hexec]; exact hends

/-! ## §4. The work of a traversal. -/

theorem Visited.reads_eq {visited : List Identity} {s' : Session}
    (h : Visited input [] visited s s') : s'.reads = s.reads ++ visited := by
  unfold Session.reads
  rw [h.events, List.filterMap_append, List.filterMap_flatMap]
  congr 1
  simp [eventsOf]

theorem Visited.steps_eq {visited : List Identity} {s' : Session}
    (h : Visited input [] visited s s') :
    s'.steps = s.steps ++ visited.flatMap fun m => (stepsOf input m).map fun step => (m, step) := by
  unfold Session.steps
  rw [h.events, List.filterMap_append, List.filterMap_flatMap]
  congr 1
  simp [eventsOf]

/-- No step is begun for a module of which the last build has the artifact, and otherwise those that its
rule begins. -/
theorem stepsOf_eq {content : ByteArray} (h : input.files.read m.path = .ok content) :
    stepsOf input m
      = if (input.cache.lookup m (Digest.ofContent content)).isSome then []
        else (input.table.transform m content).1 := by
  unfold stepsOf stepsBegun
  rw [h]
  dsimp only
  cases input.cache.lookup m (Digest.ofContent content) <;> rfl

/-- **EVERY MODULE IS VISITED AT MOST ONCE.**  However the modules load each other and whatever the
entries are, a traversal ends before it has used up its bounds: with larger ones, and with anything to
happen when these are used up, it gives the same.  It has then read some modules once each, and of each
it has begun the steps of its rule once, unless the last build has the artifact of its content; there is
no other step.  This holds of every outcome. -/
theorem build_visits_once (input : GraphInput) (entries : List (String × Identity))
    (signal : CancelSignal) (s : Session) :
    (∀ (extra : Nat) (stop : List Identity → Identity → GraphM Unit)
        (leave : GraphM (List Identity)),
      (buildWithin stop leave (fuelFor input + extra) input entries).exec signal s
        = (build input entries).exec signal s)
      ∧ ∃ visited : List Identity, visited.Nodup
        ∧ ((build input entries).exec signal s).2.reads = s.reads ++ visited
        ∧ ((build input entries).exec signal s).2.steps
            = s.steps ++ visited.flatMap (fun m => (stepsOf input m).map fun step => (m, step))
        ∧ ∀ m content, input.files.read m.path = .ok content →
            stepsOf input m
              = if (input.cache.lookup m (Digest.ofContent content)).isSome then []
                else (input.table.transform m content).1 := by
  refine ⟨fun extra stop leave => buildWithin_eq stop leave (Nat.le_add_right _ _), ?_⟩
  obtain ⟨visited, hvisited⟩ := exists_visited_of_build input entries signal s
  exact ⟨visited, hvisited.nodup, hvisited.reads_eq, hvisited.steps_eq,
    fun m content hread => stepsOf_eq hread⟩

/-- Two entries, one of them given twice, that load one script and ask for each other. -/
example :
    ((build
      (projectOf [("a.js", "import './c';import('./b');"), ("b.js", "import './c';import('./a');"),
        ("c.js", "")])
      [("a", ⟨["a.js"]⟩), ("again", ⟨["a.js"]⟩), ("b", ⟨["b.js"]⟩)]).exec .never
        { mode := .development }).2.reads = [⟨["a.js"]⟩, ⟨["c.js"]⟩, ⟨["b.js"]⟩] := by
  decide +kernel

end Graph

end AssetBundler
