/-
  AssetBundler.Proofs.Build.Visit
  ────────────────────────────────
  **THE TRAVERSAL OF A PROJECT.**

  One invariant carries the whole traversal.  Its first half is about the
  records made so far, given the modules that are being visited (`path`); its
  second half is about the deferred roots, given those taken from the queue
  (`done`).  Every function of the traversal has one specification: it keeps
  the invariant and records what it was asked to visit, or it fails for one
  of the reasons in `GraphInput.Fault`.

    • `Graph.visitNew_ensures` — one module, given a way to visit others,
    • `Graph.visit_ensures` — a module and what it loads, by induction on
      the length that the path may still grow,
    • `Graph.build_ensures` — the entries and the queue.
-/
import AssetBundler.Proofs.Build.Imports
import AssetBundler.Proofs.Build.Order

namespace AssetBundler

/-! ## §1. The records made so far. -/

/-- Every module stands behind those that it loads together with itself. -/
def Placed (records : List ModuleRecord) : Prop :=
  NeedsFirst ModuleRecord.identity (fun r => r.syncDependencies.map (·.target)) records

/-- A dependency is what an import of a module leads to. -/
def GraphInput.Follows (input : GraphInput) (m : Identity) (i : Import) (d : Dependency) : Prop :=
  d.specifier = i.specifier ∧ d.kind = i.kind ∧ input.Resolves m i d.target

/-- A record says of its module what the project says of it. -/
structure GraphInput.Describes (input : GraphInput) (r : ModuleRecord) : Prop where
  made : ∃ content, input.files.read r.identity.path = .ok content
    ∧ r.digest = Digest.ofContent content ∧ input.artifactFor r.identity content = .ok r.artifact
  /-- One dependency for each import, in order. -/
  follows : List.Forall₂ (input.Follows r.identity) r.artifact.imports r.dependencies

theorem GraphInput.Describes.makes {input : GraphInput} {r : ModuleRecord}
    (h : input.Describes r) : input.Makes r.identity r.artifact := by
  obtain ⟨content, hread, _, hmade⟩ := h.made
  exact ⟨content, hread, hmade⟩

/-- What holds of the records while the modules of `path` are being visited. -/
structure Recorded (input : GraphInput) (entries : List (String × Identity))
    (path : List Identity) (records : List ModuleRecord) (seen : List Identity) : Prop where
  nodup : (records.map (·.identity)).Nodup
  placed : Placed records
  described : ∀ r ∈ records, input.Describes r
  reachable : ∀ r ∈ records, input.Reachable entries r.identity
  /-- Targets of deferred imports have been noted. -/
  noted : ∀ r ∈ records, ∀ d ∈ r.dependencies, d.kind = .deferred → d.target ∈ seen
  /-- A module that is being visited has no record. -/
  apart : ∀ m ∈ path, m ∉ records.map (·.identity)

namespace Recorded

variable {input : GraphInput} {entries : List (String × Identity)} {path : List Identity}
  {records : List ModuleRecord} {seen : List Identity}

theorem mono (h : Recorded input entries path records seen) {seen' : List Identity}
    (hseen : ∀ m ∈ seen, m ∈ seen') : Recorded input entries path records seen' :=
  { h with noted := fun r hr d hd hkind => hseen _ (h.noted r hr d hd hkind) }

theorem enter (h : Recorded input entries path records seen) {m : Identity}
    (hm : m ∉ records.map (·.identity)) : Recorded input entries (m :: path) records seen :=
  { h with
    apart := fun a ha => by
      rcases List.mem_cons.mp ha with rfl | ha
      · exact hm
      · exact h.apart a ha }

/-- The module that was entered last gets its record. -/
theorem push {r : ModuleRecord} (h : Recorded input entries (r.identity :: path) records seen)
    (hpath : r.identity ∉ path) (hdescribed : input.Describes r)
    (hreach : input.Reachable entries r.identity)
    (hsync : ∀ d ∈ r.syncDependencies, d.target ∈ records.map (·.identity))
    (hdeferred : ∀ d ∈ r.dependencies, d.kind = .deferred → d.target ∈ seen) :
    Recorded input entries path (records ++ [r]) seen := by
  refine ⟨?_, NeedsFirst.concat h.placed (List.forall_mem_map.mpr hsync), ?_, ?_, ?_, ?_⟩
  -- no repetition: the module was being visited, so it had no record
  · rw [List.map_append, List.map_singleton]
    exact nodup_append_singleton.mpr ⟨h.apart r.identity List.mem_cons_self, h.nodup⟩
  · exact forall_mem_append_singleton.mpr ⟨h.described, hdescribed⟩
  · exact forall_mem_append_singleton.mpr ⟨h.reachable, hreach⟩
  · exact forall_mem_append_singleton.mpr ⟨h.noted, hdeferred⟩
  -- the modules that are still being visited are others
  · intro m hm hrecorded
    rw [List.map_append, List.map_singleton, List.mem_append, List.mem_singleton] at hrecorded
    rcases hrecorded with hrecorded | rfl
    · exact h.apart m (List.mem_cons_of_mem _ hm) hrecorded
    · exact hpath hm

end Recorded

/-! ## §2. The queue of deferred roots. -/

/-- What holds of the deferred roots when those of `done` have been taken from the queue. -/
structure Queued (input : GraphInput) (entries : List (String × Identity))
    (done pending seen : List Identity) : Prop where
  nodup : (done ++ pending).Nodup
  noted : ∀ m ∈ done ++ pending, m ∈ seen
  /-- What has been met is an entry or a deferred root. -/
  met : ∀ m ∈ seen, m ∈ entries.map (·.2) ∨ m ∈ done ++ pending
  reachable : ∀ m ∈ seen, input.Reachable entries m
  located : ∀ m ∈ done ++ pending, m.location ∈ input.files.locations

namespace Queued

variable {input : GraphInput} {entries : List (String × Identity)}
  {done pending seen : List Identity}

/-- The target of a deferred import is noted. -/
theorem note (h : Queued input entries done pending seen) {m : Identity} (hm : m ∉ seen)
    (hreach : input.Reachable entries m) (hlocated : m.location ∈ input.files.locations) :
    Queued input entries done (pending ++ [m]) (seen ++ [m]) := by
  have hsame : done ++ (pending ++ [m]) = (done ++ pending) ++ [m] := by simp
  have hlast : ∀ {l : List Identity}, m ∈ l ++ [m] := by simp
  refine ⟨?_, ?_, ?_, ?_, ?_⟩
  · rw [hsame]
    exact nodup_append_singleton.mpr ⟨fun hmem => hm (h.noted m hmem), h.nodup⟩
  · rw [hsame]
    refine forall_mem_append_singleton.mpr ⟨fun a ha => ?_, hlast⟩
    exact List.mem_append_left _ (h.noted a ha)
  · rw [hsame]
    refine forall_mem_append_singleton.mpr ⟨fun a ha => ?_, Or.inr hlast⟩
    exact (h.met a ha).imp_right (List.mem_append_left _)
  · exact forall_mem_append_singleton.mpr ⟨h.reachable, hreach⟩
  · rw [hsame]
    exact forall_mem_append_singleton.mpr ⟨h.located, hlocated⟩

/-- An entry is met. -/
theorem meet (h : Queued input entries done pending seen) {e : String × Identity}
    (he : e ∈ entries) : Queued input entries done pending (seen ++ [e.2]) where
  nodup := h.nodup
  noted := fun a ha => List.mem_append_left _ (h.noted a ha)
  met := forall_mem_append_singleton.mpr ⟨h.met, Or.inl (List.mem_map.mpr ⟨e, he, rfl⟩)⟩
  reachable := forall_mem_append_singleton.mpr ⟨h.reachable, GraphInput.Reachable.entry input he⟩
  located := h.located

/-- The first of the queue is taken. -/
theorem take {m : Identity} {rest : List Identity}
    (h : Queued input entries done (m :: rest) seen) :
    Queued input entries (done ++ [m]) rest seen := by
  have hsame : (done ++ [m]) ++ rest = done ++ m :: rest := by simp
  exact ⟨hsame ▸ h.nodup, hsame ▸ h.noted, hsame ▸ h.met, h.reachable, hsame ▸ h.located⟩

/-- There are no more deferred roots than files. -/
theorem length_le (h : Queued input entries done pending seen) :
    done.length ≤ input.files.entries.length := by
  -- an identity is its location, and each of these locations has a file
  have hnodup : (done.map Identity.location).Nodup :=
    (List.nodup_append.mp h.nodup).1.map fun a b hab => by
      cases a
      cases b
      exact congrArg Identity.mk hab
  have hsub : done.map Identity.location ⊆ input.files.locations := by
    intro at_ hat
    obtain ⟨m, hm, rfl⟩ := List.mem_map.mp hat
    exact h.located m (List.mem_append_left _ hm)
  have hlength := hnodup.length_le_of_subset hsub
  simpa [FileTree.locations] using hlength

end Queued

/-! ## §3. The invariant of the traversal. -/

/-- The modules that have records. -/
def GraphState.found (st : GraphState) : List Identity :=
  st.records.map (·.identity)

/-- **The invariant of the traversal.** -/
structure Found (input : GraphInput) (entries : List (String × Identity))
    (done path : List Identity) (st : GraphState) : Prop where
  recorded : Recorded input entries path st.records st.seenRoots
  queued : Queued input entries done st.pendingRoots st.seenRoots

/-- The invariant holds again, and nothing that was found is lost. -/
structure Advances (input : GraphInput) (entries : List (String × Identity))
    (done path : List Identity) (st st' : GraphState) : Prop where
  holds : Found input entries done path st'
  found : ∀ m ∈ st.found, m ∈ st'.found
  seen : ∀ m ∈ st.seenRoots, m ∈ st'.seenRoots

section

variable {input : GraphInput} {entries : List (String × Identity)} {done path : List Identity}
  {st st' st'' : GraphState}

theorem Advances.refl (h : Found input entries done path st) :
    Advances input entries done path st st :=
  ⟨h, fun _ hm => hm, fun _ hm => hm⟩

theorem Advances.trans (h : Advances input entries done path st st')
    (h' : Advances input entries done path st' st'') :
    Advances input entries done path st st'' :=
  ⟨h'.holds, fun m hm => h'.found m (h.found m hm), fun m hm => h'.seen m (h.seen m hm)⟩

end

/-- Modules without repetition, of which all but the oldest are files, are fewer than the bound. -/
theorem Graph.length_lt_fuelFor {input : GraphInput} {path : List Identity} (hnodup : path.Nodup)
    (hlocated : ∀ a ∈ path.dropLast, a.location ∈ input.files.locations) :
    path.length < Graph.fuelFor input := by
  have hlocations : (path.dropLast.map Identity.location).Nodup :=
    (hnodup.sublist (List.dropLast_sublist path)).map fun a b hab => by
      cases a
      cases b
      exact congrArg Identity.mk hab
  have hsub : path.dropLast.map Identity.location ⊆ input.files.locations := by
    intro at_ hat
    obtain ⟨a, ha, rfl⟩ := List.mem_map.mp hat
    exact hlocated a ha
  have hlength := hlocations.length_le_of_subset hsub
  simp only [List.length_map, List.length_dropLast, FileTree.locations] at hlength
  show path.length < input.files.entries.length + 2
  omega

/-- The modules being visited, the newest first, when `m` is to be visited next: each was met in the one
behind it. -/
structure Trail (input : GraphInput) (entries : List (String × Identity))
    (path : List Identity) (m : Identity) : Prop where
  nodup : path.Nodup
  links : (m :: path).IsChain fun b a => input.Loads a b
  reachable : ∀ a ∈ m :: path, input.Reachable entries a

namespace Trail

variable {input : GraphInput} {entries : List (String × Identity)} {path : List Identity}
  {m : Identity}

theorem start (hm : input.Reachable entries m) : Trail input entries [] m :=
  ⟨List.nodup_nil, List.IsChain.singleton m, fun a ha => by
    rw [List.mem_singleton] at ha
    exact ha ▸ hm⟩

theorem extend (h : Trail input entries path m) (hm : m ∉ path) {target : Identity}
    (hlink : input.Loads m target) : Trail input entries (m :: path) target where
  nodup := List.nodup_cons.mpr ⟨hm, h.nodup⟩
  links := List.isChain_cons_cons.mpr ⟨hlink, h.links⟩
  reachable := fun a ha => by
    rcases List.mem_cons.mp ha with rfl | ha
    · exact (h.reachable m List.mem_cons_self).step hlink.imports
    · exact h.reachable a ha

/-- In a chain, every module but the last is what the next leads to. -/
theorem located_of_isChain {input : GraphInput} :
    ∀ {path : List Identity}, path.IsChain (fun b a => input.Loads a b) →
      ∀ a ∈ path.dropLast, a.location ∈ input.files.locations
  | [], _, a, ha => by cases ha
  | [_], _, a, ha => by cases ha
  | first :: second :: rest, h, a, ha => by
      rw [List.isChain_cons_cons] at h
      rw [List.dropLast_cons_cons] at ha
      rcases List.mem_cons.mp ha with rfl | ha
      · exact h.1.imports.mem_locations
      · exact located_of_isChain h.2 a ha

/-- All modules of a path but its oldest are files, so the path cannot use up its bound. -/
theorem length_lt (h : Trail input entries path m) : path.length < Graph.fuelFor input :=
  Graph.length_lt_fuelFor h.nodup (located_of_isChain h.links.tail)

theorem eq_takeWhile_append {m : Identity} :
    ∀ {path : List Identity}, m ∈ path →
      ∃ older, path = path.takeWhile (· != m) ++ m :: older
  | first :: rest, h => by
      by_cases hfirst : first = m
      · exact ⟨rest, by simp [hfirst]⟩
      · have hrest : m ∈ rest := (List.mem_cons.mp h).resolve_left (Ne.symm hfirst)
        obtain ⟨older, holder⟩ := eq_takeWhile_append hrest
        refine ⟨older, ?_⟩
        rw [List.takeWhile_cons_of_pos (by simpa using hfirst), List.cons_append, ← holder]

/-- A module that is being visited closes a cycle when it is met again. -/
theorem simpleCycle (h : Trail input entries path m) {cycle : List Identity}
    (hcycle : Graph.cycleOf? path m = some cycle) :
    SimpleCycle input.Loads cycle ∧ ∀ a ∈ cycle, input.Reachable entries a := by
  unfold Graph.cycleOf? at hcycle
  split at hcycle
  next hmem =>
    simp only [Option.some.injEq] at hcycle
    obtain ⟨older, hpath⟩ := eq_takeWhile_append (List.contains_iff_mem.mp hmem)
    -- the path lists the newest first, the cycle runs from the oldest on
    set newer := path.takeWhile (· != m)
    have hform : cycle = m :: newer.reverse ++ [m] := by
      rw [← hcycle]
      simp
    have hnodup : (newer ++ [m]).Nodup := by
      have hsublist : (newer ++ [m]).Sublist path := by
        rw [hpath]
        simp
      exact h.nodup.sublist hsublist
    have hlinks : (m :: newer ++ [m]).IsChain fun b a => input.Loads a b := by
      have hprefix : (m :: newer ++ [m]) <+: m :: path :=
        ⟨older, by rw [hpath]; simp⟩
      exact h.links.prefix hprefix
    refine ⟨⟨m, newer.reverse, hform, ?_, ?_⟩, ?_⟩
    · have hreverse := List.nodup_reverse.mpr hnodup
      simpa using hreverse
    · rw [hform]
      have hreverse := List.isChain_reverse.mpr hlinks
      simpa using hreverse
    · intro a ha
      apply h.reachable a
      rw [hform] at ha
      rw [hpath]
      simp only [List.cons_append, List.mem_cons, List.mem_append,
        List.mem_reverse] at ha ⊢
      tauto
  next => cases hcycle

end Trail

/-! ## §4. One module. -/

namespace Graph

variable {input : GraphInput} {entries : List (String × Identity)} {signal : CancelSignal}
  {done path : List Identity} {m : Identity} {st : GraphState} {s : Session}

theorem isRecorded_ensures {post : Bool → GraphState → Session → Prop}
    {fault : BuildError → Session → Prop} :
    GraphM.Ensures signal s st (isRecorded m) post fault ↔ post (decide (m ∈ st.found)) st s := by
  have hfound : (st.records.any fun r => r.identity == m) = decide (m ∈ st.found) := by
    rw [Bool.eq_iff_iff]
    simp [GraphState.found]
  simp only [isRecorded, GraphM.ensures_bind, GraphM.ensures_get, GraphM.ensures_pure, hfound]

/-- The target of a deferred import is noted and nothing else changes. -/
theorem noteRoot_ensures (hst : Found input entries done path st)
    (hreach : input.Reachable entries m) (hlocated : m.location ∈ input.files.locations)
    {fault : BuildError → Session → Prop} :
    GraphM.Ensures signal s st (noteRoot m)
      (fun _ st' _ => Advances input entries done path st st' ∧ m ∈ st'.seenRoots) fault := by
  simp only [noteRoot, GraphM.ensures_modify]
  split
  next hm => exact ⟨Advances.refl hst, List.contains_iff_mem.mp hm⟩
  next hm =>
    have hnew : m ∉ st.seenRoots := fun h => hm (List.contains_iff_mem.mpr h)
    have hmono : ∀ a ∈ st.seenRoots, a ∈ st.seenRoots ++ [m] := fun a ha =>
      List.mem_append_left _ ha
    exact ⟨⟨⟨hst.recorded.mono hmono, hst.queued.note hnew hreach hlocated⟩,
      fun _ ha => ha, hmono⟩, by simp⟩

/-- What visiting a module ensures when `path` is being visited. -/
def VisitEnsures (input : GraphInput) (entries : List (String × Identity))
    (signal : CancelSignal) (done path : List Identity) (visit : Identity → GraphM Unit)
    (m : Identity) : Prop :=
  ∀ s st, Found input entries done path st →
    GraphM.Ensures signal s st (visit m)
      (fun _ st' _ => Advances input entries done path st st' ∧ m ∈ st'.found)
      (fun e _ => input.Fault entries signal e)

/-- **The imports of a module**, given a way to visit their targets: every target is recorded or noted,
and there is one dependency for each import. -/
theorem visitImports_ensures {visit : Identity → GraphM Unit} {a : Artifact}
    (hreach : input.Reachable entries m) (hmakes : input.Makes m a)
    (hvisit : ∀ target, input.Loads m target →
      VisitEnsures input entries signal done path visit target) :
    ∀ (imports : List Import), (∀ i ∈ imports, i ∈ a.imports) →
      ∀ s st, Found input entries done path st →
        GraphM.Ensures signal s st (visitImports input visit m imports)
          (fun dependencies st' _ => Advances input entries done path st st'
            ∧ List.Forall₂ (input.Follows m) imports dependencies
            ∧ ∀ d ∈ dependencies,
              if d.isSync then d.target ∈ st'.found else d.target ∈ st'.seenRoots)
          (fun e _ => input.Fault entries signal e) := by
  intro imports
  induction imports with
  | nil =>
      intro _ s st hst
      simp only [visitImports, GraphM.ensures_pure]
      exact ⟨Advances.refl hst, List.Forall₂.nil, by simp⟩
  | cons i rest ih =>
      intro hsub s st hst
      have hi : i ∈ a.imports := hsub i List.mem_cons_self
      have hrest : ∀ j ∈ rest, j ∈ a.imports := fun j hj => hsub j (List.mem_cons_of_mem _ hj)
      simp only [visitImports, GraphM.ensures_bind, GraphM.ensures_lift,
        BuildM.ensures_ofExcept]
      refine ⟨fun target htarget => ?_, fun e he => .unresolved m a i e hreach hmakes hi he⟩
      -- Both kinds of import go on in the same way once the target has its place.
      have hgoOn : ∀ s₁ st₁, Advances input entries done path st st₁ →
          (if i.isSync then target ∈ st₁.found else target ∈ st₁.seenRoots) →
          GraphM.Ensures signal s₁ st₁ (do
              let dependencies ← visitImports input visit m rest
              return ⟨i.specifier, i.kind, target⟩ :: dependencies)
            (fun dependencies st' _ => Advances input entries done path st st'
              ∧ List.Forall₂ (input.Follows m) (i :: rest) dependencies
              ∧ ∀ d ∈ dependencies,
                if d.isSync then d.target ∈ st'.found else d.target ∈ st'.seenRoots)
            (fun e _ => input.Fault entries signal e) := by
        intro s₁ st₁ hadvance hplace
        rw [GraphM.ensures_bind]
        refine (ih hrest s₁ st₁ hadvance.holds).mono ?_
        rintro dependencies st₂ s₂ ⟨hadvance₂, hfollows, hplaces⟩
        refine ⟨hadvance.trans hadvance₂, .cons ⟨rfl, rfl, htarget⟩ hfollows, ?_⟩
        intro d hd
        rcases List.mem_cons.mp hd with rfl | hd
        · show if i.isSync then target ∈ st₂.found else target ∈ st₂.seenRoots
          split at hplace
          next hsync => rw [if_pos hsync]; exact hadvance₂.found _ hplace
          next hsync => rw [if_neg hsync]; exact hadvance₂.seen _ hplace
        · exact hplaces d hd
      split
      next hsync =>
        have hlink : input.Loads m target := ⟨a, hmakes, i, hi, hsync, htarget⟩
        rw [GraphM.ensures_bind]
        refine (hvisit target hlink s st hst).mono ?_
        rintro _ st₁ s₁ ⟨hadvance, hfound⟩
        exact hgoOn s₁ st₁ hadvance (by rw [if_pos hsync]; exact hfound)
      next hsync =>
        have hlink : input.Imports m target := ⟨a, hmakes, i, hi, htarget⟩
        rw [GraphM.ensures_bind]
        refine (noteRoot_ensures hst (hreach.step hlink) hlink.mem_locations).mono ?_
        rintro _ st₁ s₁ ⟨hadvance, hseen⟩
        exact hgoOn s₁ st₁ hadvance (by rw [if_neg hsync]; exact hseen)

theorem readModule_ensures {post : ByteArray → Session → Prop}
    {fault : BuildError → Session → Prop} :
    BuildM.Ensures signal s (readModule input m) post fault
      ↔ (∀ content, input.files.read m.path = .ok content →
          post content { s with events := s.events ++ [.read m] })
        ∧ (∀ e, input.files.read m.path = .error e →
          fault (.read m e) { s with events := s.events ++ [.read m] }) := by
  simp only [readModule, BuildM.ensures_bind, BuildM.ensures_record]
  cases input.files.read m.path <;> simp

/-- The steps that are begun to make the artifact of a module: none if the last build has it. -/
def stepsBegun (input : GraphInput) (m : Identity) (content : ByteArray) : List Step :=
  match input.cache.lookup m (Digest.ofContent content) with
  | some _ => []
  | none => (input.table.transform m content).1

theorem artifactOf_ensures {content : ByteArray} {post : Artifact → Session → Prop}
    {fault : BuildError → Session → Prop} :
    BuildM.Ensures signal s (artifactOf input m content (Digest.ofContent content)) post fault
      ↔ (∀ a, input.artifactFor m content = .ok a →
          post a { s with events := s.events ++ (stepsBegun input m content).map (.step m) })
        ∧ (∀ e, input.artifactFor m content = .error e →
          fault e { s with events := s.events ++ (stepsBegun input m content).map (.step m) }) := by
  unfold artifactOf GraphInput.artifactFor stepsBegun
  cases input.cache.lookup m (Digest.ofContent content) with
  | some a => simp
  | none =>
      simp only [BuildM.ensures_bind, BuildM.ensures_record, BuildM.ensures_ofExcept]

/-- **A module that is new**, given a way to visit what it loads: it is recorded behind all of that. -/
theorem visitNew_ensures {visit : Identity → GraphM Unit} (hreach : input.Reachable entries m)
    (hpath : m ∉ path) (hnew : m ∉ st.found)
    (hvisit : ∀ target, input.Loads m target →
      VisitEnsures input entries signal done (m :: path) visit target)
    (hst : Found input entries done path st) :
    GraphM.Ensures signal s st (visitNew input visit m)
      (fun _ st' _ => Advances input entries done path st st' ∧ m ∈ st'.found)
      (fun e _ => input.Fault entries signal e) := by
  simp only [visitNew, GraphM.ensures_bind, GraphM.ensures_lift, BuildM.ensures_check,
    readModule_ensures, artifactOf_ensures, BuildM.ensures_mode, GraphM.ensures_modify]
  refine ⟨fun _ => ⟨fun content hread => ⟨fun a ha => ?_, fun e he => ?_⟩, fun e he => ?_⟩,
    fun hstop => .cancelled s hstop⟩
  · have hmakes : input.Makes m a := ⟨content, hread, ha⟩
    have hentered : Found input entries done (m :: path) st :=
      ⟨hst.recorded.enter hnew, hst.queued⟩
    refine (visitImports_ensures hreach hmakes hvisit a.imports (fun _ hi => hi) _ st
      hentered).mono ?_
    rintro dependencies st' s' ⟨hadvance, hfollows, hplaces⟩
    -- the record is made after the imports have been visited, from what they led to
    set r : ModuleRecord := ⟨m, ContentType.lowered m.extension, Digest.ofContent content, a,
      dependencies, sourceOf s'.mode m content a⟩
    have hsync : ∀ d ∈ r.syncDependencies, d.target ∈ st'.found := by
      intro d hd
      obtain ⟨hd, hkind⟩ := List.mem_filter.mp hd
      have hplace := hplaces d hd
      rwa [if_pos hkind] at hplace
    have hdeferred : ∀ d ∈ r.dependencies, d.kind = .deferred → d.target ∈ st'.seenRoots := by
      intro d hd hkind
      have hplace := hplaces d hd
      rwa [if_neg (by simp [Dependency.isSync, hkind])] at hplace
    have hdescribes : input.Describes r := ⟨⟨content, hread, rfl, ha⟩, hfollows⟩
    have hpushed := hadvance.holds.recorded.push hpath hdescribes hreach hsync hdeferred
    refine ⟨⟨⟨hpushed, hadvance.holds.queued⟩, fun b hb => ?_, hadvance.seen⟩, ?_⟩
    · have hb' := hadvance.found b hb
      simp only [GraphState.found, List.map_append, List.mem_append] at hb' ⊢
      exact Or.inl hb'
    · simp [GraphState.found, r]
  · exact .untransformed m content e hreach hread he
  · exact .unreadable m e hreach he

/-! ## §5. A module and what it loads. -/

/-- **Visiting a module** keeps the invariant and records the module, or fails for a reason. The
induction is on the bound: with the length of the path it makes up the bound for all paths, so it is not
used up before the path is. -/
theorem visit_ensures :
    ∀ (fuel : Nat) (path : List Identity) (m : Identity),
      fuel + path.length = fuelFor input → Trail input entries path m →
      VisitEnsures input entries signal done path (visit input fuel path) m := by
  intro fuel
  induction fuel with
  | zero =>
      -- the path would be as long as the bound
      intro path m hfuel htrail
      have hlength := htrail.length_lt
      omega
  | succ fuel ih =>
      intro path m hfuel htrail s st hst
      have hreach : input.Reachable entries m := htrail.reachable m List.mem_cons_self
      simp only [visit, GraphM.ensures_bind, isRecorded_ensures]
      split
      next hfound =>
        exact ⟨Advances.refl hst, of_decide_eq_true hfound⟩
      next hfound =>
        have hnew : m ∉ st.found := fun h => hfound (decide_eq_true h)
        -- a module that is being visited closes a cycle when it is met again
        split
        next cycle hcycle =>
          simp only [GraphM.ensures_lift, BuildM.ensures_fail]
          obtain ⟨hsimple, hcycleReach⟩ := htrail.simpleCycle hcycle
          exact .cyclic cycle hsimple hcycleReach
        next hcycle =>
          have hpath : m ∉ path := by
            intro h
            simp [cycleOf?, h] at hcycle
          refine visitNew_ensures hreach hpath hnew (fun target hlink => ?_) hst
          exact ih (m :: path) target (by simp only [List.length_cons]; omega)
            (htrail.extend hpath hlink)

end Graph

/-! ## §6. Finished graphs. -/

/-- **What a graph that can be divided into chunks is like.** -/
structure ModuleGraph.WellFormed (g : ModuleGraph) : Prop where
  nodup : g.order.Nodup
  placed : Placed g.records
  closed : ∀ r ∈ g.records, ∀ d ∈ r.dependencies, d.target ∈ g.order
  entriesRecorded : ∀ e ∈ g.entries, e.2 ∈ g.order
  rootsRecorded : ∀ m ∈ g.deferredRoots, m ∈ g.order
  rootsNodup : g.deferredRoots.Nodup
  /-- The target of a deferred import is the root of a group. -/
  rooted : ∀ r ∈ g.records, ∀ d ∈ r.dependencies, d.kind = .deferred →
    d.target ∈ g.entries.map (·.2) ∨ d.target ∈ g.deferredRoots

/-- **What the graph of some entries is like**: it holds what the project says of every module that the
entries reach, and nothing else. -/
structure GraphInput.Complete (input : GraphInput) (entries : List (String × Identity))
    (g : ModuleGraph) : Prop extends ModuleGraph.WellFormed g where
  entries_eq : g.entries = entries
  described : ∀ r ∈ g.records, input.Describes r
  reachable : ∀ r ∈ g.records, input.Reachable entries r.identity

/-- When the queue is empty and all roots have been visited, the graph is finished. -/
theorem Found.complete {input : GraphInput} {entries : List (String × Identity)}
    {roots : List Identity} {st : GraphState} (h : Found input entries roots [] st)
    (hempty : st.pendingRoots = []) (hentries : ∀ e ∈ entries, e.2 ∈ st.found)
    (hroots : ∀ m ∈ roots, m ∈ st.found) :
    input.Complete entries { records := st.records, entries, deferredRoots := roots } := by
  have hqueued : Queued input entries roots [] st.seenRoots := hempty ▸ h.queued
  have hrooted : ∀ r ∈ st.records, ∀ d ∈ r.dependencies, d.kind = .deferred →
      d.target ∈ entries.map (·.2) ∨ d.target ∈ roots := by
    intro r hr d hd hkind
    have hmet := hqueued.met _ (h.recorded.noted r hr d hd hkind)
    rwa [List.append_nil] at hmet
  refine ⟨⟨h.recorded.nodup, h.recorded.placed, ?_, hentries, hroots, ?_, hrooted⟩, rfl,
    h.recorded.described, h.recorded.reachable⟩
  -- targets of deferred imports are roots, the others have been recorded before
  · intro r hr d hd
    by_cases hkind : d.kind = .deferred
    · rcases hrooted r hr d hd hkind with hentry | hroot
      · obtain ⟨e, he, htarget⟩ := List.mem_map.mp hentry
        exact htarget ▸ hentries e he
      · exact hroots _ hroot
    · have hsync : d ∈ r.syncDependencies :=
        List.mem_filter.mpr ⟨hd, by simpa [Dependency.isSync] using hkind⟩
      exact NeedsFirst.mem h.recorded.placed hr (List.mem_map_of_mem hsync)
  · have hnodup := hqueued.nodup
    rwa [List.append_nil] at hnodup

/-! ## §7. The entries and the queue. -/

namespace Graph

variable {input : GraphInput} {entries : List (String × Identity)} {signal : CancelSignal}

theorem found_start : Found input entries [] [] {} := by
  refine ⟨⟨?_, ?_, ?_, ?_, ?_, ?_⟩, ⟨?_, ?_, ?_, ?_, ?_⟩⟩ <;> simp [Placed, NeedsFirst.nil]

/-- A module from which a traversal starts. -/
theorem visit_start_ensures {done : List Identity} {m : Identity}
    (hreach : input.Reachable entries m) :
    VisitEnsures input entries signal done [] (visit input (fuelFor input) []) m :=
  visit_ensures (fuelFor input) [] m rfl (Trail.start hreach)

/-- **The entries** are all recorded. -/
theorem visitEntries_ensures :
    ∀ (rest : List (String × Identity)), (∀ e ∈ rest, e ∈ entries) →
      ∀ s st, Found input entries [] [] st →
        GraphM.Ensures signal s st (visitEntries input rest)
          (fun _ st' _ => Advances input entries [] [] st st' ∧ ∀ e ∈ rest, e.2 ∈ st'.found)
          (fun e _ => input.Fault entries signal e) := by
  intro rest
  induction rest with
  | nil =>
      intro _ s st hst
      simp only [visitEntries, GraphM.ensures_pure]
      exact ⟨Advances.refl hst, by simp⟩
  | cons e rest ih =>
      intro hsub s st hst
      have he : e ∈ entries := hsub e List.mem_cons_self
      simp only [visitEntries, GraphM.ensures_bind, GraphM.ensures_modify]
      set st₁ : GraphState := if st.seenRoots.contains e.2 then st
        else { st with seenRoots := st.seenRoots ++ [e.2] } with hst₁
      -- the entry may have been met before, as an entry under another name
      have hmet : Advances input entries [] [] st st₁ := by
        rw [hst₁]
        split
        · exact Advances.refl hst
        · have hmono : ∀ a ∈ st.seenRoots, a ∈ st.seenRoots ++ [e.2] := fun a ha =>
            List.mem_append_left _ ha
          exact ⟨⟨hst.recorded.mono hmono, hst.queued.meet he⟩, fun _ ha => ha, hmono⟩
      refine (visit_start_ensures (.entry input he) s st₁ hmet.holds).mono ?_
      rintro _ st₂ s₂ ⟨hvisited, hfound⟩
      refine (ih (fun e' he' => hsub e' (List.mem_cons_of_mem _ he')) s₂ st₂
        hvisited.holds).mono ?_
      rintro _ st₃ s₃ ⟨hrest, hfoundRest⟩
      refine ⟨(hmet.trans hvisited).trans hrest, fun e' he' => ?_⟩
      rcases List.mem_cons.mp he' with rfl | he'
      · exact hrest.found _ hfound
      · exact hfoundRest e' he'

/-- **The queue** is worked off: there are no more deferred roots than files, so the bound is not used
up. -/
theorem visitPending_ensures :
    ∀ (fuel : Nat) (done : List Identity), fuel + done.length = fuelFor input →
      ∀ s st, Found input entries done [] st →
        GraphM.Ensures signal s st (visitPending input fuel)
          (fun roots st' _ => Found input entries (done ++ roots) [] st'
            ∧ st'.pendingRoots = [] ∧ (∀ m ∈ st.found, m ∈ st'.found)
            ∧ ∀ m ∈ roots, m ∈ st'.found)
          (fun e _ => input.Fault entries signal e) := by
  intro fuel
  induction fuel with
  | zero =>
      intro done hfuel s st hst
      -- as many roots as the bound says would be more than there are files
      have hlength := hst.queued.length_le
      have hbound : fuelFor input = input.files.entries.length + 2 := rfl
      omega
  | succ fuel ih =>
      intro done hfuel s st hst
      simp only [visitPending, GraphM.ensures_bind, GraphM.ensures_get]
      split
      next hempty =>
        refine ⟨?_, hempty, fun _ hm => hm, by simp⟩
        rwa [List.append_nil]
      next m rest hpending =>
        have hm : m ∈ done ++ st.pendingRoots := by
          rw [hpending]
          simp
        have hreach : input.Reachable entries m :=
          hst.queued.reachable m (hst.queued.noted m hm)
        -- the first of the queue counts as taken before it is visited
        have htaken : Found input entries (done ++ [m]) [] { st with pendingRoots := rest } :=
          ⟨hst.recorded, Queued.take (hpending ▸ hst.queued)⟩
        simp only [GraphM.ensures_bind, GraphM.ensures_modify]
        refine (visit_start_ensures hreach s _ htaken).mono ?_
        rintro _ st₁ s₁ ⟨hvisited, hfound⟩
        have hlength : fuel + (done ++ [m]).length = fuelFor input := by
          rw [List.length_append, List.length_singleton]
          omega
        refine (ih (done ++ [m]) hlength s₁ st₁ hvisited.holds).mono ?_
        rintro roots st₂ s₂ ⟨hst₂, hempty, hmono, hroots⟩
        refine ⟨by simpa using hst₂, hempty, fun a ha => hmono a (hvisited.found a ha), ?_⟩
        intro a ha
        rcases List.mem_cons.mp ha with rfl | ha
        · exact hmono _ hfound
        · exact hroots a ha

/-- **The traversal**: it gives the graph of the entries, or fails for a reason. -/
theorem build_ensures (s : Session) :
    BuildM.Ensures signal s (build input entries)
      (fun g _ => input.Complete entries g) (fun e _ => input.Fault entries signal e) := by
  have hrun : GraphM.Ensures signal s {} (do
        visitEntries input entries
        visitPending input (fuelFor input))
      (fun roots st' _ => input.Complete entries
        { records := st'.records, entries, deferredRoots := roots })
      (fun e _ => input.Fault entries signal e) := by
    rw [GraphM.ensures_bind]
    refine (visitEntries_ensures entries (fun _ he => he) s {} found_start).mono ?_
    rintro _ st₁ s₁ ⟨hentries, hfound⟩
    refine (visitPending_ensures (fuelFor input) [] rfl s₁ st₁ hentries.holds).mono ?_
    rintro roots st₂ s₂ ⟨hst₂, hempty, hmono, hroots⟩
    exact hst₂.complete hempty (fun e he => hmono _ (hfound e he)) hroots
  simp only [build, BuildM.ensures_bind]
  exact BuildM.Ensures.mono hrun (fun _ _ h => h) (fun _ _ h => h)

end Graph

end AssetBundler
