/-
  AssetBundler.Proofs.Page.Execution
  ────────────────────────────────
  **THE ORDER IN WHICH MODULES RUN.**

  In the browser a module whose imports stand at its top runs behind the
  modules that it loads, and every module runs once.  This order is a walk
  over the links of the graph from the modules that the scripts of the page
  start with:

    • `Page.Runs` — running modules one after the other,
    • `Page.Runs.filter` — what else runs does not matter for modules that
      it does not lead to,
    • `Page.Runs.sublist_of_same_start` — two runs apply two modules in the
      same order when these are first reached from the same start,
    • `Plan.startOf?_eq_some` — what the script of a group starts with,
    • `Graph.exists_runs_prefix` — the order of a graph is that of a run.
-/
import AssetBundler.Proofs.Build.Trace
import AssetBundler.Proofs.Page.Listing

namespace AssetBundler

open Relation

/-! ## §1. Runs. -/

namespace Page

/-- Modules are run one after the other, when some have run before; `targets` has the modules that a
module loads, in the order of its imports, which all stand at its top. As no module loads itself, it
makes no difference that the runtime takes note of a module when it begins and not when it ends. -/
inductive Runs (targets : Identity → List Identity) :
    List Identity → List Identity → List Identity → Prop
  | nil (done : List Identity) : Runs targets done [] done
  /-- A module that has run is passed over. -/
  | again {done done' rest : List Identity} {m : Identity} (hm : m ∈ done)
      (h : Runs targets done rest done') : Runs targets done (m :: rest) done'
  /-- Another runs behind what it loads. -/
  | run {done done₁ done' rest : List Identity} {m : Identity} (hm : m ∉ done)
      (htargets : Runs targets done (targets m) done₁) (h : Runs targets (done₁ ++ [m]) rest done') :
      Runs targets done (m :: rest) done'

namespace Runs

variable {targets : Identity → List Identity} {done done' done'' ms ms' : List Identity}
  {m s t x : Identity}

/-- **A run has one order.** -/
theorem unique (h : Runs targets done ms done') (h' : Runs targets done ms done'') :
    done' = done'' := by
  induction h generalizing done'' with
  | nil done =>
      cases h'
      rfl
  | again hm _ ih =>
      cases h' with
      | again _ h' => exact ih h'
      | run hnew _ _ => exact absurd hm hnew
  | run hm _ _ ihtargets ih =>
      cases h' with
      | again hold _ => exact absurd hold hm
      | run _ htargets h' =>
          obtain rfl := ihtargets htargets
          exact ih h'

theorem append (h : Runs targets done ms done') (h' : Runs targets done' ms' done'') :
    Runs targets done (ms ++ ms') done'' := by
  induction h with
  | nil done => exact h'
  | again hm _ ih => exact .again hm (ih h')
  | run hm htargets _ _ ih => exact .run hm htargets (ih h')

/-- A run of some modules and then of others. -/
theorem exists_of_append : ∀ {ms : List Identity} {done : List Identity},
    Runs targets done (ms ++ ms') done'' →
      ∃ done', Runs targets done ms done' ∧ Runs targets done' ms' done''
  | [], done, h => ⟨done, .nil done, h⟩
  | m :: ms, done, h => by
      cases h with
      | again hm h =>
          obtain ⟨done', hfirst, hrest⟩ := exists_of_append h
          exact ⟨done', .again hm hfirst, hrest⟩
      | run hm htargets h =>
          obtain ⟨done', hfirst, hrest⟩ := exists_of_append h
          exact ⟨done', .run hm htargets hfirst, hrest⟩

theorem isPrefix (h : Runs targets done ms done') : done <+: done' := by
  induction h with
  | nil done => exact List.prefix_rfl
  | again _ _ ih => exact ih
  | run _ _ _ ihtargets ih => exact (ihtargets.trans (List.prefix_append _ _)).trans ih

/-- What runs is reached from what is to run. -/
theorem reached (h : Runs targets done ms done') (hx : x ∈ done') :
    x ∈ done ∨ ∃ m ∈ ms, ReflTransGen (fun m target => target ∈ targets m) m x := by
  induction h with
  | nil done => exact Or.inl hx
  | again _ _ ih =>
      exact (ih hx).imp_right fun ⟨m, hm, hpath⟩ => ⟨m, List.mem_cons_of_mem _ hm, hpath⟩
  | @run done done₁ done' rest m _ _ _ ihtargets ih =>
      rcases ih hx with hx | ⟨m', hm', hpath⟩
      · rcases List.mem_append.mp hx with hx | hx
        · refine (ihtargets hx).imp_right ?_
          rintro ⟨target, htarget, hpath⟩
          exact ⟨m, List.mem_cons_self, .head htarget hpath⟩
        · obtain rfl := List.mem_singleton.mp hx
          exact Or.inr ⟨x, List.mem_cons_self, .refl⟩
      · exact Or.inr ⟨m', List.mem_cons_of_mem _ hm', hpath⟩

/-- What is to run has run in the end, and so has what it loads. -/
theorem closed (h : Runs targets done ms done') (hdone : ∀ x ∈ done, ∀ y ∈ targets x, y ∈ done) :
    (∀ x ∈ done', ∀ y ∈ targets x, y ∈ done') ∧ ∀ m ∈ ms, m ∈ done' := by
  induction h with
  | nil done => exact ⟨hdone, by simp⟩
  | again hm hrest ih =>
      obtain ⟨hclosed, hall⟩ := ih hdone
      exact ⟨hclosed, List.forall_mem_cons.mpr ⟨hrest.isPrefix.subset hm, hall⟩⟩
  | @run done done₁ done' rest m hm htargets hrest ihtargets ih =>
      obtain ⟨hclosed₁, hall₁⟩ := ihtargets hdone
      have hnext : ∀ x ∈ done₁ ++ [m], ∀ y ∈ targets x, y ∈ done₁ ++ [m] := by
        refine forall_mem_append_singleton.mpr ⟨fun x hx y hy => ?_, fun y hy => ?_⟩
        · exact List.mem_append_left _ (hclosed₁ x hx y hy)
        · exact List.mem_append_left _ (hall₁ y hy)
      obtain ⟨hclosed, hall⟩ := ih hnext
      refine ⟨hclosed, List.forall_mem_cons.mpr ⟨hrest.isPrefix.subset ?_, hall⟩⟩
      exact List.mem_append_right _ List.mem_cons_self

/-- **From nothing on, exactly what is reached runs.** -/
theorem mem_iff (h : Runs targets [] ms done') :
    x ∈ done' ↔ ∃ m ∈ ms, ReflTransGen (fun m target => target ∈ targets m) m x := by
  obtain ⟨hclosed, hall⟩ := h.closed (by simp)
  constructor
  · intro hx
    exact (h.reached hx).resolve_left List.not_mem_nil
  · rintro ⟨m, hm, hpath⟩
    induction hpath with
    | refl => exact hall m hm
    | tail _ hlink ih => exact hclosed _ ih _ hlink

/-- **No module runs twice** when none loads itself. -/
theorem nodup (hacyclic : ∀ m, ¬ TransGen (fun m target => target ∈ targets m) m m)
    (h : Runs targets done ms done') (hdone : done.Nodup) : done'.Nodup := by
  induction h with
  | nil done => exact hdone
  | again _ _ ih => exact ih hdone
  | run hm htargets _ ihtargets ih =>
      refine ih (nodup_append_singleton.mpr ⟨fun hmem => ?_, ihtargets hdone⟩)
      rcases htargets.reached hmem with hold | ⟨target, htarget, hpath⟩
      · exact hm hold
      · exact hacyclic _ (TransGen.head' htarget hpath)

/-- Where every link leads down in some order, there is a run. -/
theorem exists_run {rank : Identity → Nat} (hrank : ∀ m, ∀ y ∈ targets m, rank y < rank m) :
    ∀ (n : Nat) (ms : List Identity) (done : List Identity), (∀ m ∈ ms, rank m < n) →
      ∃ done', Runs targets done ms done' := by
  intro n
  induction n with
  | zero =>
      intro ms done hms
      cases ms with
      | nil => exact ⟨done, .nil done⟩
      | cons m ms => exact absurd (hms m List.mem_cons_self) (Nat.not_lt_zero _)
  | succ n ih =>
      intro ms
      induction ms with
      | nil => exact fun done _ => ⟨done, .nil done⟩
      | cons m ms ihms =>
          intro done hms
          obtain ⟨hm, hrest⟩ := List.forall_mem_cons.mp hms
          by_cases hdone : m ∈ done
          · obtain ⟨done', hrun⟩ := ihms done hrest
            exact ⟨done', .again hdone hrun⟩
          · have hlower : ∀ y ∈ targets m, rank y < n := fun y hy =>
              Nat.lt_of_lt_of_le (hrank m y hy) (Nat.lt_succ_iff.mp hm)
            obtain ⟨done₁, htargets⟩ := ih (targets m) done hlower
            obtain ⟨done', hrun⟩ := ihms (done₁ ++ [m]) hrest
            exact ⟨done', .run hdone htargets hrun⟩

/-! ## §2. Runs of some modules only. -/

/-- **Modules that lead nowhere important may be left out**: when only modules with a property lead to
modules with it, these run in the order in which they would run alone. -/
theorem filter {p : Identity → Bool} (hp : ∀ m, ∀ y ∈ targets m, p y = true → p m = true)
    (h : Runs targets done ms done') :
    Runs (fun m => (targets m).filter p) (done.filter p) (ms.filter p) (done'.filter p) := by
  induction h with
  | nil done => exact .nil _
  | @again done done' rest m hm _ ih =>
      rw [List.filter_cons]
      split
      next hpm => exact .again (List.mem_filter.mpr ⟨hm, hpm⟩) ih
      next => exact ih
  | @run done done₁ done' rest m hm _ _ ihtargets ih =>
      rw [List.filter_append] at ih
      rw [List.filter_cons]
      split
      next hpm =>
        rw [List.filter_cons_of_pos hpm, List.filter_nil] at ih
        exact .run (fun hmem => hm (List.mem_filter.mp hmem).1) ihtargets ih
      next hpm =>
        -- nothing that the module loads has the property
        have hnone : (targets m).filter p = [] :=
          List.filter_eq_nil_iff.mpr fun y hy hpy => hpm (hp m y hy hpy)
        rw [hnone] at ihtargets
        rw [List.filter_cons_of_neg hpm, List.filter_nil, List.append_nil,
          ihtargets.unique (.nil _)] at ih
        exact ih

end Runs

end Page

/-! ## §3. Two elements in order. -/

section

variable {α : Type} {xs ys : List α} {a b : α}

/-- In a list without repetition, what comes before an element of the first part is in that part. -/
theorem sublist_left_of_append (hnodup : (xs ++ ys).Nodup) (hb : b ∈ xs)
    (h : [a, b].Sublist (xs ++ ys)) : [a, b].Sublist xs := by
  obtain ⟨before, after, heq, hbefore, hafter⟩ := List.sublist_append_iff.mp h
  rcases List.eq_nil_or_concat after with rfl | ⟨middle, last, rfl⟩
  · rw [heq, List.append_nil]
    exact hbefore
  · -- otherwise the second element would be in both parts
    have hlast : b = last := by
      have hend := congrArg List.getLast? heq
      simpa [List.concat_eq_append, List.getLast?_append] using hend
    have hmem : b ∈ ys := hafter.subset (by simp [hlast])
    exact absurd rfl ((List.nodup_append.mp hnodup).2.2 b hb b hmem)

/-- A part of a list without repetition has the order of the list. -/
theorem sublist_of_sublist (hsub : xs.Sublist ys) :
    ys.Nodup → a ∈ xs → b ∈ xs → [a, b].Sublist ys → [a, b].Sublist xs := by
  induction hsub with
  | slnil => exact fun _ _ _ h => h
  | @cons xs ys y hsub ih =>
      intro hnodup ha hb h
      obtain ⟨hy, hys⟩ := List.nodup_cons.mp hnodup
      have hne : a ≠ y := fun heq => hy (hsub.subset (heq ▸ ha))
      refine ih hys ha hb ?_
      cases h with
      | cons _ h => exact h
      | cons_cons _ h => exact absurd rfl hne
  | @cons_cons xs ys y hsub ih =>
      intro hnodup ha hb h
      obtain ⟨hy, hys⟩ := List.nodup_cons.mp hnodup
      cases h with
      | cons _ h =>
          have hmem : ∀ c ∈ [a, b], c ∈ ys := fun c hc => h.subset hc
          have hne : ∀ c ∈ [a, b], c ≠ y := fun c hc heq => hy (heq ▸ hmem c hc)
          have ha' : a ∈ xs := (List.mem_cons.mp ha).resolve_left (hne a (by simp))
          have hb' : b ∈ xs := (List.mem_cons.mp hb).resolve_left (hne b (by simp))
          exact (ih hys ha' hb' h).cons _
      | cons_cons _ h =>
          have hb' : b ∈ ys := List.singleton_sublist.mp h
          have hne : b ≠ a := fun heq => hy (heq ▸ hb')
          have hbx : b ∈ xs := (List.mem_cons.mp hb).resolve_left hne
          exact (List.singleton_sublist.mpr hbx).cons_cons _

/-- An earlier place is an order. -/
theorem sublist_of_idxOf_lt [BEq α] [LawfulBEq α] (hb : b ∈ xs) (hlt : xs.idxOf a < xs.idxOf b) :
    [a, b].Sublist xs := by
  obtain ⟨before, after, rfl, hnew⟩ := List.eq_append_cons_of_mem hb
  have ha : a ∈ before := by
    by_contra ha
    rw [List.idxOf_append_of_notMem ha, List.idxOf_append_of_notMem hnew,
      List.idxOf_cons_self] at hlt
    omega
  exact (List.singleton_sublist.mpr ha).append (List.singleton_sublist.mpr List.mem_cons_self)

end

/-! ## §4. Two runs. -/

namespace Page.Runs

variable {targets : Identity → List Identity} {done done' ms ms' rest rest' : List Identity}
  {m s t : Identity}

/-- **The same start gives the same order**: when the first module from which one of two is reached is
the same in two runs, and both are reached from it, the two come in the same order in both runs. -/
theorem sublist_of_same_start {p : Identity → Bool}
    (hacyclic : ∀ m, ¬ TransGen (fun m target => target ∈ targets m) m m)
    (hp : ∀ x, p x = true ↔ ReflTransGen (fun m target => target ∈ targets m) x s
      ∨ ReflTransGen (fun m target => target ∈ targets m) x t)
    (h : Runs targets [] ms done) (h' : Runs targets [] ms' done')
    (hfirst : ms.filter p = m :: rest) (hfirst' : ms'.filter p = m :: rest')
    (ht : ReflTransGen (fun m target => target ∈ targets m) m t)
    (horder : [s, t].Sublist done) : [s, t].Sublist done' := by
  have hup : ∀ m, ∀ y ∈ targets m, p y = true → p m = true := by
    intro m y hy hpy
    refine (hp m).mpr (((hp y).mp hpy).imp ?_ ?_) <;> exact ReflTransGen.head hy
  have hrun := h.filter hup
  have hrun' := h'.filter hup
  rw [hfirst, ← List.singleton_append] at hrun
  rw [hfirst', ← List.singleton_append] at hrun'
  -- what the first module leads to runs at the beginning of both runs
  obtain ⟨first, hstart, hrest⟩ := exists_of_append hrun
  obtain ⟨first', hstart', hrest'⟩ := exists_of_append hrun'
  obtain rfl := hstart.unique hstart'
  have hpath : ReflTransGen (fun m target => target ∈ (targets m).filter p) m t := by
    refine ReflTransGen.head_induction_on ht .refl fun {a c} hlink hrest ih => ?_
    exact .head (List.mem_filter.mpr ⟨hlink, (hp c).mpr (Or.inr hrest)⟩) ih
  have hmem : t ∈ first := hstart.mem_iff.mpr ⟨m, List.mem_singleton.mpr rfl, hpath⟩
  have hps : p s = true := (hp s).mpr (Or.inl .refl)
  have hpt : p t = true := (hp t).mpr (Or.inr .refl)
  have hboth : [s, t].Sublist (done.filter p) := by
    have hsame : [s, t].filter p = [s, t] := by simp [hps, hpt]
    exact hsame ▸ horder.filter p
  obtain ⟨later, hlater⟩ := hrest.isPrefix
  have hnodup : (first ++ later).Nodup := hlater ▸ (h.nodup hacyclic List.nodup_nil).filter p
  have hinner := sublist_left_of_append hnodup hmem (hlater ▸ hboth)
  exact (hinner.trans hrest'.isPrefix.sublist).trans List.filter_sublist

end Page.Runs

/-! ## §5. The order of a graph. -/

/-- The modules that are visited at once. -/
def Link.syncTargets (links : List Link) : List Identity :=
  (links.filter (·.isSync)).map (·.target)

/-- A walk runs what it visits at once. -/
theorem Walk.runs {links : Identity → List Link} {t t' : Trace} {tasks : List Link}
    (h : Walk links t tasks t') :
    Page.Runs (fun m => Link.syncTargets (links m)) t.found (Link.syncTargets tasks) t'.found := by
  induction h with
  | nil t => exact .nil _
  | @note t _ m _ _ ih =>
      have hfound : (t.note m).found = t.found := by
        unfold Trace.note
        split <;> rfl
      exact hfound ▸ ih
  | again hm _ ih => exact .again hm ih
  | enter hm _ _ ihlinks ih => exact .run hm ihlinks ih

theorem WalkEntries.runs {links : Identity → List Link} {t t' : Trace} {ms : List Identity}
    (h : WalkEntries links t ms t') :
    Page.Runs (fun m => Link.syncTargets (links m)) t.found ms t'.found := by
  induction h with
  | nil t => exact .nil _
  | @cons t _ _ m _ hvisit _ ih =>
      have hfound : (t.meet m).found = t.found := by
        unfold Trace.meet
        split <;> rfl
      have hfirst := hvisit.runs
      rw [hfound] at hfirst
      exact hfirst.append ih

theorem WalkPending.isPrefix {links : Identity → List Link} {t t' : Trace} {ms : List Identity}
    (h : WalkPending links t ms t') : t.found <+: t'.found := by
  induction h with
  | nil t => exact List.prefix_rfl
  | cons _ hvisit _ ih => exact hvisit.runs.isPrefix.trans ih

theorem Plan.syncTargets_eq_links (g : ModuleGraph) :
    Plan.syncTargets g = fun m => Link.syncTargets (g.links m) := by
  funext m
  unfold Plan.syncTargets ModuleGraph.links
  cases g.get? m with
  | none => rfl
  | some r =>
      simp [Link.syncTargets, ModuleRecord.links, ModuleRecord.syncDependencies, List.filter_map,
        Function.comp_def, Dependency.link]

/-- **The order of a graph begins as a run of its entries.** -/
theorem Graph.exists_runs_prefix {input : GraphInput} {entries : List (String × Identity)}
    {signal : CancelSignal} {session : Session} {g : ModuleGraph}
    (h : ((build input entries).exec signal session).1 = .ok g) :
    ∃ loaded, Page.Runs (Plan.syncTargets g) [] (g.entries.map (·.2)) loaded
      ∧ loaded <+: g.order := by
  obtain ⟨t, t', hentries, hpending, _, hfound⟩ := (walked_of_build h).walks
  rw [Plan.syncTargets_eq_links]
  exact ⟨t.found, hentries.runs, hfound ▸ hpending.isPrefix⟩

/-! ## §6. What the scripts of a page start with. -/

/-- The module that the script of a group runs. -/
def ChunkPlan.startOf? (plan : ChunkPlan) (i : Nat) : Option Identity :=
  (plan.chunkOf? i .script).bind (·.entryModule?)

/-- The modules that the scripts of a page run, one script after the other. -/
def Page.starts (plan : ChunkPlan) : List Identity :=
  (Emit.initialGroups plan).filterMap plan.startOf?

namespace Plan

variable {g : ModuleGraph} {plan : ChunkPlan} {group : ChunkGroup}
  {scripts stylesheets : List Identity} {i : Nat} {m : Identity}

/-- Scripts start as their groups say. -/
def Started (plan : ChunkPlan) : Prop :=
  ∀ i, plan.startOf? i = plan.groups[i]?.bind fun c => entryModule? c (plan.modulesOf i .script)

theorem startOf?_addChunks_last :
    (addChunks plan group scripts stylesheets).startOf? plan.groups.length
      = entryModule? group scripts := by
  cases scripts with
  | nil =>
      cases stylesheets <;>
        simp [ChunkPlan.startOf?, ChunkPlan.chunkOf?, ChunkPlan.chunkIndex?, addChunks,
          entryModule?]
  | cons m scripts =>
      cases stylesheets <;>
        simp [ChunkPlan.startOf?, ChunkPlan.chunkOf?, ChunkPlan.chunkIndex?, addChunks,
          entryModule?]

/-- One more group with its chunks. -/
theorem Started.addChunks (h : Started plan) (hfiled : Filed plan) :
    Started (addChunks plan group scripts stylesheets) := by
  intro i
  rcases Nat.lt_trichotomy i plan.groups.length with hi | rfl | hi
  · have hchunk : (Plan.addChunks plan group scripts stylesheets).chunkOf? i .script
        = plan.chunkOf? i .script := by
      unfold ChunkPlan.chunkOf?
      rw [chunkIndex?_addChunks hi]
      cases hk : plan.chunkIndex? i .script with
      | none => rfl
      | some k =>
          simp only [Option.bind_some, Plan.addChunks, List.append_assoc,
            List.getElem?_append_left (hfiled.lt_length hk)]
    have hstart : (Plan.addChunks plan group scripts stylesheets).startOf? i = plan.startOf? i := by
      unfold ChunkPlan.startOf?
      rw [hchunk]
    rw [hstart, h i, modulesOf_addChunks hi fun k hk => hfiled.lt_length hk]
    simp only [Plan.addChunks, List.getElem?_append_left hi]
  · rw [startOf?_addChunks_last, modulesOf_addChunks_last]
    simp [Plan.addChunks, entryModule?]
  · have hnone : (Plan.addChunks plan group scripts stylesheets).groups[i]? = none := by
      refine List.getElem?_eq_none ?_
      rw [length_groups_addChunks]
      exact hi
    simp [ChunkPlan.startOf?, ChunkPlan.chunkOf?, ChunkPlan.chunkIndex?, hnone]

theorem Started.assemble {index : GroupIndex} {count : Nat} :
    ∀ (groups : List ChunkGroup) (i : Nat) {plan : ChunkPlan}, Started plan → Filed plan →
      Started (assemble g index count i groups plan)
  | [], _, _, h, _ => h
  | _ :: groups, i, _, h, hfiled =>
      Started.assemble groups (i + 1) (h.addChunks hfiled) hfiled.addChunks

/-- **What the script of a group starts with** is the module of an entry, if that is in the script. -/
theorem startOf?_eq_some (hg : g.WellFormed) :
    g.split.startOf? i = some m
      ↔ (g.entries[i]?).map (·.2) = some m ∧ m ∈ g.split.modulesOf i .script := by
  have hempty : Started ⟨[], []⟩ := by
    intro i
    simp [ChunkPlan.startOf?, ChunkPlan.chunkOf?, ChunkPlan.chunkIndex?]
  have hfiled : Filed ⟨[], []⟩ := by
    refine ⟨?_, ?_, ?_⟩ <;> simp [ChunkPlan.chunkIndex?]
  have hstarted : Started g.split := Started.assemble (grouping g).1 0 hempty hfiled
  have hsignature : (g.split.groups[i]?).map ChunkGroup.signature = some (.entry, some m)
      ↔ (g.entries[i]?).map (·.2) = some m := by
    rw [← List.getElem?_map, signatures_split hg]
    by_cases hi : i < g.entries.length
    · rw [List.append_assoc, List.getElem?_append_left (by simpa using hi)]
      simp [List.getElem?_eq_getElem hi]
    · have hnone : g.entries[i]? = none := List.getElem?_eq_none (not_lt.mp hi)
      rw [hnone, List.append_assoc, List.getElem?_append_right (by simpa using hi)]
      -- the groups behind those of the entries have other roles
      refine iff_of_false (fun h => ?_) (by simp)
      simpa using List.mem_of_getElem? h
  rw [hstarted i, ← hsignature]
  cases g.split.groups[i]? with
  | none => simp
  | some c =>
      by_cases hrole : c.role = .entry <;>
        simp [entryModule?, ChunkGroup.signature, Option.filter_eq_some_iff, hrole]

end Plan

end AssetBundler
