/-
  AssetBundler.Proofs.Build.Imports
  ────────────────────────────────
  **HOW THE MODULES OF A PROJECT LEAD TO EACH OTHER.**

  What the files, the rules and the cache say about a module, without any
  traversal: the artifact it is made into, the modules its imports lead to,
  and the modules that the entries reach.  A traversal is right when it finds
  exactly these, and it may fail only for a reason that these give:

    • `GraphInput.Imports`, `GraphInput.Loads` — edges of any kind, and those
      of modules loaded together,
    • `GraphInput.Reachable` — what the entries lead to,
    • `SimpleCycle` — a cycle that repeats only its first module,
    • `GraphInput.Fault` — the reasons for which a build may fail.
-/
import AssetBundler.Proofs.Build.Action
import AssetBundler.Proofs.Project.Resolve
import Mathlib.Logic.Relation
import Mathlib.Data.List.Chain

namespace AssetBundler

open Relation

/-! ## §1. Cycles. -/

/-- A path along `step` that comes back to where it starts and passes no other place twice. -/
def SimpleCycle {α : Type} (step : α → α → Prop) (cycle : List α) : Prop :=
  ∃ first rest, cycle = first :: rest ++ [first] ∧ (first :: rest).Nodup ∧ cycle.IsChain step

theorem transGen_of_isChain {α : Type} {step : α → α → Prop} :
    ∀ (rest : List α) (first last : α), (first :: rest ++ [last]).IsChain step →
      TransGen step first last
  | [], first, last, h => by
      simp only [List.cons_append, List.nil_append, List.isChain_cons_cons] at h
      exact TransGen.single h.1
  | second :: rest, first, last, h => by
      simp only [List.cons_append, List.isChain_cons_cons] at h
      exact TransGen.head h.1 (transGen_of_isChain rest second last (by simpa using h.2))

/-- Every cycle comes back to its first place. -/
theorem SimpleCycle.exists_transGen {α : Type} {step : α → α → Prop} {cycle : List α}
    (h : SimpleCycle step cycle) : ∃ first ∈ cycle, TransGen step first first := by
  obtain ⟨first, rest, rfl, _, hchain⟩ := h
  exact ⟨first, by simp, transGen_of_isChain rest first first hchain⟩

/-! ## §2. What a project says about a module. -/

/-- What is found is in the cache, under the module and with the digest asked for. -/
theorem TransformCache.mem_of_lookup {cache : TransformCache} {m : Identity} {digest : String}
    {a : Artifact} (h : cache.lookup m digest = some a) : ⟨m, digest, a⟩ ∈ cache := by
  unfold lookup at h
  simp only [Option.map_eq_some_iff, Option.filter_eq_some_iff, beq_iff_eq] at h
  obtain ⟨c, ⟨hfind, rfl⟩, rfl⟩ := h
  have hidentity : c.identity = m := by simpa using List.find?_some hfind
  exact hidentity ▸ List.mem_of_find?_eq_some hfind

namespace GraphInput

/-- The artifact of a module with a content: that of the last build if the content is the same, else
what its rule makes of it. -/
def artifactFor (input : GraphInput) (m : Identity) (content : ByteArray) :
    Except BuildError Artifact :=
  match input.cache.lookup m (Digest.ofContent content) with
  | some a => .ok a
  | none => (input.table.transform m content).2

/-- The file of the module can be read, and its content is made into the artifact. -/
def Makes (input : GraphInput) (m : Identity) (a : Artifact) : Prop :=
  ∃ content, input.files.read m.path = .ok content ∧ input.artifactFor m content = .ok a

theorem Makes.unique {input : GraphInput} {m : Identity} {a b : Artifact}
    (ha : input.Makes m a) (hb : input.Makes m b) : a = b := by
  obtain ⟨c, hc, hca⟩ := ha
  obtain ⟨d, hd, hdb⟩ := hb
  have hcd : c = d := Except.ok.inj (hc.symm.trans hd)
  subst hcd
  exact Except.ok.inj (hca.symm.trans hdb)

/-- The specifier of an import leads from one module to another. -/
def Resolves (input : GraphInput) (m : Identity) (i : Import) (target : Identity) : Prop :=
  Resolve.specifier input.config input.files i.specifier m = .ok target

/-- An import of the one module leads to the other. -/
def Imports (input : GraphInput) (m target : Identity) : Prop :=
  ∃ a, input.Makes m a ∧ ∃ i ∈ a.imports, input.Resolves m i target

/-- An import of the one module leads to the other and loads it together with the first. -/
def Loads (input : GraphInput) (m target : Identity) : Prop :=
  ∃ a, input.Makes m a ∧ ∃ i ∈ a.imports, i.isSync = true ∧ input.Resolves m i target

theorem Loads.imports {input : GraphInput} {m target : Identity} (h : input.Loads m target) :
    input.Imports m target := by
  obtain ⟨a, ha, i, hi, _, htarget⟩ := h
  exact ⟨a, ha, i, hi, htarget⟩

theorem Imports.mem_locations {input : GraphInput} {m target : Identity}
    (h : input.Imports m target) : target.location ∈ input.files.locations := by
  obtain ⟨_, _, _, _, htarget⟩ := h
  exact Resolve.target_mem_locations htarget

/-- Imports lead from an entry to the module. -/
def Reachable (input : GraphInput) (entries : List (String × Identity)) (m : Identity) : Prop :=
  ∃ e ∈ entries, ReflTransGen input.Imports e.2 m

theorem Reachable.entry (input : GraphInput) {entries : List (String × Identity)}
    {e : String × Identity} (he : e ∈ entries) : input.Reachable entries e.2 :=
  ⟨e, he, ReflTransGen.refl⟩

theorem Reachable.step {input : GraphInput} {entries : List (String × Identity)}
    {m target : Identity} (hm : input.Reachable entries m) (h : input.Imports m target) :
    input.Reachable entries target := by
  obtain ⟨e, he, hpath⟩ := hm
  exact ⟨e, he, hpath.tail h⟩

/-- What imports never leave, and what holds the entries, holds every module that is reachable. -/
theorem Reachable.induction {input : GraphInput} {entries : List (String × Identity)}
    {motive : Identity → Prop} (hentry : ∀ e ∈ entries, motive e.2)
    (hstep : ∀ m target, motive m → input.Imports m target → motive target) {m : Identity}
    (h : input.Reachable entries m) : motive m := by
  obtain ⟨e, he, hpath⟩ := h
  induction hpath with
  | refl => exact hentry e he
  | tail _ hlink ih => exact hstep _ _ ih hlink

/-! ## §3. Modules that the traversal can handle. -/

/-- The module can be read and transformed, and all its specifiers can be resolved. -/
def Sound (input : GraphInput) (m : Identity) : Prop :=
  ∃ a, input.Makes m a ∧ ∀ i ∈ a.imports, ∃ target, input.Resolves m i target

/-- **The reasons for which a build may fail**, each about a module that the entries reach. -/
inductive Fault (input : GraphInput) (entries : List (String × Identity))
    (signal : CancelSignal) : BuildError → Prop
  /-- The build was told to stop. -/
  | cancelled (s : Session) (h : signal s = true) : Fault input entries signal .cancelled
  /-- The file of a module cannot be read. -/
  | unreadable (m : Identity) (e : FileError) (hm : input.Reachable entries m)
      (h : input.files.read m.path = .error e) : Fault input entries signal (.read m e)
  /-- The content of a module cannot be transformed. -/
  | untransformed (m : Identity) (content : ByteArray) (e : BuildError)
      (hm : input.Reachable entries m) (hread : input.files.read m.path = .ok content)
      (h : input.artifactFor m content = .error e) : Fault input entries signal e
  /-- A specifier leads nowhere. -/
  | unresolved (m : Identity) (a : Artifact) (i : Import) (e : BuildError)
      (hm : input.Reachable entries m) (ha : input.Makes m a) (hi : i ∈ a.imports)
      (h : Resolve.specifier input.config input.files i.specifier m = .error e) :
      Fault input entries signal e
  /-- Modules that load each other. -/
  | cyclic (cycle : List Identity) (hcycle : SimpleCycle input.Loads cycle)
      (hreach : ∀ m ∈ cycle, input.Reachable entries m) :
      Fault input entries signal (.cyclicDependency cycle)

/-- When every module that the entries reach is sound, a build fails only because it is told to stop or
because of a cycle. -/
theorem Fault.of_sound {input : GraphInput} {entries : List (String × Identity)}
    {signal : CancelSignal} {e : BuildError} (h : input.Fault entries signal e)
    (hsound : ∀ m, input.Reachable entries m → input.Sound m) :
    (e = .cancelled ∧ ∃ s, signal s = true)
      ∨ ∃ cycle, e = .cyclicDependency cycle ∧ SimpleCycle input.Loads cycle
          ∧ ∀ m ∈ cycle, input.Reachable entries m := by
  cases h with
  | cancelled s hs => exact Or.inl ⟨rfl, s, hs⟩
  | unreadable m e hm hread =>
      obtain ⟨a, ⟨content, hcontent, _⟩, _⟩ := hsound m hm
      rw [hread] at hcontent
      cases hcontent
  | untransformed m content _ hm hread herror =>
      obtain ⟨a, ⟨content', hcontent, hmade⟩, _⟩ := hsound m hm
      -- a file has one content
      have hsame : content = content' := Except.ok.inj (hread.symm.trans hcontent)
      rw [← hsame, herror] at hmade
      cases hmade
  | unresolved m a i _ hm ha hi herror =>
      obtain ⟨b, hb, hresolved⟩ := hsound m hm
      obtain ⟨target, htarget⟩ := hresolved i (ha.unique hb ▸ hi)
      have hclash := herror.symm.trans htarget
      cases hclash
  | cyclic cycle hcycle hreach => exact Or.inr ⟨cycle, rfl, hcycle, hreach⟩

end GraphInput

end AssetBundler
