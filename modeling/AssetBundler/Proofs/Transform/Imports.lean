/-
  AssetBundler.Proofs.Transform.Imports
  ────────────────────────────────
  **WHICH IMPORTS AN ARTIFACT CARRIES.**

  A script has the imports of scripts, a stylesheet those of stylesheets.
  Every step keeps to this, so every chain of steps does, and so does every
  artifact that a rule table makes, in this build or in one before:

    • `Step.apply_fitting` — one step, a case for each,
    • `RuleTable.transform_finished` — what the rules make of a module,
    • `TransformCache.Arises` — the caches that builds leave behind.
-/
import AssetBundler.Proofs.Build.Graph
import AssetBundler.Proofs.Plan.Roots

namespace AssetBundler

/-! ## §1. The imports of scripts. -/

/-- A script asks for a module when it starts or later. -/
def ImportKind.IsScript (kind : ImportKind) : Prop :=
  kind = .static ∨ kind = .deferred

namespace Script

theorem mem_of_mem_insert {α : Type} {key : α → Nat} {x y : α} :
    ∀ {xs : List α}, y ∈ sortOn.insert key x xs → y = x ∨ y ∈ xs
  | [], h => by
      simpa [sortOn.insert] using h
  | z :: zs, h => by
      unfold sortOn.insert at h
      split at h
      next => simpa using h
      next =>
        rcases List.mem_cons.mp h with rfl | h
        · exact Or.inr List.mem_cons_self
        · exact (mem_of_mem_insert h).imp_right (List.mem_cons_of_mem _)

/-- Putting a list in order adds nothing to it. -/
theorem mem_of_mem_sortOn {α : Type} {key : α → Nat} {y : α} :
    ∀ {xs : List α}, y ∈ sortOn key xs → y ∈ xs
  | [], h => h
  | _ :: _, h => by
      rcases mem_of_mem_insert h with rfl | h
      · exact List.mem_cons_self
      · exact List.mem_cons_of_mem _ (mem_of_mem_sortOn h)

/-- All imports of a contribution are those of a script. -/
def Contribution.Fitting (c : Contribution) : Prop :=
  ∀ i ∈ c.imports, i.2.kind.IsScript

theorem lowerItem_fitting (n : Nat) (item : ModuleItem) : (lowerItem n item).Fitting := by
  have hstatic : ∀ (range : Range) (specifier : String),
      ∀ i ∈ [(range.start, (⟨specifier, .static⟩ : Import))], i.2.kind.IsScript := by
    intro range specifier i hi
    rw [List.mem_singleton] at hi
    exact Or.inl (hi ▸ rfl)
  cases item with
  | importFrom range specifier bindings? =>
      cases bindings? <;> exact hstatic range specifier
  | exportAll range specifier name? =>
      cases name? <;> exact hstatic range specifier
  | exportFrom range specifier members => exact hstatic range specifier
  | exportList range members => exact nofun
  | exportDeclaration range declaration => exact nofun
  | exportDefault range value =>
      have hnone : (lowerItem n (.exportDefault range value)).imports = [] := by
        cases hnames : value.declaredNames <;> simp [lowerItem, hnames]
      intro i hi
      rw [hnone] at hi
      cases hi
  | statement tree => exact nofun

theorem lowerItems_fitting : ∀ (n : Nat) (items : List ModuleItem),
    ∀ c ∈ lowerItems n items, c.Fitting
  | _, [], c, hc => by
      cases hc
  | n, item :: items, c, hc => by
      rcases List.mem_cons.mp hc with rfl | hc
      · exact lowerItem_fitting _ item
      · exact lowerItems_fitting _ items c hc

theorem lowerCall_fitting (tree : Tree) : (lowerCall tree).Fitting := by
  intro i hi
  unfold lowerCall at hi
  split at hi
  next =>
    rw [List.mem_singleton] at hi
    exact Or.inr (hi ▸ rfl)
  next =>
    split at hi
    next =>
      rw [List.mem_singleton] at hi
      exact Or.inl (hi ▸ rfl)
    next => cases hi

/-- **The imports of a lowered module** are those of a script. -/
theorem lowerModule_fitting (source : List Char) (items : List ModuleItem) :
    ∀ i ∈ (lowerModule source items).imports, i.kind.IsScript := by
  intro i hi
  have hsorted := Plan.mem_firstOccurrences.mp hi
  obtain ⟨placed, hplaced, rfl⟩ := List.mem_map.mp hsorted
  obtain ⟨c, hc, hmem⟩ := List.mem_flatMap.mp (mem_of_mem_sortOn hplaced)
  rcases List.mem_append.mp hc with hc | hc
  · exact lowerItems_fitting 0 items c hc placed hmem
  · obtain ⟨tree, _, rfl⟩ := List.mem_map.mp hc
    exact lowerCall_fitting tree placed hmem

theorem lower?_fitting {markup : Bool} {source : List Char} {lowered : LoweredModule}
    (h : lower? markup source = some lowered) : ∀ i ∈ lowered.imports, i.kind.IsScript := by
  obtain ⟨items, _, rfl⟩ := Option.map_eq_some_iff.mp h
  exact lowerModule_fitting source items

end Script

/-! ## §2. The imports of stylesheets. -/

/-- A stylesheet refers to a stylesheet or to a file. -/
def ImportKind.IsStyle (kind : ImportKind) : Prop :=
  kind = .style ∨ kind = .url

namespace Style

variable {imports : List Import}

theorem record_fitting {i : Import} (himports : ∀ j ∈ imports, j.kind.IsStyle)
    (hi : i.kind.IsStyle) : ∀ j ∈ record imports i, j.kind.IsStyle := by
  unfold record
  split
  next => exact himports
  next => exact forall_mem_append_singleton.mpr ⟨himports, hi⟩

theorem removeImports_fitting (skip : Nat) (text : List Char)
    (himports : ∀ i ∈ imports, i.kind.IsStyle) :
    ∀ i ∈ (removeImports skip text imports).imports, i.kind.IsStyle := by
  fun_induction removeImports skip text imports with
  | case1 => exact himports
  | case2 skip c rest imports ih => exact ih himports
  | case3 c rest imports _ sheet ih => exact ih himports
  | case4 c rest imports found _ _ sheet ih => exact ih himports
  | case5 c rest imports found _ _ ih => exact ih (record_fitting himports (Or.inl rfl))

theorem replaceUrls_fitting (skip : Nat) (text : List Char)
    (himports : ∀ i ∈ imports, i.kind.IsStyle) :
    ∀ i ∈ (replaceUrls skip text imports).imports, i.kind.IsStyle := by
  fun_induction replaceUrls skip text imports with
  | case1 => exact himports
  | case2 skip c rest imports ih => exact ih himports
  | case3 c rest imports _ sheet ih => exact ih himports
  | case4 c rest imports found _ _ sheet ih => exact ih himports
  | case5 c rest imports found _ _ i imports' sheet ih =>
      exact ih (record_fitting himports (Or.inr rfl))

/-- **The imports of an extracted stylesheet** are those of a stylesheet. -/
theorem extract_fitting (source : List Char) :
    ∀ i ∈ (extract source).imports, i.kind.IsStyle :=
  replaceUrls_fitting 0 _ (removeImports_fitting 0 source nofun)

/-- The script that injects a stylesheet asks for all that the stylesheet refers to. -/
theorem inject_fitting {css : String} {code : String} {imports' : List Import}
    (h : inject css imports = .ok (code, imports')) : ∀ i ∈ imports', i.kind.IsScript := by
  unfold inject at h
  dsimp only at h
  split at h
  next => cases h
  next =>
    cases h
    intro i hi
    obtain ⟨j, _, rfl⟩ := List.mem_map.mp hi
    exact Or.inl rfl

end Style

/-! ## §3. Steps. -/

namespace Artifact

/-- The imports of an artifact are such as its kind can have. -/
def Fitting : Artifact → Prop
  | script _ imports => ∀ i ∈ imports, i.kind.IsScript
  | stylesheet _ imports => ∀ i ∈ imports, i.kind.IsStyle
  | raw _ | asset .. => True

/-- No step is left to be taken. -/
def Finished (a : Artifact) : Prop :=
  a.Fitting ∧ a.kind ≠ .raw

end Artifact

namespace Step

variable {ctx : StepContext} {a b : Artifact}

theorem applyDefine_fitting (ha : a.Fitting) (h : applyDefine ctx a = .ok b) : b.Fitting := by
  unfold applyDefine at h
  split at h
  next code imports =>
    cases h
    exact ha
  next =>
    obtain ⟨text, _, h⟩ := exists_of_bind_eq_ok h
    cases h
    trivial

theorem applyScript_fitting (h : applyScript ctx a = .ok b) : b.Fitting := by
  obtain ⟨code, _, h⟩ := exists_of_bind_eq_ok h
  split at h
  next lowered hlowered =>
    cases h
    exact Script.lower?_fitting hlowered
  next => cases h

theorem applyCss_fitting (h : applyCss a = .ok b) : b.Fitting := by
  obtain ⟨text, _, h⟩ := exists_of_bind_eq_ok h
  cases h
  exact Style.extract_fitting text.toList

theorem applyStyle_fitting (h : applyStyle a = .ok b) : b.Fitting := by
  unfold applyStyle at h
  split at h
  next text imports =>
    split at h
    next code imports' hinject =>
      cases h
      exact Style.inject_fitting hinject
    next => cases h
    next => cases h
  next => cases h

theorem applySvg_fitting (h : applySvg a = .ok b) : b.Fitting := by
  obtain ⟨markup, _, h⟩ := exists_of_bind_eq_ok h
  split at h
  next => cases h
  next =>
    cases h
    exact nofun

/-- **A step keeps to the imports that its result can have.** -/
theorem apply_fitting {step : Step} (ha : a.Fitting) (h : step.apply ctx a = .ok b) :
    b.Fitting := by
  cases step with
  | define => exact applyDefine_fitting ha h
  | script => exact applyScript_fitting h
  | css => exact applyCss_fitting h
  | style => exact applyStyle_fitting h
  | svg => exact applySvg_fitting h
  | url =>
      -- an address has no imports, whether it holds the data or not
      obtain ⟨bytes, _, h⟩ := exists_of_bind_eq_ok h
      cases h
      split <;> trivial
  | file =>
      obtain ⟨bytes, _, h⟩ := exists_of_bind_eq_ok h
      cases h
      trivial

end Step

/-! ## §4. Rules and caches. -/

namespace RuleTable

theorem runSteps_fitting {ctx : StepContext} : ∀ {steps : List Step} {a b : Artifact},
    a.Fitting → (runSteps ctx steps a).2 = .ok b → b.Fitting
  | [], a, b, ha, h => by
      cases h
      exact ha
  | step :: rest, a, b, ha, h => by
      unfold runSteps at h
      split at h
      next => cases h
      next next_ happly =>
        exact runSteps_fitting (Step.apply_fitting ha happly) h

theorem finished_finished {rule : String} {m : Identity}
    {result : Except TransformFault Artifact} {a : Artifact}
    (hresult : ∀ b, result = .ok b → b.Fitting) (h : finished rule m result = .ok a) :
    a.Finished := by
  unfold finished at h
  split at h
  next => cases h
  next => cases h
  next b hraw =>
    cases h
    refine ⟨hresult a rfl, ?_⟩
    cases a with
    | raw bytes => exact absurd rfl (hraw bytes)
    | script | stylesheet | asset => exact nofun

/-- **What the rules make of a module** is no raw artifact and has fitting imports. -/
theorem transform_finished {table : RuleTable} {m : Identity} {content : ByteArray} {a : Artifact}
    (h : (table.transform m content).2 = .ok a) : a.Finished := by
  unfold transform at h
  split at h
  next rule _ =>
    have hraw : (Artifact.raw content).Fitting := trivial
    exact finished_finished (fun b hb => runSteps_fitting hraw hb) h
  next =>
    split at h
    next =>
      cases h
      exact ⟨trivial, nofun⟩
    next => cases h

end RuleTable

/-- **The caches that builds leave behind**: none at first, and then the artifacts of some graph that has
been built. -/
inductive TransformCache.Arises : TransformCache → Prop
  | empty : Arises []
  | ofGraph {input : GraphInput} {entries : List (String × Identity)} {signal : CancelSignal}
      {s : Session} {g : ModuleGraph} (hcache : Arises input.cache)
      (h : ((Graph.build input entries).exec signal s).1 = .ok g) :
      Arises (TransformCache.ofGraph g)

namespace GraphInput

variable {input : GraphInput} {entries : List (String × Identity)} {g : ModuleGraph}

/-- All artifacts of a graph are finished when those of the cache are. -/
theorem Complete.finished (hg : input.Complete entries g)
    (hcache : ∀ c ∈ input.cache, c.artifact.Finished) {r : ModuleRecord} (hr : r ∈ g.records) :
    r.artifact.Finished := by
  obtain ⟨content, _, _, hmade⟩ := (hg.described r hr).made
  unfold GraphInput.artifactFor at hmade
  split at hmade
  next a hlookup =>
    obtain rfl := Except.ok.inj hmade
    exact hcache _ (TransformCache.mem_of_lookup hlookup)
  next => exact RuleTable.transform_finished hmade

end GraphInput

theorem TransformCache.Arises.finished {cache : TransformCache} (h : cache.Arises) :
    ∀ c ∈ cache, c.artifact.Finished := by
  induction h with
  | empty => exact nofun
  | ofGraph _ h ih =>
      intro c hc
      obtain ⟨r, hr, rfl⟩ := List.mem_map.mp hc
      exact (Graph.complete_of_build h).finished ih hr

end AssetBundler
