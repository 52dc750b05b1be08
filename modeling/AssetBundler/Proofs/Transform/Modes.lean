/-
  AssetBundler.Proofs.Transform.Modes
  ────────────────────────────────
  **THE DEFAULT RULES IN THE TWO MODES.**

  The default rules treat a module alike in both modes, but for two things:
  the value of one compile-time constant, and stylesheets, which become
  scripts in development and stay stylesheets in production.  What a module
  imports is then the same in both modes, unless a constant changes it:

    • `RuleTable.select_default` — the rules that are chosen,
    • `RuleTable.transform_default` — the artifacts that they make.
-/
import AssetBundler.Proofs.Build.Incremental
import AssetBundler.Proofs.Transform.Imports

namespace AssetBundler

open AssetBundler.Text

/-! ## §1. Imports that do not depend on the mode. -/

/-- Two imports lead to the same module, both at once or both later. -/
def Import.Alike (i i' : Import) : Prop :=
  i'.specifier = i.specifier ∧ i'.isSync = i.isSync

/-- The compile-time constants of both modes leave every text of the project with the same imports. -/
def Config.ImportsAgree (config : Config) (files : FileTree) : Prop :=
  ∀ content ∈ files.contents, ∀ text, Utf8.decode content = .ok text → ∀ markup,
    ∀ d ∈ Script.lower? markup (Script.applyDefines (config.defines .development) text.toList),
    ∀ p ∈ Script.lower? markup (Script.applyDefines (config.defines .production) text.toList),
      d.imports = p.imports

/-- It is enough that no text has one of the constants that differ. -/
theorem Config.importsAgree_of_texts {config : Config} {files : FileTree}
    (h : ∀ content ∈ files.contents, ∀ text, Utf8.decode content = .ok text →
      Script.applyDefines (config.defines .development) text.toList
        = Script.applyDefines (config.defines .production) text.toList) :
    config.ImportsAgree files := by
  intro content hcontent text htext markup d hd p hp
  rw [h content hcontent text htext] at hd
  rw [Option.some.inj ((Option.mem_def.mp hd).symm.trans hp)]

/-- A text that is written is read again. -/
theorem Text.Utf8.decode_toUTF8 (text : String) : decode text.toUTF8 = .ok text := by
  have hread : String.fromUTF8? text.toUTF8 = some text := by
    unfold String.fromUTF8?
    exact dif_pos text.isValidUTF8
  unfold decode
  rw [hread]

theorem Artifact.sourceText_raw {content : ByteArray} {text : String}
    (h : (Artifact.raw content).sourceText = .ok text) : Utf8.decode content = .ok text := by
  simp only [sourceText] at h
  split at h
  next hdecode =>
    cases h
    exact hdecode
  next => cases h

/-! ## §2. What chains of steps make. -/

/-- An injected stylesheet asks for all that the stylesheet refers to when it starts. -/
theorem Step.exists_of_applyStyle {a b : Artifact} (h : applyStyle a = .ok b) :
    ∃ code, b = .script code (a.imports.map fun i => ⟨i.specifier, .static⟩) := by
  unfold applyStyle at h
  split at h
  next text imports =>
    split at h
    next code imports' hinject =>
      cases h
      unfold Style.inject at hinject
      dsimp only at hinject
      split at hinject
      next => cases hinject
      next =>
        cases hinject
        exact ⟨_, rfl⟩
    next => cases h
    next => cases h
  next => cases h

namespace RuleTable

variable {ctx : StepContext} {content : ByteArray} {a : Artifact}

/-- A chain that succeeds begins with a step that succeeds. -/
theorem runSteps_cons_eq_ok {step : Step} {rest : List Step} {a b : Artifact}
    (h : (runSteps ctx (step :: rest) a).2 = .ok b) :
    ∃ c, step.apply ctx a = .ok c ∧ (runSteps ctx rest c).2 = .ok b := by
  unfold runSteps at h
  split at h
  next => cases h
  next c hc => exact ⟨c, hc, h⟩

/-- A script has the imports of its text, constants replaced. -/
theorem script_of_runSteps (h : (runSteps ctx [.define, .script] (.raw content)).2 = .ok a) :
    ∃ text lowered, Utf8.decode content = .ok text
      ∧ Script.lower? (hasMarkup ctx.extension)
          (Script.applyDefines ctx.defines text.toList) = some lowered
      ∧ a = .script (String.ofList lowered.code) lowered.imports := by
  obtain ⟨b, hdefine, h⟩ := runSteps_cons_eq_ok h
  obtain ⟨c, hscript, h⟩ := runSteps_cons_eq_ok h
  obtain rfl : c = a := Except.ok.inj h
  obtain ⟨text, htext, hb⟩ := exists_of_bind_eq_ok hdefine
  cases hb
  obtain ⟨code, hcode, hscript⟩ := exists_of_bind_eq_ok hscript
  have hsame := Artifact.sourceText_raw hcode
  rw [Utf8.decode_toUTF8] at hsame
  cases hsame
  rw [String.toList_ofList] at hscript
  split at hscript
  next lowered hlowered =>
    cases hscript
    exact ⟨text, lowered, Artifact.sourceText_raw htext, hlowered, rfl⟩
  next => cases hscript

/-- Assets and vector graphics import nothing. -/
theorem imports_of_runSteps {step : Step} (hstep : step = .svg ∨ step = .url ∨ step = .file)
    (h : (runSteps ctx [step] (.raw content)).2 = .ok a) :
    a.imports = [] ∧ a.kind ≠ .stylesheet := by
  obtain ⟨b, happly, h⟩ := runSteps_cons_eq_ok h
  obtain rfl : b = a := Except.ok.inj h
  rcases hstep with rfl | rfl | rfl
  · obtain ⟨markup, _, happly⟩ := exists_of_bind_eq_ok happly
    split at happly
    next => cases happly
    next =>
      cases happly
      exact ⟨rfl, nofun⟩
  · obtain ⟨bytes, _, happly⟩ := exists_of_bind_eq_ok happly
    cases happly
    split <;> exact ⟨rfl, nofun⟩
  · obtain ⟨bytes, _, happly⟩ := exists_of_bind_eq_ok happly
    cases happly
    exact ⟨rfl, nofun⟩

/-- The references of a stylesheet are those of its text. -/
theorem stylesheet_of_apply (h : Step.apply ctx (.raw content) .css = .ok a) :
    ∃ text css, Utf8.decode content = .ok text
      ∧ a = .stylesheet css (Style.extract text.toList).imports := by
  obtain ⟨text, htext, h⟩ := exists_of_bind_eq_ok h
  cases h
  exact ⟨text, _, Artifact.sourceText_raw htext, rfl⟩

/-- In production a stylesheet is extracted. -/
theorem extracted_of_runSteps (h : (runSteps ctx [.css] (.raw content)).2 = .ok a) :
    ∃ text css, Utf8.decode content = .ok text
      ∧ a = .stylesheet css (Style.extract text.toList).imports := by
  obtain ⟨b, happly, h⟩ := runSteps_cons_eq_ok h
  obtain rfl : b = a := Except.ok.inj h
  exact stylesheet_of_apply happly

/-- In development a stylesheet becomes a script with the same references. -/
theorem injected_of_runSteps (h : (runSteps ctx [.css, .style] (.raw content)).2 = .ok a) :
    ∃ text code, Utf8.decode content = .ok text
      ∧ a = .script code ((Style.extract text.toList).imports.map fun i => ⟨i.specifier, .static⟩) := by
  obtain ⟨b, hcss, h⟩ := runSteps_cons_eq_ok h
  obtain ⟨c, hstyle, h⟩ := runSteps_cons_eq_ok h
  obtain rfl : c = a := Except.ok.inj h
  obtain ⟨text, css, htext, rfl⟩ := stylesheet_of_apply hcss
  change Step.applyStyle (.stylesheet css (Style.extract text.toList).imports) = .ok c at hstyle
  obtain ⟨code, rfl⟩ := Step.exists_of_applyStyle hstyle
  exact ⟨text, code, htext, rfl⟩

/-! ## §3. The default rules. -/

/-- The steps for a module in development and in production. -/
inductive DefaultSteps : List Step → List Step → Prop
  | script : DefaultSteps [.define, .script] [.define, .script]
  | stylesheet : DefaultSteps [.css, .style] [.css]
  | other (step : Step) (h : step = .svg ∨ step = .url ∨ step = .file) :
      DefaultSteps [step] [step]

end RuleTable

/-- What is read of a rule that leaves no paths out. -/
theorem TransformRule.of_compile {assets : Config.Assets} {rule : Config.Rule} {r : TransformRule}
    (h : compile assets rule = .ok r) (hexclude : rule.exclude? = none) :
    Pattern.parse? rule.test = some r.test ∧ stepsOf rule.name rule.steps = .ok r.steps
      ∧ ∀ mode path, r.applies mode path = (rule.mode?.all (· == mode) && r.test.isMatch path) := by
  unfold compile at h
  split at h
  next test htest =>
    obtain ⟨exclude?, hnone, h⟩ := exists_of_bind_eq_ok h
    obtain ⟨steps, hsteps, h⟩ := exists_of_bind_eq_ok h
    cases h
    rw [excludeOf, hexclude] at hnone
    cases hnone
    refine ⟨htest, hsteps, fun mode path => ?_⟩
    simp [applies]
  next => cases h

namespace RuleTable

variable {config : Config} {td tp : RuleTable} {m : Identity} {content : ByteArray}
  {a a' : Artifact}

/-- The rules of a table are those of the configuration, for whatever mode. -/
theorem forall₂_of_compile {mode : Mode} {table : RuleTable} (h : compile config mode = .ok table) :
    List.Forall₂ (fun rule r => TransformRule.compile config.assets rule = .ok r) config.rules
        table.rules
      ∧ table.mode = mode ∧ table.publicPath = config.publicPath
      ∧ table.defines = config.defines mode ∧ table.assetName = config.assets.name := by
  obtain ⟨rules, hrules, h⟩ := exists_of_bind_eq_ok h
  cases h
  exact ⟨Bundler.forall₂_of_mapM hrules, rfl, rfl, rfl, rfl⟩

/-- A configuration has one list of rules. -/
theorem rules_eq {mode mode' : Mode} {table table' : RuleTable}
    (h : compile config mode = .ok table) (h' : compile config mode' = .ok table') :
    table.rules = table'.rules := by
  obtain ⟨rules, hrules, h⟩ := exists_of_bind_eq_ok h
  obtain ⟨rules', hrules', h'⟩ := exists_of_bind_eq_ok h'
  cases h
  cases h'
  exact Except.ok.inj (hrules.symm.trans hrules')

/-- **The rules for a module in the two modes.** -/
theorem select_default (hrules : config.ownRules = [])
    (hd : compile config .development = .ok td) (hp : compile config .production = .ok tp) :
    (td.select m = none ∧ tp.select m = none)
      ∨ ∃ rd rp, td.select m = some rd ∧ tp.select m = some rp ∧ DefaultSteps rd.steps rp.steps := by
  obtain ⟨hall, hmode, _⟩ := forall₂_of_compile hd
  obtain ⟨_, hmode', _⟩ := forall₂_of_compile hp
  have hsame := rules_eq hd hp
  unfold select
  rw [← hsame, hmode, hmode']
  rw [Config.rules, hrules] at hall
  generalize td.rules = rules at hall ⊢
  -- the six rules, one by one
  obtain ⟨scripts, rest₁, h₁, hall₁, rfl⟩ := List.forall₂_cons_left_iff.mp hall
  obtain ⟨extract, rest₂, h₂, hall₂, rfl⟩ := List.forall₂_cons_left_iff.mp hall₁
  obtain ⟨styles, rest₃, h₃, hall₃, rfl⟩ := List.forall₂_cons_left_iff.mp hall₂
  obtain ⟨svg, rest₄, h₄, hall₄, rfl⟩ := List.forall₂_cons_left_iff.mp hall₃
  obtain ⟨images, rest₅, h₅, hall₅, rfl⟩ := List.forall₂_cons_left_iff.mp hall₄
  obtain ⟨fonts, rest₆, h₆, hall₆, rfl⟩ := List.forall₂_cons_left_iff.mp hall₅
  obtain rfl := List.forall₂_nil_left_iff.mp hall₆
  obtain ⟨_, hsteps₁, happlies₁⟩ := TransformRule.of_compile h₁ rfl
  obtain ⟨htest₂, hsteps₂, happlies₂⟩ := TransformRule.of_compile h₂ rfl
  obtain ⟨htest₃, hsteps₃, happlies₃⟩ := TransformRule.of_compile h₃ rfl
  obtain ⟨_, hsteps₄, happlies₄⟩ := TransformRule.of_compile h₄ rfl
  obtain ⟨_, hsteps₅, happlies₅⟩ := TransformRule.of_compile h₅ rfl
  obtain ⟨_, hsteps₆, happlies₆⟩ := TransformRule.of_compile h₆ rfl
  -- the two rules for stylesheets have one pattern
  have htest : extract.test = styles.test := Option.some.inj (htest₂.symm.trans htest₃)
  simp only [List.find?_cons, happlies₁, happlies₂, happlies₃, happlies₄, happlies₅, happlies₆,
    htest, List.find?_nil, Option.all_none, Option.all_some, Bool.true_and]
  cases scripts.test.isMatch m.matchText with
  | true => exact Or.inr ⟨scripts, scripts, rfl, rfl, Except.ok.inj hsteps₁ ▸ .script⟩
  | false =>
  cases styles.test.isMatch m.matchText with
  | true =>
      exact Or.inr ⟨styles, extract, rfl, rfl,
        Except.ok.inj hsteps₂ ▸ Except.ok.inj hsteps₃ ▸ .stylesheet⟩
  | false =>
  cases svg.test.isMatch m.matchText with
  | true => exact Or.inr ⟨svg, svg, rfl, rfl, Except.ok.inj hsteps₄ ▸ .other .svg (by simp)⟩
  | false =>
  cases images.test.isMatch m.matchText with
  | true => exact Or.inr ⟨images, images, rfl, rfl, Except.ok.inj hsteps₅ ▸ .other .url (by simp)⟩
  | false =>
  cases fonts.test.isMatch m.matchText with
  | true => exact Or.inr ⟨fonts, fonts, rfl, rfl, Except.ok.inj hsteps₆ ▸ .other .file (by simp)⟩
  | false => exact Or.inl ⟨rfl, rfl⟩

/-! ## §4. The artifacts of a module. -/

/-- Two artifacts of one module, the first made in development and the second in production: they import
the same, and what is extracted for production is injected by a script in development. -/
structure Twins (a a' : Artifact) : Prop where
  imports : List.Forall₂ Import.Alike a.imports a'.imports
  extracted : a'.kind = .stylesheet → a.kind = .script
  injected : a.kind ≠ .stylesheet

/-- The artifact of a module is that of the chain of its rule. -/
theorem runSteps_of_transform {table : RuleTable} {rule : TransformRule}
    (hrule : table.select m = some rule) (h : (table.transform m content).2 = .ok a) :
    (runSteps (table.context m rule.inlineLimit rule.assetName) rule.steps (.raw content)).2
      = .ok a := by
  unfold transform at h
  rw [hrule] at h
  dsimp only at h
  unfold finished at h
  split at h
  next => cases h
  next => cases h
  next b _ hb =>
    cases h
    exact hb

/-- Without a rule a static asset is emitted as it is. -/
theorem imports_of_transform_none {table : RuleTable} (hrule : table.select m = none)
    (h : (table.transform m content).2 = .ok a) : a.imports = [] ∧ a.kind = .asset := by
  unfold transform at h
  rw [hrule] at h
  dsimp only at h
  split at h
  next =>
    cases h
    exact ⟨rfl, rfl⟩
  next => cases h

/-- **The artifacts of a module in the two modes.** -/
theorem transform_default {files : FileTree} (hrules : config.ownRules = [])
    (hd : compile config .development = .ok td) (hp : compile config .production = .ok tp)
    (himports : config.ImportsAgree files) (hcontent : content ∈ files.contents)
    (ha : (td.transform m content).2 = .ok a) (ha' : (tp.transform m content).2 = .ok a') :
    Twins a a' := by
  have hplain : ∀ {a a' : Artifact}, a.imports = [] ∧ a.kind ≠ .stylesheet →
      a'.imports = [] ∧ a'.kind ≠ .stylesheet → Twins a a' := by
    intro a a' h h'
    exact ⟨by rw [h.1, h'.1]; exact .nil, fun hstyle => absurd hstyle h'.2, h.2⟩
  rcases select_default (m := m) hrules hd hp with ⟨hnone, hnone'⟩ | ⟨rd, rp, hrd, hrp, hsteps⟩
  · obtain ⟨hempty, hasset⟩ := imports_of_transform_none hnone ha
    obtain ⟨hempty', hasset'⟩ := imports_of_transform_none hnone' ha'
    exact hplain ⟨hempty, by simp [hasset]⟩ ⟨hempty', by simp [hasset']⟩
  · have hrun := runSteps_of_transform hrd ha
    have hrun' := runSteps_of_transform hrp ha'
    obtain ⟨_, _, _, hdefines, _⟩ := forall₂_of_compile hd
    obtain ⟨_, _, _, hdefines', _⟩ := forall₂_of_compile hp
    generalize rd.steps = steps at hsteps hrun
    generalize rp.steps = steps' at hsteps hrun'
    cases hsteps with
    | script =>
        obtain ⟨text, lowered, htext, hlowered, rfl⟩ := script_of_runSteps hrun
        obtain ⟨text', lowered', htext', hlowered', rfl⟩ := script_of_runSteps hrun'
        obtain rfl := Except.ok.inj (htext.symm.trans htext')
        have hsame : lowered.imports = lowered'.imports := by
          refine himports content hcontent text htext (hasMarkup m.extension) lowered ?_ lowered' ?_
          · rw [← hdefines]
            exact hlowered
          · rw [← hdefines']
            exact hlowered'
        refine ⟨?_, nofun, nofun⟩
        show List.Forall₂ Import.Alike lowered.imports lowered'.imports
        rw [hsame]
        exact List.forall₂_same.mpr fun _ _ => ⟨rfl, rfl⟩
    | stylesheet =>
        obtain ⟨text, code, htext, rfl⟩ := injected_of_runSteps hrun
        obtain ⟨text', css, htext', rfl⟩ := extracted_of_runSteps hrun'
        obtain rfl := Except.ok.inj (htext.symm.trans htext')
        refine ⟨?_, fun _ => rfl, nofun⟩
        show List.Forall₂ Import.Alike
          ((Style.extract text.toList).imports.map fun i => ⟨i.specifier, .static⟩)
          (Style.extract text.toList).imports
        -- whatever a stylesheet refers to is loaded at once
        refine List.forall₂_map_left_iff.mpr (List.forall₂_same.mpr fun i hi => ⟨rfl, ?_⟩)
        rcases Style.extract_fitting text.toList i hi with hkind | hkind <;>
          simp [Import.isSync, hkind]
    | other step hstep =>
        exact hplain (imports_of_runSteps hstep hrun) (imports_of_runSteps hstep hrun')

end RuleTable

end AssetBundler
