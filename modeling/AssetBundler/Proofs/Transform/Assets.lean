/-
  AssetBundler.Proofs.Transform.Assets
  ────────────────────────────────
  **STATIC ASSETS UNDER THE DEFAULT RULES.**

  The extensions of static assets and the patterns of the default rules are
  two lists.  A pattern for a choice of extensions matches a path only when
  the path ends with one of them, so no file with an extension of the first
  list is taken for a script or a stylesheet; only vector graphics have a rule
  that makes no asset of them, and this rule minds letter case.  For all other
  static assets the rules, and what stands in when there is none, agree:

    • `Pattern.exists_suffix_of_isMatch` — the ends that a pattern asks for,
    • `Identity.exists_matchText` — the end of the path of a module,
    • `RuleTable.select_asset` — the rules for static assets,
    • `RuleTable.transform_asset` — the assets that they make.
-/
import AssetBundler.Proofs.Build.Placement
import AssetBundler.Proofs.Pattern.Suffix

namespace AssetBundler

open AssetBundler.Text

/-! ## §1. Patterns for a choice of ends. -/

namespace Pattern

variable {p : Pattern} {words : List (List Char)} {xs ys : List Char}

/-- The texts that a pattern of characters, sequences and choices stands for; its conditions are not
looked at. -/
def words? : Pattern → Option (List (List Char))
  | empty => some [[]]
  | one (.range low high) => if low = high then some [[low]] else none
  | one _ => none
  | assert _ => some [[]]
  | both first second => do
    let beginnings ← first.words?
    let ends ← second.words?
    return beginnings.flatMap fun w => ends.map (w ++ ·)
  | either a b => do
    return (← a.words?) ++ (← b.words?)
  | repeated .. => none

/-- What is accepted begins with one of the words. -/
theorem Accepts.exists_word (h : p.words? = some words) (haccepts : p.Accepts xs ys) :
    ∃ w ∈ words, xs = w ++ ys := by
  induction p generalizing words xs ys with
  | empty =>
      cases h
      exact ⟨[], List.mem_singleton_self _, haccepts.symm⟩
  | one set =>
      obtain ⟨c, rfl, hc⟩ := haccepts
      cases set with
      | range low high =>
          unfold words? at h
          split at h
          next heq =>
            cases h
            subst heq
            -- a range with one end has one character
            obtain ⟨hlow, hhigh⟩ := (Bool.and_eq_true _ _).mp hc
            have hsame : low = c :=
              le_antisymm (of_decide_eq_true hlow) (of_decide_eq_true hhigh)
            exact ⟨[low], List.mem_singleton_self _, by rw [hsame]; rfl⟩
          next => cases h
      | _ => cases h
  | assert a =>
      cases h
      obtain ⟨rfl, rfl⟩ := haccepts
      exact ⟨[], List.mem_singleton_self _, rfl⟩
  | both first second ihFirst ihSecond =>
      obtain ⟨zs, hfirst, hsecond⟩ := haccepts
      obtain ⟨beginnings, hbeginnings, h⟩ := Option.bind_eq_some_iff.mp h
      obtain ⟨ends, hends, h⟩ := Option.bind_eq_some_iff.mp h
      cases h
      obtain ⟨w, hw, rfl⟩ := ihFirst hbeginnings hfirst
      obtain ⟨w', hw', rfl⟩ := ihSecond hends hsecond
      refine ⟨w ++ w', ?_, (List.append_assoc ..).symm⟩
      exact List.mem_flatMap.mpr ⟨w, hw, List.mem_map_of_mem hw'⟩
  | either a b iha ihb =>
      obtain ⟨wordsA, hwordsA, h⟩ := Option.bind_eq_some_iff.mp h
      obtain ⟨wordsB, hwordsB, h⟩ := Option.bind_eq_some_iff.mp h
      cases h
      rcases haccepts with haccepts | haccepts
      · obtain ⟨w, hw, hxs⟩ := iha hwordsA haccepts
        exact ⟨w, List.mem_append_left _ hw, hxs⟩
      · obtain ⟨w, hw, hxs⟩ := ihb hwordsB haccepts
        exact ⟨w, List.mem_append_right _ hw, hxs⟩
  | repeated p least more? => cases h

/-- **A match ends with one of the words.** -/
theorem exists_suffix_of_isMatch (hslashless : p.isSlashless = true) (hend : p.isAtEnd = true)
    (hwords : p.words? = some words) {text : String} (h : p.isMatch text = true) :
    ∃ w ∈ words, w <:+ text.toList := by
  rw [isMatch, matchesFrom_iff hslashless] at h
  obtain ⟨zs, ys, hzs, haccepts⟩ := h
  obtain rfl := haccepts.eq_nil hend
  obtain ⟨w, hw, rfl⟩ := haccepts.exists_word hwords
  rw [List.append_nil] at hzs
  exact ⟨w, hw, hzs⟩

end Pattern

/-! ## §2. The end of a path. -/

/-- What stands behind the last dot is known from the whole. -/
theorem eq_of_dot_suffix {xs e e' : List Char} (h : '.' :: e <:+ xs) (h' : '.' :: e' <:+ xs)
    (he : '.' ∉ e) (he' : '.' ∉ e') : e = e' := by
  have hof : ∀ {e e' : List Char}, '.' ∉ e' → '.' :: e <:+ '.' :: e' → e = e' := by
    intro e e' he' hle
    rcases List.suffix_cons_iff.mp hle with heq | hle
    · exact (List.cons.inj heq).2
    · exact absurd (hle.mem List.mem_cons_self) he'
  rcases List.suffix_or_suffix_of_suffix h h' with hle | hle
  · exact hof he' hle
  · exact (hof he hle).symm

theorem Path.suffix_of_splitName {name stem extension : String}
    (h : splitName name = (stem, some extension)) : '.' :: extension.toList <:+ name.toList := by
  unfold splitName at h
  dsimp only at h
  split at h
  next => cases h
  next behind hne =>
    obtain ⟨_, hextension⟩ := Prod.mk.inj h
    obtain rfl := Option.some.inj hextension
    rw [String.toList_ofList]
    -- the reversed name goes on with the dot where its extension ends
    generalize hreversed : name.toList.reverse = reversed at hne ⊢
    have hhead := List.head?_dropWhile_not (· != '.') reversed
    cases hdrop : reversed.dropWhile (· != '.') with
    | nil =>
        rw [hdrop] at hne
        exact absurd rfl hne
    | cons d rest =>
        rw [hdrop] at hhead
        obtain rfl : d = '.' := by simpa using hhead
        have hsplit : reversed.takeWhile (· != '.') ++ '.' :: rest = reversed := by
          rw [← hdrop, List.takeWhile_append_dropWhile]
        have hname : name.toList = ('.' :: rest).reverse
            ++ (reversed.takeWhile (· != '.')).reverse := by
          rw [← List.reverse_append, hsplit, ← hreversed, List.reverse_reverse]
        refine ⟨rest.reverse, ?_⟩
        rw [hname, List.reverse_cons, List.append_assoc, List.singleton_append]

namespace Identity

variable {m : Identity}

/-- The name of a file ends with its extension. -/
theorem exists_suffix_of_extension (h : m.extension ≠ "") :
    ∃ names name, m.location = names ++ [name] ∧ '.' :: m.extension.toList <:+ name.toList := by
  unfold extension at h ⊢
  rcases List.eq_nil_or_concat' m.location with hnil | ⟨names, name, hlocation⟩
  · rw [hnil] at h
    exact absurd rfl h
  · refine ⟨names, name, hlocation, ?_⟩
    rw [hlocation, List.getLast?_concat, Option.map_some, Option.bind_some] at h ⊢
    rcases hsplit : Path.splitName name with ⟨stem, _ | extension⟩
    · rw [hsplit] at h
      exact absurd rfl h
    · exact Path.suffix_of_splitName hsplit

/-- **The path of a module**, as patterns see it, ends with the extension. -/
theorem suffix_matchText (h : m.extension ≠ "") (hslash : '\\' ∉ m.extension.toList) :
    '.' :: m.extension.toList <:+ m.matchText.toList := by
  obtain ⟨names, name, hlocation, hsuffix⟩ := exists_suffix_of_extension h
  have htext : m.path.text = Path.lead names ++ Path.lead [name] := by
    rw [path, hlocation, Path.ofNames_eq (by simp), Path.lead_append (by simp)]
  have hlead : Path.lead [name] = "/" ++ name := by
    rw [Path.lead, String.intercalate_cons_of_ne_nil (List.cons_ne_nil _ _), String.empty_append,
      String.intercalate_singleton]
  have hname : name.toList <:+ m.path.text.toList := by
    rw [htext, hlead, String.toList_append, String.toList_append]
    exact (List.suffix_append _ _).trans (List.suffix_append _ _)
  have hsame : ('.' :: m.extension.toList).map (fun c => if c == '\\' then '/' else c)
      = '.' :: m.extension.toList := by
    conv_rhs => rw [← List.map_id ('.' :: m.extension.toList)]
    refine List.map_congr_left fun c hc => if_neg fun heq => ?_
    rw [eq_of_beq heq] at hc
    exact hslash ((List.mem_cons.mp hc).resolve_left (by decide))
  rw [matchText, String.toList_ofList, ← hsame]
  exact (hsuffix.trans hname).map _

end Identity

/-! ## §3. The rules for static assets. -/

namespace ContentType

variable {extension : String}

/-- The extension of a static asset has letters and digits alone. -/
theorem backslash_not_mem (h : isStaticAsset extension = true) : '\\' ∉ extension.toList := by
  intro hmem
  have hnone : ∀ w ∈ staticAssets, '\\' ∉ w.toList := by decide
  refine hnone _ (List.contains_iff_mem.mp h) ?_
  rw [lowered, String.toList_ofList]
  exact List.mem_map.mpr ⟨'\\', hmem, rfl⟩

/-- An extension that is none of a static asset. -/
theorem ne_of_isStaticAsset {other : String} (hother : isStaticAsset other = false)
    (h : isStaticAsset extension = true) : extension ≠ other := by
  rintro rfl
  rw [hother] at h
  cases h

end ContentType

/-- What is read of a rule without values of its own for assets. -/
theorem TransformRule.assets_of_compile {assets : Config.Assets} {rule : Config.Rule}
    {r : TransformRule} (h : compile assets rule = .ok r) (hlimit : rule.inlineLimit? = none)
    (hname : rule.assetName? = none) :
    r.inlineLimit = assets.inlineLimit ∧ r.assetName = assets.name := by
  unfold compile at h
  split at h
  next =>
    obtain ⟨exclude?, _, h⟩ := exists_of_bind_eq_ok h
    obtain ⟨steps, _, h⟩ := exists_of_bind_eq_ok h
    cases h
    rw [hlimit, hname]
    exact ⟨rfl, rfl⟩
  next => cases h

namespace RuleTable

/-- The extensions whose files become something else than an asset. -/
def otherExtensions : List String := ["js", "jsx", "css", "svg"]

/-- The default rules have no values of their own for assets; and those that make no assets have patterns
for the ends of paths that are not of assets. -/
theorem default_ends : ∀ rule ∈ Config.defaultRules,
    rule.inlineLimit? = none ∧ rule.assetName? = none
      ∧ (rule.steps = ["url"] ∨ rule.steps = ["file"]
        ∨ (Pattern.parse? rule.test).any (fun p => p.words?.any fun words => words.all fun w =>
            otherExtensions.any fun e => w = '.' :: e.toList) = true) := by
  decide +kernel

variable {config : Config} {mode : Mode} {table : RuleTable} {m : Identity}

/-- **The rules for static assets**: one of the two that make assets, or none. -/
theorem select_asset (hrules : config.ownRules = []) (htable : compile config mode = .ok table)
    (hasset : ContentType.isStaticAsset m.extension = true) (hsvg : m.extension ≠ "svg")
    {rule : TransformRule} (h : table.select m = some rule) :
    (rule.steps = [.url] ∨ rule.steps = [.file])
      ∧ rule.inlineLimit = config.assets.inlineLimit ∧ rule.assetName = config.assets.name := by
  obtain ⟨hall, _⟩ := forall₂_of_compile htable
  rw [Config.rules, hrules] at hall
  obtain ⟨source, hsource, hcompile⟩ :=
    exists_mem_right_of_forall₂ hall.flip rule (List.mem_of_find?_eq_some h)
  obtain ⟨hlimit, hname, hends⟩ := default_ends source hsource
  obtain ⟨hexclude, htest⟩ := default_tests source hsource
  obtain ⟨hparse, hsteps, happlies⟩ := TransformRule.of_compile hcompile hexclude
  refine ⟨?_, TransformRule.assets_of_compile hcompile hlimit hname⟩
  rcases hends with hurl | hfile | hother
  · rw [hurl] at hsteps
    exact Or.inl (Except.ok.inj hsteps).symm
  · rw [hfile] at hsteps
    exact Or.inr (Except.ok.inj hsteps).symm
  · -- the path would end with another extension
    exfalso
    rw [hparse] at hother htest
    obtain ⟨hslashless, hend⟩ := (Bool.and_eq_true _ _).mp htest
    change rule.test.words?.any _ = true at hother
    obtain ⟨words, hwords⟩ : ∃ words, rule.test.words? = some words := by
      cases hwords : rule.test.words? with
      | none =>
          rw [hwords] at hother
          cases hother
      | some words => exact ⟨words, rfl⟩
    rw [hwords] at hother
    have hmatch : rule.test.isMatch m.matchText = true := by
      have happly := List.find?_some h
      rw [happlies] at happly
      exact ((Bool.and_eq_true _ _).mp happly).2
    obtain ⟨w, hw, hsuffix⟩ := Pattern.exists_suffix_of_isMatch hslashless hend hwords hmatch
    obtain ⟨e, he, hdot⟩ := List.any_eq_true.mp (List.all_eq_true.mp hother w hw)
    rw [of_decide_eq_true hdot] at hsuffix
    have hnonempty : m.extension ≠ "" := ContentType.ne_of_isStaticAsset rfl hasset
    have hnodot : ∀ e ∈ otherExtensions, '.' ∉ e.toList := by decide
    have hplain : ∀ e ∈ otherExtensions, e = "svg" ∨ ContentType.isStaticAsset e = false := by decide
    have hsame : e.toList = m.extension.toList :=
      eq_of_dot_suffix hsuffix
        (Identity.suffix_matchText hnonempty (ContentType.backslash_not_mem hasset)) (hnodot e he)
        m.dot_not_mem_extension
    obtain rfl := String.toList_inj.mp hsame
    rcases hplain _ he with heq | hnone
    · exact hsvg heq
    · exact ContentType.ne_of_isStaticAsset hnone hasset rfl

end RuleTable

/-! ## §4. Their assets. -/

/-- **The asset of a file**: the file stands at its public address, or the address of a small file holds
its data. -/
inductive Config.AssetOf (config : Config) (m : Identity) (content : ByteArray) :
    String → Option AssetFile → Prop
  | file {path : String}
      (hpath : path = AssetName.expand config.assets.name ⟨m.stem, m.extension, content⟩) :
      AssetOf config m content (config.publicPath ++ path) (some ⟨path, content⟩)
  | data (hsmall : content.size < config.assets.inlineLimit) :
      AssetOf config m content (dataUrl m.extension content) none

namespace RuleTable

variable {config : Config} {mode : Mode} {table : RuleTable} {m : Identity}

/-- A file of its own is the asset of the file. -/
theorem assetOf_emitFile (htable : compile config mode = .ok table) (limit : Nat)
    (content : ByteArray) : ∃ url file?,
      emitFile (table.context m limit config.assets.name) content = .asset url file?
        ∧ config.AssetOf m content url file? := by
  obtain ⟨_, _, hpublic, _⟩ := forall₂_of_compile htable
  refine ⟨_, _, rfl, ?_⟩
  rw [context, hpublic]
  exact .file rfl

/-- A step that gives an asset ends its chain with it. -/
theorem finished_runSteps {ctx : StepContext} {step : Step} {a : Artifact} {url : String}
    {file? : Option AssetFile} (h : step.apply ctx a = .ok (.asset url file?)) (name : String) :
    finished name m (runSteps ctx [step] a).2 = .ok (.asset url file?) := by
  unfold runSteps
  rw [h]
  rfl

/-- **What the default rules make of a static asset** other than vector graphics is the asset of the
file. -/
theorem transform_asset (hrules : config.ownRules = []) (htable : compile config mode = .ok table)
    (hasset : ContentType.isStaticAsset m.extension = true) (hsvg : m.extension ≠ "svg")
    (content : ByteArray) : ∃ url file?,
      (table.transform m content).2 = .ok (.asset url file?) ∧ config.AssetOf m content url file? := by
  unfold transform
  cases hselect : table.select m with
  | none =>
      obtain ⟨_, _, _, _, hname⟩ := forall₂_of_compile htable
      obtain ⟨url, file?, hemit, hof⟩ := assetOf_emitFile (m := m) htable 0 content
      refine ⟨url, file?, ?_, hof⟩
      rw [hname, hemit, if_pos hasset]
  | some rule =>
      obtain ⟨hsteps, hlimit, hname⟩ := select_asset hrules htable hasset hsvg hselect
      obtain ⟨url, file?, hemit, hof⟩ :=
        assetOf_emitFile (m := m) htable config.assets.inlineLimit content
      generalize hctx : table.context m config.assets.inlineLimit config.assets.name = ctx at hemit
      dsimp only
      rw [hlimit, hname, hctx]
      have hsmallest : ctx.inlineLimit = config.assets.inlineLimit := by rw [← hctx, context]
      have hextension : ctx.extension = m.extension := by rw [← hctx, context]
      rcases hsteps with hsteps | hsteps
      · rw [hsteps]
        -- a small file is held by its address
        by_cases hsmall : content.size < config.assets.inlineLimit
        · have happly : Step.apply ctx (.raw content) .url
              = .ok (.asset (dataUrl m.extension content) none) := by
            rw [← hextension]
            exact congrArg Except.ok (if_pos (hsmallest ▸ hsmall))
          exact ⟨_, _, finished_runSteps happly rule.name, .data hsmall⟩
        · have happly : Step.apply ctx (.raw content) .url = .ok (.asset url file?) := by
            rw [← hemit]
            exact congrArg Except.ok (if_neg (hsmallest ▸ hsmall))
          exact ⟨url, file?, finished_runSteps happly rule.name, hof⟩
      · have happly : Step.apply ctx (.raw content) .file = .ok (.asset url file?) :=
          congrArg Except.ok hemit
        rw [hsteps]
        exact ⟨url, file?, finished_runSteps happly rule.name, hof⟩

end RuleTable

end AssetBundler
