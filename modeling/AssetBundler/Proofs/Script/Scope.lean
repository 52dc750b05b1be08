/-
  AssetBundler.Proofs.Script.Scope
  ────────────────────────────────
  **WHICH NAMES A BODY DECLARES.**

  A lowered module runs as the body of a function, so in one scope stand the
  parameters of that function, the names that the module declares or imports,
  and the variables that hold imported modules.  The lowering numbers these
  variables and looks at no name of the source, so they are apart from each
  other and from the parameters, but not from the source:

    • `nodup_holders`, `holder_not_parameter` — the variables that are made,
    • `bodyNames_perm` — what a body declares beside what its source does,
    • `lower?_declares_once` — when no name is declared twice.
-/
import AssetBundler.Build.Render
import AssetBundler.Proofs.Script.Shared

namespace AssetBundler

/-! ## §1. The parameters. -/

/-- The parameters of the function that a module runs as. -/
def factoryParameters : List String :=
  ["module", "exports", "require", "__import__"]

/-- The function stands so in the registration of a module. -/
theorem registration_eq (g : ModuleGraph) (root : Path) (r : ModuleRecord) :
    Render.registration g root r
      = "modules[" ++ Text.quote (Path.moduleId r.identity.path root) ++ "] = [function ("
      ++ ", ".intercalate factoryParameters ++ ") \x7b\n" ++ Render.trimmedBody r ++ "\n\x7d, "
      ++ Render.requireMap g root r ++ "];\n" := by
  have hhead : "] = [function (module, exports, require, __import__) \x7b\n"
      = "] = [function (" ++ ", ".intercalate factoryParameters ++ ") \x7b\n" := rfl
  unfold Render.registration
  rw [hhead]
  simp [String.append_assoc]

namespace Script

/-! ## §2. Names in the scope of a body. -/

/-- The name that a generated statement declares. -/
def Generated.boundName? : Generated → Option String
  | bind name _ => some name
  | _ => none

namespace ModuleItem

/-- The names that are declared by what is kept of the item. -/
def keptNames (item : ModuleItem) : List String :=
  item.trees.flatMap fun tree => tree.declaredNames.map Name.text

/-- The names that the lowered item declares; `n` numbers the variable of its module. -/
def bodyNames (n : Nat) (item : ModuleItem) : List String :=
  (item.inPlace n).filterMap Generated.boundName? ++ item.keptNames

/-- The variable that the lowered item has for its module, if it has one. -/
def holders (n : Nat) (item : ModuleItem) : List String :=
  if needsVariable item then [moduleVariable n] else []

/-- **The names of one item**: those that the source declares, and the variable of its module. -/
theorem bodyNames_perm (n : Nat) (item : ModuleItem) :
    (item.bodyNames n).Perm (item.declaredNames.map Name.text ++ item.holders n) := by
  cases item with
  | importFrom range specifier bindings? =>
    cases bindings? with
    | none => exact .refl _
    | some bindings =>
      have hnames : (bindings.map fun b =>
        Generated.bind b.name.text (b.value (moduleVariable n))).filterMap
          Generated.boundName? = bindings.map fun b => b.name.text := by
        rw [List.filterMap_map]
        exact List.filterMap_eq_map_iff_forall_eq_some.mpr fun _ _ => rfl
      have hdeclared : (importFrom range specifier (some bindings)).declaredNames.map Name.text
          = bindings.map fun b => b.name.text := by
        rw [declaredNames, List.map_map]
        refine List.map_congr_left fun b _ => ?_
        cases b <;> rfl
      rw [hdeclared]
      simpa [bodyNames, inPlace, keptNames, trees, holders, needsVariable, Generated.boundName?, hnames]
        using (List.perm_append_singleton _ _).symm
  | exportAll range specifier name? => cases name? <;> exact .refl _
  | exportFrom range specifier members =>
    simp [bodyNames, inPlace, keptNames, trees, holders, needsVariable, declaredNames,
      Generated.boundName?]
  | exportDefault range value =>
    have hnone : ((exportDefault range value).inPlace n).filterMap Generated.boundName? = [] := by
      simp only [inPlace]
      split <;> rfl
    rw [bodyNames, hnone]
    simp [keptNames, trees, holders, needsVariable, declaredNames]
  | _ => simp [bodyNames, inPlace, keptNames, trees, holders, needsVariable, declaredNames]

end ModuleItem

/-- The names that a module declares or imports at its top level. -/
def sourceNames (items : List ModuleItem) : List String :=
  items.flatMap fun item => item.declaredNames.map Name.text

/-- The names that the body of a lowered module declares; `n` modules have been put into variables
before. -/
def bodyNames : Nat → List ModuleItem → List String
  | _, [] => []
  | n, item :: items =>
    let n := if needsVariable item then n + 1 else n
    item.bodyNames n ++ bodyNames n items

/-- The variables that hold the modules of a module. -/
def holders (items : List ModuleItem) : List String :=
  (List.range' 1 (items.countP needsVariable)).map moduleVariable

theorem bodyNames_perm_from : ∀ (n : Nat) (items : List ModuleItem), (bodyNames n items).Perm
    (sourceNames items ++ (List.range' (n + 1) (items.countP needsVariable)).map moduleVariable)
  | _, [] => .refl _
  | n, item :: items => by
    have hrest := bodyNames_perm_from (if needsVariable item then n + 1 else n) items
    refine ((item.bodyNames_perm _).append hrest).trans ?_
    have hholders : item.holders (if needsVariable item then n + 1 else n)
          ++ (List.range' ((if needsVariable item then n + 1 else n) + 1)
            (items.countP needsVariable)).map moduleVariable
        = (List.range' (n + 1) ((item :: items).countP needsVariable)).map moduleVariable := by
      cases h : needsVariable item <;> simp [ModuleItem.holders, h, List.range'_succ]
    rw [← hholders, show sourceNames (item :: items)
      = item.declaredNames.map Name.text ++ sourceNames items from rfl,
      List.append_assoc, List.append_assoc]
    refine List.Perm.append_left _ ?_
    rw [← List.append_assoc, ← List.append_assoc]
    exact List.perm_append_comm.append_right _

/-- **What a body declares**: what its source does, and the variables of modules. -/
theorem bodyNames_perm (items : List ModuleItem) :
    (bodyNames 0 items).Perm (sourceNames items ++ holders items) :=
  bodyNames_perm_from 0 items

/-! ## §3. The variables of modules. -/

theorem moduleVariable_injective : Function.Injective moduleVariable := by
  intro a b h
  simp only [moduleVariable, ← String.toList_inj, String.toList_append, List.append_cancel_left_eq,
    Nat.toString_eq_repr, Nat.toList_repr] at h
  rw [← @Nat.ofDigitChars_ten_toDigits a, h, Nat.ofDigitChars_ten_toDigits]

/-- **The variables of modules** are apart from each other, -/
theorem nodup_holders (items : List ModuleItem) : (holders items).Nodup :=
  List.Nodup.map moduleVariable_injective (List.nodup_range' 1)

/-- and from the parameters. -/
theorem holder_not_parameter {items : List ModuleItem} {name : String} (h : name ∈ holders items) :
    name ∉ factoryParameters := by
  obtain ⟨n, -, rfl⟩ := List.mem_map.mp h
  have hstart : (moduleVariable n).toList.take 3 = ['_', '_', 'w'] := by
    simp [moduleVariable]
  have hparameters : ∀ p ∈ factoryParameters, p.toList.take 3 ≠ ['_', '_', 'w'] := by decide
  exact fun hmem => hparameters _ hmem hstart

/-! ## §4. When no name is declared twice. -/

theorem mem_bodyNames :
    ∀ {n : Nat} {items : List ModuleItem} {name : String}, name ∈ bodyNames n items ↔
    (∃ r ∈ itemReplacements n items, ∃ written, r.content = .statements written
      ∧ name ∈ written.filterMap Generated.boundName?) ∨ ∃ item ∈ items, name ∈ item.keptNames
  | n, [], name => by simp [bodyNames, itemReplacements]
  | n, item :: items, name => by
    -- an item that nothing is put in the place of writes nothing there
    have hitem (k : Nat) : name ∈ (item.inPlace k).filterMap Generated.boundName? ↔
        ∃ r ∈ item.words?.toList.map fun words => Replacement.mk words (.statements (item.inPlace k)),
          ∃ written, r.content = .statements written
            ∧ name ∈ written.filterMap Generated.boundName? := by
      cases hwords : item.words? with
      | some words => simp
      | none =>
        have hnone : item.inPlace k = [] := by
          cases item with
          | statement tree => rfl
          | _ => cases hwords
        simp [hnone]
    simp only [bodyNames, ModuleItem.bodyNames, itemReplacements, List.mem_append, mem_bodyNames, hitem,
      List.mem_cons, or_and_right, exists_or, exists_eq_left]
    exact or_or_or_comm

/-- The names that the body declares are those that the generated statements in its pieces declare, and
those of what is kept. -/
theorem mem_bodyNames_iff {markup : Bool} {source : List Char} {items : List ModuleItem}
    (h : parse? markup source = some items) {name : String} : name ∈ bodyNames 0 items ↔
      (∃ piece ∈ modulePieces source items, name ∈ piece.statements.filterMap Generated.boundName?)
        ∨ ∃ item ∈ items, name ∈ item.keptNames := by
  rw [mem_bodyNames]
  refine or_congr_left ⟨?_, ?_⟩
  · rintro ⟨⟨range, content⟩, hr, written, rfl, hname⟩
    exact ⟨_, pieces_complete h hr, hname⟩
  · rintro ⟨piece, hpiece, hname⟩
    unfold Piece.statements at hname
    split at hname
    next =>
      rcases mem_replacements_of_pieces hpiece with hr | hr
      · exact ⟨_, hr, _, rfl, hname⟩
      · obtain ⟨_, _, _, _, _, _, _, _, hcall⟩ := mem_callReplacements hr
        cases hcall
    next =>
      obtain ⟨item, -, hbehind⟩ := tail_mem_modulePieces.mp hpiece
      obtain ⟨_, _, rfl⟩ := exists_of_mem_behind hbehind
      cases hname
    next => cases hname

/-- **When a body declares no name twice.** The function that a lowered module runs as has no two
declarations of one name, parameters included, just when the source declares no name twice and none
that is a parameter or a variable that the lowering makes for one of its modules. -/
theorem lower?_declares_once {markup : Bool} {source : List Char} {lowered : LoweredModule}
    (hlower : lower? markup source = some lowered) :
    ∃ items, parse? markup source = some items ∧ lowered.code = piecesText (modulePieces source items) ∧
      (∀ name, name ∈ bodyNames 0 items ↔
        (∃ piece ∈ modulePieces source items, name ∈ piece.statements.filterMap Generated.boundName?)
          ∨ ∃ item ∈ items, name ∈ item.keptNames) ∧
      (bodyNames 0 items).Perm (sourceNames items ++ holders items) ∧
      ((factoryParameters ++ bodyNames 0 items).Nodup ↔ (sourceNames items).Nodup ∧
        ∀ name ∈ sourceNames items, name ∉ factoryParameters ∧ name ∉ holders items) := by
  obtain ⟨items, hitems, rfl⟩ := Option.map_eq_some_iff.mp hlower
  have hperm := bodyNames_perm items
  refine ⟨items, hitems, lowerModule_pieces source items, fun _ => mem_bodyNames_iff hitems, hperm, ?_⟩
  have hparameters : factoryParameters.Nodup := by decide
  rw [(hperm.append_left factoryParameters).nodup_iff, List.nodup_append', List.nodup_append']
  have hholders := nodup_holders items
  constructor
  · rintro ⟨-, ⟨hsource, -, hapart⟩, hdisjoint⟩
    refine ⟨hsource, fun name hname => ⟨fun hp => ?_, hapart hname⟩⟩
    exact hdisjoint hp (List.mem_append_left _ hname)
  · rintro ⟨hsource, hapart⟩
    refine ⟨hparameters, ⟨hsource, hholders, fun name hname => (hapart name hname).2⟩,
      fun name hp hname => ?_⟩
    rcases List.mem_append.mp hname with hname | hname
    · exact (hapart name hname).1 hp
    · exact holder_not_parameter hname hp

/-- A module that declares a name of the kind that the lowering makes. -/
def numberedName : List Char :=
  "let __weft_m1=1;import y from 'y'".toList

/-- What its body declares. -/
theorem numberedName_names : ∃ lowered items, lower? false numberedName = some lowered ∧
    parse? false numberedName = some items ∧
      lowered.code = piecesText (modulePieces numberedName items) ∧
    (bodyNames 0 items).Perm (sourceNames items ++ holders items) := by
  have hread : (parse? false numberedName).isSome = true := by decide +kernel
  obtain ⟨items, hitems⟩ := Option.isSome_iff_exists.mp hread
  have hlower := lower?_of_parse? hitems
  obtain ⟨found, hfound, hcode, -, hperm, -⟩ := lower?_declares_once hlower
  exact ⟨_, found, hlower, hfound, hcode, hperm⟩

/-- It declares no name twice, and its body does: the variable that the lowering makes is no new one. -/
theorem numberedName_declared_twice : ∃ items, parse? false numberedName = some items ∧
    (sourceNames items).Nodup ∧ ¬ (factoryParameters ++ bodyNames 0 items).Nodup := by
  have hread : (parse? false numberedName).any (fun items =>
      decide ((sourceNames items).Nodup ∧ ¬ (factoryParameters ++ bodyNames 0 items).Nodup))
        = true := by
    decide +kernel
  obtain ⟨items, hitems, hnames⟩ := (Option.any_eq_true _ _).mp hread
  exact ⟨items, hitems, of_decide_eq_true hnames⟩

end Script

end AssetBundler
