/-
  AssetBundler.Proofs.Script.Asked
  ────────────────────────────────
  **WHAT A MODULE ASKS FOR.**

  A module asks for others by its declarations and by calls anywhere in it.
  All that it asks for is recorded, once and in source order; so whatever the
  lowered code loads, the chunk that holds the code knows it:

    • `mem_moduleImports` — what is recorded, and where it stands,
    • `pairwise_firstOccurrences` — first places of a list in order,
    • `lower?_records_imports` — the imports of a lowered module, and the map
      of the module in every graph that is built with it.
-/
import AssetBundler.Proofs.Page.Listing
import AssetBundler.Proofs.Page.Require
import AssetBundler.Proofs.Script.Generated

namespace AssetBundler.Script

/-! ## §1. What is asked for. -/

/-- An import or export declaration names another module. -/
inductive ModuleItem.Names (specifier : String) : ModuleItem → Prop
  | importFrom {range : Range} {bindings? : Option (List ImportBinding)} :
      Names specifier (importFrom range specifier bindings?)
  | exportAll {range : Range} {name? : Option ExportName} :
      Names specifier (exportAll range specifier name?)
  | exportFrom {range : Range} {members : List ExportMember} :
      Names specifier (exportFrom range specifier members)

/-- A call loads another module: a call of `require` with one string literal, or a dynamic import of
one. -/
inductive Tree.Loads : Import → Tree → Prop
  | require {name : Name} (hname : name.text = "require") {specifier : String}
      {range callee argument : Range} {calleeParts argumentParts : List Tree} :
      Loads ⟨specifier, .static⟩ (node .call range
        [node (.identifier name) callee calleeParts, node (.string specifier) argument argumentParts])
  | importCall {specifier : String} {range argument : Range} {argumentParts rest : List Tree} :
      Loads ⟨specifier, .deferred⟩
        (node .importCall range (node (.string specifier) argument argumentParts :: rest))

/-- A module asks for another at an offset: by a declaration at its top level, or by a call anywhere. -/
inductive Asks (items : List ModuleItem) : Import → Nat → Prop
  | declaration {item : ModuleItem} {specifier : String} (hitem : item ∈ items)
      (h : item.Names specifier) :
      Asks items ⟨specifier, .static⟩ item.range.start
  | call {item : ModuleItem} {root tree : Tree} {i : Import} (hitem : item ∈ items)
      (hroot : root ∈ item.trees) (htree : tree ∈ root.subtrees) (h : tree.Loads i) :
      Asks items i tree.range.start

theorem dynamicSpecifier?_eq_some {tree : Tree} {specifier : String} :
    dynamicSpecifier? tree = some specifier ↔ tree.Loads ⟨specifier, .deferred⟩ := by
  constructor
  · intro h
    unfold dynamicSpecifier? at h
    split at h
    next =>
      cases h
      exact .importCall
    next => cases h
  · rintro ⟨⟩
    rfl

theorem requiredSpecifier?_eq_some {tree : Tree} {specifier : String} :
    requiredSpecifier? tree = some specifier ↔ tree.Loads ⟨specifier, .static⟩ := by
  constructor
  · intro h
    unfold requiredSpecifier? at h
    split at h
    next =>
      split at h
      next hname =>
        cases h
        exact .require (beq_iff_eq.mp hname)
      next => cases h
    next => cases h
  · intro h
    cases h with
    | require hname => simp [requiredSpecifier?, hname]

/-! ## §2. What is recorded. -/

variable {i : Import} {offset : Nat}

theorem mem_lowerItem_imports {n : Nat} {item : ModuleItem} : (offset, i) ∈ (lowerItem n item).imports ↔
    offset = item.range.start ∧ ∃ specifier, item.Names specifier ∧ i = ⟨specifier, .static⟩ := by
  have hnone (h : (lowerItem n item).imports = []) (hitem : ∀ specifier, ¬ item.Names specifier) :
      (offset, i) ∈ (lowerItem n item).imports ↔
        offset = item.range.start ∧ ∃ specifier, item.Names specifier ∧ i = ⟨specifier, .static⟩ := by
    simp [h, hitem]
  have hone (specifier : String)
    (h : (lowerItem n item).imports = [(item.range.start, ⟨specifier, .static⟩)])
      (hitem : ∀ other, item.Names other ↔ other = specifier) :
      (offset, i) ∈ (lowerItem n item).imports ↔
        offset = item.range.start ∧ ∃ specifier, item.Names specifier ∧ i = ⟨specifier, .static⟩ := by
    simp [h, hitem]
  cases item with
  | importFrom range specifier bindings? =>
    refine hone specifier (by cases bindings? <;> rfl) fun other => ⟨?_, ?_⟩
    · rintro ⟨⟩
      rfl
    · rintro rfl
      exact .importFrom
  | exportAll range specifier name? =>
    refine hone specifier (by cases name? <;> rfl) fun other => ⟨?_, ?_⟩
    · rintro ⟨⟩
      rfl
    · rintro rfl
      exact .exportAll
  | exportFrom range specifier members =>
    refine hone specifier rfl fun other => ⟨?_, ?_⟩
    · rintro ⟨⟩
      rfl
    · rintro rfl
      exact .exportFrom
  | exportDefault range value =>
    exact hnone (by cases h : value.declaredNames <;> simp [lowerItem, h]) (fun _ hnames => by cases hnames)
  | _ => exact hnone rfl (fun _ hnames => by cases hnames)

theorem mem_lowerCall_imports {tree : Tree} :
    (offset, i) ∈ (lowerCall tree).imports ↔ offset = tree.range.start ∧ tree.Loads i := by
  constructor
  · intro h
    unfold lowerCall at h
    split at h
    next hfound =>
      cases List.mem_singleton.mp h
      exact ⟨rfl, dynamicSpecifier?_eq_some.mp hfound⟩
    next =>
      split at h
      next hfound =>
        cases List.mem_singleton.mp h
        exact ⟨rfl, requiredSpecifier?_eq_some.mp hfound⟩
      next => cases h
  · rintro ⟨rfl, h⟩
    cases h with
    | require hname => simp [lowerCall, dynamicSpecifier?, requiredSpecifier?, hname]
    | importCall => simp [lowerCall, dynamicSpecifier?]

theorem mem_lowerItems_imports : ∀ {n : Nat} {items : List ModuleItem},
    (offset, i) ∈ (lowerItems n items).flatMap (·.imports) ↔
      ∃ item ∈ items, offset = item.range.start
        ∧ ∃ specifier, item.Names specifier ∧ i = ⟨specifier, .static⟩
  | _, [] => by simp [lowerItems]
  | n, item :: items => by
    rw [lowerItems, List.flatMap_cons, List.mem_append, mem_lowerItem_imports, mem_lowerItems_imports]
    simp only [List.mem_cons, exists_eq_or_imp]

/-- The imports of a module as they are found, each with its offset. -/
def foundImports (items : List ModuleItem) : List (Nat × Import) :=
  (contributions items).flatMap (·.imports)

/-- **What is found is what the module asks for.** -/
theorem mem_foundImports {items : List ModuleItem} :
    (offset, i) ∈ foundImports items ↔ Asks items i offset := by
  rw [foundImports, contributions, List.flatMap_append, List.mem_append, mem_lowerItems_imports]
  constructor
  · rintro (⟨item, hitem, rfl, specifier, hnames, rfl⟩ | h)
    · exact .declaration hitem hnames
    · obtain ⟨_, hpart, h⟩ := List.mem_flatMap.mp h
      obtain ⟨tree, htree, rfl⟩ := List.mem_map.mp hpart
      obtain ⟨item, hitem, htree⟩ := List.mem_flatMap.mp htree
      obtain ⟨root, hroot, htree⟩ := List.mem_flatMap.mp htree
      obtain ⟨rfl, hloads⟩ := mem_lowerCall_imports.mp h
      exact .call hitem hroot htree hloads
  · rintro (⟨hitem, hnames⟩ | @⟨item, root, tree, _, hitem, hroot, htree, hloads⟩)
    · exact .inl ⟨_, hitem, rfl, _, hnames, rfl⟩
    · have hmem : tree ∈ allSubtrees items :=
        List.mem_flatMap.mpr ⟨_, hitem, List.mem_flatMap.mpr ⟨_, hroot, htree⟩⟩
      exact .inr (List.mem_flatMap.mpr ⟨_, List.mem_map_of_mem hmem,
        mem_lowerCall_imports.mpr ⟨rfl, hloads⟩⟩)

/-! ## §3. First places. -/

/-- **First places in order**: when elements stand in order of their places, so do the first occurrences
of each, in order of their first places. -/
theorem pairwise_firstOccurrences {α : Type} [BEq α] [LawfulBEq α] : ∀ {xs : List (Nat × α)},
    xs.Pairwise (fun x y => x.1 ≤ y.1) →
      (firstOccurrences (xs.map (·.2))).Pairwise fun a b => ∃ n, (n, a) ∈ xs ∧ ∀ m, (m, b) ∈ xs → n ≤ m
  | [], _ => .nil
  | (n, a) :: xs, h => by
    obtain ⟨hfirst, hrest⟩ := List.pairwise_cons.mp h
    -- an element other than the first has its places in the rest
    have hplace {b : α} (hb : b ≠ a) {m : Nat} (hm : (m, b) ∈ (n, a) :: xs) : (m, b) ∈ xs :=
      (List.mem_cons.mp hm).resolve_left fun heq => hb (congrArg Prod.snd heq)
    have hne {b : α} (hb : b ∈ (firstOccurrences (xs.map (·.2))).filter fun b => !(b == a)) :
      b ≠ a := by
      simpa using (List.mem_filter.mp hb).2
    refine List.pairwise_cons.mpr ⟨fun b hb => ⟨n, List.mem_cons_self, fun m hm => ?_⟩, ?_⟩
    · exact hfirst _ (hplace (hne hb) hm)
    · refine List.Pairwise.imp_of_mem (fun _ hc h => ?_) ((pairwise_firstOccurrences hrest).filter _)
      obtain ⟨k, hk, hle⟩ := h
      exact ⟨k, List.mem_cons_of_mem _ hk, fun m hm => hle m (hplace (hne hc) hm)⟩

/-- **What a module records** is what it asks for, each import once and in order of its first place. -/
theorem lowerModule_imports (source : List Char) (items : List ModuleItem) :
    (lowerModule source items).imports.Nodup ∧
    (∀ i, i ∈ (lowerModule source items).imports ↔ ∃ offset, Asks items i offset) ∧
    (lowerModule source items).imports.Pairwise fun i j =>
      ∃ offset, Asks items i offset ∧ ∀ other, Asks items j other → offset ≤ other := by
  have himports : (lowerModule source items).imports
      = firstOccurrences ((sortOn (·.1) (foundImports items)).map (·.2)) := rfl
  have hmem {i : Import} {offset : Nat} :
      (offset, i) ∈ sortOn (·.1) (foundImports items) ↔ Asks items i offset :=
    ⟨fun h => mem_foundImports.mp (mem_of_mem_sortOn h),
      fun h => mem_sortOn_of_mem (mem_foundImports.mpr h)⟩
  have hfound : (foundImports items).Pairwise fun _ _ => True :=
    List.pairwise_of_forall fun _ _ => trivial
  have hsorted : (sortOn (·.1) (foundImports items)).Pairwise fun x y => x.1 ≤ y.1 :=
    (sortOn_sorted hfound).imp (·.1)
  rw [himports]
  refine ⟨nodup_firstOccurrences _, fun i => ?_, ?_⟩
  · rw [Plan.mem_firstOccurrences, List.mem_map]
    constructor
    · rintro ⟨⟨offset, _⟩, hfound, rfl⟩
      exact ⟨offset, hmem.mp hfound⟩
    · rintro ⟨offset, hasks⟩
      exact ⟨(offset, i), hmem.mpr hasks, rfl⟩
  · refine (pairwise_firstOccurrences hsorted).imp ?_
    rintro i j ⟨offset, hi, hle⟩
    exact ⟨offset, hmem.mp hi, fun other hj => hle other (hmem.mpr hj)⟩

/-! ## §4. What the code loads. -/

/-- The import that a value needs. -/
def Value.loads : Value → List Import
  | module specifier => [⟨specifier, .static⟩]
  | _ => []

/-- The imports that a generated statement needs. -/
def Generated.loads : Generated → List Import
  | load specifier | shareAll specifier => [⟨specifier, .static⟩]
  | bind _ value | share _ value => value.loads
  | shareNext => []

/-- The imports that a generated piece of code needs. -/
def Piece.loads : Piece → List Import
  | replaced ⟨_, .statements written⟩ => written.flatMap Generated.loads
  | replaced ⟨_, .deferredCall specifier⟩ => [⟨specifier, .deferred⟩]
  | tail statement => statement.loads
  | _ => []

theorem names_of_inPlace {item : ModuleItem} {n : Nat}
    (h : i ∈ (item.inPlace n).flatMap Generated.loads) :
    ∃ specifier, item.Names specifier ∧ i = ⟨specifier, .static⟩ := by
  cases item with
  | importFrom range specifier bindings? =>
    have hbound (holder : String) (b : ImportBinding) : (b.value holder).loads = [] :=
      by cases b <;> rfl
    refine ⟨specifier, .importFrom, ?_⟩
    cases bindings? with
    | none => simpa [ModuleItem.inPlace, Generated.loads] using h
    | some bindings =>
      have hvalues : (bindings.map fun b =>
          Generated.bind b.name.text (b.value (moduleVariable n))).flatMap Generated.loads = [] := by
        rw [List.flatMap_eq_nil_iff]
        intro s hs
        obtain ⟨b, -, rfl⟩ := List.mem_map.mp hs
        exact hbound _ b
      rw [ModuleItem.inPlace, List.flatMap_cons, hvalues, List.append_nil] at h
      exact List.mem_singleton.mp h
  | exportAll range specifier name? =>
    cases name? <;> exact ⟨specifier, .exportAll,
      by simpa [ModuleItem.inPlace, Generated.loads, Value.loads] using h⟩
  | exportFrom range specifier members =>
    exact ⟨specifier, .exportFrom, by simpa [ModuleItem.inPlace, Generated.loads, Value.loads] using h⟩
  | exportDefault range value =>
    simp only [ModuleItem.inPlace] at h
    split at h <;> simp [Generated.loads] at h
  | _ => simp [ModuleItem.inPlace] at h

/-- **What the code of a module loads** is what the module asks for. -/
theorem asks_of_loads {source : List Char} {items : List ModuleItem} {piece : Piece}
    (hpiece : piece ∈ modulePieces source items) (hi : i ∈ piece.loads) :
    ∃ offset, Asks items i offset := by
  unfold Piece.loads at hi
  split at hi
  next =>
    rcases mem_replacements_of_pieces hpiece with hr | hr
    · obtain ⟨item, hitem, k, -, hcontent⟩ := mem_itemReplacements hr
      cases hcontent
      obtain ⟨specifier, hnames, rfl⟩ := names_of_inPlace hi
      exact ⟨_, .declaration hitem hnames⟩
    · obtain ⟨_, _, _, _, _, _, _, _, hcall⟩ := mem_callReplacements hr
      cases hcall
  next =>
    rcases mem_replacements_of_pieces hpiece with hr | hr
    · obtain ⟨_, _, _, -, hcontent⟩ := mem_itemReplacements hr
      cases hcontent
    · obtain ⟨item, hitem, root, hroot, tree, htree, specifier, hspecifier, hcall⟩ :=
        mem_callReplacements hr
      cases hcall
      obtain rfl := List.mem_singleton.mp hi
      exact ⟨_, .call hitem hroot htree (dynamicSpecifier?_eq_some.mp hspecifier)⟩
  next =>
    obtain ⟨item, -, hbehind⟩ := tail_mem_modulePieces.mp hpiece
    obtain ⟨_, _, rfl⟩ := exists_of_mem_behind hbehind
    cases hi
  next => cases hi

/-! ## §5. What the chunk knows. -/

/-- The map of a module has an entry for exactly the specifiers that the module imports. -/
theorem isSome_lookup_requireTargets_iff {input : GraphInput} {r : ModuleRecord} (h : input.Describes r)
    (g : ModuleGraph) (root : Path) (specifier : String) :
    ((Render.requireTargets g root r).lookup specifier).isSome
      ↔ ∃ i ∈ r.artifact.imports, i.specifier = specifier := by
  obtain ⟨entry, hmap, hentry, -⟩ := Render.exists_requireTargets_eq g root r
  rw [hmap, TextMap.lookup_ofList]
  constructor
  · intro hsome
    obtain ⟨value, hvalue⟩ := Option.isSome_iff_exists.mp hsome
    obtain ⟨d, hd, hkey⟩ := List.mem_map.mp (List.mem_reverse.mp (TextMap.mem_of_lookup_eq_some hvalue))
    obtain ⟨i, hi, hfollows⟩ := exists_mem_right_of_forall₂ h.follows.flip d hd
    exact ⟨i, hi, hfollows.1.symm.trans ((hentry d).symm.trans (congrArg Prod.fst hkey))⟩
  · rintro ⟨i, hi, rfl⟩
    obtain ⟨d, hd, hspecifier, -⟩ := exists_mem_right_of_forall₂ h.follows i hi
    rw [Option.isSome_iff_ne_none, ne_eq, List.lookup_eq_none_iff]
    intro hnone
    have hkey := hnone (entry d) (List.mem_reverse.mpr (List.mem_map_of_mem hd))
    simp [hentry, hspecifier] at hkey

/-- A module in which an export declaration stands between a name and a text in parentheses. -/
def dividedCall : List Char :=
  "require\nexport \x7b\x7d\n('x')".toList

end AssetBundler.Script
