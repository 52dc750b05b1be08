/-
  AssetBundler.Proofs.Script.Generated
  ────────────────────────────────
  **THE STATEMENTS THAT THE LOWERING WRITES.**

  The lowering writes texts; what they do is said of statements.  There are
  few kinds of them, each with its text, and the code of a lowered module is a
  row of pieces: what is kept of the source, the statements that stand in the
  place of a declaration, calls in the place of dynamic imports, and the
  assignments behind the body:

    • `lowerItem_edits`, `lowerItem_tail` — the statements of one item,
    • `lowerModule_pieces` — the code of a module is the text of its pieces,
    • `pieces_complete` — no declaration is left where it stands: each has a
      piece of its own.
-/
import AssetBundler.Proofs.Script.Lines

namespace AssetBundler.Script

open AssetBundler.Text

/-! ## §1. Values and statements. -/

/-- A value that a generated statement reads. -/
inductive Value where
  /-- The module of a specifier. -/
  | module (specifier : String)
  /-- A variable. -/
  | var (name : String)
  /-- An export of the module in a variable. -/
  | member (holder name : String)
  /-- The default export of the module in a variable, which is the module itself unless its exports are
  marked as those of a module. -/
  | interop (holder : String)
  deriving DecidableEq

/-- A generated statement. -/
inductive Generated where
  /-- Runs the module of a specifier. -/
  | load (specifier : String)
  | bind (name : String) (value : Value)
  /-- Assigns an export. -/
  | share (name : String) (value : Value)
  /-- Assigns all exports of another module but the default one. -/
  | shareAll (specifier : String)
  /-- Assigns the default export; the value stands behind. -/
  | shareNext
  deriving DecidableEq

/-- The value as an expression. -/
def Value.text : Value → String
  | module specifier => requireCall specifier
  | var name => name
  | member holder name => holder ++ "." ++ name
  | interop holder => holder ++ ".__esModule ? " ++ holder ++ ".default : " ++ holder

namespace Generated

/-- The statement as it is written. -/
def text : Generated → String
  | load specifier => requireCall specifier ++ ";"
  | bind name value => "var " ++ name ++ " = " ++ value.text ++ ";"
  | share name value => exportAssignment name value.text
  | shareAll specifier => copyExports specifier
  | shareNext => "exports.default = "

/-- Some statements on one line. -/
def lineText : List Generated → String
  | [] => ""
  | first :: rest => first.text ++ String.join (rest.map fun s => " " ++ s.text)

end Generated

/-! ## §2. The statements of one item. -/

/-- The value of what an import binds; `holder` is the variable of the module. -/
def ImportBinding.value (holder : String) : ImportBinding → Value
  | member imported _ => .member holder imported.text
  | default _ => .interop holder
  | all _ => .var holder

/-- The name that an import binds. -/
def ImportBinding.name : ImportBinding → Name
  | member _ name | default name | all name => name

namespace ModuleItem

/-- The statements in the place of the item; `n` numbers the variable of its module. -/
def inPlace (n : Nat) : ModuleItem → List Generated
  | importFrom _ specifier none => [.load specifier]
  | importFrom _ specifier (some bindings) =>
    .bind (moduleVariable n) (.module specifier)
      :: bindings.map fun b => .bind b.name.text (b.value (moduleVariable n))
  | exportAll _ specifier (some name) => [.share name.text (.module specifier)]
  | exportAll _ specifier none => [.shareAll specifier]
  | exportFrom _ specifier members =>
    .bind (moduleVariable n) (.module specifier)
      :: members.map fun m => .share m.exported.text (.member (moduleVariable n) m.source.text)
  | exportDefault _ value => if value.declaredNames = [] then [.shareNext] else []
  | exportList .. | exportDeclaration .. | statement _ => []

/-- The statements behind the body that assign what the item exports. -/
def behind : ModuleItem → List Generated
  | exportList _ members => members.map fun m => .share m.exported.text (.var m.source.text)
  | exportDeclaration _ declaration => declaration.declaredNames.map fun n =>
      .share n.text (.var n.text)
  | exportDefault _ value => (value.declaredNames.take 1).map fun n => .share "default" (.var n.text)
  | _ => []

/-- The words of the item that its statements replace: a whole declaration, or what stands before the
exported tree. -/
def words? : ModuleItem → Option Range
  | exportDeclaration range tree | exportDefault range tree => some (exportWords range tree)
  | statement _ => none
  | item => some item.range

end ModuleItem

open Generated

theorem bindingStatement_eq (holder : String) (binding : ImportBinding) :
    bindingStatement holder binding
      = " " ++ (Generated.bind binding.name.text (binding.value holder)).text := by
  cases binding <;> simp [bindingStatement, Generated.text, ImportBinding.value, ImportBinding.name,
    Value.text,
    String.append_assoc, ← String.toList_inj]

/-- **What an item writes in its place** are its statements. -/
theorem lowerItem_edits (n : Nat) (item : ModuleItem) :
    (lowerItem n item).edits = item.words?.toList.map fun range =>
      ⟨range, lineText (item.inPlace n)⟩ := by
  cases item with
  | importFrom range specifier bindings? =>
    cases bindings? with
    | none => simp [lowerItem, ModuleItem.words?, ModuleItem.range, ModuleItem.inPlace, lineText,
        Generated.text]
    | some bindings =>
      have hbindings : bindings.map (bindingStatement (moduleVariable n))
          = bindings.map fun b => " " ++
            (Generated.bind b.name.text (b.value (moduleVariable n))).text :=
        List.map_congr_left fun b _ => bindingStatement_eq _ b
      simp [lowerItem, ModuleItem.words?, ModuleItem.range, ModuleItem.inPlace, lineText, hbindings,
        Generated.text, Value.text, holderStatement, Function.comp_def]
  | exportAll range specifier name? =>
    cases name? <;> simp [lowerItem, ModuleItem.words?, ModuleItem.range, ModuleItem.inPlace, lineText,
      Generated.text, Value.text]
  | exportFrom range specifier members =>
    simp [lowerItem, ModuleItem.words?, ModuleItem.range, ModuleItem.inPlace, lineText, Generated.text,
      Value.text, holderStatement, Function.comp_def]
  | exportDefault range value =>
    simp only [lowerItem, ModuleItem.words?, ModuleItem.inPlace]
    cases value.declaredNames <;> simp [lineText, Generated.text]
  | _ => rfl

/-- **What an item writes behind the body** are its assignments. -/
theorem lowerItem_tail (n : Nat) (item : ModuleItem) :
    (lowerItem n item).tail = item.behind.map Generated.text := by
  cases item with
  | importFrom range specifier bindings? => cases bindings? <;> rfl
  | exportAll range specifier name? => cases name? <;> rfl
  | exportDefault range value =>
    simp only [lowerItem, ModuleItem.behind]
    cases value.declaredNames <;> simp [Generated.text, Value.text]
  | exportList range members => simp [lowerItem, ModuleItem.behind, Generated.text, Value.text]
  | exportDeclaration range declaration =>
    simp [lowerItem, ModuleItem.behind, Generated.text, Value.text]
  | _ => rfl

/-- Behind the body variables are assigned to exports, and nothing else is done. -/
theorem exists_of_mem_behind {item : ModuleItem} {statement : Generated} (h : statement ∈ item.behind) :
    ∃ name source, statement = .share name (.var source) := by
  cases item <;> simp only [ModuleItem.behind, List.mem_map, List.not_mem_nil] at h
  all_goals
    obtain ⟨_, -, rfl⟩ := h
    exact ⟨_, _, rfl⟩

/-! ## §3. Replacements. -/

/-- What stands in the place of a stretch of source. -/
inductive Content where
  | statements (written : List Generated)
  /-- A call that loads a module when it is asked for. -/
  | deferredCall (specifier : String)

/-- What is put there as text. -/
def Content.text : Content → String
  | statements written => lineText written
  | deferredCall specifier => "__import__(" ++ quote specifier ++ ")"

/-- A stretch of source and what takes its place. -/
structure Replacement where
  range : Range
  content : Content

def Replacement.edit (r : Replacement) : Edit :=
  ⟨r.range, r.content.text⟩

/-- The replacements of declarations; `n` modules have been put into variables before. -/
def itemReplacements : Nat → List ModuleItem → List Replacement
  | _, [] => []
  | n, item :: items =>
    let n := if needsVariable item then n + 1 else n
    item.words?.toList.map (⟨·, .statements (item.inPlace n)⟩) ++ itemReplacements n items

/-- The replacements of dynamic imports. -/
def callReplacements (items : List ModuleItem) : List Replacement :=
  (allSubtrees items).filterMap fun tree =>
    (dynamicSpecifier? tree).map fun specifier => ⟨tree.range, .deferredCall specifier⟩

/-- The replacements of a module, in the order in which they are made. -/
def moduleReplacements (items : List ModuleItem) : List Replacement :=
  sortOn (·.range.start) (itemReplacements 0 items ++ callReplacements items)

theorem sortOn_map {α β : Type} {key : α → Nat} {key' : β → Nat} {f : α → β}
    (hkey : ∀ a, key' (f a) = key a) :
    ∀ xs : List α, sortOn key' (xs.map f) = (sortOn key xs).map f
  | [] => rfl
  | x :: xs => by
    have hinsert : ∀ ys : List α, sortOn.insert key' (f x) (ys.map f)
      = (sortOn.insert key x ys).map f := by
      intro ys
      induction ys with
      | nil => rfl
      | cons y ys ih =>
        simp only [List.map_cons, sortOn.insert, hkey]
        split
        · rfl
        · rw [List.map_cons, ih]
    rw [List.map_cons, sortOn, sortOn, sortOn_map hkey xs, hinsert]

theorem lowerItems_edits : ∀ (n : Nat) (items : List ModuleItem),
    (lowerItems n items).flatMap (·.edits) = (itemReplacements n items).map Replacement.edit
  | _, [] => rfl
  | n, item :: items => by
    simp only [lowerItems, itemReplacements, List.flatMap_cons, List.map_append, lowerItem_edits,
      lowerItems_edits, List.map_map]
    rfl

theorem lowerCall_edits (tree : Tree) :
    (lowerCall tree).edits
      = ((dynamicSpecifier? tree).map fun specifier =>
        Edit.mk tree.range (Content.deferredCall specifier).text).toList := by
  unfold lowerCall
  split
  next specifier h => rw [h]; rfl
  next h => split <;> simp [h]

/-- The edits of a module are those of its replacements. -/
theorem moduleEdits_eq (items : List ModuleItem) :
    moduleEdits items = (moduleReplacements items).map Replacement.edit := by
  have hcalls : ((allSubtrees items).map lowerCall).flatMap (·.edits)
      = (callReplacements items).map Replacement.edit := by
    rw [callReplacements, List.map_filterMap, List.filterMap_eq_flatMap_toList, List.flatMap_map]
    refine List.flatMap_congr fun tree _ => ?_
    rw [lowerCall_edits, Option.map_map]
    rfl
  rw [moduleEdits, moduleReplacements, contributions, List.flatMap_append, lowerItems_edits, hcalls,
    ← List.map_append]
  exact sortOn_map (fun _ => rfl) _

/-! ## §4. The pieces of the code. -/

/-- A piece of the code of a lowered module. -/
inductive Piece where
  /-- The mark of a module that exports something. -/
  | mark
  /-- What is kept of the source, from an offset on. -/
  | kept (offset : Nat) (text : List Char)
  | replaced (r : Replacement)
  | lineBreaks (text : List Char)
  /-- An assignment behind the body, on a line of its own. -/
  | tail (statement : Generated)

def Piece.text : Piece → List Char
  | mark => moduleMark.toList
  | kept _ text | lineBreaks text => text
  | replaced r => r.content.text.toList
  | tail statement => statement.text.toList ++ ['\n']

/-- The text of some pieces. -/
def piecesText (pieces : List Piece) : List Char :=
  pieces.flatMap Piece.text

/-- The pieces of a text in which replacements are made, from an offset on. -/
def layout : List Replacement → Nat → List Char → List Piece
  | [], cursor, source => [.kept cursor source]
  | r :: rs, cursor, source =>
    let { start, stop } := r.range
    if start < cursor then layout rs cursor source
    else
      let replaced := (source.drop (start - cursor)).take (stop - start)
      .kept cursor (source.take (start - cursor)) :: .replaced r ::
        .lineBreaks (replaced.filter (· == '\n'))
        :: layout rs stop (source.drop (stop - cursor))

@[simp] theorem piecesText_append (a b : List Piece) :
    piecesText (a ++ b) = piecesText a ++ piecesText b :=
  List.flatMap_append

@[simp] theorem piecesText_cons (p : Piece) (ps : List Piece) :
    piecesText (p :: ps) = p.text ++ piecesText ps :=
  List.flatMap_cons

theorem piecesText_layout : ∀ (rs : List Replacement) (cursor : Nat) (source : List Char),
    piecesText (layout rs cursor source) = applyEdits (rs.map Replacement.edit) cursor source
  | [], cursor, source => by simp [layout, piecesText, Piece.text, applyEdits]
  | r :: rs, cursor, source => by
    have hrest (cursor : Nat) (source : List Char) := piecesText_layout rs cursor source
    rw [layout, List.map_cons, applyEdits]
    by_cases hcursor : r.range.start < cursor
    · simp [Replacement.edit, hcursor, hrest]
    · simp [Replacement.edit, hcursor, hrest, Piece.text]

/-- The assignments behind the body. -/
def moduleTail (items : List ModuleItem) : List Generated :=
  items.flatMap ModuleItem.behind

/-- The pieces before the tail. -/
def bodyPieces (source : List Char) (items : List ModuleItem) : List Piece :=
  (if items.any ModuleItem.isExport then [.mark] else []) ++ layout (moduleReplacements items) 0 source

/-- The pieces of a lowered module; the tail begins a line. -/
def modulePieces (source : List Char) (items : List ModuleItem) : List Piece :=
  let body := bodyPieces source items
  let ended := moduleTail items = [] ∨ (piecesText body).getLast? = some '\n'
  body ++ (if ended then [] else [.lineBreaks ['\n']]) ++ (moduleTail items).map .tail

theorem lowerItems_tail : ∀ (n : Nat) (items : List ModuleItem),
    (lowerItems n items).flatMap (·.tail) = (moduleTail items).map Generated.text
  | _, [] => rfl
  | n, item :: items => by
    simp [lowerItems, moduleTail, lowerItem_tail, lowerItems_tail _ items]

theorem tailStatements_eq (items : List ModuleItem) :
    tailStatements items = (moduleTail items).map Generated.text := by
  have hcalls : ((allSubtrees items).map lowerCall).flatMap (·.tail) = [] := by
    rw [List.flatMap_eq_nil_iff]
    rintro c hc
    obtain ⟨tree, -, rfl⟩ := List.mem_map.mp hc
    unfold lowerCall
    split
    · rfl
    · split <;> rfl
  rw [tailStatements, contributions, List.flatMap_append, hcalls, List.append_nil, lowerItems_tail]

theorem piecesText_bodyPieces (source : List Char) (items : List ModuleItem) :
    piecesText (bodyPieces source items)
      = modulePrefix items ++ applyEdits (moduleEdits items) 0 source := by
  rw [bodyPieces, piecesText_append, piecesText_layout, moduleEdits_eq, modulePrefix]
  congr 1
  split <;> simp [piecesText, Piece.text]

theorem tailText_eq (statements : List Generated) :
    tailText (statements.map Generated.text) = piecesText (statements.map .tail) := by
  induction statements with
  | nil => rfl
  | cons first rest ih =>
    rw [List.map_cons (f := Piece.tail), piecesText_cons, ← ih]
    cases rest <;> simp [tailText, Piece.text]

/-- **The code of a lowered module** is the text of its pieces. -/
theorem lowerModule_pieces (source : List Char) (items : List ModuleItem) :
    (lowerModule source items).code = piecesText (modulePieces source items) := by
  have hbody : characters (tracedBody source items) = piecesText (bodyPieces source items) := by
    simp [tracedBody, characters_splice, piecesText_bodyPieces]
  rw [lowerModule_code, hbody, tailStatements_eq]
  unfold modulePieces
  by_cases hnone : moduleTail items = []
  · simp [hnone, withTail]
  · by_cases hend : (piecesText (bodyPieces source items)).getLast? = some '\n'
    · simp [hnone, hend, withTail, ← tailText_eq, tailText]
    · simp [hnone, hend, withTail, ← tailText_eq, tailText, Piece.text]

theorem lower?_of_parse? {markup : Bool} {source : List Char} {items : List ModuleItem}
    (h : parse? markup source = some items) :
    lower? markup source = some (lowerModule source items) := by
  rw [lower?, h]
  rfl

/-! ## §5. Every declaration is replaced. -/

theorem mem_insert_of_mem {α : Type} {key : α → Nat} {x y : α} :
    ∀ {ys : List α}, y = x ∨ y ∈ ys → y ∈ sortOn.insert key x ys
  | [], h => by simpa [sortOn.insert] using h
  | z :: zs, h => by
    rw [sortOn.insert]
    split
    · simpa using h
    · rcases h with h | h
      · exact List.mem_cons_of_mem _ (mem_insert_of_mem (.inl h))
      · rcases List.mem_cons.mp h with rfl | h
        · exact List.mem_cons_self
        · exact List.mem_cons_of_mem _ (mem_insert_of_mem (.inr h))

/-- Putting a list in order loses nothing of it. -/
theorem mem_sortOn_of_mem {α : Type} {key : α → Nat} {y : α} :
    ∀ {xs : List α}, y ∈ xs → y ∈ sortOn key xs
  | _ :: _, h => mem_insert_of_mem ((List.mem_cons.mp h).imp_right mem_sortOn_of_mem)

/-- What is known of two elements in order of a key, when something is known of elements as they stood
before. -/
def Sorted {α : Type} (key : α → Nat) (known : α → α → Prop) (a b : α) : Prop :=
  key a ≤ key b ∧ (known a b ∨ key a < key b ∧ known b a)

theorem insert_sorted {α : Type} {key : α → Nat} {known : α → α → Prop} {x : α} :
    ∀ {ys : List α}, (∀ y ∈ ys, known x y) → ys.Pairwise (Sorted key known) →
      (sortOn.insert key x ys).Pairwise (Sorted key known)
  | [], _, _ => List.pairwise_singleton _ _
  | y :: ys, hx, hys => by
    obtain ⟨hy, hrest⟩ := List.pairwise_cons.mp hys
    obtain ⟨hxy, hxs⟩ := List.forall_mem_cons.mp hx
    rw [sortOn.insert]
    split
    next hle =>
      refine List.pairwise_cons.mpr ⟨List.forall_mem_cons.mpr ⟨⟨hle, .inl hxy⟩, fun z hz => ?_⟩, hys⟩
      exact ⟨hle.trans (hy z hz).1, .inl (hxs z hz)⟩
    next hlt =>
      refine List.pairwise_cons.mpr ⟨fun z hz => ?_, insert_sorted hxs hrest⟩
      rcases mem_of_mem_insert hz with rfl | hz
      · exact ⟨(not_le.mp hlt).le, .inr ⟨not_le.mp hlt, hxy⟩⟩
      · exact hy z hz

/-- **Elements in order** of a key; those of one key stand as they stood. -/
theorem sortOn_sorted {α : Type} {key : α → Nat} {known : α → α → Prop} :
    ∀ {xs : List α}, xs.Pairwise known → (sortOn key xs).Pairwise (Sorted key known)
  | [], _ => .nil
  | _ :: _, h =>
    have ⟨hx, hxs⟩ := List.pairwise_cons.mp h
    insert_sorted (fun y hy => hx y (mem_of_mem_sortOn hy)) (sortOn_sorted hxs)

/-- The replacement is that of a declaration. -/
def Replacement.OfItem (r : Replacement) : Prop :=
  ∃ written, r.content = .statements written

/-- What is known of two replacements, the first of which comes first: declarations stand one behind
another, and a dynamic import does not reach over the beginning of one. -/
structure Apart (a b : Replacement) : Prop where
  forward : a.OfItem → a.range.start ≤ a.range.stop
  items : b.OfItem → a.range.stop ≤ b.range.start
  calls : a.OfItem → ¬ b.OfItem → b.range.stop ≤ a.range.start ∨ a.range.start ≤ b.range.start

/-- Nothing that is replaced before a declaration reaches into it. -/
theorem Apart.stop_le {a b : Replacement} (h : Sorted (·.range.start) Apart a b) (hb : b.OfItem) :
    a.range.stop ≤ b.range.start := by
  obtain ⟨-, hab | ⟨hlt, hba⟩⟩ := h
  · exact hab.items hb
  · have hlt : a.range.start < b.range.start := hlt
    have hforward := hba.forward hb
    by_cases ha : a.OfItem
    · have := hba.items ha
      omega
    · rcases hba.calls hb ha with h | h
      · exact h
      · omega

theorem mem_itemReplacements {r : Replacement} :
    ∀ {n : Nat} {items : List ModuleItem}, r ∈ itemReplacements n items →
    ∃ item ∈ items, ∃ k, item.words? = some r.range ∧ r.content = .statements (item.inPlace k)
  | _, [], h => nomatch h
  | n, item :: items, h => by
    rcases List.mem_append.mp h with h | h
    · obtain ⟨range, hrange, rfl⟩ := List.mem_map.mp h
      exact ⟨item, List.mem_cons_self, _, Option.mem_toList.mp hrange, rfl⟩
    · obtain ⟨other, hother, k, hk⟩ := mem_itemReplacements h
      exact ⟨other, List.mem_cons_of_mem _ hother, k, hk⟩

theorem exists_itemReplacement {item : ModuleItem} {words : Range} (hwords : item.words? = some words) :
    ∀ {n : Nat} {items : List ModuleItem}, item ∈ items →
      ∃ k, ⟨words, .statements (item.inPlace k)⟩ ∈ itemReplacements n items
  | n, first :: items, h => by
    rcases List.mem_cons.mp h with rfl | h
    · exact ⟨_, List.mem_append_left _ (List.mem_map.mpr ⟨words, Option.mem_toList.mpr hwords, rfl⟩)⟩
    · obtain ⟨k, hk⟩ := exists_itemReplacement hwords h
      exact ⟨k, List.mem_append_right _ hk⟩

theorem mem_callReplacements {r : Replacement} {items : List ModuleItem}
    (h : r ∈ callReplacements items) :
    ∃ item ∈ items, ∃ tree ∈ item.trees, ∃ s ∈ tree.subtrees, ∃ specifier,
      dynamicSpecifier? s = some specifier
      ∧ r = ⟨s.range, .deferredCall specifier⟩ := by
  obtain ⟨s, hs, hr⟩ := List.mem_filterMap.mp h
  obtain ⟨specifier, hspecifier, rfl⟩ := Option.map_eq_some_iff.mp hr
  obtain ⟨item, hitem, hs⟩ := List.mem_flatMap.mp hs
  obtain ⟨tree, htree, hs⟩ := List.mem_flatMap.mp hs
  exact ⟨item, hitem, tree, htree, s, hs, specifier, hspecifier, rfl⟩

theorem kind_of_dynamicSpecifier? {tree : Tree} {specifier : String}
    (h : dynamicSpecifier? tree = some specifier) :
    tree.kind = .importCall := by
  unfold dynamicSpecifier? at h
  split at h
  · rfl
  · cases h

/-- Where the words of an item stand that are replaced. -/
theorem ModuleItem.Within.words {lo top : Nat} {item : ModuleItem} (h : item.Within lo top)
    {words : Range}
    (hwords : item.words? = some words) : words.start = item.range.start ∧ words.Within lo top
      ∧ ∀ tree, item ≠ .statement tree := by
  cases item with
  | statement tree => cases hwords
  | exportDeclaration range tree =>
    cases hwords
    obtain ⟨hstart, hstop⟩ := h.exported range tree (.inl rfl)
    exact ⟨rfl, ⟨h.start.1, hstart, hstop⟩, nofun⟩
  | exportDefault range tree =>
    cases hwords
    obtain ⟨hstart, hstop⟩ := h.exported range tree (.inr rfl)
    exact ⟨rfl, ⟨h.start.1, hstart, hstop⟩, nofun⟩
  | _ =>
    cases hwords
    exact ⟨rfl, h.range nofun, nofun⟩

theorem itemReplacements_apart :
    ∀ {n : Nat} {items : List ModuleItem}, (∀ item ∈ items, ∃ top, item.Within 0 top) →
    InOrder items → (itemReplacements n items).Pairwise Apart
  | _, [], _, _ => .nil
  | n, item :: items, hplaces, horder => by
    obtain ⟨hitem, hitems⟩ := List.forall_mem_cons.mp hplaces
    obtain ⟨hfirst, hrest⟩ := List.pairwise_cons.mp horder
    refine List.pairwise_append.mpr ⟨?_, itemReplacements_apart hitems hrest, ?_⟩
    · cases item.words? <;> simp
    · intro a ha b hb
      obtain ⟨words, hwords, rfl⟩ := List.mem_map.mp ha
      obtain ⟨next, hnext, k, hnextWords, hcontent⟩ := mem_itemReplacements hb
      obtain ⟨cut, bound, hbefore, hbehind⟩ := hfirst next hnext
      obtain ⟨-, hplace, -⟩ := hbefore.words (Option.mem_toList.mp hwords)
      obtain ⟨-, hnextPlace, -⟩ := hbehind.words hnextWords
      exact ⟨fun _ => hplace.forward, fun _ => hplace.stop.trans hnextPlace.start,
        fun _ hcall => absurd ⟨_, hcontent⟩ hcall⟩

theorem InOrder.either {items : List ModuleItem} (h : InOrder items) {a b : ModuleItem} (ha : a ∈ items)
    (hb : b ∈ items) (hne : a ≠ b) :
    (∃ cut bound, a.Within 0 cut ∧ b.Within cut bound)
      ∨ ∃ cut bound, b.Within 0 cut ∧ a.Within cut bound := by
  induction h with
  | nil => cases ha
  | cons hfirst _ ih =>
    rcases List.mem_cons.mp ha with rfl | ha' <;> rcases List.mem_cons.mp hb with rfl | hb'
    · exact absurd rfl hne
    · exact .inl (hfirst b hb')
    · exact .inr (hfirst a ha')
    · exact ih ha' hb'

/-- No dynamic import reaches over the beginning of a declaration. -/
theorem call_apart {items : List ModuleItem} (horder : InOrder items) {bound : Nat}
    (hplaces : ∀ item ∈ items, item.Within 0 bound) {n : Nat} {a b : Replacement}
    (ha : a ∈ itemReplacements n items)
    (hb : b ∈ callReplacements items) : Apart a b := by
  obtain ⟨item, hitem, k, hwords, -⟩ := mem_itemReplacements ha
  obtain ⟨other, hother, tree, htree, s, hs, specifier, hspecifier, rfl⟩ := mem_callReplacements hb
  have hkind := kind_of_dynamicSpecifier? hspecifier
  obtain ⟨hstart, hplace, hne⟩ := (hplaces item hitem).words hwords
  refine ⟨fun _ => hplace.forward, fun h => (nomatch h.choose_spec), fun _ _ => ?_⟩
  by_cases heq : item = other
  · subst heq
    exact hstart ▸ (hplaces item hitem).apart hne tree htree s hs hkind
  · rcases horder.either hitem hother heq with ⟨cut, _, hbefore, hbehind⟩ | ⟨cut, _, hbefore, hbehind⟩
    · obtain ⟨-, hplace, -⟩ := hbefore.words hwords
      exact .inr (hplace.forward.trans (hplace.stop.trans (hbehind.trees tree htree s hs hkind).start))
    · obtain ⟨-, hplace, -⟩ := hbehind.words hwords
      exact .inl ((hbefore.trees tree htree s hs hkind).stop.trans hplace.start)

theorem replacements_apart {markup : Bool} {source : List Char} {items : List ModuleItem}
    (h : parse? markup source = some items) :
    (itemReplacements 0 items ++ callReplacements items).Pairwise Apart := by
  obtain ⟨⟨bound, hplaces⟩, horder⟩ := parse?_inOrder h
  refine List.pairwise_append.mpr
    ⟨itemReplacements_apart (fun item hi => ⟨bound, hplaces item hi⟩) horder, ?_,
    fun a ha b hb => call_apart horder hplaces ha hb⟩
  -- two dynamic imports may stand one inside the other
  have hcall : ∀ r ∈ callReplacements items, ¬ r.OfItem := by
    rintro r hr ⟨written, hwritten⟩
    obtain ⟨_, _, _, _, _, _, _, _, rfl⟩ := mem_callReplacements hr
    cases hwritten
  refine List.Pairwise.imp_of_mem (R := fun _ _ => True) (fun ha hb _ => ?_)
    (List.pairwise_of_forall fun _ _ => trivial)
  exact ⟨fun h => absurd h (hcall _ ha), fun h => absurd h (hcall _ hb), fun h => absurd h (hcall _ ha)⟩

/-- A replacement is made when nothing before it reaches into it. -/
theorem replaced_mem_layout {r : Replacement} {after : List Replacement} :
    ∀ {before : List Replacement} {cursor : Nat}
    {source : List Char}, cursor ≤ r.range.start → (∀ a ∈ before, a.range.stop ≤ r.range.start) →
      .replaced r ∈ layout (before ++ r :: after) cursor source
  | [], cursor, source, hcursor, _ => by
    rw [List.nil_append, layout]
    simp [not_lt.mpr hcursor]
  | a :: before, cursor, source, hcursor, h => by
    obtain ⟨ha, hbefore⟩ := List.forall_mem_cons.mp h
    rw [List.cons_append, layout]
    dsimp only
    split
    · exact replaced_mem_layout hcursor hbefore
    · simp [replaced_mem_layout ha hbefore]

/-- What the pieces of a text are in which replacements are made. -/
theorem mem_layout {piece : Piece} : ∀ {rs : List Replacement} {cursor : Nat} {source : List Char},
    piece ∈ layout rs cursor source → (∃ offset text, piece = .kept offset text)
      ∨ (∃ r ∈ rs, piece = .replaced r) ∨ ∃ text, piece = .lineBreaks text
  | [], cursor, source, h => .inl ⟨cursor, source, List.mem_singleton.mp h⟩
  | r :: rs, cursor, source, h => by
    have hrest {cursor : Nat} {source : List Char} (h : piece ∈ layout rs cursor source) :=
      (mem_layout h).imp_right (Or.imp_left fun ⟨a, ha, heq⟩ =>
        (⟨a, List.mem_cons_of_mem r ha, heq⟩ : ∃ a ∈ r :: rs, piece = Piece.replaced a))
    rw [layout] at h
    dsimp only at h
    split at h
    · exact hrest h
    · simp only [List.mem_cons] at h
      rcases h with rfl | rfl | rfl | h
      · exact .inl ⟨_, _, rfl⟩
      · exact .inr (.inl ⟨r, List.mem_cons_self, rfl⟩)
      · exact .inr (.inr ⟨_, rfl⟩)
      · exact hrest h

theorem mem_of_replaced_mem_layout {r : Replacement} {rs : List Replacement} {cursor : Nat}
    {source : List Char}
    (h : .replaced r ∈ layout rs cursor source) : r ∈ rs := by
  obtain ⟨_, _, heq⟩ | ⟨_, hmem, heq⟩ | ⟨_, heq⟩ := mem_layout h
  · cases heq
  · cases heq
    exact hmem
  · cases heq

theorem replaced_mem_modulePieces {source : List Char} {items : List ModuleItem} {r : Replacement} :
    .replaced r ∈ modulePieces source items
      ↔ .replaced r ∈ layout (moduleReplacements items) 0 source := by
  simp only [modulePieces, bodyPieces]
  split <;> split <;> simp

theorem tail_mem_modulePieces {source : List Char} {items : List ModuleItem} {statement : Generated} :
    .tail statement ∈ modulePieces source items ↔ ∃ item ∈ items, statement ∈ item.behind := by
  have hlayout : .tail statement ∉ layout (moduleReplacements items) 0 source := fun h => by
    simpa using mem_layout h
  simp only [modulePieces, bodyPieces, moduleTail]
  split <;> split <;> simp [hlayout]

theorem mark_mem_modulePieces {source : List Char} {items : List ModuleItem} :
    .mark ∈ modulePieces source items ↔ ∃ item ∈ items, item.isExport = true := by
  have hlayout : .mark ∉ layout (moduleReplacements items) 0 source :=
    fun h => by simpa using mem_layout h
  simp only [modulePieces, bodyPieces, List.any_eq_true]
  split <;> split <;> simp_all

/-- **Every declaration is replaced**: no replacement of one is left out, and each that is made is that of
a declaration or of a dynamic import. -/
theorem pieces_complete {markup : Bool} {source : List Char} {items : List ModuleItem}
    (h : parse? markup source = some items) {r : Replacement} (hr : r ∈ itemReplacements 0 items) :
    .replaced r ∈ modulePieces source items := by
  have hofItem : r.OfItem := by
    obtain ⟨_, -, _, -, hcontent⟩ := mem_itemReplacements hr
    exact ⟨_, hcontent⟩
  have hmem : r ∈ moduleReplacements items := mem_sortOn_of_mem (List.mem_append_left _ hr)
  have hsorted : (moduleReplacements items).Pairwise (Sorted (·.range.start) Apart) :=
    sortOn_sorted (replacements_apart h)
  obtain ⟨before, after, heq⟩ := List.append_of_mem hmem
  rw [replaced_mem_modulePieces, heq]
  rw [heq] at hsorted
  refine replaced_mem_layout (Nat.zero_le _) fun a ha => ?_
  exact Apart.stop_le ((List.pairwise_append.mp hsorted).2.2 a ha r List.mem_cons_self) hofItem

theorem mem_replacements_of_pieces {source : List Char} {items : List ModuleItem} {r : Replacement}
    (h : .replaced r ∈ modulePieces source items) :
    r ∈ itemReplacements 0 items ∨ r ∈ callReplacements items :=
  List.mem_append.mp (mem_of_mem_sortOn (mem_of_replaced_mem_layout (replaced_mem_modulePieces.mp h)))

end AssetBundler.Script
