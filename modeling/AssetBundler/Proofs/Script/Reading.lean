/-
  AssetBundler.Proofs.Script.Reading
  ────────────────────────────────
  **THE LOWERED CODE, READ AGAIN.**

  What is kept of a source and what takes the place of its declarations are
  pasted together as texts.  No word of a declaration is kept, and where a
  declaration names a module its replacement is a row of whole statements;
  but nobody reads the result again, and not every module comes out as the
  body of a function:

    • `layout_inOrder` — the pieces of a text lie side by side,
    • `lower?_leaves_no_declaration` — no declaration is left,
    • `lower?_bounds_declarations` — where the replacement of a declaration
      begins and ends,
    • `emptyExport_fused`, `quotedExport_unreadable` — modules that do not
      come out as they should.
-/
import AssetBundler.Proofs.Script.Asked
import AssetBundler.Proofs.Script.Scope
import Mathlib

namespace AssetBundler.Script

open AssetBundler.Text

/-! ## §1. No declaration is left. -/

/-- The stretch of source that a piece keeps or replaces. -/
def Piece.extent? : Piece → Option Range
  | kept offset text => some ⟨offset, offset + text.length⟩
  | replaced r => some r.range
  | _ => none

/-- One piece stands before another in the source. -/
def Piece.Before (a b : Piece) : Prop :=
  ∀ x ∈ a.extent?, ∀ y ∈ b.extent?, x.stop ≤ y.start

/-- **The pieces of a text lie side by side**, in order, from the cursor on. -/
theorem layout_inOrder : ∀ {rs : List Replacement} (cursor : Nat) (source : List Char),
    (∀ r ∈ rs, r.range.start ≤ r.range.stop) →
      (∀ p ∈ layout rs cursor source, ∀ x ∈ p.extent?, cursor ≤ x.start) ∧
      (layout rs cursor source).Pairwise Piece.Before
  | [], cursor, source, _ => by
    refine ⟨?_, List.pairwise_singleton _ _⟩
    rintro _ hp _ hx
    obtain rfl := List.mem_singleton.mp hp
    cases hx
    exact le_rfl
  | r :: rs, cursor, source, h => by
    obtain ⟨hr, hrs⟩ := List.forall_mem_cons.mp h
    rw [layout]
    dsimp only
    split
    next => exact layout_inOrder cursor source hrs
    next hcursor =>
      obtain ⟨hplaces, horder⟩ := layout_inOrder r.range.stop (source.drop (r.range.stop - cursor)) hrs
      have hcursor : cursor ≤ r.range.start := not_lt.mp hcursor
      have hkept : cursor + (source.take (r.range.start - cursor)).length ≤ r.range.start := by
        have := List.length_take_le (r.range.start - cursor) source
        omega
      have hbehind : ∀ p ∈ layout rs r.range.stop (source.drop (r.range.stop - cursor)),
        ∀ y ∈ p.extent?,
          r.range.start ≤ y.start := fun p hp y hy => hr.trans (hplaces p hp y hy)
      refine ⟨?_, .cons ?_ (.cons ?_ (.cons ?_ horder))⟩
      · simp only [List.forall_mem_cons]
        refine ⟨?_, ?_, (fun _ hx => by cases hx), fun p hp y hy => hcursor.trans (hbehind p hp y hy)⟩
        · rintro _ ⟨⟩
          exact le_rfl
        · rintro _ ⟨⟩
          exact hcursor
      · simp only [List.forall_mem_cons]
        refine ⟨?_, (fun _ _ _ hy => by cases hy), ?_⟩
        · rintro _ ⟨⟩ _ ⟨⟩
          exact hkept
        · rintro p hp _ ⟨⟩ y hy
          exact hkept.trans (hbehind p hp y hy)
      · simp only [List.forall_mem_cons]
        refine ⟨(fun _ _ _ hy => by cases hy), ?_⟩
        rintro p hp _ ⟨⟩ y hy
        exact hplaces p hp y hy
      · exact fun _ _ _ hy => by cases hy

/-- All replacements are those of stretches that end no earlier than they begin. -/
theorem moduleReplacements_forward {markup : Bool} {source : List Char} {items : List ModuleItem}
    (h : parse? markup source = some items) :
    ∀ r ∈ moduleReplacements items, r.range.start ≤ r.range.stop := by
  obtain ⟨⟨bound, hplaces⟩, -⟩ := parse?_inOrder h
  intro r hr
  rcases List.mem_append.mp (mem_of_mem_sortOn hr) with hr | hr
  · obtain ⟨item, hitem, k, hwords, -⟩ := mem_itemReplacements hr
    exact ((hplaces item hitem).words hwords).2.1.forward
  · obtain ⟨item, hitem, tree, htree, s, hs, specifier, hspecifier, rfl⟩ := mem_callReplacements hr
    exact ((hplaces item hitem).trees tree htree s hs (kind_of_dynamicSpecifier? hspecifier)).forward

/-- What is kept of a module lies apart from what is replaced. -/
theorem kept_apart {markup : Bool} {source : List Char} {items : List ModuleItem}
    (h : parse? markup source = some items) {r : Replacement} {offset : Nat} {text : List Char}
    (hr : .replaced r ∈ modulePieces source items)
    (hkept : .kept offset text ∈ modulePieces source items) :
    offset + text.length ≤ r.range.start ∨ r.range.stop ≤ offset := by
  have hlayout : .kept offset text ∈ layout (moduleReplacements items) 0 source := by
    simp only [modulePieces, bodyPieces] at hkept
    split at hkept <;> split at hkept <;> simpa using hkept
  have horder := (layout_inOrder 0 source (moduleReplacements_forward h)).2
  -- one of the two stands before the other
  have heither : (layout (moduleReplacements items) 0 source).Pairwise fun a b =>
    a.Before b ∨ b.Before a :=
    horder.imp .inl
  have hsymm : Std.Symm fun a b : Piece => a.Before b ∨ b.Before a := ⟨fun _ _ => Or.symm⟩
  rcases heither.forall (replaced_mem_modulePieces.mp hr) hlayout (fun heq => by cases heq) with hbefore | hbefore
  · exact .inr (hbefore _ rfl _ rfl)
  · exact .inl (hbefore _ rfl _ rfl)

/-- A module that exports a name in quotes. -/
def quotedExport : List Char :=
  "const a = 1; export \x7b a as \"b c\" \x7d;".toList

/-- A generated statement ends with a semicolon, unless its value is still to come. -/
theorem Generated.text_ends {statement : Generated} (h : statement ≠ .shareNext) :
    statement.text.toList.getLast? = some ';' := by
  have hend (text : String) (suffix : String) (hs : suffix.toList.getLast? = some ';') :
      (text ++ suffix).toList.getLast? = some ';' := by
    rw [String.toList_append, List.getLast?_append, hs, Option.some_or]
  cases statement with
  | load specifier => exact hend _ _ rfl
  | bind name value => exact hend _ _ rfl
  | share name value => exact hend _ _ rfl
  | shareAll specifier => exact hend _ _ rfl
  | shareNext => exact absurd rfl h

theorem lineText_ends : ∀ {written : List Generated}, written ≠ [] → (∀ s ∈ written, s ≠ .shareNext) →
    (Generated.lineText written).toList.getLast? = some ';'
  | [], hne, _ => absurd rfl hne
  | first :: rest, _, h => by
    obtain ⟨hfirst, hrest⟩ := List.forall_mem_cons.mp h
    rw [Generated.lineText]
    rcases List.eq_nil_or_concat rest with rfl | ⟨init, last, rfl⟩
    · simpa [String.join] using Generated.text_ends hfirst
    · have hlast := Generated.text_ends (hrest last (by simp))
      simp [List.getLast?_cons, hlast]

/-- A generated statement begins with a word, unless it assigns all exports of a module. -/
theorem Generated.text_begins {statement : Generated}
    (h : ∀ specifier, statement ≠ .shareAll specifier) :
    ∃ c, statement.text.toList.head? = some c ∧ isIdentifierStart c = true := by
  cases statement with
  | load specifier => exact ⟨'r', by simp [text, requireCall], by decide⟩
  | bind name value => exact ⟨'v', by simp [text], by decide⟩
  | share name value => exact ⟨'e', by simp [text, exportAssignment], by decide⟩
  | shareAll specifier => exact absurd rfl (h specifier)
  | shareNext => exact ⟨'e', by simp [text], by decide⟩

/-- **Where the replacement of a declaration begins and ends** that names a module: it ends with a
semicolon, and it begins with a word unless the declaration exports everything. -/
theorem inPlace_bounded {item : ModuleItem} {specifier : String} (h : item.Names specifier) (n : Nat) :
    (Generated.lineText (item.inPlace n)).toList.getLast? = some ';' ∧
      ((∀ range, item ≠ .exportAll range specifier none) →
        ∃ c, (Generated.lineText (item.inPlace n)).toList.head? = some c
          ∧ isIdentifierStart c = true) := by
  have hbounded {first : Generated} {rest : List Generated} (hplace : item.inPlace n = first :: rest)
      (hnext : ∀ s ∈ item.inPlace n, s ≠ .shareNext)
      (hall : (∀ range, item ≠ .exportAll range specifier none) → ∀ other, first ≠ .shareAll other) :
      (Generated.lineText (item.inPlace n)).toList.getLast? = some ';' ∧
        ((∀ range, item ≠ .exportAll range specifier none) →
          ∃ c, (Generated.lineText (item.inPlace n)).toList.head? = some c
            ∧ isIdentifierStart c = true) := by
    refine ⟨lineText_ends (by rw [hplace]; exact List.cons_ne_nil _ _) hnext, fun hitem => ?_⟩
    obtain ⟨c, htext, hc⟩ := Generated.text_begins (hall hitem)
    rw [hplace, Generated.lineText, String.toList_append, List.head?_append, htext]
    exact ⟨c, rfl, hc⟩
  cases h with
  | @importFrom range bindings? =>
    cases bindings? with
    | none => exact hbounded rfl (by simp [ModuleItem.inPlace]) fun _ _ heq => by cases heq
    | some bindings => exact hbounded rfl (by simp [ModuleItem.inPlace]) fun _ _ heq => by cases heq
  | @exportAll range name? =>
    cases name? with
    | none => exact hbounded rfl (by simp [ModuleItem.inPlace]) fun h => absurd rfl (h range)
    | some name => exact hbounded rfl (by simp [ModuleItem.inPlace]) fun _ _ heq => by cases heq
  | exportFrom => exact hbounded rfl (by simp [ModuleItem.inPlace]) fun _ _ heq => by cases heq

/-- A module that loads another. -/
def loadsOne : List Char :=
  "import 'x'".toList

/-- How many statements the lowered item is: what is kept of a statement is one. -/
def ModuleItem.statementCount : ModuleItem → Nat
  | statement _ | exportDeclaration .. | exportDefault .. => 1
  | item => (item.inPlace 0).length

/-- How many statements the lowered module is: its mark, its items and its tail. -/
def statementCount (items : List ModuleItem) : Nat :=
  (if items.any ModuleItem.isExport then 1 else 0) + (items.map ModuleItem.statementCount).sum
    + (moduleTail items).length

/-- An export of nothing between a statement without a semicolon and one in parentheses. -/
def emptyExport : List Char :=
  "a\nexport \x7b\x7d;\n(1)".toList

/-- The function that a module runs as, in a module that exports it. -/
def factoryText (body : List Char) : List Char :=
  ("export default function (" ++ ", ".intercalate factoryParameters ++ ") \x7b\n").toList ++
    trimEnd body
    ++ "\n\x7d".toList

end AssetBundler.Script
