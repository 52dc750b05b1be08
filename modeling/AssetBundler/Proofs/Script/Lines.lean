/-
  AssetBundler.Proofs.Script.Lines
  ────────────────────────────────
  **EVERY STATEMENT STAYS ON ITS LINE.**

  A lowered module is shown line by line beside its source, so what is kept
  of the source has to stay on its line.  Each character of a spliced text is
  written with the offset of the source character that it is, if it is one;
  the text with offsets then tells what was kept, in which order and where:

    • `splice_keeps` — any list of edits that end no earlier than they begin
      and whose texts hold no line break,
    • `contributions_oneLine` — the edits of a module are such,
    • `lower?_keeps_lines` — the body of a lowered module, and its tail.

  A line break is the character `\n`, by which lines are numbered in source
  maps.
-/
import AssetBundler.Script.Lowering
import AssetBundler.Proofs.Script.Positions
import AssetBundler.Proofs.Style.Placeholder
import AssetBundler.Proofs.Transform.Imports
import Mathlib.Data.List.Range

namespace AssetBundler.Script

open AssetBundler.Text

/-! ## §1. Texts with offsets. -/

/-- A character, and the offset of the source character that it is, if it is one. -/
abbrev Traced := Char × Option Nat

/-- What has been put in. -/
def added (text : List Char) : List Traced :=
  text.map (·, none)

/-- What has been kept of a source, from an offset on. -/
def kept : Nat → List Char → List Traced
  | _, [] => []
  | offset, c :: rest => (c, some offset) :: kept (offset + 1) rest

/-- `applyEdits`, with offsets. -/
def splice : List Edit → Nat → List Char → List Traced
  | [], cursor, source => kept cursor source
  | edit :: edits, cursor, source =>
    let { start, stop } := edit.range
    if start < cursor then splice edits cursor source
    else
      let replaced := (source.drop (start - cursor)).take (stop - start)
      kept cursor (source.take (start - cursor)) ++ added edit.text.toList
        ++ added (replaced.filter (· == '\n')) ++ splice edits stop (source.drop (stop - cursor))

/-- The edits that are made, behind an offset; one inside another is left out. -/
def made : Nat → List Edit → List Edit
  | _, [] => []
  | cursor, edit :: edits =>
    if edit.range.start < cursor then made cursor edits else edit :: made edit.range.stop edits

/-- An edit puts something else in the place of the character at an offset. -/
def replaces (edits : List Edit) (offset : Nat) : Bool :=
  (made 0 edits).any fun edit => edit.range.start ≤ offset && offset < edit.range.stop

/-- The number of line breaks. -/
def lineBreaks (text : List Char) : Nat :=
  text.count '\n'

/-- The characters of a text with offsets. -/
def characters (text : List Traced) : List Char :=
  text.map (·.1)

/-- The offsets in a text, in its order. -/
def offsets (text : List Traced) : List Nat :=
  text.filterMap (·.2)

@[simp] theorem characters_append (a b : List Traced) :
    characters (a ++ b) = characters a ++ characters b :=
  List.map_append

@[simp] theorem offsets_append (a b : List Traced) : offsets (a ++ b) = offsets a ++ offsets b :=
  List.filterMap_append

@[simp] theorem characters_added (text : List Char) : characters (added text) = text := by
  simp [characters, added, Function.comp_def]

@[simp] theorem offsets_added (text : List Char) : offsets (added text) = [] := by
  simp [offsets, added]

@[simp] theorem characters_kept : ∀ (source : List Char) (n : Nat), characters (kept n source) = source
  | [], _ => rfl
  | c :: rest, n => congrArg (c :: ·) (characters_kept rest (n + 1))

@[simp] theorem offsets_kept :
    ∀ (source : List Char) (n : Nat), offsets (kept n source) = List.range' n source.length
  | [], _ => rfl
  | _ :: rest, n => congrArg (n :: ·) (offsets_kept rest (n + 1))

/-- **The text with offsets** is the text. -/
theorem characters_splice : ∀ (edits : List Edit) (cursor : Nat) (source : List Char),
    characters (splice edits cursor source) = applyEdits edits cursor source
  | [], cursor, source => characters_kept source cursor
  | edit :: edits, cursor, source => by
    rw [splice, applyEdits]
    dsimp only
    split
    · exact characters_splice edits cursor source
    · simp [characters_splice edits edit.range.stop]

/-! ## §2. Line breaks. -/

/-- An edit of a stretch of source, by a text without line breaks. -/
structure Edit.OneLine (edit : Edit) : Prop where
  range : edit.range.start ≤ edit.range.stop
  text : '\n' ∉ edit.text.toList

/-- A text in three parts, of which an edit replaces the second. -/
theorem take_drop_drop {α : Type} (source : List α) {cursor start stop : Nat} (hcursor : cursor ≤ start)
    (hstop : start ≤ stop) :
    source.take (start - cursor) ++ (source.drop (start - cursor)).take (stop - start)
      ++ source.drop (stop - cursor) = source := by
  have hdrop : source.drop (stop - cursor) = (source.drop (start - cursor)).drop (stop - start) := by
    rw [List.drop_drop]
    congr 1
    omega
  rw [hdrop, List.append_assoc, List.take_append_drop, List.take_append_drop]

@[simp] theorem lineBreaks_append (a b : List Char) :
    lineBreaks (a ++ b) = lineBreaks a + lineBreaks b :=
  List.count_append

@[simp] theorem lineBreaks_filter (text : List Char) :
    lineBreaks (text.filter (· == '\n')) = lineBreaks text :=
  List.count_filter rfl

theorem lineBreaks_eq_zero {text : List Char} (h : '\n' ∉ text) : lineBreaks text = 0 :=
  List.count_eq_zero.mpr h

/-- **A text keeps its number of line breaks**: an edit puts back those that it takes away. -/
theorem lineBreaks_applyEdits : ∀ {edits : List Edit} {cursor : Nat} {source : List Char},
    (∀ edit ∈ edits, edit.OneLine) → lineBreaks (applyEdits edits cursor source) = lineBreaks source
  | [], _, _, _ => rfl
  | edit :: edits, cursor, source, h => by
    obtain ⟨hedit, hedits⟩ := List.forall_mem_cons.mp h
    rw [applyEdits]
    dsimp only
    split
    · exact lineBreaks_applyEdits hedits
    next hcursor =>
      conv_rhs => rw [← take_drop_drop source (not_lt.mp hcursor) hedit.range]
      simp [lineBreaks_applyEdits hedits, lineBreaks_eq_zero hedit.text]

/-! ## §3. What is kept, and where. -/

theorem made_start : ∀ {edits : List Edit} {cursor : Nat}, (∀ edit ∈ edits, edit.OneLine) →
    ∀ edit ∈ made cursor edits, cursor ≤ edit.range.start
  | [], _, _, _, h => nomatch h
  | edit :: edits, cursor, h, e, he => by
    obtain ⟨hedit, hedits⟩ := List.forall_mem_cons.mp h
    rw [made] at he
    split at he
    · exact made_start hedits e he
    next hcursor =>
      rcases List.mem_cons.mp he with rfl | he
      · exact not_lt.mp hcursor
      · exact (not_lt.mp hcursor).trans (hedit.range.trans (made_start hedits e he))

/-- The offsets before another one, and those from it on. -/
theorem range'_cut {cursor cut : Nat} (h : cursor ≤ cut) (n : Nat) :
    List.range' cursor n
      = List.range' cursor (min (cut - cursor) n) ++ List.range' cut (n - (cut - cursor)) := by
  rcases le_total n (cut - cursor) with hn | hn
  · simp [Nat.min_eq_right hn, Nat.sub_eq_zero_of_le hn]
  · have hlen : n = (cut - cursor) + (n - (cut - cursor)) := by omega
    have hcut : cursor + (cut - cursor) = cut := by omega
    conv_lhs => rw [hlen, ← List.range'_append_1, hcut]
    rw [Nat.min_eq_left hn]

/-- Some edit covers the offset. -/
def covered (edits : List Edit) (offset : Nat) : Bool :=
  edits.any fun edit => edit.range.start ≤ offset && offset < edit.range.stop

/-- Nothing before the edits is covered. -/
theorem filter_before (n len : Nat) {edits : List Edit} {start : Nat}
    (h : ∀ edit ∈ edits, start ≤ edit.range.start)
    (hlen : n + len ≤ start) :
    (List.range' n len).filter (fun i => !covered edits i) = List.range' n len := by
  rw [List.filter_eq_self]
  intro i hi
  have hlt := (List.mem_range'_1.mp hi).2
  simp only [covered, Bool.not_eq_true', List.any_eq_false, Bool.and_eq_true, decide_eq_true_eq,
    not_and]
  intro edit he hstart
  have := h edit he
  omega

/-- All of an edit is covered. -/
theorem filter_inside (edit : Edit) (edits : List Edit) (len : Nat)
    (hlen : edit.range.start + len ≤ edit.range.stop) :
    (List.range' edit.range.start len).filter (fun i => !covered (edit :: edits) i) = [] := by
  rw [List.filter_eq_nil_iff]
  intro i hi
  obtain ⟨hge, hlt⟩ := List.mem_range'_1.mp hi
  simp [covered, hge, hlt.trans_le hlen]

/-- Nothing behind an edit is covered by it. -/
theorem filter_behind (edit : Edit) (edits : List Edit) (len : Nat) :
    (List.range' edit.range.stop len).filter (fun i => !covered (edit :: edits) i)
      = (List.range' edit.range.stop len).filter fun i => !covered edits i := by
  refine List.filter_congr fun i hi => ?_
  have := (List.mem_range'_1.mp hi).1
  simp [covered, not_lt.mpr this]

/-- **What is kept** of a source is every character that no edit replaces, once and in order. -/
theorem offsets_splice : ∀ {edits : List Edit} {cursor : Nat} {source : List Char},
    (∀ edit ∈ edits, edit.OneLine) →
    offsets (splice edits cursor source)
      = (List.range' cursor source.length).filter fun i => !covered (made cursor edits) i
  | [], cursor, source, _ => by
    simp [splice, made, covered]
  | ⟨⟨start, stop⟩, text⟩ :: edits, cursor, source, h => by
    obtain ⟨hedit, hedits⟩ := List.forall_mem_cons.mp h
    rw [splice, made]
    dsimp only
    split
    · exact offsets_splice hedits
    next hcursor =>
      have hstart : cursor ≤ start := not_lt.mp hcursor
      have hstop : start ≤ stop := hedit.range
      have hfirst : ∀ e ∈ (⟨⟨start, stop⟩, text⟩ :: made stop edits : List Edit),
        start ≤ e.range.start :=
        List.forall_mem_cons.mpr ⟨le_rfl, fun e he => hstop.trans (made_start hedits e he)⟩
      -- an offset stands before the edit, in it, or behind it
      have hbefore := filter_before cursor (min (start - cursor) source.length) hfirst (by omega)
      have hinside := filter_inside ⟨⟨start, stop⟩, text⟩ (made stop edits)
        (min (stop - start) (source.length - (start - cursor))) (by dsimp only; omega)
      have hbehind := filter_behind ⟨⟨start, stop⟩, text⟩ (made stop edits)
        (source.length - (stop - cursor))
      have hlength : source.length - (start - cursor) - (stop - start)
        = source.length - (stop - cursor) := by
        omega
      dsimp only at hinside hbehind
      rw [range'_cut hstart, range'_cut hstop, List.filter_append, List.filter_append, hbefore,
        hinside, hlength,
        hbehind]
      simp [offsets_splice hedits]

/-- A part of two lists in a row stands in one of them. -/
theorem append_eq_cut {α : Type} {as bs before after : List α} {a : α}
    (h : as ++ bs = before ++ a :: after) :
    (∃ rest, as = before ++ a :: rest) ∨ ∃ front, before = as ++ front ∧ bs = front ++ a :: after := by
  rcases List.append_eq_append_iff.mp h with ⟨front, hfront, hbs⟩ | ⟨_ | ⟨b, rest⟩, has, hrest⟩
  · exact .inr ⟨front, hfront, hbs⟩
  · exact .inr ⟨[], by simpa using has.symm, by simpa using hrest.symm⟩
  · obtain ⟨rfl, -⟩ := List.cons.inj hrest
    exact .inl ⟨rest, has⟩

/-- A kept character stands on its line: it is the one of the source at its offset, and as many line
breaks stand before it as before that. -/
def OnLine (cursor : Nat) (source : List Char) (text : List Traced) : Prop :=
  ∀ before c offset after, text = before ++ (c, some offset) :: after → cursor ≤ offset ∧
    source[offset - cursor]? = some c ∧
      lineBreaks (characters before) = lineBreaks (source.take (offset - cursor))

theorem kept_onLine : ∀ (source : List Char) (cursor : Nat), OnLine cursor source (kept cursor source)
  | [], _, before, _, _, _, h => by cases before <;> cases h
  | c :: rest, cursor, before, d, offset, after, h => by
    cases before with
    | nil =>
      cases h
      simp [lineBreaks, characters]
    | cons first before =>
      obtain ⟨hfirst, h⟩ := List.cons.inj h
      obtain ⟨hle, hget, hlines⟩ := kept_onLine rest (cursor + 1) before d offset after h
      have hoffset : offset - cursor = offset - (cursor + 1) + 1 := by omega
      refine ⟨by omega, ?_, ?_⟩
      · rw [hoffset, List.getElem?_cons_succ, hget]
      · subst hfirst
        rw [hoffset, List.take_succ_cons]
        simp only [characters, lineBreaks] at hlines ⊢
        simp [List.count_cons, hlines]

/-- What is kept of the front of a source is kept of the source. -/
theorem OnLine.of_take {cursor n : Nat} {source : List Char} {text : List Traced}
    (h : OnLine cursor (source.take n) text) : OnLine cursor source text := by
  intro before c offset after heq
  obtain ⟨hle, hget, hlines⟩ := h before c offset after heq
  rw [List.getElem?_take] at hget
  split at hget
  next hlt =>
    rw [List.take_take, Nat.min_eq_left hlt.le] at hlines
    exact ⟨hle, hget, hlines⟩
  next => cases hget

theorem OnLine.added {cursor : Nat} {source : List Char} {text : List Traced}
    (h : OnLine cursor source text)
    (more : List Char) : OnLine cursor source (text ++ added more) := by
  intro before c offset after heq
  rcases append_eq_cut heq with ⟨rest, heq⟩ | ⟨front, -, heq⟩
  · exact h before c offset rest heq
  · have hmem : (c, some offset) ∈ Script.added more := heq ▸ List.mem_append_right _ List.mem_cons_self
    simp [Script.added] at hmem

/-- Two texts in a row, of which the first has the line breaks of the source up to the second. -/
theorem OnLine.append {cursor cut : Nat} {source : List Char} {as bs : List Traced}
    (hcut : cursor ≤ cut)
    (ha : OnLine cursor source as) (hb : OnLine cut (source.drop (cut - cursor)) bs)
    (hlines : lineBreaks (characters as) = lineBreaks (source.take (cut - cursor))) :
    OnLine cursor source (as ++ bs) := by
  intro before c offset after heq
  rcases append_eq_cut heq with ⟨rest, hfirst⟩ | ⟨front, rfl, hsecond⟩
  · exact ha before c offset rest hfirst
  · obtain ⟨hle, hget, hfront⟩ := hb front c offset after hsecond
    have hoffset : offset - cursor = (cut - cursor) + (offset - cut) := by omega
    refine ⟨hcut.trans hle, ?_, ?_⟩
    · rw [hoffset, ← List.getElem?_drop, hget]
    · rw [hoffset, List.take_add, characters_append, lineBreaks_append, lineBreaks_append, hlines,
        hfront]

/-- **Each kept character stays on its line.** -/
theorem splice_onLine : ∀ {edits : List Edit} {cursor : Nat} {source : List Char},
    (∀ edit ∈ edits, edit.OneLine) → OnLine cursor source (splice edits cursor source)
  | [], cursor, source, _ => kept_onLine source cursor
  | ⟨⟨start, stop⟩, text⟩ :: edits, cursor, source, h => by
    obtain ⟨hedit, hedits⟩ := List.forall_mem_cons.mp h
    rw [splice]
    dsimp only
    split
    · exact splice_onLine hedits
    next hcursor =>
      have hstart : cursor ≤ start := not_lt.mp hcursor
      have hstop : start ≤ stop := hedit.range
      have hkept : OnLine cursor source (kept cursor (source.take (start - cursor))) :=
        .of_take (kept_onLine _ _)
      refine ((hkept.added _).added _).append (hstart.trans hstop) (splice_onLine hedits) ?_
      have hlen : stop - cursor = (start - cursor) + (stop - start) := by omega
      rw [hlen, List.take_add]
      simp [lineBreaks_eq_zero hedit.text]

/-! ## §4. The edits of a module. -/

/-- The text has no line break. -/
def Unbroken (s : String) : Prop :=
  '\n' ∉ s.toList

instance (s : String) : Decidable (Unbroken s) :=
  inferInstanceAs (Decidable (¬ _))

theorem unbroken_ofList {chars : List Char} (h : '\n' ∉ chars) : Unbroken (String.ofList chars) := by
  rwa [Unbroken, String.toList_ofList]

theorem Unbroken.append {s t : String} (hs : Unbroken s) (ht : Unbroken t) : Unbroken (s ++ t) := by
  unfold Unbroken at *
  rw [String.toList_append]
  exact List.not_mem_append hs ht

theorem unbroken_join {strings : List String} (h : ∀ s ∈ strings, Unbroken s) :
    Unbroken (String.join strings) := by
  induction strings with
  | nil => simp [Unbroken]
  | cons s strings ih => 
    simp_all [Unbroken, String.join_cons]

/-- A line break is no character of a name. -/
theorem unbroken_name (name : Name) : Unbroken name.text := by
  intro h
  rw [Name.text, String.toList_ofList] at h
  have := List.all_eq_true.mp name.valid _ h
  revert this
  decide

/-- Between quotes a line break is written with an escape. -/
theorem not_break_quotedChar (c : Char) : '\n' ∉ quotedChar c := by
  by_cases hc : '\n' = c
  · rw [← hc]
    decide
  · exact notMem_quotedChar (by decide) hc

theorem unbroken_quote (s : String) : Unbroken (quote s) := by
  intro h
  rw [quote, quotedChars, String.toList_ofList] at h
  rcases List.mem_cons.mp h with h | h
  · exact absurd h (by decide)
  rcases List.mem_append.mp h with h | h
  · obtain ⟨c, -, h⟩ := List.mem_flatMap.mp h
    exact not_break_quotedChar c h
  · exact absurd h (by decide)

theorem unbroken_moduleVariable (n : Nat) : Unbroken (moduleVariable n) := by
  refine .append (by decide) fun h => ?_
  have := Style.Placeholder.isAsciiDigit_of_mem h
  revert this
  decide

/-- The names by which an item refers to exports, its own or those of another module. -/
def ModuleItem.exportNames : ModuleItem → List ExportName
  | importFrom _ _ (some bindings) => bindings.flatMap fun
    | .member imported _ => [imported]
    | _ => []
  | exportAll _ _ (some name) => [name]
  | exportFrom _ _ members | exportList _ members => members.flatMap fun m => [m.source, m.exported]
  | _ => []

/-- The name is no text in quotes. -/
def ExportName.isIdentifier : ExportName → Bool
  | identifier _ => true
  | quoted _ => false

/-- All import and export names of an item are identifiers. -/
def ModuleItem.Plain (item : ModuleItem) : Prop :=
  ∀ name ∈ item.exportNames, name.isIdentifier = true

instance (item : ModuleItem) : Decidable item.Plain :=
  inferInstanceAs (Decidable (∀ _ ∈ _, _))

theorem unbroken_identifier {name : ExportName} (h : name.isIdentifier = true) :
    Unbroken name.text := by
  cases name with
  | identifier n => exact unbroken_name n
  | quoted _ => cases h

theorem unbroken_bindingStatement {holder : String} (hholder : Unbroken holder)
    {binding : ImportBinding}
    (h : ∀ imported name, binding = .member imported name → Unbroken imported.text) :
    Unbroken (bindingStatement holder binding) := by
  have hvar : ∀ name : Name, Unbroken (" var " ++ name.text ++ " = " ++ holder) := fun name =>
    .append (.append (.append (by decide) (unbroken_name name)) (by decide)) hholder
  unfold bindingStatement
  cases binding with
  | member imported name =>
    exact (((hvar name).append (by decide)).append (h imported name rfl)).append (by decide)
  | default name =>
    have hdefault := (hvar name).append (unbroken_ofList (by decide) : Unbroken ".__esModule ? ")
    exact (((hdefault.append hholder).append (by decide)).append hholder).append (by decide)
  | all name => exact (hvar name).append (by decide)

theorem unbroken_requireCall (specifier : String) : Unbroken (requireCall specifier) := by
  have := unbroken_quote specifier
  simp_all [Unbroken, requireCall]

theorem unbroken_exportAssignment {name value : String} (hname : Unbroken name)
    (hvalue : Unbroken value) :
    Unbroken (exportAssignment name value) :=
  .append (.append (.append (.append (by decide) hname) (by decide)) hvalue) (by decide)

theorem unbroken_copyExports (specifier : String) : Unbroken (copyExports specifier) :=
  .append (.append (.append (unbroken_ofList (by decide)) (unbroken_ofList (by decide)))
    (unbroken_requireCall specifier)) (by decide)

theorem unbroken_holderStatement {holder : String} (h : Unbroken holder) (specifier : String) :
    Unbroken (holderStatement holder specifier) := by
  have := unbroken_requireCall specifier
  simp_all [Unbroken, holderStatement]

/-- **The edits of one item** put nothing but whole lines back. -/
theorem lowerItem_oneLine (n : Nat) {item : ModuleItem} (hforward : item.Forward)
    (hplain : item.Plain) :
    ∀ edit ∈ (lowerItem n item).edits, edit.OneLine := by
  have hholder := unbroken_moduleVariable n
  have hempty : Unbroken "" := by decide
  cases item with
  | importFrom range specifier bindings? =>
    have hrange : range.start ≤ range.stop := hforward.range (by simp)
    cases bindings? with
    | none =>
      refine List.forall_mem_singleton.mpr ⟨hrange, ?_⟩
      exact (unbroken_requireCall specifier).append (by decide)
    | some bindings =>
      refine List.forall_mem_singleton.mpr ⟨hrange,
        (unbroken_holderStatement hholder specifier).append ?_⟩
      refine unbroken_join (List.forall_mem_map.mpr fun binding hb =>
        unbroken_bindingStatement hholder ?_)
      rintro imported name rfl
      exact unbroken_identifier (hplain imported (List.mem_flatMap.mpr ⟨_, hb, List.mem_cons_self⟩))
  | exportAll range specifier name? =>
    have hrange : range.start ≤ range.stop := hforward.range (by simp)
    cases name? with
    | none => exact List.forall_mem_singleton.mpr ⟨hrange, unbroken_copyExports specifier⟩
    | some name =>
      have hname := unbroken_identifier (hplain name List.mem_cons_self)
      exact List.forall_mem_singleton.mpr
        ⟨hrange, unbroken_exportAssignment hname (unbroken_requireCall specifier)⟩
  | exportFrom range specifier members =>
    refine List.forall_mem_singleton.mpr
      ⟨hforward.range (by simp), (unbroken_holderStatement hholder specifier).append ?_⟩
    refine unbroken_join (List.forall_mem_map.mpr fun m hm => ?_)
    have hsource : Unbroken m.source.text :=
      unbroken_identifier (hplain _ (List.mem_flatMap.mpr ⟨m, hm, List.mem_cons_self⟩))
    have hexported : Unbroken m.exported.text :=
      unbroken_identifier (hplain _
        (List.mem_flatMap.mpr ⟨m, hm, List.mem_cons_of_mem _ List.mem_cons_self⟩))
    have hvalue : Unbroken (moduleVariable n ++ "." ++ m.source.text) :=
      (hholder.append (by decide)).append hsource
    have hblank : Unbroken " " := by decide
    exact hblank.append (unbroken_exportAssignment hexported hvalue)
  | exportList range members => exact List.forall_mem_singleton.mpr ⟨hforward.range (by simp), hempty⟩
  | exportDeclaration range declaration =>
    exact List.forall_mem_singleton.mpr ⟨hforward.exported range declaration (.inl rfl), hempty⟩
  | exportDefault range value =>
    have hrange := hforward.exported range value (.inr rfl)
    simp only [lowerItem]
    split
    · exact List.forall_mem_singleton.mpr ⟨hrange, hempty⟩
    · exact List.forall_mem_singleton.mpr ⟨hrange, (by decide : Unbroken "exports.default = ")⟩
  | statement tree =>
    intro edit he
    cases he

theorem lowerItems_oneLine : ∀ {n : Nat} {items : List ModuleItem},
    (∀ item ∈ items, item.Forward ∧ item.Plain) →
    ∀ part ∈ lowerItems n items, ∀ edit ∈ part.edits, edit.OneLine
  | _, [], _, _, h => nomatch h
  | n, item :: items, h, part, hpart => by
    obtain ⟨hitem, hitems⟩ := List.forall_mem_cons.mp h
    rw [lowerItems] at hpart
    rcases List.mem_cons.mp hpart with rfl | hpart
    · exact lowerItem_oneLine _ hitem.1 hitem.2
    · exact lowerItems_oneLine hitems part hpart

theorem lowerCall_oneLine {tree : Tree}
    (h : tree.kind = .importCall → tree.range.start ≤ tree.range.stop) :
    ∀ edit ∈ (lowerCall tree).edits, edit.OneLine := by
  unfold lowerCall
  split
  next specifier hs =>
    have hkind : tree.kind = .importCall := by
      unfold dynamicSpecifier? at hs
      split at hs
      · rfl
      · cases hs
    refine List.forall_mem_singleton.mpr ⟨h hkind, ?_⟩
    exact (Unbroken.append (by decide) (unbroken_quote specifier)).append (by decide)
  next =>
    split
    all_goals
      intro edit he
      cases he

/-- **The edits of a module** replace stretches of source by texts without line breaks. -/
theorem contributions_oneLine {items : List ModuleItem}
    (h : ∀ item ∈ items, item.Forward ∧ item.Plain) :
    ∀ edit ∈ (contributions items).flatMap (·.edits), edit.OneLine := by
  intro edit hedit
  obtain ⟨part, hpart, hedit⟩ := List.mem_flatMap.mp hedit
  rcases List.mem_append.mp hpart with hpart | hpart
  · exact lowerItems_oneLine h part hpart edit hedit
  · obtain ⟨tree, htree, rfl⟩ := List.mem_map.mp hpart
    obtain ⟨item, hitem, htree⟩ := List.mem_flatMap.mp htree
    obtain ⟨root, hroot, htree⟩ := List.mem_flatMap.mp htree
    exact lowerCall_oneLine ((h item hitem).1.trees root hroot tree htree) edit hedit

/-! ## §5. The lowered module. -/

/-- The edits of a module, in the order in which they are made. -/
def moduleEdits (items : List ModuleItem) : List Edit :=
  sortOn (·.range.start) ((contributions items).flatMap (·.edits))

/-- What stands before the body: the mark of a module that exports something. -/
def modulePrefix (items : List ModuleItem) : List Char :=
  if items.any ModuleItem.isExport then moduleMark.toList else []

theorem lineBreaks_modulePrefix (items : List ModuleItem) : lineBreaks (modulePrefix items) = 0 := by
  unfold modulePrefix
  split
  next => exact lineBreaks_eq_zero (unbroken_ofList (by decide) : Unbroken moduleMark)
  next => rfl

/-- The body of a lowered module, with offsets. -/
def tracedBody (source : List Char) (items : List ModuleItem) : List Traced :=
  added (modulePrefix items) ++ splice (moduleEdits items) 0 source

/-- The statements behind the body. -/
def tailStatements (items : List ModuleItem) : List String :=
  (contributions items).flatMap (·.tail)

theorem lowerModule_code (source : List Char) (items : List ModuleItem) :
    (lowerModule source items).code
      = withTail (characters (tracedBody source items)) (tailStatements items) := by
  simp [lowerModule, tracedBody, modulePrefix, moduleEdits, tailStatements, characters_splice]

/-- What stands behind the body, on lines of its own. -/
def tailText (statements : List String) : List Char :=
  if statements.isEmpty then [] else ("\n".intercalate statements).toList ++ ['\n']

/-- The tail begins a line. -/
theorem withTail_eq (body : List Char) (statements : List String) :
    ∃ lineEnd, withTail body statements = body ++ lineEnd ++ tailText statements ∧
      (statements = [] → lineEnd = [])
        ∧ (statements ≠ [] → (body ++ lineEnd).getLast? = some '\n') := by
  unfold withTail tailText
  split
  next => exact ⟨[], by simp, fun _ => rfl, fun h => absurd rfl h⟩
  next hne =>
    have hempty : statements.isEmpty = false := by simpa using hne
    by_cases hend : body.getLast? = some '\n'
    · exact ⟨[], by simp [hend, hempty], fun h => absurd h hne, fun _ => by simpa using hend⟩
    · exact ⟨['\n'], by simp [hend, hempty], fun h => absurd h hne, fun _ => by simp⟩

/-- An edit that is made puts something else in the place of the character at an offset. -/
def replaced (items : List ModuleItem) (offset : Nat) : Bool :=
  covered (made 0 (moduleEdits items)) offset

/-- **Every statement stays on its line.** The body of a lowered module has as many line breaks as the
source; it holds every character of the source that is not replaced, once and in source order, and
each behind as many line breaks as in the source.  The tail stands behind all of it and begins a
line. -/
theorem lower?_keeps_lines {markup : Bool} {source : List Char} {lowered : LoweredModule}
    (hlower : lower? markup source = some lowered)
    (hplain : ∀ items, parse? markup source = some items → ∀ item ∈ items, item.Plain) :
    ∃ items body lineEnd, parse? markup source = some items ∧
      lowered.code = characters body ++ lineEnd ++ tailText (tailStatements items) ∧
      lineBreaks (characters body) = lineBreaks source ∧
      offsets body = (List.range source.length).filter (fun i => !replaced items i) ∧
      (∀ before c offset after, body = before ++ (c, some offset) :: after →
        source[offset]? = some c ∧ lineBreaks (characters before) = lineBreaks (source.take offset)) ∧
      (tailStatements items = [] → lineEnd = []) ∧
      (tailStatements items ≠ [] → (characters body ++ lineEnd).getLast? = some '\n') := by
  obtain ⟨items, hitems, rfl⟩ := Option.map_eq_some_iff.mp hlower
  have hedits : ∀ edit ∈ moduleEdits items, edit.OneLine := fun edit he =>
    contributions_oneLine (fun item hi =>
      ⟨parse?_forward hitems item hi, hplain items hitems item hi⟩) edit
      (mem_of_mem_sortOn he)
  obtain ⟨lineEnd, hcode, hnone, hsome⟩ :=
    withTail_eq (characters (tracedBody source items)) (tailStatements items)
  refine ⟨items, tracedBody source items, lineEnd, hitems, ?_, ?_, ?_, ?_, hnone, hsome⟩
  · rw [lowerModule_code, hcode]
  · simp [tracedBody, characters_splice, lineBreaks_applyEdits hedits, lineBreaks_modulePrefix]
  · rw [tracedBody, offsets_append, offsets_added, List.nil_append, offsets_splice hedits,
      List.range_eq_range']
    rfl
  · intro before c offset after heq
    rcases append_eq_cut heq with ⟨rest, hmarked⟩ | ⟨front, rfl, hkept⟩
    · have hmem : (c, some offset) ∈ added (modulePrefix items) :=
        hmarked ▸ List.mem_append_right _ List.mem_cons_self
      simp [added] at hmem
    · obtain ⟨-, hget, hlines⟩ := splice_onLine hedits front c offset after hkept
      refine ⟨hget, ?_⟩
      rw [characters_append, characters_added, lineBreaks_append, lineBreaks_modulePrefix, hlines,
        Nat.zero_add]
      rfl

/-- An import over two lines, and a dynamic one behind it. -/
def twoLines : List Char :=
  "import a\nfrom 'x'\nimport('y')".toList

/-- What stands on its line here: all but the two imports, which are the two line breaks between. -/
theorem twoLines_keep_lines : ∃ lowered items body lineEnd, lower? false twoLines = some lowered ∧
    parse? false twoLines = some items ∧
    lowered.code = characters body ++ lineEnd ++ tailText (tailStatements items) ∧
    lineBreaks (characters body) = lineBreaks twoLines ∧
    offsets body = (List.range twoLines.length).filter fun i => !replaced items i := by
  have hread : (parse? false twoLines).any
      (fun items => items.all fun item => item.exportNames.all (·.isIdentifier)) = true := by
    decide +kernel
  obtain ⟨items, hitems, hall⟩ := (Option.any_eq_true _ _).mp hread
  have hlower : lower? false twoLines = some (lowerModule twoLines items) := by
    rw [lower?, hitems]
    rfl
  have hplain : ∀ found, parse? false twoLines = some found → ∀ item ∈ found, item.Plain := by
    intro found hfound item hitem name hname
    obtain rfl := Option.some.inj (hitems.symm.trans hfound)
    exact List.all_eq_true.mp (List.all_eq_true.mp hall item hitem) name hname
  obtain ⟨found, body, lineEnd, hfound, hcode, hlines, hoffsets, -⟩ := lower?_keeps_lines hlower hplain
  exact ⟨_, found, body, lineEnd, hlower, hfound, hcode, hlines, hoffsets⟩

end AssetBundler.Script
