/-
  AssetBundler.Proofs.Style.Extraction
  ────────────────────────────────
  **WHERE THE SEARCH AND THE GRAMMAR AGREE.**

  When the references of a stylesheet are written plainly, and what the two
  searches look for begins in no other part, no comment and no string is taken
  for a reference, and what comments say makes no difference:

    • `Style.Plain.extract_eq_rendered` — what the two searches make of a text,
    • `Style.Alike` — parts that differ in what comments say,
    • `Style.extract_reads_parts` — the imports and the text of a stylesheet,
    • `Style.commented_rule_is_read` — a rule that is in a comment.
-/
import AssetBundler.Proofs.Page.Listing
import AssetBundler.Proofs.Style.Plain
import AssetBundler.Proofs.Style.Renderings

namespace AssetBundler.Style

open AssetBundler.Text AssetBundler.Style.Syntax

/-! ## §1. What the searches make of a stylesheet. -/

/-- The pieces of a part. -/
def Part.pieces (p : Part) : List Piece :=
  match p.kind.fileImport? with
  | none => p.text.map .char
  | some i => [.address i.specifier]

/-- A reference to a file asks for one kind of import only, and so does a rule. -/
theorem Kind.ruleImport?_of_fileImport? {kind : Kind} {i : Import} (h : kind.fileImport? = some i) :
    kind.ruleImport? = none := by
  cases kind with
  | file target => rfl
  | _ => cases h

theorem Kind.kind_of_fileImport? {kind : Kind} {i : Import} (h : kind.fileImport? = some i) :
    i.kind = .url := by
  cases kind with
  | file target =>
      unfold fileImport? at h
      dsimp only at h
      split at h
      next => cases h
      next => rw [← Option.some.inj h]
  | _ => cases h

theorem kept_filterMap_fileImport? (ps : List Part) :
    (kept ps).filterMap (·.kind.fileImport?) = ps.filterMap (·.kind.fileImport?) := by
  rw [kept, List.filterMap_filter]
  refine List.filterMap_congr fun p _ => ?_
  cases hfile : p.kind.fileImport? with
  | none => exact ite_self none
  | some i => rw [Kind.ruleImport?_of_fileImport? hfile]; rfl

theorem written_flatMap_pieces (form : String → List Char) (ps : List Part) :
    written single form (ps.flatMap Part.pieces) = textOf (ps.map (Part.withTarget form)) := by
  induction ps with
  | nil => rfl
  | cons p ps ih =>
      rw [List.flatMap_cons, written_append, ih, List.map_cons, textOf_cons, Part.pieces, Part.withTarget]
      cases p.kind.fileImport? with
      | none => rw [written_map_char, flatMap_single]
      | some i => rw [written_address, written_nil, List.append_nil]

theorem specifiers_flatMap_pieces (ps : List Part) :
    (specifiers (ps.flatMap Part.pieces)).map (fun s => (⟨s, .url⟩ : Import))
      = ps.filterMap (·.kind.fileImport?) := by
  induction ps with
  | nil => rfl
  | cons p ps ih =>
      rw [List.flatMap_cons, specifiers_append, List.map_append, ih, List.filterMap_cons, Part.pieces]
      cases hfile : p.kind.fileImport? with
      | none => rw [specifiers_map_char]; rfl
      | some i =>
          obtain ⟨specifier, kind⟩ := i
          obtain rfl : kind = .url := Kind.kind_of_fileImport? hfile
          rfl

theorem foldl_record (imports : List Import) : imports.foldl record [] = firstOccurrences imports := by
  induction imports using List.reverseRecOn with
  | nil => rfl
  | append_singleton imports i ih =>
      have hmem : (firstOccurrences imports).contains i = imports.contains i := by
        rw [Bool.eq_iff_iff, List.contains_iff_mem, List.contains_iff_mem, Plan.mem_firstOccurrences]
      rw [List.foldl_append, ih, firstOccurrences_concat, List.foldl_cons, List.foldl_nil, record, hmem]
      split
      next => rw [List.append_nil]
      next => rfl

namespace Plain

variable {ps : List Part}

theorem rule (h : Plain ps) {p : Part} (hp : p ∈ ps) {target condition : List Char}
    (hkind : p.kind = .rule target condition) : (isExternal target = true → OutsideRule p.text)
      ∧ (¬ isExternal target = true → PlainRule target condition p.text) := by
  have hplain := h.part p hp
  unfold Part.Plain at hplain
  rwa [hkind] at hplain

theorem file (h : Plain ps) {p : Part} (hp : p ∈ ps) {target : List Char} (hkind : p.kind = .file target) :
    (isExternal target = true → OutsideAddress p.text)
      ∧ (¬ isExternal target = true → PlainFile target p.text) := by
  have hplain := h.part p hp
  unfold Part.Plain at hplain
  rwa [hkind] at hplain

/-- What the search for import rules makes of a part. -/
theorem rule_cuts (h : Plain ps) {p : Part} (hp : p ∈ ps) :
    (p.kind.isRule = true → Framed importRule? "@import".toList p)
      ∧ (cuts importRule? 0 p.text).flatMap Cut.left = (if p.kind.ruleImport?.isNone then p.text else [])
      ∧ (cuts importRule? 0 p.text).filterMap (Cut.import? .style) = p.kind.ruleImport?.toList := by
  cases hkind : p.kind with
  | rule target condition =>
      obtain ⟨houtside, hproject⟩ := h.rule hp hkind
      rw [Kind.ruleImport?]
      by_cases hexternal : isExternal target = true
      · have hrule := houtside hexternal
        obtain ⟨seen, hpasses, hleaves⟩ := hrule.exists_passes
        rw [hpasses.eq, if_pos hexternal, hleaves.left, hleaves.imports]
        exact ⟨fun _ => .of_head hrule.head (by simp) hpasses, rfl, rfl⟩
      · have hrule := hproject hexternal
        rw [hrule.passes.eq, if_neg hexternal]
        exact ⟨fun _ => .of_head hrule.head (by simp) hrule.passes, by simp [Cut.left, hexternal],
          by simp [Cut.import?, hexternal]⟩
  | _ =>
      have hother : ¬ p.kind.isRule = true := by
        rw [hkind]
        exact Bool.false_ne_true
      rw [h.rules.cuts_eq (fun _ => importRule?_prefix) hp hother, (Leaves.map_char p.text).left,
        (Leaves.map_char p.text).imports]
      exact ⟨fun hrule => (by cases hrule), rfl, rfl⟩

/-- **Import rules are found part by part.** -/
theorem removeImports_eq (h : Plain ps) : removeImports 0 (textOf ps) []
    = ⟨textOf (kept ps), (ps.filterMap (·.kind.ruleImport?)).foldl record []⟩ := by
  rw [Style.removeImports_eq, cuts_textOf (fun _ => importRule?_prefix) h.rules fun p hp => (h.rule_cuts hp).1,
    List.flatMap_assoc, List.filterMap_flatMap, List.flatMap_congr fun p hp => (h.rule_cuts hp).2.1,
    List.flatMap_congr fun p hp => (h.rule_cuts hp).2.2, ← List.filterMap_eq_flatMap_toList]
  congr 1
  clear h
  induction ps with
  | nil => rfl
  | cons p ps ih =>
      rw [List.flatMap_cons, ih, kept, kept, List.filter_cons]
      split
      next => rw [textOf_cons]
      next => rfl

/-- What the search for files makes of a part that is kept. -/
theorem file_cuts (h : Plain ps) {p : Part} (hp : p ∈ kept ps) :
    (p.kind.isReference = true → Framed urlReference? "url(".toList p)
      ∧ (cuts urlReference? 0 p.text).flatMap Cut.pieces = p.pieces := by
  obtain ⟨hmem, hkept⟩ := List.mem_filter.mp hp
  unfold Part.pieces
  cases hkind : p.kind with
  | rule target condition =>
      have hexternal : isExternal target = true := by
        rw [hkind, Kind.ruleImport?] at hkept
        by_contra hlocal
        rw [if_neg hlocal] at hkept
        cases hkept
      have hrule := (h.rule hmem hkind).1 hexternal
      obtain ⟨seen, hpasses, hleaves⟩ := hrule.exists_passes_files
      rw [hpasses.eq, hleaves.pieces]
      exact ⟨fun _ => .of_head hrule.head (by simp) hpasses, rfl⟩
  | file target =>
      obtain ⟨houtside, hproject⟩ := h.file hmem hkind
      rw [Kind.fileImport?]
      by_cases hexternal : isExternal target = true
      · have hfile := houtside hexternal
        obtain ⟨seen, hpasses, hleaves⟩ := hfile.exists_passes
        rw [hpasses.eq, hleaves.pieces, if_pos hexternal]
        exact ⟨fun _ => .of_head hfile.head (by simp) hpasses, rfl⟩
      · have hfile := hproject hexternal
        rw [hfile.passes.eq, if_neg hexternal, List.flatMap_singleton, Cut.pieces, if_neg hexternal]
        exact ⟨fun _ => .of_head hfile.head (by simp) hfile.passes, rfl⟩
  | _ =>
      have hother : ¬ p.kind.isReference = true := by
        rw [hkind]
        exact Bool.false_ne_true
      rw [h.files.cuts_eq (fun _ => urlReference?_prefix) hp hother, (Leaves.map_char p.text).pieces]
      exact ⟨fun hreference => (by cases hreference), rfl⟩

/-- **References to files are found part by part.** -/
theorem pieces_eq (h : Plain ps) : pieces 0 (textOf (kept ps)) = (kept ps).flatMap Part.pieces := by
  rw [Style.pieces_eq, cuts_textOf (fun _ => urlReference?_prefix) h.files
    fun p hp => (h.file_cuts hp).1, List.flatMap_assoc]
  exact List.flatMap_congr fun p hp => (h.file_cuts hp).2

/-- **The text of a stylesheet without its import rules.** -/
theorem withoutImports_eq (h : Plain ps) : withoutImports (textOf ps) = textOf (kept ps) := by
  rw [withoutImports, h.removeImports_eq]

/-- The text with addresses in it is that of the rendered parts. -/
theorem withAddresses_eq (h : Plain ps) (url : String → String) :
    withAddresses url 0 (withoutImports (textOf ps)) = textOf (rendered (fun s => (url s).toList) ps) := by
  rw [h.withoutImports_eq, Style.withAddresses_eq, h.pieces_eq, written_flatMap_pieces]
  rfl

/-- **What the two searches make of a stylesheet**: the imports that its parts ask for, and the text of
the rendered parts. -/
theorem extract_eq_rendered (h : Plain ps) :
    (extract (textOf ps)).imports = firstOccurrences (asked ps)
      ∧ (extract (textOf ps)).css
        = trim (textOf (rendered (placeholderIn (firstOccurrences (asked ps))) ps)) := by
  have himports : recordAll ((ps.filterMap (·.kind.ruleImport?)).foldl record [])
      (specifiers ((kept ps).flatMap Part.pieces)) = firstOccurrences (asked ps) := by
    rw [recordAll, ← List.foldl_map, specifiers_flatMap_pieces, kept_filterMap_fileImport?,
      ← List.foldl_append, foldl_record, asked]
  unfold extract
  dsimp only
  rw [h.removeImports_eq, replaceUrls_eq]
  dsimp only
  rw [h.pieces_eq, himports, written_flatMap_pieces]
  exact ⟨rfl, rfl⟩

end Plain

/-! ## §2. What comments say. -/

/-- Two parts are the same, or comments. -/
def SameText (p q : Part) : Prop :=
  p = q ∨ (p.kind = .comment ∧ q.kind = .comment)

/-- **Two parts are the same but for what comments say**, be it comments by themselves or in the condition
of an import rule. -/
inductive Alike : Part → Part → Prop
  | same (p : Part) : Alike p p
  | comments (a b : List Char) : Alike ⟨.comment, a⟩ ⟨.comment, b⟩
  | rules (target head a b : List Char) (h : List.Forall₂ SameText (parts 0 a) (parts 0 b)) :
      Alike ⟨.rule target a, head ++ (a ++ [';'])⟩ ⟨.rule target b, head ++ (b ++ [';'])⟩

namespace Alike

variable {p q : Part} {ps qs : List Part}

theorem ruleImport?_eq (h : Alike p q) : p.kind.ruleImport? = q.kind.ruleImport? := by
  cases h <;> rfl

theorem fileImport?_eq (h : Alike p q) : p.kind.fileImport? = q.kind.fileImport? := by
  cases h <;> rfl

theorem withTarget (form : String → List Char) (h : Alike p q) :
    Alike (p.withTarget form) (q.withTarget form) := by
  cases h with
  | same p => exact same _
  | comments a b => exact comments a b
  | rules target head a b h => exact rules target head a b h

theorem asked_eq (h : List.Forall₂ Alike ps qs) : asked ps = asked qs := by
  have hfilter {f : Part → Option Import} (hf : ∀ {p q : Part}, Alike p q → f p = f q) :
      ps.filterMap f = qs.filterMap f := by
    induction h with
    | nil => rfl
    | cons hpq _ ih => rw [List.filterMap_cons, List.filterMap_cons, hf hpq, ih]
  rw [asked, asked, hfilter ruleImport?_eq, hfilter fileImport?_eq]

theorem rendered (form : String → List Char) (h : List.Forall₂ Alike ps qs) :
    List.Forall₂ Alike (Style.rendered form ps) (Style.rendered form qs) := by
  have hkept : List.Forall₂ Alike (kept ps) (kept qs) := by
    refine List.rel_filter ?_ h
    intro p q hpq
    dsimp only
    rw [hpq.ruleImport?_eq]
  rw [Style.rendered, Style.rendered, List.forall₂_map_left_iff, List.forall₂_map_right_iff]
  exact hkept.imp fun _ _ hpq => hpq.withTarget form

end Alike

/-- **THE IMPORTS OF A STYLESHEET** that is written plainly are those that its rules and its references
ask for; a comment and a string ask for nothing.  Its text is written with the parts that are kept, and
what comments say changes neither the imports nor any other part. -/
theorem extract_reads_parts {source : List Char} (h : Plain (parts 0 source)) :
    (extract source).imports = firstOccurrences (asked (parts 0 source))
      ∧ (extract source).css
        = trim (textOf (rendered (placeholderIn (extract source).imports) (parts 0 source)))
      ∧ ∀ other, Plain (parts 0 other) → List.Forall₂ Alike (parts 0 source) (parts 0 other) →
        (extract other).imports = (extract source).imports
          ∧ (extract other).css
            = trim (textOf (rendered (placeholderIn (extract source).imports) (parts 0 other)))
          ∧ List.Forall₂ Alike (rendered (placeholderIn (extract source).imports) (parts 0 source))
            (rendered (placeholderIn (extract source).imports) (parts 0 other)) := by
  have hread {text : List Char} (htext : Plain (parts 0 text)) :
      (extract text).imports = firstOccurrences (asked (parts 0 text))
        ∧ (extract text).css
          = trim (textOf (rendered (placeholderIn (firstOccurrences (asked (parts 0 text)))) (parts 0 text))) := by
    have hextract := htext.extract_eq_rendered
    rwa [textOf_parts, List.drop_zero] at hextract
  obtain ⟨himports, hcss⟩ := hread h
  rw [himports]
  refine ⟨rfl, hcss, fun other hother halike => ?_⟩
  obtain ⟨himports', hcss'⟩ := hread hother
  rw [← Alike.asked_eq halike] at himports' hcss'
  exact ⟨himports', hcss', Alike.rendered _ halike⟩

/-- The parts of a stylesheet with two rules, a comment, a string and a reference. -/
def notedParts (comment : String) : List Part :=
  [⟨.rule "./b.css".toList [], "@import './b.css';".toList⟩, ⟨.rule "//f;g".toList [], "@import url(//f;g);".toList⟩,
    ⟨.comment, comment.toList⟩, ⟨.token (.name ['a']), ['a']⟩, ⟨.token (.opening '\x7b'), ['\x7b']⟩,
    ⟨.token (.name ['b']), ['b']⟩, ⟨.token .colon, [':']⟩, ⟨.quoted, "'/*'".toList⟩,
    ⟨.file "./i.png".toList, "url(./i.png)".toList⟩, ⟨.token (.closing '\x7d'), ['\x7d']⟩]

theorem plain_notedParts {comment : String} (hrules : Clear "@import".toList Kind.isRule (notedParts comment))
    (hfiles : Clear "url(".toList Kind.isReference (kept (notedParts comment))) :
    Plain (notedParts comment) := by
  refine ⟨fun p hp => ?_, hrules, hfiles⟩
  simp only [notedParts, List.mem_cons, List.not_mem_nil, or_false] at hp
  rcases hp with rfl | rfl | rfl | rfl | rfl | rfl | rfl | rfl | rfl | rfl
  · exact ⟨fun hexternal => (by cases hexternal), fun _ => ⟨by simp, List.all_eq_true.mp (by rfl), by simp,
      [' '], "'./b.css'".toList, by simp, by simp [isBlank], .quoted '\'' rfl, rfl⟩⟩
  · have haddress : OutsideAddress "url(//f;g)".toList :=
      ⟨⟨[], [], "//f;g".toList, by simp, .inl rfl, rfl, rfl⟩, by decide⟩
    exact ⟨fun _ => ⟨⟨[' '], "url(//f;g)".toList, [], by simp, by simp [isBlank], .address haddress, by simp, rfl⟩,
      by decide⟩, fun hlocal => absurd rfl hlocal⟩
  all_goals try trivial
  exact ⟨fun hexternal => (by cases hexternal), fun _ => ⟨by simp, List.all_eq_true.mp (by rfl), by rfl,
    .intro [] [] [] (by simp) (.inl rfl) (by simp)⟩⟩

/-- **A comment is exchanged for another.** -/
theorem noted_reads_parts :
    parts 0 (textOf (notedParts "/* one */")) = notedParts "/* one */"
      ∧ parts 0 (textOf (notedParts "/*'two;*/")) = notedParts "/*'two;*/"
      ∧ (extract (textOf (notedParts "/* one */"))).imports
        = [⟨"./b.css", .style⟩, ⟨"./i.png", .url⟩]
      ∧ (extract (textOf (notedParts "/*'two;*/"))).imports
        = [⟨"./b.css", .style⟩, ⟨"./i.png", .url⟩] := by
  have hone : parts 0 (textOf (notedParts "/* one */")) = notedParts "/* one */" := by rfl
  have htwo : parts 0 (textOf (notedParts "/*'two;*/")) = notedParts "/*'two;*/" := by rfl
  have hplain : Plain (notedParts "/* one */") :=
    plain_notedParts (by unfold Clear; decide +kernel) (by unfold Clear; decide +kernel)
  have hplain' : Plain (notedParts "/*'two;*/") :=
    plain_notedParts (by unfold Clear; decide +kernel) (by unfold Clear; decide +kernel)
  have halike : List.Forall₂ Alike (notedParts "/* one */") (notedParts "/*'two;*/") := by
    refine .cons (.same _) (.cons (.same _) (.cons (.comments _ _) ?_))
    exact List.forall₂_same.mpr fun p _ => .same p
  obtain ⟨himports, -, hother⟩ := extract_reads_parts (hone ▸ hplain)
  obtain ⟨hsame, -, -⟩ := hother (textOf (notedParts "/*'two;*/")) (htwo ▸ hplain') (by rwa [hone, htwo])
  have hasked : firstOccurrences (asked (notedParts "/* one */"))
      = [⟨"./b.css", .style⟩, ⟨"./i.png", .url⟩] := by rfl
  rw [hone, hasked] at himports
  exact ⟨hone, htwo, himports, hsame.trans himports⟩

/-- **A rule in a comment is read**: it asks for nothing, yet its target is among the imports, and the
comment is left without it. -/
theorem commented_rule_is_read :
    parts 0 "/* @import './b.css'; */".toList = [⟨.comment, "/* @import './b.css'; */".toList⟩]
      ∧ asked (parts 0 "/* @import './b.css'; */".toList) = []
      ∧ (extract "/* @import './b.css'; */".toList).imports = [⟨"./b.css", .style⟩]
      ∧ (extract "/* @import './b.css'; */".toList).css = "/*  */".toList := by
  decide +kernel

end AssetBundler.Style
