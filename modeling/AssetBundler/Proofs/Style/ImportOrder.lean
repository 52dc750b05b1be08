/-
  AssetBundler.Proofs.Style.ImportOrder
  ────────────────────────────────
  **THE IMPORT RULES OF A CHUNK.**

  A chunk is the texts of its stylesheets, one below the other.  The import
  rules that lead out of the project stay where they are, so a rule at the head
  of one stylesheet stands in the chunk behind everything that the stylesheets
  before it say.  Read part by part, the text of the chunk shows when that is
  nothing but rules and comments:

    • `Style.chunkParts` — the parts of a chunk,
    • `Render.stylesheet_eq` — its text,
    • `Style.rulesFirst_chunkParts` — when the rules come first,
    • `Render.stylesheet_rules_first` — the same of a chunk that is rendered,
    • `Render.reset_stands_before_rule` — a chunk in which they do not.
-/
import AssetBundler.Proofs.Style.Extraction

namespace AssetBundler

open AssetBundler.Text

namespace Style

/-! ## §1. White space at the ends. -/

/-- The parts without white space at their start. -/
def dropSpace : List Part → List Part
  | [] => []
  | p :: ps =>
    match p.text.dropWhile isSpace with
    | [] => dropSpace ps
    | c :: rest => { p with text := c :: rest } :: ps

/-- The parts from the last to the first, each with its text from the end. -/
def reversed (ps : List Part) : List Part :=
  (ps.map fun p => { p with text := p.text.reverse }).reverse

/-- The parts without white space at their ends. -/
def trimParts (ps : List Part) : List Part :=
  reversed (dropSpace (reversed (dropSpace ps)))

theorem textOf_reversed (ps : List Part) : textOf (reversed ps) = (textOf ps).reverse := by
  induction ps with
  | nil => rfl
  | cons p ps ih =>
      have hcons : reversed (p :: ps) = reversed ps ++ [{ p with text := p.text.reverse }] := by
        simp [reversed]
      rw [hcons, textOf_append, ih, textOf_cons p, List.reverse_append, textOf_cons, textOf_nil,
        List.append_nil]

theorem textOf_dropSpace (ps : List Part) : textOf (dropSpace ps) = (textOf ps).dropWhile isSpace := by
  induction ps with
  | nil => rfl
  | cons p ps ih =>
      rw [textOf_cons, List.dropWhile_append, dropSpace]
      cases p.text.dropWhile isSpace with
      | nil => exact ih
      | cons c rest => rfl

theorem textOf_trimParts (ps : List Part) : textOf (trimParts ps) = trim (textOf ps) := by
  rw [trimParts, textOf_reversed, textOf_dropSpace, textOf_reversed, textOf_dropSpace]
  rfl

theorem kinds_reversed (ps : List Part) : (reversed ps).map Part.kind = (ps.map Part.kind).reverse := by
  rw [reversed, List.map_reverse, List.map_map]
  rfl

theorem kinds_dropSpace (ps : List Part) : (dropSpace ps).map Part.kind <:+ ps.map Part.kind := by
  induction ps with
  | nil => exact List.suffix_rfl
  | cons p ps ih =>
      rw [dropSpace]
      cases p.text.dropWhile isSpace with
      | nil => exact ih.trans (List.suffix_cons _ _)
      | cons c rest => exact List.suffix_rfl

/-- Only parts at the ends are left out. -/
theorem kinds_trimParts (ps : List Part) :
    ((trimParts ps).map Part.kind).Sublist (ps.map Part.kind) := by
  rw [trimParts, kinds_reversed]
  have hend := (kinds_dropSpace (reversed (dropSpace ps))).sublist
  rw [kinds_reversed] at hend
  have hreversed := hend.reverse
  rw [List.reverse_reverse] at hreversed
  exact hreversed.trans (kinds_dropSpace ps).sublist

theorem dropSpace_eq_nil {ps : List Part} (h : textOf (dropSpace ps) = []) : dropSpace ps = [] := by
  induction ps with
  | nil => rfl
  | cons p ps ih =>
      rw [dropSpace] at h ⊢
      cases htext : p.text.dropWhile isSpace with
      | nil =>
          rw [htext] at h
          exact ih h
      | cons c rest =>
          rw [htext] at h
          cases h

theorem trimParts_eq_nil {ps : List Part} : trimParts ps = [] ↔ trim (textOf ps) = [] := by
  rw [← textOf_trimParts]
  refine ⟨fun h => by rw [h, textOf_nil], fun h => ?_⟩
  rw [trimParts, textOf_reversed, List.reverse_eq_nil_iff] at h
  rw [trimParts, dropSpace_eq_nil h]
  rfl

/-! ## §2. The parts of a chunk. -/

/-- A stylesheet, with the addresses of the files that it refers to. -/
structure Sheet where
  source : List Char
  url : String → String

/-- The parts of a stylesheet as they stand in a chunk. -/
def Sheet.parts (s : Sheet) : List Part :=
  trimParts (rendered (fun specifier => (s.url specifier).toList) (Style.parts 0 s.source))

/-- The line break behind a stylesheet. -/
def lineBreak : Part := ⟨.token .blank, ['\n']⟩

/-- The parts of some stylesheets, those that have any, with line breaks between them. -/
def joinedParts (sheets : List Sheet) : List Part :=
  [lineBreak].intercalate ((sheets.map Sheet.parts).filter fun ps => !ps.isEmpty)

/-- **The parts of a chunk.** -/
def chunkParts (sheets : List Sheet) : List Part :=
  joinedParts sheets ++ [lineBreak]

theorem textOf_intercalate (separator : List Part) (xss : List (List Part)) :
    textOf (separator.intercalate xss) = (textOf separator).intercalate (xss.map textOf) := by
  induction xss with
  | nil => rfl
  | cons xs xss ih =>
      cases xss with
      | nil => rw [List.intercalate_singleton, List.map_cons, List.map_nil, List.intercalate_singleton]
      | cons ys xss =>
          rw [List.intercalate_cons_cons, textOf_append, textOf_append, ih]
          rw [List.map_cons, List.map_cons, List.map_cons, List.intercalate_cons_cons]

end Style

namespace Render

open Style

variable {g : ModuleGraph} {chunk : Chunk} {r : ModuleRecord} {s : Sheet} {sheets : List Sheet}

/-- **A record has been read from a stylesheet** that is written plainly and has no placeholders of its
own, and its files have addresses. -/
structure ReadFrom (g : ModuleGraph) (r : ModuleRecord) (s : Sheet) : Prop where
  artifact : r.artifact = .stylesheet (String.ofList (extract s.source).css) (extract s.source).imports
  plain : Plain (Style.parts 0 s.source)
  noPlaceholders : ¬ Placeholder.opening <:+: withoutImports s.source
  count : (extract s.source).imports.length ≤ UInt64.size
  addresses : Addresses g s.url (extract s.source).imports r.dependencies

/-- The rules of a stylesheet are the text of its parts. -/
theorem ReadFrom.rulesOf_eq (h : ReadFrom g r s) : rulesOf g r = .ok (textOf s.parts) := by
  have htext := h.plain.withAddresses_eq s.url
  rw [textOf_parts, List.drop_zero] at htext
  rw [rulesOf_stylesheet h.artifact h.noPlaceholders h.count h.addresses, htext, Sheet.parts, textOf_trimParts]

/-- The stylesheets of a chunk; files that these refer to may be beside them. -/
def stylesOf (g : ModuleGraph) (chunk : Chunk) : List ModuleRecord :=
  (recordsOf g chunk).filter (·.artifact.kind = .stylesheet)

theorem mem_of_mem_stylesOf (h : r ∈ stylesOf g chunk) :
    r ∈ g.records ∧ r.artifact.kind = .stylesheet := by
  obtain ⟨hthere, hkind⟩ := List.mem_filter.mp h
  obtain ⟨m, -, hget⟩ := List.mem_filterMap.mp hthere
  exact ⟨(ModuleGraph.mem_of_get? hget).1, by simpa using hkind⟩

theorem rulesOf_of_ne (h : ¬ r.artifact.kind = .stylesheet) : rulesOf g r = .ok [] := by
  unfold rulesOf
  cases hartifact : r.artifact with
  | stylesheet css imports => exact absurd (by rw [hartifact]; rfl) h
  | _ => rfl

/-- The texts of the records that have one are those of the stylesheets. -/
theorem exists_mapM_rulesOf : ∀ {records : List ModuleRecord} {sheets : List Sheet},
    List.Forall₂ (ReadFrom g) (records.filter (·.artifact.kind = .stylesheet)) sheets →
      ∃ texts, records.mapM (rulesOf g) = .ok texts
        ∧ texts.filter (fun text => !text.isEmpty)
          = (sheets.map fun s => textOf s.parts).filter fun text => !text.isEmpty := by
  intro records
  induction records with
  | nil =>
      intro sheets h
      cases h
      exact ⟨[], rfl, rfl⟩
  | cons r records ih =>
      intro sheets h
      by_cases hkind : r.artifact.kind = .stylesheet
      · rw [List.filter_cons_of_pos (by simpa using hkind)] at h
        cases h with
        | cons hread h =>
            obtain ⟨texts, htexts, hfilter⟩ := ih h
            refine ⟨_ :: texts, by rw [List.mapM_cons, hread.rulesOf_eq, htexts]; rfl, ?_⟩
            rw [List.map_cons, List.filter_cons, List.filter_cons, hfilter]
      · rw [List.filter_cons_of_neg (by simpa using hkind)] at h
        obtain ⟨texts, htexts, hfilter⟩ := ih h
        exact ⟨[] :: texts, by rw [List.mapM_cons, rulesOf_of_ne hkind, htexts]; rfl, hfilter⟩

/-- **The text of a chunk** is that of its parts. -/
theorem stylesheet_eq (h : List.Forall₂ (ReadFrom g) (stylesOf g chunk) sheets) :
    ∃ code, stylesheet g chunk = .ok code ∧ code.toList = textOf (chunkParts sheets) := by
  obtain ⟨texts, htexts, hfilter⟩ := exists_mapM_rulesOf h
  have hparts : (sheets.map fun s => textOf s.parts).filter (fun text => !text.isEmpty)
      = ((sheets.map Sheet.parts).filter fun ps => !ps.isEmpty).map textOf := by
    rw [List.filter_map, List.filter_map, List.map_map]
    refine congrArg _ (List.filter_congr fun s _ => ?_)
    have hempty : (textOf s.parts).isEmpty = s.parts.isEmpty := by
      rw [Bool.eq_iff_iff, List.isEmpty_iff, List.isEmpty_iff, Sheet.parts, textOf_trimParts, trimParts_eq_nil]
    exact congrArg (!·) hempty
  refine ⟨"\n".intercalate ((texts.filter fun text => !text.isEmpty).map String.ofList) ++ "\n", ?_, ?_⟩
  · unfold stylesheet
    rw [htexts]
    rfl
  · rw [String.toList_append, String.toList_intercalate, hfilter, hparts, List.map_map, chunkParts,
      textOf_append, joinedParts, textOf_intercalate, List.map_map]
    congr 2
    exact List.map_congr_left fun ps _ => String.toList_ofList

end Render

/-! ## §3. Rules that come first. -/

namespace Style

/-- Import rules may stand behind the part: it is one, or a comment, or blanks. -/
def Kind.leads : Kind → Bool
  | comment | rule .. | token .blank => true
  | _ => false

/-- **The import rules come first**: behind nothing but each other, comments and blanks. -/
def RulesFirst (ps : List Part) : Prop :=
  (ps.map Part.kind).Pairwise fun k l => l.isRule = true → k.leads = true

instance (ps : List Part) : Decidable (RulesFirst ps) :=
  inferInstanceAs (Decidable (List.Pairwise _ _))

/-- The stylesheet keeps an import rule. -/
def Sheet.KeepsRule (s : Sheet) : Prop :=
  ∃ p ∈ s.parts, p.kind.isRule = true

/-- The stylesheet says nothing but import rules and comments. -/
def Sheet.Leads (s : Sheet) : Prop :=
  ∀ p ∈ s.parts, p.kind.leads = true

variable {s : Sheet} {sheets : List Sheet}

theorem kinds_rendered (form : String → List Char) (ps : List Part) :
    ((rendered form ps).map Part.kind).Sublist (ps.map Part.kind) := by
  have hkinds : (rendered form ps).map Part.kind = (kept ps).map Part.kind := by
    rw [rendered, List.map_map]
    exact List.map_congr_left fun p _ => p.withTarget_kind form
  rw [hkinds]
  exact List.filter_sublist.map _

/-- What is taken out of a stylesheet changes nothing of the order. -/
theorem RulesFirst.sheet (h : RulesFirst (Style.parts 0 s.source)) : RulesFirst s.parts :=
  h.sublist ((kinds_trimParts _).trans (kinds_rendered _ _))

theorem rulesFirst_append {ps qs : List Part} : RulesFirst (ps ++ qs) ↔ RulesFirst ps ∧ RulesFirst qs
    ∧ ((∃ q ∈ qs, q.kind.isRule = true) → ∀ p ∈ ps, p.kind.leads = true) := by
  unfold RulesFirst
  rw [List.map_append, List.pairwise_append]
  refine and_congr_right fun _ => and_congr_right fun _ => ?_
  simp only [List.mem_map, forall_exists_index, and_imp, forall_apply_eq_imp_iff₂]
  exact ⟨fun h q hq hrule p hp => h p hp q hq hrule, fun h p hp q hq hrule => h q hq hrule p hp⟩

theorem rulesFirst_lineBreak : RulesFirst [lineBreak] :=
  List.pairwise_singleton _ _

/-- A rule between line breaks is in one of the texts. -/
theorem exists_rule_intercalate {xss : List (List Part)} :
    (∃ p ∈ [lineBreak].intercalate xss, p.kind.isRule = true)
      ↔ ∃ ps ∈ xss, ∃ p ∈ ps, p.kind.isRule = true := by
  induction xss with
  | nil => simp [List.intercalate]
  | cons xs xss ih =>
      cases xss with
      | nil => simp
      | cons ys xss =>
          rw [List.intercalate_cons_cons]
          constructor
          · rintro ⟨p, hp, hrule⟩
            rcases List.mem_append.mp hp with hp | hp
            · rcases List.mem_append.mp hp with hp | hp
              · exact ⟨xs, List.mem_cons_self, p, hp, hrule⟩
              · rw [List.mem_singleton.mp hp] at hrule
                cases hrule
            · obtain ⟨ps, hps, hthere⟩ := ih.mp ⟨p, hp, hrule⟩
              exact ⟨ps, List.mem_cons_of_mem _ hps, hthere⟩
          · rintro ⟨ps, hps, p, hp, hrule⟩
            rcases List.mem_cons.mp hps with rfl | hps
            · exact ⟨p, List.mem_append_left _ (List.mem_append_left _ hp), hrule⟩
            · obtain ⟨q, hq, hrule⟩ := ih.mpr ⟨ps, hps, p, hp, hrule⟩
              exact ⟨q, List.mem_append_right _ hq, hrule⟩

theorem rulesFirst_intercalate {xss : List (List Part)} : RulesFirst ([lineBreak].intercalate xss)
    ↔ (∀ ps ∈ xss, RulesFirst ps) ∧ xss.Pairwise fun ps qs =>
      (∃ q ∈ qs, q.kind.isRule = true) → ∀ p ∈ ps, p.kind.leads = true := by
  induction xss with
  | nil => simp [List.intercalate, RulesFirst]
  | cons xs xss ih =>
      cases xss with
      | nil => simp
      | cons ys xss =>
          rw [List.intercalate_cons_cons, rulesFirst_append, rulesFirst_append, exists_rule_intercalate,
            List.pairwise_cons, List.forall_mem_cons, ih]
          constructor
          · rintro ⟨⟨hxs, -, -⟩, ⟨hrest, hpairs⟩, hcross⟩
            exact ⟨⟨hxs, hrest⟩, fun qs hqs hrule p hp =>
              hcross ⟨qs, hqs, hrule⟩ p (List.mem_append_left _ hp), hpairs⟩
          · rintro ⟨⟨hxs, hrest⟩, hcross, hpairs⟩
            refine ⟨⟨hxs, rulesFirst_lineBreak, ?_⟩, ⟨hrest, hpairs⟩, ?_⟩
            · rintro ⟨q, hq, hrule⟩
              rw [List.mem_singleton.mp hq] at hrule
              cases hrule
            · rintro ⟨qs, hqs, hrule⟩ p hp
              rcases List.mem_append.mp hp with hp | hp
              · exact hcross qs hqs hrule p hp
              · rw [List.mem_singleton.mp hp]
                rfl

/-- **When the rules of a chunk come first**: when those of each stylesheet do, and none that keeps a rule
stands behind one that says anything else. -/
theorem rulesFirst_chunkParts (h : ∀ s ∈ sheets, RulesFirst s.parts) : RulesFirst (chunkParts sheets)
    ↔ sheets.Pairwise fun first second => second.KeepsRule → first.Leads := by
  have hend : ¬ ∃ q ∈ [lineBreak], q.kind.isRule = true := by
    rintro ⟨q, hq, hrule⟩
    rw [List.mem_singleton.mp hq] at hrule
    cases hrule
  have hsheets : ∀ ps ∈ (sheets.map Sheet.parts).filter (fun ps => !ps.isEmpty), RulesFirst ps := by
    intro ps hps
    obtain ⟨s, hs, rfl⟩ := List.mem_map.mp (List.mem_filter.mp hps).1
    exact h s hs
  rw [chunkParts, rulesFirst_append, joinedParts, rulesFirst_intercalate, and_iff_right hsheets,
    and_iff_left ⟨rulesFirst_lineBreak, fun hrule => absurd hrule hend⟩, List.pairwise_filter, List.pairwise_map]
  constructor
  · -- a stylesheet without parts neither keeps a rule nor says anything
    refine fun hpairs => hpairs.imp fun {first second} hthere hkeeps p hp => hthere ?_ ?_ hkeeps p hp
    · simp [List.ne_nil_of_mem hp]
    · obtain ⟨q, hq, -⟩ := hkeeps
      simp [List.ne_nil_of_mem hq]
  · exact fun hpairs => hpairs.imp fun hthere _ _ => hthere

end Style

/-! ## §4. Reading a chunk. -/

namespace Style

/-- **Nothing is left open**: whatever stands on the lines below it, a text is read as by itself. -/
def Closed (ps : List Part) : Prop :=
  ∀ rest, parts 0 (textOf ps ++ '\n' :: rest) = ps ++ parts 0 ('\n' :: rest)

variable {s : Sheet} {sheets : List Sheet}

theorem parts_skip (text : List Char) : ∀ skip, parts skip text = parts 0 (text.drop skip) := by
  induction text with
  | nil => exact fun skip => by rw [parts, List.drop_nil, parts]
  | cons c rest ih =>
      intro skip
      cases skip with
      | zero => rfl
      | succ skip => exact ih skip

/-- An import rule, from its argument and its condition. -/
theorem ruleAt?_eq_some {text target condition behind : List Char}
    (hargument : argumentAt? text = some (target, condition ++ behind))
    (hcondition : afterCondition? ((condition ++ behind).length + 1) 0 (condition ++ behind) = some behind) :
    ruleAt? text = some (target, condition, behind.drop 1) := by
  unfold ruleAt?
  rw [hargument]
  dsimp only
  rw [hcondition]
  dsimp only
  rw [List.length_append, Nat.add_sub_cancel, List.take_left]

/-- A part that stands at the head of a text, and those behind it. -/
theorem parts_of_kindAt {c : Char} {kind : Kind} {inside behind : List Char}
    (h : kindAt c (inside ++ behind) = (kind, behind)) :
    parts 0 (c :: (inside ++ behind)) = ⟨kind, c :: inside⟩ :: parts 0 behind := by
  have hlength : (inside ++ behind).length - behind.length = inside.length := by
    rw [List.length_append, Nat.add_sub_cancel]
  rw [parts, h]
  dsimp only
  rw [hlength, List.take_left, parts_skip, List.drop_left]

/-- A line break is a part by itself when no blank follows. -/
theorem parts_lineBreak {rest : List Char} (h : ∀ c ∈ rest.head?, isSpace c = false) :
    parts 0 ('\n' :: rest) = lineBreak :: parts 0 rest := by
  have hrest : rest.dropWhile Syntax.isBlank = rest := by
    cases rest with
    | nil => rfl
    | cons c rest =>
        refine List.dropWhile_cons_of_neg fun hblank => ?_
        have hspace := isSpace_of_isBlank hblank
        rw [h c rfl] at hspace
        cases hspace
  have htoken : Syntax.readToken '\n' rest = (some .blank, rest.dropWhile Syntax.isBlank) := rfl
  have hkind : kindAt '\n' rest = (.token .blank, rest) := by
    unfold kindAt plainKindAt addressAt?
    rw [htoken, hrest]
  exact @parts_of_kindAt '\n' _ [] rest hkind

theorem Sheet.not_isSpace (s : Sheet) : ∀ c ∈ (textOf s.parts).head?, isSpace c = false := by
  rw [Sheet.parts, textOf_trimParts]
  exact not_isSpace_of_mem_trim _

/-- Texts that leave nothing open are read one after the other. -/
theorem parts_intercalate {xss : List (List Part)}
    (h : ∀ ps ∈ xss, Closed ps ∧ textOf ps ≠ [] ∧ ∀ c ∈ (textOf ps).head?, isSpace c = false) :
    parts 0 (textOf ([lineBreak].intercalate xss ++ [lineBreak]))
      = [lineBreak].intercalate xss ++ [lineBreak] := by
  induction xss with
  | nil => rfl
  | cons xs xss ih =>
      have hrest := ih fun ps hps => h ps (List.mem_cons_of_mem _ hps)
      have hclosed := (h xs List.mem_cons_self).1
      cases xss with
      | nil =>
          rw [List.intercalate_singleton, textOf_append]
          exact hclosed []
      | cons ys xss =>
          have hys := h ys (List.mem_cons_of_mem _ List.mem_cons_self)
          obtain ⟨others, hothers⟩ : ∃ others,
              textOf ([lineBreak].intercalate (ys :: xss) ++ [lineBreak]) = textOf ys ++ others := by
            rw [textOf_append]
            cases xss with
            | nil => exact ⟨_, by rw [List.intercalate_singleton]⟩
            | cons zs xss =>
                rw [List.intercalate_cons_cons, textOf_append, textOf_append, List.append_assoc, List.append_assoc]
                exact ⟨_, rfl⟩
          have hhead : ∀ c ∈ (textOf ([lineBreak].intercalate (ys :: xss) ++ [lineBreak])).head?,
              isSpace c = false := by
            rw [hothers, List.head?_append_of_ne_nil _ hys.2.1]
            exact hys.2.2
          have hread := hclosed (textOf ([lineBreak].intercalate (ys :: xss) ++ [lineBreak]))
          rw [parts_lineBreak hhead, hrest] at hread
          rw [List.intercalate_cons_cons, List.append_assoc, List.append_assoc, textOf_append, textOf_append]
          exact hread

/-- **The text of a chunk is read as its parts** when no stylesheet leaves anything open. -/
theorem parts_chunkParts (h : ∀ s ∈ sheets, Closed s.parts) :
    parts 0 (textOf (chunkParts sheets)) = chunkParts sheets := by
  refine parts_intercalate fun ps hps => ?_
  obtain ⟨hmem, hne⟩ := List.mem_filter.mp hps
  obtain ⟨s, hs, rfl⟩ := List.mem_map.mp hmem
  refine ⟨h s hs, fun hnil => ?_, s.not_isSpace⟩
  rw [Sheet.parts, textOf_trimParts, ← trimParts_eq_nil, ← Sheet.parts] at hnil
  rw [hnil] at hne
  cases hne

end Style

/-! ## §5. The rules of a chunk. -/

namespace Render

open Style

variable {g : ModuleGraph} {chunk : Chunk} {sheets : List Sheet}

/-- **THE IMPORT RULES OF A CHUNK.**  The text of a chunk of stylesheets, each of which has its import
rules first, is that of its parts, and is read as these when no stylesheet leaves anything open.  The rules
that are kept come first just when no stylesheet that keeps one stands behind a stylesheet that says
anything but rules and comments. -/
theorem stylesheet_rules_first (h : List.Forall₂ (ReadFrom g) (stylesOf g chunk) sheets)
    (hfirst : ∀ s ∈ sheets, RulesFirst (Style.parts 0 s.source)) :
    ∃ code, stylesheet g chunk = .ok code ∧ code.toList = textOf (chunkParts sheets)
      ∧ ((∀ s ∈ sheets, Closed s.parts) → Style.parts 0 code.toList = chunkParts sheets)
      ∧ (RulesFirst (chunkParts sheets)
        ↔ sheets.Pairwise fun first second => second.KeepsRule → first.Leads) := by
  obtain ⟨code, hcode, htext⟩ := stylesheet_eq h
  refine ⟨code, hcode, htext, fun hclosed => ?_, rulesFirst_chunkParts fun s hs => (hfirst s hs).sheet⟩
  rw [htext, parts_chunkParts hclosed]

/-- The record of a stylesheet that imports some others. -/
def sheetRecord (name source : String) (dependencies : List Dependency) : ModuleRecord :=
  ⟨⟨[name]⟩, "css", "", .stylesheet (String.ofList (extract source.toList).css)
    (extract source.toList).imports, dependencies, none⟩

/-- A stylesheet that imports another one, as an entry. -/
def sheetGraph (name source main : String) : ModuleGraph :=
  ⟨[sheetRecord name source [], sheetRecord "main.css" main [⟨"./" ++ name, .style, ⟨[name]⟩⟩]],
    [("main", ⟨["main.css"]⟩)], []⟩

/-- A stylesheet that imports one that leads out of the project. -/
def linkGraph : ModuleGraph :=
  sheetGraph "link.css" "@import '//x';" "@import './link.css';b\x7b\x7d"

def linkChunk : Chunk :=
  ⟨"main", .stylesheet, .entry, [⟨["link.css"]⟩, ⟨["main.css"]⟩], none⟩

def linkSheets : List Sheet :=
  [⟨"@import '//x';".toList, fun _ => ""⟩, ⟨"@import './link.css';b\x7b\x7d".toList, fun _ => ""⟩]

/-- The parts of an empty rule. -/
def emptyRuleParts : List Part :=
  [⟨.token (.name ['b']), ['b']⟩, ⟨.token (.opening '\x7b'), ['\x7b']⟩, ⟨.token (.closing '\x7d'), ['\x7d']⟩]

theorem closed_emptyRuleParts : Closed emptyRuleParts := by
  intro rest
  have hname := @parts_of_kindAt 'b' _ [] ('\x7b' :: '\x7d' :: '\n' :: rest) rfl
  have hopening := @parts_of_kindAt '\x7b' _ [] ('\x7d' :: '\n' :: rest) rfl
  have hclosing := @parts_of_kindAt '\x7d' _ [] ('\n' :: rest) rfl
  exact hname.trans (by rw [List.nil_append] at hopening hclosing; rw [hopening, hclosing]; rfl)

theorem closed_link : Closed [⟨.rule "//x".toList [], "@import '//x';".toList⟩] := by
  intro rest
  have htoken : Syntax.readToken '@' ("import '//x';".toList ++ '\n' :: rest)
      = (some (.atName "import".toList), " '//x';".toList ++ '\n' :: rest) := rfl
  have hrule : ruleAt? (" '//x';".toList ++ '\n' :: rest) = some ("//x".toList, [], '\n' :: rest) :=
    @ruleAt?_eq_some _ _ [] (';' :: '\n' :: rest) rfl rfl
  have hname : ("import".toList.map asciiLower == "import".toList) = true := rfl
  have hkind : kindAt '@' ("import '//x';".toList ++ '\n' :: rest)
      = (.rule "//x".toList [], '\n' :: rest) := by
    unfold kindAt
    rw [htoken]
    dsimp only
    rw [hname, hrule]
  exact parts_of_kindAt hkind

theorem parts_link : Style.parts 0 "@import '//x';".toList = [⟨.rule "//x".toList [], "@import '//x';".toList⟩] := by
  rfl

theorem parts_linkMain : Style.parts 0 "@import './link.css';b\x7b\x7d".toList
    = ⟨.rule "./link.css".toList [], "@import './link.css';".toList⟩ :: emptyRuleParts := by
  rfl

/-- Both stylesheets are written plainly. -/
theorem readFrom_link : List.Forall₂ (ReadFrom linkGraph) (stylesOf linkGraph linkChunk) linkSheets := by
  have hlink : Plain (Style.parts 0 "@import '//x';".toList) := by
    rw [parts_link]
    refine ⟨fun p hp => ?_, by unfold Clear; decide, by unfold Clear; decide⟩
    rw [List.mem_singleton.mp hp]
    exact ⟨fun _ => ⟨⟨[' '], "'//x'".toList, [], by simp, by simp [Syntax.isBlank],
      .quoted '\'' "//x".toList rfl rfl (by decide), by simp, rfl⟩, by decide⟩, fun hlocal => absurd rfl hlocal⟩
  have hmain : Plain (Style.parts 0 "@import './link.css';b\x7b\x7d".toList) := by
    rw [parts_linkMain]
    refine ⟨fun p hp => ?_, by unfold Clear; decide, by unfold Clear; decide⟩
    rcases List.mem_cons.mp hp with rfl | hp
    · exact ⟨fun hexternal => (by cases hexternal), fun _ => ⟨by simp, List.all_eq_true.mp (by rfl), by simp,
        [' '], "'./link.css'".toList, by simp, by simp [Syntax.isBlank], .quoted '\'' rfl, rfl⟩⟩
    · simp only [emptyRuleParts, List.mem_cons, List.not_mem_nil, or_false] at hp
      rcases hp with rfl | rfl | rfl <;> trivial
  refine .cons ⟨rfl, hlink, by decide, by decide, .nil⟩ (.cons ⟨rfl, hmain, by decide, by decide, ?_⟩ .nil)
  exact .cons (fun hkind => by cases hkind) .nil

/-- **The rule stands at the head of the chunk.** -/
theorem link_stands_first : linkGraph.split.chunks.filter (·.kind = .stylesheet) = [linkChunk]
    ∧ List.Forall₂ (ReadFrom linkGraph) (stylesOf linkGraph linkChunk) linkSheets
    ∧ (∀ s ∈ linkSheets, RulesFirst (Style.parts 0 s.source))
    ∧ ∃ code, stylesheet linkGraph linkChunk = .ok code ∧ code = "@import '//x';\nb\x7b\x7d\n"
      ∧ RulesFirst (Style.parts 0 code.toList) := by
  have hfirst : ∀ s ∈ linkSheets, RulesFirst (Style.parts 0 s.source) := by
    intro s hs
    simp only [linkSheets, List.mem_cons, List.not_mem_nil, or_false] at hs
    rcases hs with rfl | rfl
    · rw [parts_link]
      decide
    · rw [parts_linkMain]
      decide
  obtain ⟨code, hcode, htext, hread, hrules⟩ := stylesheet_rules_first readFrom_link hfirst
  have hclosed : ∀ s ∈ linkSheets, Closed s.parts := by
    intro s hs
    simp only [linkSheets, List.mem_cons, List.not_mem_nil, or_false] at hs
    rcases hs with rfl | rfl
    · exact closed_link
    · exact closed_emptyRuleParts
  have hpairs : linkSheets.Pairwise fun first second => second.KeepsRule → first.Leads := by
    refine List.pairwise_pair.mpr fun hkeeps => ?_
    obtain ⟨p, hp, hrule⟩ := hkeeps
    have hmain : p ∈ emptyRuleParts := hp
    simp only [emptyRuleParts, List.mem_cons, List.not_mem_nil, or_false] at hmain
    rcases hmain with rfl | rfl | rfl <;> cases hrule
  refine ⟨rfl, readFrom_link, hfirst, code, hcode, ?_, ?_⟩
  · have hsame : textOf (chunkParts linkSheets) = "@import '//x';\nb\x7b\x7d\n".toList := rfl
    rw [hsame] at htext
    rw [← String.ofList_toList (s := code), htext, String.ofList_toList]
  · rw [hread hclosed]
    exact hrules.mpr hpairs

/-- A stylesheet that imports one of the project, and one that leads out of it. -/
def resetGraph : ModuleGraph :=
  sheetGraph "reset.css" "b\x7b\x7d" "@import './reset.css';@import '//x';"

/-- **The rule stands behind what the other stylesheet says**, though both have their rules first. -/
theorem reset_stands_before_rule :
    RulesFirst (Style.parts 0 "b\x7b\x7d".toList)
      ∧ RulesFirst (Style.parts 0 "@import './reset.css';@import '//x';".toList)
      ∧ ∃ chunk ∈ resetGraph.split.chunks, chunk.modules = [⟨["reset.css"]⟩, ⟨["main.css"]⟩]
        ∧ stylesheet resetGraph chunk = .ok "b\x7b\x7d\n@import '//x';\n"
        ∧ ¬ RulesFirst (Style.parts 0 "b\x7b\x7d\n@import '//x';\n".toList) := by
  refine ⟨by decide, by decide, ⟨"main", .stylesheet, .entry, [⟨["reset.css"]⟩, ⟨["main.css"]⟩], none⟩,
    ?_, rfl, rfl, by decide⟩
  have hchunks : resetGraph.split.chunks
      = [⟨"main", .stylesheet, .entry, [⟨["reset.css"]⟩, ⟨["main.css"]⟩], none⟩] := rfl
  rw [hchunks]
  exact List.mem_singleton.mpr rfl

end Render

end AssetBundler
