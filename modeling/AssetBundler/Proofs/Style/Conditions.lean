/-
  AssetBundler.Proofs.Style.Conditions
  ────────────────────────────────
  **UNDER WHICH CONDITION A STYLESHEET TAKES PART.**

  An import rule may admit a stylesheet for some media only, or for what a
  browser supports.  The rule is taken out, and the stylesheet stands in a
  chunk with nothing around it, so its rules take part wherever the chunk is
  loaded.  That is what the import rules say just when some chain of them
  leads to the stylesheet without a condition:

    • `Style.Spot` — what is open around a place in a text,
    • `Style.exists_chunkParts_eq` — around the stylesheets of a chunk nothing is,
    • `ModuleGraph.Admits` — the stylesheets that import rules admit,
    • `ModuleGraph.split_drops_conditions` — when both are the same,
    • `ModuleGraph.print_takes_part_always` — a stylesheet for one medium.
-/
import AssetBundler.Proofs.Page.Cascade
import AssetBundler.Proofs.Style.ImportOrder

namespace AssetBundler

open AssetBundler.Text Relation

namespace Style

/-! ## §1. Places in a text. -/

/-- A place in a text: the blocks and parentheses that are open, each with its mark and the text in front
of it, and what has been begun since. -/
structure Spot where
  opened : List (Char × List Char)
  begun : List Char
  deriving DecidableEq

namespace Spot

/-- The place outside of everything. -/
def outside : Spot := ⟨[], []⟩

/-- More has been begun. -/
def extend (s : Spot) (text : List Char) : Spot :=
  { s with begun := s.begun ++ text }

/-- **The place behind a part.** A block ends what has been begun in front of it, and so does a semicolon
outside of parentheses; a comment and an import rule begin nothing. -/
def step (s : Spot) (p : Part) : Spot :=
  match p.kind with
  | .comment | .rule .. => s
  | .token .blank => if s.begun.isEmpty then s else s.extend p.text
  | .token (.opening '\x7b') => ⟨('\x7b', s.begun) :: s.opened, []⟩
  | .token (.opening c) => ⟨(c, s.begun ++ p.text) :: s.opened, []⟩
  | .token (.function _) => ⟨('(', s.begun ++ p.text) :: s.opened, []⟩
  | .token (.closing c) =>
    match s.opened with
    | [] => s.extend p.text
    | (_, front) :: opened =>
      if c = '\x7d' then ⟨opened, []⟩ else ⟨opened, front ++ s.begun ++ p.text⟩
  | .token .semicolon =>
    match s.opened with
    | ('(', _) :: _ | ('[', _) :: _ => s.extend p.text
    | _ => { s with begun := [] }
  | _ => s.extend p.text

/-- The place behind some parts. -/
def after (s : Spot) (ps : List Part) : Spot :=
  ps.foldl step s

theorem after_append (s : Spot) (ps qs : List Part) : s.after (ps ++ qs) = (s.after ps).after qs :=
  List.foldl_append

/-- **Rules at a place take part**: nothing has been begun, and what stands in front of the open blocks
holds. -/
def TakesPart (s : Spot) (holds : List Char → Prop) : Prop :=
  s.begun = [] ∧ ∀ block ∈ s.opened, holds block.2

theorem takesPart_outside (holds : List Char → Prop) : outside.TakesPart holds :=
  ⟨rfl, fun block hblock => by cases hblock⟩

end Spot

/-! ## §2. The stylesheets of a chunk. -/

/-- All blocks are closed, and everything that has been begun is ended. -/
def Balanced (ps : List Part) : Prop :=
  Spot.outside.after ps = .outside

instance (ps : List Part) : Decidable (Balanced ps) :=
  inferInstanceAs (Decidable (_ = _))

theorem Balanced.append {ps qs : List Part} (hps : Balanced ps) (hqs : Balanced qs) :
    Balanced (ps ++ qs) := by
  unfold Balanced at hps hqs ⊢
  rw [Spot.after_append, hps, hqs]

theorem balanced_lineBreak : Balanced [lineBreak] := rfl

/-- Between line breaks every text has balanced ones before it. -/
theorem exists_intercalate_eq {xss : List (List Part)} (h : ∀ ps ∈ xss, Balanced ps) :
    ∀ ps ∈ xss, ∃ before behind, [lineBreak].intercalate xss = before ++ (ps ++ behind) ∧ Balanced before := by
  induction xss with
  | nil =>
      intro ps hps
      cases hps
  | cons xs xss ih =>
      intro ps hps
      cases xss with
      | nil =>
          rw [List.mem_singleton.mp hps, List.intercalate_singleton]
          exact ⟨[], [], (List.append_nil xs).symm, rfl⟩
      | cons ys xss =>
          rw [List.intercalate_cons_cons]
          rcases List.mem_cons.mp hps with rfl | hps
          · exact ⟨[], [lineBreak] ++ [lineBreak].intercalate (ys :: xss), by rw [List.append_assoc]; rfl, rfl⟩
          · obtain ⟨before, behind, heq, hbefore⟩ := ih (fun qs hqs => h qs (List.mem_cons_of_mem _ hqs)) ps hps
            refine ⟨xs ++ [lineBreak] ++ before, behind, ?_, ?_⟩
            · rw [heq, List.append_assoc _ before]
            · exact ((h xs List.mem_cons_self).append balanced_lineBreak).append hbefore

/-- **Nothing is open around the stylesheets of a chunk**, when each is balanced. -/
theorem exists_chunkParts_eq {sheets : List Sheet} (h : ∀ s ∈ sheets, Balanced s.parts) {s : Sheet}
    (hs : s ∈ sheets) :
    ∃ before behind, chunkParts sheets = before ++ (s.parts ++ behind) ∧ Balanced before := by
  by_cases hempty : s.parts = []
  · exact ⟨[], chunkParts sheets, by rw [hempty]; rfl, rfl⟩
  · have hall : ∀ ps ∈ (sheets.map Sheet.parts).filter (fun ps => !ps.isEmpty), Balanced ps := by
      intro ps hps
      obtain ⟨s, hs, rfl⟩ := List.mem_map.mp (List.mem_filter.mp hps).1
      exact h s hs
    have hmem : s.parts ∈ (sheets.map Sheet.parts).filter (fun ps => !ps.isEmpty) :=
      List.mem_filter.mpr ⟨List.mem_map_of_mem hs, by simpa using hempty⟩
    obtain ⟨before, behind, heq, hbefore⟩ := exists_intercalate_eq hall s.parts hmem
    exact ⟨before, behind ++ [lineBreak], by rw [chunkParts, joinedParts, heq]; simp, hbefore⟩

end Style

/-! ## §3. What import rules admit. -/

namespace ModuleGraph

open Style

variable {g : ModuleGraph} {sheetOf : Identity → Sheet} {holds holds' : List Char → Prop}
  {root m : Identity}

/-- **The stylesheets that import rules admit**, from one on, when certain conditions hold.  A rule whose
condition is blank admits its stylesheet always. -/
inductive Admits (g : ModuleGraph) (sheetOf : Identity → Sheet) (holds : List Char → Prop)
    (root : Identity) : Identity → Prop
  | root : Admits g sheetOf holds root root
  | rule {m : Identity} {r : ModuleRecord} {d : Dependency} {target condition text : List Char}
      (hm : Admits g sheetOf holds root m) (hr : g.get? m = some r)
      (hrule : ⟨.rule target condition, text⟩ ∈ parts 0 (sheetOf m).source)
      (hlocal : ¬ isExternal target = true)
      (hcondition : (∀ c ∈ condition, Syntax.isBlank c = true) ∨ holds condition)
      (hd : d ∈ r.dependencies) (hkind : d.kind = .style) (hspecifier : d.specifier = String.ofList target) :
      Admits g sheetOf holds root d.target

theorem Admits.mono (h : g.Admits sheetOf holds root m) (hholds : ∀ c, holds c → holds' c) :
    g.Admits sheetOf holds' root m := by
  induction h with
  | root => exact .root
  | rule _ hr hrule hlocal hcondition hd hkind hspecifier ih =>
      exact .rule ih hr hrule hlocal (hcondition.imp_right (hholds _)) hd hkind hspecifier

/-- A stylesheet that is admitted is loaded. -/
theorem Admits.reaches (h : g.Admits sheetOf holds root m) : ReflTransGen g.Loads root m := by
  induction h with
  | root => exact .refl
  | @rule m r d _ _ _ _ hr _ _ _ hd hkind _ ih =>
      refine ih.tail ⟨r, hr, d, List.mem_filter.mpr ⟨hd, ?_⟩, rfl⟩
      simp [Dependency.isSync, hkind]

/-- A stylesheet stands in the chunk of its group. -/
theorem exists_chunk_stylesOf {i : Nat} (hg : g.WellFormed) (hstyle : g.IsStylesheet m)
    (hi : Plan.groupOf g m = some i) :
    ∃ chunk ∈ g.split.chunks, ∃ r ∈ Render.stylesOf g chunk, r.identity = m := by
  obtain ⟨r, hget, hkind⟩ := hstyle
  obtain ⟨hr, rfl⟩ := mem_of_get? hget
  obtain ⟨chunk, hfound, hmem⟩ :=
    Plan.exists_chunk hg hr hi ((Plan.chunkKindOf_cases (Plan.scriptImported g) r).1 hkind)
  obtain ⟨k, -, hk⟩ := Option.bind_eq_some_iff.mp hfound
  exact ⟨chunk, List.mem_of_getElem? hk, r, List.mem_filter.mpr ⟨hmem, by simpa using hkind⟩, rfl⟩

/-- **THE CONDITIONS OF IMPORT RULES ARE LOST.**  A stylesheet that import rules admit from an entry on
stands in a chunk of the plan with nothing around it.  So its rules take part in the text of the chunk
under the condition under which they are admitted just when a chain of rules without conditions admits
it. -/
theorem split_drops_conditions (hg : g.WellFormed)
    (hread : ∀ r ∈ g.records, r.artifact.kind = .stylesheet → Render.ReadFrom g r (sheetOf r.identity))
    (hbalanced : ∀ r ∈ g.records, r.artifact.kind = .stylesheet → Balanced (sheetOf r.identity).parts)
    (hroot : root ∈ g.entries.map (·.2)) (hm : g.Admits sheetOf holds root m) (hstyle : g.IsStylesheet m) :
    ∃ chunk ∈ g.split.chunks, ∃ code before behind, Render.stylesheet g chunk = .ok code
      ∧ code.toList = textOf (before ++ ((sheetOf m).parts ++ behind))
      ∧ ((∀ r ∈ g.records, r.artifact.kind = .stylesheet → Closed (sheetOf r.identity).parts) →
          parts 0 code.toList = before ++ ((sheetOf m).parts ++ behind))
      ∧ (∀ holds, (Spot.outside.after before).TakesPart holds)
      ∧ ((∀ holds, (Spot.outside.after before).TakesPart holds ↔ g.Admits sheetOf holds root m)
        ↔ g.Admits sheetOf (fun _ => False) root m) := by
  obtain ⟨i, hi, -⟩ := Plan.exists_groupPath hg (Plan.mem_roots.mpr (.inl hroot)) hm.reaches
  obtain ⟨chunk, hchunk, r, hr, rfl⟩ := exists_chunk_stylesOf hg hstyle hi
  have hsheets : List.Forall₂ (Render.ReadFrom g) (Render.stylesOf g chunk)
      ((Render.stylesOf g chunk).map fun r => sheetOf r.identity) := by
    rw [List.forall₂_map_right_iff, List.forall₂_same]
    exact fun r hr => hread r (Render.mem_of_mem_stylesOf hr).1 (Render.mem_of_mem_stylesOf hr).2
  obtain ⟨code, hcode, htext⟩ := Render.stylesheet_eq hsheets
  have hall {P : Sheet → Prop}
      (hP : ∀ r ∈ g.records, r.artifact.kind = .stylesheet → P (sheetOf r.identity)) :
      ∀ s ∈ (Render.stylesOf g chunk).map fun r => sheetOf r.identity, P s := by
    intro s hs
    obtain ⟨r, hr, rfl⟩ := List.mem_map.mp hs
    exact hP r (Render.mem_of_mem_stylesOf hr).1 (Render.mem_of_mem_stylesOf hr).2
  obtain ⟨before, behind, hparts, hbefore⟩ := exists_chunkParts_eq (hall hbalanced) (List.mem_map_of_mem hr)
  have htakes : ∀ holds, (Spot.outside.after before).TakesPart holds := by
    intro holds
    rw [hbefore]
    exact Spot.takesPart_outside holds
  refine ⟨chunk, hchunk, code, before, behind, hcode, by rw [htext, hparts], fun hclosed => ?_, htakes, ?_⟩
  · rw [htext, parts_chunkParts (hall hclosed), hparts]
  · exact ⟨fun hsame => (hsame _).mp (htakes _), fun hnone holds =>
      ⟨fun _ => hnone.mono fun _ hfalse => hfalse.elim, fun _ => htakes holds⟩⟩

/-- A stylesheet beside one that imports it. -/
def sheetBeside (name source main : String) (m : Identity) : Sheet :=
  ⟨if m = ⟨[name]⟩ then source.toList else main.toList, fun _ => ""⟩

def linkSheetOf : Identity → Sheet :=
  sheetBeside "link.css" "@import '//x';" "@import './link.css';b\x7b\x7d"

theorem wellFormed_linkGraph : Render.linkGraph.WellFormed where
  nodup := by decide
  placed := by
    have hlink : Placed [Render.sheetRecord "link.css" "@import '//x';" []] :=
      NeedsFirst.nil.concat fun m hm => by cases hm
    refine hlink.concat fun m hm => ?_
    obtain rfl := List.mem_singleton.mp hm
    exact List.mem_singleton.mpr rfl
  closed := by decide
  entriesRecorded := by decide
  rootsRecorded := by decide
  rootsNodup := by decide
  rooted := by decide

/-- **A stylesheet that is imported without a condition.** -/
theorem link_takes_part :
    Render.linkGraph.Admits linkSheetOf (fun _ => False) ⟨["main.css"]⟩ ⟨["link.css"]⟩
      ∧ ∃ chunk ∈ Render.linkGraph.split.chunks, ∃ code before behind,
        Render.stylesheet Render.linkGraph chunk = .ok code
        ∧ code.toList = textOf (before ++ ((linkSheetOf ⟨["link.css"]⟩).parts ++ behind))
        ∧ ∀ holds, (Spot.outside.after before).TakesPart holds
          ↔ Render.linkGraph.Admits linkSheetOf holds ⟨["main.css"]⟩ ⟨["link.css"]⟩ := by
  have hadmits : Render.linkGraph.Admits linkSheetOf (fun _ => False) ⟨["main.css"]⟩ ⟨["link.css"]⟩ := by
    refine @Admits.rule _ _ _ _ ⟨["main.css"]⟩ _ ⟨"./link.css", .style, ⟨["link.css"]⟩⟩ "./link.css".toList []
      "@import './link.css';".toList .root rfl ?_ (by decide) (.inl fun c hc => by cases hc)
      (List.mem_singleton.mpr rfl) rfl rfl
    have hsource : (linkSheetOf ⟨["main.css"]⟩).source = "@import './link.css';b\x7b\x7d".toList := rfl
    rw [hsource, Render.parts_linkMain]
    exact List.mem_cons_self
  have hread : ∀ r ∈ Render.linkGraph.records, r.artifact.kind = .stylesheet →
      Render.ReadFrom Render.linkGraph r (linkSheetOf r.identity) := by
    have hboth := Render.readFrom_link
    cases hboth with
    | cons hlink hrest =>
        cases hrest with
        | cons hmain _ =>
            intro r hr _
            rcases List.mem_cons.mp hr with rfl | hr
            · exact hlink
            · rw [List.mem_singleton.mp hr]
              exact hmain
  have hbalanced : ∀ r ∈ Render.linkGraph.records, r.artifact.kind = .stylesheet →
      Balanced (linkSheetOf r.identity).parts := by
    intro r hr _
    rcases List.mem_cons.mp hr with rfl | hr
    · decide
    · rw [List.mem_singleton.mp hr]
      decide
  obtain ⟨chunk, hchunk, code, before, behind, hcode, htext, -, -, hsame⟩ :=
    split_drops_conditions wellFormed_linkGraph hread hbalanced (List.mem_singleton.mpr rfl) hadmits
      ⟨_, rfl, rfl⟩
  exact ⟨hadmits, chunk, hchunk, code, before, behind, hcode, htext, hsame.mpr hadmits⟩

/-- A stylesheet that is imported for print. -/
def printGraph : ModuleGraph :=
  Render.sheetGraph "print.css" "b\x7b\x7d" "@import './print.css' print;a\x7b\x7d"

def printSheetOf : Identity → Sheet :=
  sheetBeside "print.css" "b\x7b\x7d" "@import './print.css' print;a\x7b\x7d"

theorem parts_printMain : parts 0 "@import './print.css' print;a\x7b\x7d".toList
    = [⟨.rule "./print.css".toList " print".toList, "@import './print.css' print;".toList⟩,
      ⟨.token (.name ['a']), ['a']⟩, ⟨.token (.opening '\x7b'), ['\x7b']⟩, ⟨.token (.closing '\x7d'), ['\x7d']⟩] := by
  rfl

/-- Where nothing is printed the entry admits no other stylesheet. -/
theorem eq_of_admits_print (h : printGraph.Admits printSheetOf (fun _ => False) ⟨["main.css"]⟩ m) :
    m = ⟨["main.css"]⟩ := by
  induction h with
  | root => rfl
  | rule _ _ hrule _ hcondition _ _ _ ih =>
      have hsource : (printSheetOf ⟨["main.css"]⟩).source
          = "@import './print.css' print;a\x7b\x7d".toList := rfl
      rw [ih, hsource, parts_printMain] at hrule
      rcases List.mem_cons.mp hrule with hrule | hrule
      · cases hrule
        rcases hcondition with hblank | hfalse
        · exact absurd (hblank 'p' (by simp)) (by decide)
        · exact hfalse.elim
      · simp at hrule

/-- **A stylesheet for print takes part always**: it is admitted for print and not otherwise, and stands in
the chunk with nothing around it. -/
theorem print_takes_part_always :
    printGraph.Admits printSheetOf (· = " print".toList) ⟨["main.css"]⟩ ⟨["print.css"]⟩
      ∧ ¬ printGraph.Admits printSheetOf (fun _ => False) ⟨["main.css"]⟩ ⟨["print.css"]⟩
      ∧ ∃ chunk ∈ printGraph.split.chunks,
        Render.stylesheet printGraph chunk = .ok "b\x7b\x7d\na\x7b\x7d\n"
        ∧ parts 0 "b\x7b\x7d\na\x7b\x7d\n".toList
          = [] ++ ((printSheetOf ⟨["print.css"]⟩).parts ++ parts 0 "\na\x7b\x7d\n".toList)
        ∧ ∀ holds, (Spot.outside.after []).TakesPart holds := by
  refine ⟨?_, fun h => ?_, ⟨"main", .stylesheet, .entry, [⟨["print.css"]⟩, ⟨["main.css"]⟩], none⟩, ?_, rfl, rfl,
    Spot.takesPart_outside⟩
  · refine @Admits.rule _ _ _ _ ⟨["main.css"]⟩ _ ⟨"./print.css", .style, ⟨["print.css"]⟩⟩ "./print.css".toList
      " print".toList "@import './print.css' print;".toList .root rfl ?_ (by decide) (.inr rfl)
      (List.mem_singleton.mpr rfl) rfl rfl
    have hsource : (printSheetOf ⟨["main.css"]⟩).source
        = "@import './print.css' print;a\x7b\x7d".toList := rfl
    rw [hsource, parts_printMain]
    exact List.mem_cons_self
  · exact absurd (eq_of_admits_print h) (by decide)
  · have hchunks : printGraph.split.chunks
        = [⟨"main", .stylesheet, .entry, [⟨["print.css"]⟩, ⟨["main.css"]⟩], none⟩] := rfl
    rw [hchunks]
    exact List.mem_singleton.mpr rfl

end ModuleGraph

end AssetBundler
