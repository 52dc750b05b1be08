/-
  AssetBundler.Proofs.Build.LineMap
  ────────────────────────────────
  **WHERE THE LINES OF A CHUNK COME FROM.**

  The source map of a script chunk is made beside its text, by counting: the
  first line of the chunk, and for every module one line before its body and
  two behind it.  Here the text is divided into lines, and the count is shown
  to be right for any list of modules:

    • `Render.textLines_script` — the lines of a chunk, module by module,
    • `Render.mapRecords_eq` — the mappings, module by module,
    • `Render.mapsLines_script` — each mapping leads from a line of a module
      to the same line of its source,
    • `Bundler.execute_maps_lines` — the script chunks of a build.
-/
import AssetBundler.Proofs.Build.ChunkFile
import AssetBundler.Proofs.Build.Source
import AssetBundler.Proofs.Script.Lines
import Mathlib

namespace AssetBundler

open AssetBundler.Text
open Script (Unbroken)

namespace Render

/-! ## §1. Lines. -/

/-- The lines of a text: what stands before, between and behind its line breaks. -/
def textLines (text : String) : List (List Char) :=
  text.toList.splitOn '\n'

theorem textLines_of_unbroken {text : String} (h : Unbroken text) : textLines text = [text.toList] :=
  List.splitOn_eq_singleton h

theorem textLines_append_break (a b : String) :
    textLines (a ++ "\n" ++ b) = textLines a ++ textLines b := by
  rw [textLines, String.append_assoc, String.toList_append, String.toList_append]
  exact List.splitOn_append_cons_self _ _

/-- A line and what stands behind it. -/
theorem textLines_line {line : String} (h : Unbroken line) (rest : String) :
    textLines (line ++ "\n" ++ rest) = line.toList :: textLines rest := by
  rw [textLines_append_break, textLines_of_unbroken h, List.singleton_append]

/-- There is one line more than there are line breaks. -/
theorem length_textLines (text : String) : (textLines text).length = breakCount text + 1 := by
  unfold textLines breakCount
  induction text.toList with
  | nil => rfl
  | cons c rest ih =>
    rw [List.splitOn_cons_eq_if_modifyHead, List.count_cons]
    split <;> simp_all

/-! ## §2. The lines of a chunk. -/

/-- The line before the body of a module. -/
def openingLine (root : Path) (r : ModuleRecord) : String :=
  "modules[" ++ quote (Path.moduleId r.identity.path root)
    ++ "] = [function (module, exports, require, __import__) \x7b"

/-- The line behind the body of a module. -/
def closingLine (g : ModuleGraph) (root : Path) (r : ModuleRecord) : String :=
  "\x7d, " ++ requireMap g root r ++ "];"

/-- How many lines the registration of a module has. -/
def height (r : ModuleRecord) : Nat :=
  breakCount (trimmedBody r) + 3

theorem unbroken_openingLine (root : Path) (r : ModuleRecord) : Unbroken (openingLine root r) :=
  (Unbroken.append (by decide) (Script.unbroken_quote _)).append
    (Script.unbroken_ofList (by decide))

theorem unbroken_intercalate {separator : String} (hs : Unbroken separator) :
    ∀ {texts : List String}, (∀ t ∈ texts, Unbroken t) → Unbroken (separator.intercalate texts)
  | [], _ => by simp [Unbroken]
  | [t], h => by simpa using h t List.mem_cons_self
  | t :: u :: texts, h => by
    obtain ⟨ht, hrest⟩ := List.forall_mem_cons.mp h
    rw [String.intercalate_cons_cons]
    exact (ht.append hs).append (unbroken_intercalate hs hrest)

/-- Specifiers and names of modules are written between quotes, where no line ends. -/
theorem unbroken_requireMap (g : ModuleGraph) (root : Path) (r : ModuleRecord) :
    Unbroken (requireMap g root r) := by
  have hentry : ∀ e : String × Option String,
      Unbroken (quote e.1 ++ ": " ++ (e.2.map quote).getD "null") := by
    rintro ⟨specifier, target?⟩
    refine ((Script.unbroken_quote specifier).append (by decide)).append ?_
    cases target? with
    | none => exact (by decide : Unbroken "null")
    | some target => exact Script.unbroken_quote target
  refine (Unbroken.append (by decide) (unbroken_intercalate (by decide) ?_)).append (by decide)
  exact List.forall_mem_map.mpr fun e _ => hentry e

theorem unbroken_closingLine (g : ModuleGraph) (root : Path) (r : ModuleRecord) :
    Unbroken (closingLine g root r) :=
  (Unbroken.append (by decide) (unbroken_requireMap g root r)).append (by decide)

theorem registration_eq (g : ModuleGraph) (root : Path) (r : ModuleRecord) :
    registration g root r
      = openingLine root r ++ "\n" ++ (trimmedBody r ++ "\n" ++ (closingLine g root r ++ "\n")) := by
  have hopening : "] = [function (module, exports, require, __import__) \x7b\n"
      = "] = [function (module, exports, require, __import__) \x7b" ++ "\n" := rfl
  have hclosing : "\n\x7d, " = "\n" ++ "\x7d, " := rfl
  have hend : "];\n" = "];" ++ "\n" := rfl
  unfold registration openingLine closingLine
  rw [hopening, hclosing, hend]
  simp only [String.append_assoc]

/-- The lines of the registration of a module. -/
def registrationLines (g : ModuleGraph) (root : Path) (r : ModuleRecord) : List (List Char) :=
  (openingLine root r).toList :: textLines (trimmedBody r) ++ [(closingLine g root r).toList]

theorem length_registrationLines (g : ModuleGraph) (root : Path) (r : ModuleRecord) :
    (registrationLines g root r).length = height r := by
  simp [registrationLines, length_textLines, height]

/-- **The lines of some registrations** and of what stands behind them. -/
theorem textLines_registrations (g : ModuleGraph) (root : Path) (rest : String) :
    ∀ records : List ModuleRecord,
      textLines (String.join (records.map (registration g root)) ++ rest)
        = records.flatMap (registrationLines g root) ++ textLines rest
  | [] => by simp [String.join]
  | r :: records => by
    have hparts : String.join ((r :: records).map (registration g root)) ++ rest
        = openingLine root r ++ "\n" ++ (trimmedBody r ++ "\n" ++ (closingLine g root r ++ "\n"
            ++ (String.join (records.map (registration g root)) ++ rest))) := by
      rw [List.map_cons, String.join_cons, registration_eq]
      simp [← String.toList_inj]
    rw [hparts, textLines_line (unbroken_openingLine root r), textLines_append_break,
      textLines_line (unbroken_closingLine g root r), textLines_registrations g root rest records]
    simp [registrationLines]

/-- **The lines of a chunk**, with whatever is written behind it: its first line, and then those of its
modules. -/
theorem textLines_script (g : ModuleGraph) (root : Path) (chunk : Chunk) (behind : String) :
    ∃ more, textLines (script g root chunk ++ behind)
      = "(function (modules) \x7b".toList
        :: (recordsOf g chunk).flatMap (registrationLines g root) ++ more := by
  obtain ⟨rest, hrest⟩ : ∃ rest, script g root chunk ++ behind
      = "(function (modules) \x7b" ++ "\n"
        ++ (String.join ((recordsOf g chunk).map (registration g root)) ++ rest) := by
    have hopening : "(function (modules) \x7b\n" = "(function (modules) \x7b" ++ "\n" := rfl
    unfold script
    extract_lets entry
    refine ⟨"\x7d)(self.__weft_modules__ = self.__weft_modules__ || \x7b\x7d);\n" ++ entry ++
      behind, ?_⟩
    rw [hopening]
    simp only [String.append_assoc]
  refine ⟨textLines rest, ?_⟩
  rw [hrest, textLines_line (Script.unbroken_ofList (by decide)), textLines_registrations,
    List.cons_append]

/-- The lines of a body in those of its chunk. -/
theorem getElem?_body {g : ModuleGraph} {root : Path} (text : List (List Char)) (line : Nat) {i : Nat}
    {before after : List ModuleRecord} {r : ModuleRecord} {more : List (List Char)}
    (htext : text.drop line = (before ++ r :: after).flatMap (registrationLines g root) ++ more)
    (hi : i < breakCount (trimmedBody r) + 1) :
    text[line + (before.map height).sum + 1 + i]? = (textLines (trimmedBody r))[i]? := by
  have hbefore : (before.flatMap (registrationLines g root)).length = (before.map height).sum := by
    rw [List.length_flatMap]
    exact congrArg List.sum (List.map_congr_left fun r _ => length_registrationLines g root r)
  have hline : line + (before.map height).sum + 1 + i = line + ((before.map height).sum + (i + 1)) := by
    omega
  rw [hline, ← List.getElem?_drop, htext, List.flatMap_append, List.append_assoc,
    List.getElem?_append_right (by omega), hbefore, Nat.add_sub_cancel_left, List.flatMap_cons,
    registrationLines, List.cons_append, List.cons_append, List.cons_append, List.getElem?_cons_succ,
    List.append_assoc, List.append_assoc, List.getElem?_append_left (by rwa [length_textLines])]

/-! ## §3. The mappings of a chunk. -/

/-- The name of the source of a module. -/
def sourceName (root : Path) (r : ModuleRecord) : String :=
  "/" ++ Path.moduleId r.identity.path root

/-- The source of a module with its name, if the module carries it. -/
def embedded? (root : Path) (r : ModuleRecord) : Option (String × String) :=
  r.source?.map fun source => (sourceName root r, source)

/-- How many lines of a module lead to its source. -/
def mappedLines (r : ModuleRecord) (source : String) : Nat :=
  min (breakCount (trimmedBody r) + 1) (lineCount source)

/-- The mappings of some modules that are registered from a line on; `index` is that of the first
source. -/
def mappingsFrom : Nat → Nat → List ModuleRecord → List LineMapping
  | _, _, [] => []
  | line, index, r :: rest =>
    match r.source? with
    | some source =>
      ((List.range (mappedLines r source)).map fun i => ⟨line + 1 + i, index, i⟩)
        ++ mappingsFrom (line + height r) (index + 1) rest
    | none => mappingsFrom (line + height r) index rest

/-- **The map of some modules**, whose names differ: each source is put behind those before, and so are
the mappings to it. -/
theorem mapRecords_eq (root : Path) : ∀ (records : List ModuleRecord) (line : Nat) (map : SourceMap),
    (records.map (sourceName root)).Nodup →
    (∀ r ∈ records, sourceName root r ∉ map.sources.map (·.1)) →
    mapRecords root line records map
      = ⟨map.sources ++ records.filterMap (embedded? root),
          map.mappings ++ mappingsFrom line map.sources.length records⟩
  | [], _, map, _, _ => by simp [mapRecords, mappingsFrom]
  | r :: records, line, map, hnodup, hnew => by
    obtain ⟨hr, hrecords⟩ := List.nodup_cons.mp hnodup
    obtain ⟨hfirst, hrest⟩ := List.forall_mem_cons.mp hnew
    have hline : line + breakCount (trimmedBody r) + 3 = line + height r := Nat.add_assoc ..
    rw [mapRecords, mappingsFrom, hline]
    cases hsource : r.source? with
    | none =>
      have hentry : embedded? root r = none := by simp [embedded?, hsource]
      rw [List.filterMap_cons_none hentry]
      exact mapRecords_eq root records _ map hrecords hrest
    | some source =>
      have hentry : embedded? root r = some (sourceName root r, source) := by
        simp [embedded?, hsource]
      have hindex : map.indexOf? (sourceName root r) = none := List.idxOf?_eq_none_iff.mpr hfirst
      have hadd : map.addSource (sourceName root r) source
          = (⟨map.sources ++ [(sourceName root r, source)], map.mappings⟩, map.sources.length) := by
        rw [SourceMap.addSource, hindex]
      have hother : ∀ r' ∈ records,
          sourceName root r' ∉ (map.sources ++ [(sourceName root r, source)]).map (·.1) := by
        intro r' hr' hmem
        rw [List.map_append, List.mem_append, List.map_singleton, List.mem_singleton] at hmem
        rcases hmem with hmem | heq
        · exact hrest r' hr' hmem
        · exact hr (List.mem_map.mpr ⟨r', hr', heq⟩)
      have hpushed := mapRecords_eq root records (line + height r)
        (SourceMap.addLines ⟨map.sources ++ [(sourceName root r, source)], map.mappings⟩ (line + 1)
          map.sources.length (mappedLines r source)) hrecords hother
      rw [List.filterMap_cons_some hentry]
      rw [sourceName] at hadd
      simp only [hadd]
      refine hpushed.trans ?_
      simp [SourceMap.addLines]

/-- A mapping of some modules is that of a line of one of them. -/
theorem mem_mappingsFrom {t : LineMapping} : ∀ {records : List ModuleRecord} {line index : Nat},
    t ∈ mappingsFrom line index records ↔
      ∃ before r after source, records = before ++ r :: after ∧ r.source? = some source
        ∧ t.sourceLine < mappedLines r source
        ∧ t = ⟨line + (before.map height).sum + 1 + t.sourceLine,
            index + (before.filterMap (·.source?)).length, t.sourceLine⟩
  | [], _, _ => by simp [mappingsFrom]
  | r :: records, line, index => by
    have hsplit (p : List ModuleRecord → ModuleRecord → List ModuleRecord → Prop) :
        (∃ before r' after, r :: records = before ++ r' :: after ∧ p before r' after)
          ↔ p [] r records ∨ ∃ before r' after, records = before ++ r' :: after
            ∧ p (r :: before) r' after := by
      constructor
      · rintro ⟨_ | ⟨first, before⟩, r', after, heq, hp⟩
        · obtain ⟨rfl, rfl⟩ := List.cons.inj heq
          exact .inl hp
        · obtain ⟨rfl, rfl⟩ := List.cons.inj heq
          exact .inr ⟨before, r', after, rfl, hp⟩
      · rintro (hp | ⟨before, r', after, rfl, hp⟩)
        · exact ⟨[], r, records, rfl, hp⟩
        · exact ⟨r :: before, r', after, rfl, hp⟩
    simp only [exists_and_left] at hsplit ⊢
    rw [hsplit, mappingsFrom]
    cases hsource : r.source? with
    | none => simp [mem_mappingsFrom, hsource, Nat.add_assoc]
    | some source =>
      have hfirst : t ∈ (List.range (mappedLines r source)).map
            (fun i => (⟨line + 1 + i, index, i⟩ : LineMapping))
          ↔ t.sourceLine < mappedLines r source ∧ t
            = ⟨line + 1 + t.sourceLine, index, t.sourceLine⟩ := by
        constructor
        · intro h
          obtain ⟨i, hi, rfl⟩ := List.mem_map.mp h
          exact ⟨List.mem_range.mp hi, rfl⟩
        · rintro ⟨hi, ht⟩
          exact List.mem_map.mpr ⟨_, List.mem_range.mpr hi, ht.symm⟩
      rw [List.mem_append, hfirst, mem_mappingsFrom]
      simp [hsource, Nat.add_assoc, Nat.add_comm 1]

/-- The mappings of modules that are registered from a line on stand behind it. -/
theorem lt_of_mem_mappingsFrom {t : LineMapping} {records : List ModuleRecord} {line index : Nat}
    (h : t ∈ mappingsFrom line index records) : line < t.line := by
  obtain ⟨before, r, after, source, -, -, -, ht⟩ := mem_mappingsFrom.mp h
  rw [ht]
  dsimp only
  omega

/-- **No line is mapped twice**: the mappings follow the lines of the chunk. -/
theorem pairwise_mappingsFrom : ∀ (records : List ModuleRecord) (line index : Nat),
    (mappingsFrom line index records).Pairwise (·.line < ·.line)
  | [], _, _ => .nil
  | r :: records, line, index => by
    rw [mappingsFrom]
    cases r.source? with
    | none => exact pairwise_mappingsFrom records _ _
    | some source =>
      refine List.pairwise_append.mpr ⟨?_, pairwise_mappingsFrom records _ _, ?_⟩
      · refine List.pairwise_map.mpr (List.pairwise_lt_range.imp fun h => ?_)
        dsimp only
        omega
      · intro t ht t' ht'
        obtain ⟨i, hi, rfl⟩ := List.mem_map.mp ht
        have hbehind := lt_of_mem_mappingsFrom ht'
        have hi : i < mappedLines r source := List.mem_range.mp hi
        simp only [mappedLines, height] at hi hbehind
        dsimp only
        omega

/-! ## §4. The map of a chunk. -/

/-- **The map leads from the lines of a text to the sources of its modules.** -/
structure MapsLines (root : Path) (records : List ModuleRecord) (text : String) (map : SourceMap) :
    Prop where
  /-- A mapping leads from a line of the text to a line of a source; the line of the text is that line
  of the body of the module whose source it is. -/
  leads : ∀ t ∈ map.mappings, ∃ r ∈ records, ∃ source, r.source? = some source
    ∧ map.sources[t.source]? = some (sourceName root r, source)
    ∧ t.sourceLine < lineCount source
    ∧ ∃ line, (textLines text)[t.line]? = some line
      ∧ (textLines (trimmedBody r))[t.sourceLine]? = some line
  /-- The mappings follow the lines of the text, none of which is mapped twice. -/
  apart : map.mappings.Pairwise (·.line < ·.line)
  /-- Every line of a body is mapped, as far as the source has lines. -/
  covers : ∀ r ∈ records, ∀ source, r.source? = some source →
    ∀ i < min (textLines (trimmedBody r)).length (lineCount source),
      ∃ t ∈ map.mappings, t.sourceLine = i ∧ map.sources[t.source]? = some (sourceName root r, source)

theorem length_filterMap_embedded? (root : Path) (records : List ModuleRecord) :
    (records.filterMap (embedded? root)).length = (records.filterMap (·.source?)).length := by
  have h : embedded? root = fun r => r.source?.map fun source => (sourceName root r, source) := rfl
  induction records with
  | nil => rfl
  | cons r records ih => cases hs : r.source? <;> simp [embedded?, hs, ih]

/-- **The map of a chunk** whose modules differ in their names, with whatever is written behind it. -/
theorem mapsLines_script {g : ModuleGraph} {root : Path} {chunk : Chunk}
    (hnames : ((recordsOf g chunk).map (sourceName root)).Nodup) (behind : String) :
    MapsLines root (recordsOf g chunk) (script g root chunk ++ behind) (scriptMap g root chunk) := by
  have hmap : scriptMap g root chunk = ⟨(recordsOf g chunk).filterMap (embedded? root),
      mappingsFrom 1 0 (recordsOf g chunk)⟩ := by
    rw [scriptMap, mapRecords_eq root _ _ _ hnames (by simp)]
    simp
  obtain ⟨more, htext⟩ := textLines_script g root chunk behind
  have hsource {before after : List ModuleRecord} {r : ModuleRecord} {source : String}
      (hrecords : recordsOf g chunk = before ++ r :: after) (hr : r.source? = some source) :
      (scriptMap g root chunk).sources[(before.filterMap (·.source?)).length]?
        = some (sourceName root r, source) := by
    have hentry : embedded? root r = some (sourceName root r, source) := by simp [embedded?, hr]
    rw [hmap, hrecords, List.filterMap_append, List.filterMap_cons_some hentry,
      ← length_filterMap_embedded? root]
    simp
  refine ⟨fun t ht => ?_, ?_, fun r hr source hs i hi => ?_⟩
  · rw [hmap] at ht
    obtain ⟨before, r, after, source, hrecords, hr, hlt, heq⟩ := mem_mappingsFrom.mp ht
    have hbody : t.sourceLine < breakCount (trimmedBody r) + 1 := hlt.trans_le (min_le_left _ _)
    refine ⟨r, hrecords ▸ List.mem_append_right _ List.mem_cons_self, source, hr, ?_,
      hlt.trans_le (min_le_right _ _), ?_⟩
    · rw [heq, Nat.zero_add]
      exact hsource hrecords hr
    · have hline := getElem?_body (textLines (script g root chunk ++ behind)) 1
        (by rw [htext, hrecords]; rfl) hbody
      rw [heq]
      dsimp only
      rw [hline, List.getElem?_eq_getElem (by rwa [length_textLines])]
      exact ⟨_, rfl, rfl⟩
  · rw [hmap]
    exact pairwise_mappingsFrom _ _ _
  · obtain ⟨before, after, hrecords⟩ := List.append_of_mem hr
    rw [length_textLines] at hi
    refine ⟨⟨1 + (before.map height).sum + 1 + i, (before.filterMap (·.source?)).length, i⟩, ?_, rfl,
      hsource hrecords hs⟩
    rw [hmap]
    refine mem_mappingsFrom.mpr ⟨before, r, after, source, hrecords, hs, hi, ?_⟩
    rw [Nat.zero_add]

end Render

/-! ## §5. The script chunks of a build. -/

namespace Bundler

open Emit Render

variable {b : Bundler} {files : FileTree} {signal : CancelSignal} {s : Session} {g : ModuleGraph}
  {o : BuildOutput}

theorem graph_keeps :
    BuildM.Ensures signal s (b.graph files)
      (fun g _ => ∀ r ∈ g.records, (b.graphInput files).Keeps s.mode r) (fun _ _ => True) := by
  simp only [graph, BuildM.ensures_bind, BuildM.ensures_enter, BuildM.ensures_check,
    BuildM.ensures_ofExcept, implies_true, and_true]
  intro _ entries _ _
  exact (Graph.build_keeps entries _ _).mono (fun _ _ h => h.2) fun _ _ _ => trivial

/-- The records of a build keep what its mode says. -/
theorem keeps_of_assemble (h : ((b.assemble files).exec signal s).1 = .ok (g, o)) :
    ∀ r ∈ g.records, (b.graphInput files).Keeps s.mode r := by
  have hassemble : BuildM.Ensures signal s (b.assemble files)
      (fun made _ => ∀ r ∈ made.1.records, (b.graphInput files).Keeps s.mode r) (fun _ _ => True) := by
    simp only [assemble, BuildM.ensures_bind]
    refine graph_keeps.mono (fun g _ hg => ?_) (fun _ _ h => h)
    simp only [BuildM.ensures_enter, BuildM.ensures_check, implies_true, and_true]
    refine fun _ => (contents_ensures g.split).mono (fun _ _ _ => ?_) (fun _ _ h => h)
    simp only [BuildM.ensures_ofExcept, BuildM.ensures_pure, implies_true, and_true]
    exact fun _ _ _ => hg
  exact hassemble.of_ok h

/-- A module carries its source only when it is a script. -/
theorem isScript_of_source {mode : Mode} {input : GraphInput} {r : ModuleRecord} {source : String}
    (h : input.Keeps mode r) (hsource : r.source? = some source) :
    ∃ content code imports, input.files.read r.identity.path = .ok content
      ∧ String.fromUTF8? content = some source ∧ r.artifact = .script code imports := by
  obtain ⟨-, content, hread, hkept⟩ := h
  rw [hsource, Graph.sourceOf] at hkept
  split at hkept
  next hkind =>
    simp only [Bool.and_eq_true, decide_eq_true_eq] at hkind
    cases hartifact : r.artifact with
    | script code imports => exact ⟨content, code, imports, hread, hkept.symm, rfl⟩
    | raw | stylesheet | asset => simp [hartifact, Artifact.kind] at hkind
  next => cases hkept

/-- The records of a chunk are those of its modules. -/
theorem map_identity_recordsOf {chunk : Chunk} (hmodules : ∀ m ∈ chunk.modules, m ∈ g.order) :
    (recordsOf g chunk).map (·.identity) = chunk.modules := by
  unfold recordsOf
  revert hmodules
  induction chunk.modules with
  | nil => exact fun _ => rfl
  | cons m rest ih =>
    intro hmodules
    obtain ⟨hm, hrest⟩ := List.forall_mem_cons.mp hmodules
    obtain ⟨r, hr⟩ := Option.isSome_iff_exists.mp (ModuleGraph.get?_isSome_iff.mpr hm)
    rw [List.filterMap_cons_some hr, List.map_cons, ih hrest, (ModuleGraph.mem_of_get? hr).2]

/-- Modules of a chunk that differ in their names have sources that do. -/
theorem nodup_sourceNames {root : Path} {chunk : Chunk} (hg : g.WellFormed)
    (hchunk : chunk ∈ g.split.chunks)
    (hnames : ∀ m ∈ chunk.modules, ∀ m' ∈ chunk.modules,
      Path.moduleId m.path root = Path.moduleId m'.path root → m = m') :
    ((recordsOf g chunk).map (sourceName root)).Nodup := by
  obtain ⟨k, hk⟩ := List.mem_iff_getElem?.mp hchunk
  obtain ⟨i, -, hmodules⟩ := Plan.exists_modulesOf hk
  have hsub : chunk.modules.Sublist g.order := hmodules ▸ Plan.modulesOf_sublist_order
  have hrecords : (recordsOf g chunk).map (·.identity) = chunk.modules :=
    map_identity_recordsOf fun m hm => hsub.subset hm
  refine List.Nodup.map_on ?_ (List.Nodup.of_map (·.identity) (hrecords ▸ hsub.nodup hg.nodup))
  intro r hr r' hr' heq
  have hid : r.identity = r'.identity := by
    refine hnames _ (hrecords ▸ List.mem_map_of_mem hr) _ (hrecords ▸ List.mem_map_of_mem hr') ?_
    exact String.toList_inj.mp (List.append_cancel_left (by
      simpa only [sourceName, String.toList_append] using congrArg String.toList heq))
  exact List.inj_on_of_nodup_map (hrecords ▸ hsub.nodup hg.nodup) hr hr' hid

/-- **WHERE THE LINES OF A SCRIPT CHUNK COME FROM.**  In a build for development every script chunk has
a source map, and only scripts carry their source.  When no two modules of the chunk have one name,
each mapping leads from a line of the text that is written to the same line of the body of the module
that it names, which is a line of its source too; no line is mapped twice; and of every module that
carries its source each line of the body is mapped, as far as the source has lines. -/
theorem execute_maps_lines {write : Bool} (hmode : b.mode = .development)
    (h : (b.execute signal write files).result = .ok o) :
    ∃ g contents, ((b.assemble files).exec signal { mode := b.mode }).1 = .ok (g, o)
      ∧ b.Outputs files g contents o
      ∧ ∀ (k : Nat) (chunk : Chunk), g.split.chunks[k]? = some chunk → chunk.kind = .script →
          (recordsOf g chunk).map (·.identity) = chunk.modules
          ∧ (∀ r ∈ recordsOf g chunk, ∀ source, r.source? = some source →
              ∃ content code imports, files.read r.identity.path = .ok content
                ∧ String.fromUTF8? content = some source ∧ r.artifact = .script code imports)
          ∧ ∃ rendered, contents[k]? = some rendered ∧ o.chunks[k]? = some (emitted chunk rendered)
            ∧ rendered.map? = some (scriptMap g b.root chunk)
            ∧ ((∀ m ∈ chunk.modules, ∀ m' ∈ chunk.modules,
                  Path.moduleId m.path b.root = Path.moduleId m'.path b.root → m = m') →
                MapsLines b.root (recordsOf g chunk) (chunkText chunk rendered)
                  (scriptMap g b.root chunk)) := by
  obtain ⟨g, hmade⟩ := exists_assemble_of_execute h
  have hmakes := makes_of_assemble hmade
  obtain ⟨entries, -, hg⟩ := hmakes.graph
  obtain ⟨contents, ho⟩ := hmakes.exists_outputs
  refine ⟨g, contents, hmade, ho, fun k chunk hk hkind => ?_⟩
  have hchunk : chunk ∈ g.split.chunks := List.mem_of_getElem? hk
  have hmodules : ∀ m ∈ chunk.modules, m ∈ g.order := by
    obtain ⟨i, -, hmodules⟩ := Plan.exists_modulesOf hk
    exact fun m hm => Plan.modulesOf_sublist_order.subset (hmodules ▸ hm)
  obtain ⟨rendered, hrendered, hrenders, hemitted⟩ := ho.exists_text hk
  have heq : rendered = ⟨script g b.root chunk, some (scriptMap g b.root chunk)⟩ := by
    obtain ⟨first, hfirst, hsame⟩ := hrenders
    rw [hmode] at hfirst hsame
    rw [if_neg (by decide)] at hsame
    rw [renderChunk, hkind] at hfirst
    exact hsame.trans (Except.ok.inj hfirst).symm
  subst heq
  refine ⟨map_identity_recordsOf hmodules, fun r hr source hsource => ?_, _, hrendered, hemitted, rfl,
    fun hnames => ?_⟩
  · obtain ⟨m, -, hget⟩ := List.mem_filterMap.mp hr
    exact isScript_of_source (keeps_of_assemble hmade r (ModuleGraph.mem_of_get? hget).1) hsource
  · have htext : chunkText chunk ⟨script g b.root chunk, some (scriptMap g b.root chunk)⟩
        = script g b.root chunk
          ++ ("//# sourceMappingURL=" ++ chunkFile chunk (script g b.root chunk) ++ ".map\n") := by
      simp [chunkText, ← String.toList_inj]
    rw [htext]
    exact mapsLines_script (nodup_sourceNames hg.toWellFormed hchunk hnames) _

/-- A project with one entry. -/
def commentedConfig : Config :=
  { (Graph.projectOf []).config with entrypoints := [("main", "main.js")] }

/-- A script with a comment above its statement, and one that loads it. -/
def commentedTree : FileTree :=
  (Graph.projectOf [("main.js", "import './value';\n1;\n"), ("value.js", "// two\n2;\n")]).files

/-- Both modules have two lines; those of the first begin below its opening line. -/
theorem commented_maps_lines :
    ∃ b g o contents chunk rendered, FirstBuild commentedTree commentedConfig b g o
      ∧ g.split.chunks[0]? = some chunk ∧ chunk.modules = [⟨["value.js"]⟩, ⟨["main.js"]⟩]
      ∧ contents[0]? = some rendered ∧ b.Outputs commentedTree g contents o
      ∧ (scriptMap g b.root chunk).mappings = [⟨2, 0, 0⟩, ⟨3, 0, 1⟩, ⟨6, 1, 0⟩, ⟨7, 1, 1⟩]
      ∧ MapsLines b.root (recordsOf g chunk) (chunkText chunk rendered) (scriptMap g b.root chunk) := by
  obtain ⟨b, g, o, hbuild, hmode, hseen⟩ :
      ∃ b g o, FirstBuild commentedTree commentedConfig b g o ∧ b.mode = .development
        ∧ g.split.chunks[0]?.any (fun chunk => decide (chunk.kind = .script
            ∧ chunk.modules = [⟨["value.js"]⟩, ⟨["main.js"]⟩]
            ∧ Path.moduleId (⟨["value.js"]⟩ : Identity).path b.root
                ≠ Path.moduleId (⟨["main.js"]⟩ : Identity).path b.root
            ∧ (scriptMap g b.root chunk).mappings = [⟨2, 0, 0⟩, ⟨3, 0, 1⟩, ⟨6, 1, 0⟩, ⟨7, 1, 1⟩])) :=
    exists_firstBuild (by decide +kernel)
  obtain ⟨chunk, hchunk, hseen⟩ := (Option.any_eq_true _ _).mp hseen
  obtain ⟨hkind, hmodules, hids, hmappings⟩ := of_decide_eq_true hseen
  obtain ⟨g', contents, hmade, ho, hchunks⟩ := execute_maps_lines hmode hbuild.built
  obtain rfl : g' = g := congrArg Prod.fst (Except.ok.inj (hmade.symm.trans hbuild.assembled))
  obtain ⟨-, -, rendered, hrendered, -, -, hmaps⟩ := hchunks 0 chunk hchunk hkind
  refine ⟨b, g', o, contents, chunk, rendered, hbuild, hchunk, hmodules, hrendered, ho, hmappings,
    hmaps ?_⟩
  rw [hmodules]
  intro m hm m' hm' heq
  simp only [List.mem_cons, List.not_mem_nil, or_false] at hm hm'
  rcases hm with rfl | rfl <;> rcases hm' with rfl | rfl
  · rfl
  · exact absurd heq hids
  · exact absurd heq.symm hids
  · rfl

end Bundler

end AssetBundler
