/-
  AssetBundler.Proofs.Page.Runtime
  ────────────────────────────────
  **THE DATA IN THE RUNTIME.**

  The inline script of the page has a map of deferred modules and a list of
  addresses as literals.  They are put into a template at two marks, first the
  map and then the list, and the script is put into the page as it stands.  So
  a name with the mark of the list lets the list be put into the map, and a
  name with the beginning of a closing tag ends the script; nothing else is
  lost but a member `__proto__`, which no object has as its own:

    • `Page.spells_chunkMap` — the literal of the map, read back,
    • `Page.runtimeTemplate_toList` — the template and its two places,
    • `Page.occursIff_chunkMapText` — what occurs in the map,
    • `Page.runtime_toList` — the list in its place,
    • `Page.endsScript_runtime_iff` — when the script would end,
    • `Page.runtime_has_data` — the data in the runtime.
-/
import AssetBundler.Build.Page
import AssetBundler.Proofs.Config.TextMap
import AssetBundler.Proofs.Script.Literal
import AssetBundler.Proofs.Text.Quoted

namespace AssetBundler

open AssetBundler.Text AssetBundler.Text.Scan

namespace Page

open Script Script.Literal

/-! ## §1. The literals. -/

/-- The files of a deferred module. -/
def filesObject : Scan DeferredFiles := do
  match own (← object (array string)) with
  | [("css", css), ("js", js)] => return { js, css }
  | _ => fail

/-- A map of deferred modules. -/
def chunkMapObject : Scan (TextMap DeferredFiles) := do
  return own (← object filesObject)

/-- A quoted text in a list of characters. -/
def quotedText (s : String) : List Char :=
  (quote s).toList

/-- An array of quoted texts. -/
def arrayText (texts : List String) : List Char :=
  '[' :: (separated (texts.map quotedText) ++ [']'])

theorem arrayLiteral_toList (texts : List String) :
    (arrayLiteral texts).toList = arrayText texts := by
  have hopening : "[".toList = ['['] := rfl
  have hclosing : "]".toList = [']'] := rfl
  have hquoted : (texts.map quote).map String.toList = texts.map quotedText := List.map_map
  rw [arrayLiteral, String.toList_append, String.toList_append, String.toList_intercalate, hquoted,
    hopening, hclosing, List.append_assoc]
  rfl

/-- The members of the files of a module. -/
def fileMembers (files : DeferredFiles) : List (String × List String) :=
  [("js", files.js), ("css", files.css)]

/-- A member with addresses. -/
def memberText (entry : String × List String) : List Char :=
  entry.1.toList ++ ':' :: ' ' :: arrayText entry.2

/-- The files of a module as an object. -/
def filesText (files : DeferredFiles) : List Char :=
  '\x7b' :: (List.replicate 1 ' '
    ++ (separated ((fileMembers files).map memberText) ++ (List.replicate 1 ' ' ++ ['\x7d'])))

/-- A module with its files. -/
def entryText (entry : String × DeferredFiles) : List Char :=
  quotedText entry.1 ++ ':' :: ' ' :: filesText entry.2

/-- A map as an object. -/
def chunkMapText (chunkMap : TextMap DeferredFiles) : List Char :=
  '\x7b' :: (List.replicate 0 ' '
    ++ (separated (chunkMap.map entryText) ++ (List.replicate 0 ' ' ++ ['\x7d'])))

theorem filesText_eq (files : DeferredFiles) :
    filesText files = "\x7b js: ".toList ++ (arrayText files.js ++ (", css: ".toList
      ++ (arrayText files.css ++ " \x7d".toList))) := by
  simp [filesText, fileMembers, memberText, separated_cons_cons]
  simp [separated]

theorem entry_toList (e : String × DeferredFiles) :
    (quote e.1 ++ ": \x7b js: " ++ arrayLiteral e.2.js ++ ", css: " ++ arrayLiteral e.2.css
      ++ " \x7d").toList = entryText e := by
  have hfirst : ": \x7b js: ".toList = ':' :: ' ' :: "\x7b js: ".toList := rfl
  rw [entryText, filesText_eq, quotedText]
  simp only [String.toList_append, arrayLiteral_toList, hfirst, List.append_assoc, List.cons_append]

theorem chunkMapLiteral_toList (chunkMap : TextMap DeferredFiles) :
    (chunkMapLiteral chunkMap).toList = chunkMapText chunkMap := by
  have hopening : "\x7b".toList = ['\x7b'] := rfl
  have hclosing : "\x7d".toList = ['\x7d'] := rfl
  have hentries := List.map_congr_left fun (e : String × DeferredFiles) (_ : e ∈ chunkMap) =>
    entry_toList e
  rw [chunkMapLiteral, String.toList_append, String.toList_append, String.toList_intercalate,
    List.map_map, hopening, hclosing, List.append_assoc]
  exact congrArg (fun entries => ['\x7b'] ++ (", ".toList.intercalate entries ++ ['\x7d'])) hentries

/-! ## §2. What they stand for. -/

theorem own_fileMembers (files : DeferredFiles) :
    own (fileMembers files) = [("css", files.css), ("js", files.js)] := by
  have hless : "css" < "js" := by decide
  simp [own, fileMembers, TextMap.ofList, TextMap.insert, hless]

/-- **The files of a module** are read back. -/
theorem spells_files (files : DeferredFiles) : Spells filesObject (filesText files) files := by
  have hmembers : ∀ e ∈ fileMembers files, Spells (member (array string)) (memberText e) (id e) := by
    intro e he
    rcases List.mem_cons.mp he with rfl | he
    · exact spells_member names_js (spells_texts files.js)
    · rw [List.mem_singleton.mp he]
      exact spells_member names_css (spells_texts files.css)
  intro count rest
  have hobject := spells_object hmembers 1 count rest
  rw [List.map_id] at hobject
  unfold filesObject
  rw [filesText, bind_of_eq hobject, own_fileMembers]
  rfl

/-- **The map** is read back, but for a member `__proto__`. -/
theorem spells_chunkMap {chunkMap : TextMap DeferredFiles}
    (h : (chunkMap.map (·.1)).Pairwise (· < ·)) :
    Spells chunkMapObject (chunkMapText chunkMap) (chunkMap.filter fun e => e.1 != "__proto__") := by
  have hmembers : ∀ e ∈ chunkMap, Spells (member filesObject) (entryText e) (id e) :=
    fun e _ => spells_member (names_quote e.1) (spells_files e.2)
  intro count rest
  have hobject := spells_object hmembers 0 count rest
  rw [List.map_id] at hobject
  unfold chunkMapObject
  rw [chunkMapText, bind_of_eq hobject, pure_apply, own_eq_filter h]

/-! ## §3. The template. -/

/-- The template up to the map. -/
def templateStart : String :=
  "(function () \x7b\n  var modules = self.__weft_modules__ = self.__weft_modules__ || \x7b\x7d;\n  var chunks = self.__weft_chunks__ = "

/-- The template between the map and the list. -/
def templateMiddle : String :=
  ";\n  var cache = \x7b\x7d;\n  var loading = \x7b\x7d;\n\n  "

theorem lines_toList (texts : List String) :
    (lines texts).toList = texts.flatMap fun s => s.toList ++ ['\n'] := by
  induction texts with
  | nil => rfl
  | cons s texts ih =>
      have hbreak : "\n".toList = ['\n'] := rfl
      rw [List.flatMap_cons, ← ih, ← hbreak, ← String.toList_append, ← String.toList_append]
      congr 1
      simp [lines, String.join_cons]

/-- A character that begins no tag and stands in neither mark. -/
def isPlain (c : Char) : Bool :=
  asciiLower c != '<' && c != 'W'

theorem notMem_of_isPlain {text : List Char} (h : text.all isPlain = true) :
    '<' ∉ text.map asciiLower ∧ 'W' ∉ text := by
  constructor
  · intro hmem
    obtain ⟨c, hc, hlower⟩ := List.mem_map.mp hmem
    have hplain := List.all_eq_true.mp h c hc
    rw [isPlain, hlower] at hplain
    cases hplain
  · intro hmem
    cases List.all_eq_true.mp h 'W' hmem

/-- The parts of the template before the places have no mark and no tag, and end with a blank. -/
theorem parts_plain : ∀ part ∈ [templateStart, templateMiddle],
    part.toList.all isPlain = true ∧ part.toList.getLast? = some ' ' := by
  rw [templateStart, templateMiddle, List.forall_mem_cons, List.forall_mem_singleton]
  repeat rw [String.toList_ofList]
  decide

/-- A mark does not begin in these parts. -/
theorem occursIff_part {part : String} {mark : List Char} (hpart : part ∈ [templateStart, templateMiddle])
    (hletter : 'W' ∈ mark) (hblank : ' ' ∉ mark) : OccursIff id mark part.toList False := by
  obtain ⟨hplain, hlast⟩ := parts_plain part hpart
  refine occursIff_of_getLast? hlast hblank fun hoccurs => ?_
  rw [List.map_id] at hoccurs
  exact (notMem_of_isPlain hplain).2 (hoccurs.subset hletter)

/-- **The template and its two places.** Behind them there is no mark and no tag. -/
theorem runtimeTemplate_toList : ∃ rest : List Char, rest.all isPlain = true ∧
    runtimeTemplate.toList = templateStart.toList ++ chunkMapMark.toList
      ++ (templateMiddle.toList ++ (initialMark.toList ++ (".forEach".toList ++ '(' :: rest))) := by
  obtain ⟨others, hothers, hplain⟩ : ∃ others, runtimeTemplate = lines ("(function () \x7b"
    :: "  var modules = self.__weft_modules__ = self.__weft_modules__ || \x7b\x7d;"
    :: "  var chunks = self.__weft_chunks__ = __WEFT_CHUNK_MAP__;"
    :: "  var cache = \x7b\x7d;" :: "  var loading = \x7b\x7d;" :: ""
    :: "  __WEFT_INITIAL__.forEach(function (url) \x7b" :: others)
    ∧ (others.all fun s => s.toList.all isPlain) = true := by
    refine ⟨_, rfl, ?_⟩
    simp only [List.all_cons, List.all_nil]
    repeat rw [String.toList_ofList]
    decide
  refine ⟨"function (url) \x7b".toList ++ '\n' :: (lines others).toList, ?_, ?_⟩
  · have hfirst : "function (url) \x7b".toList.all isPlain = true := by
      rw [String.toList_ofList]
      decide
    have hlines : (lines others).toList.all isPlain = true := by
      rw [lines_toList, List.all_flatMap]
      refine List.all_eq_true.mpr fun s hs => ?_
      rw [List.all_append, List.all_eq_true.mp hplain s hs]
      rfl
    rw [List.all_append, List.all_cons, hfirst, hlines]
    rfl
  · rw [hothers]
    simp only [lines_toList, List.flatMap_cons, templateStart, templateMiddle, chunkMapMark, initialMark]
    repeat rw [String.toList_ofList]
    simp only [List.cons_append, List.nil_append]

/-! ## §4. Occurrences in the literals. -/

/-- The names and addresses of a map. -/
def texts (chunkMap : TextMap DeferredFiles) : List String :=
  chunkMap.flatMap fun e => e.1 :: (e.2.js ++ e.2.css)

/-- The characters of the literals outside of their texts. -/
def glue : List Char :=
  "\x7b\x7d[]:, jsc".toList

section

variable {fold : Char → Char} {p : Char} {pattern : List Char}

theorem occursIff_glue (hp : p ∉ glue.map fold) {xs : List Char} (hxs : xs ⊆ glue) :
    OccursIff fold (p :: pattern) xs False :=
  occursIff_of_head fun hmem => hp (List.map_subset fold hxs hmem)

theorem occursIff_separated {α : Type} (hp : p ∉ glue.map fold) {spelling : α → List Char} {R : α → Prop}
    {as : List α} (h : ∀ a ∈ as, OccursIff fold (p :: pattern) (spelling a) (R a)) :
    OccursIff fold (p :: pattern) (separated (as.map spelling)) (∃ a ∈ as, R a) := by
  have hcomma : p ∉ ", ".toList.map fold := fun hmem =>
    hp (List.map_subset fold (by decide) hmem)
  exact occursIff_intercalate hcomma as h

theorem occursIff_items (hkept : KeptByQuoting fold p pattern) (hp : p ∉ glue.map fold)
    (texts : List String) :
    OccursIff fold (p :: pattern) (separated (texts.map quotedText) ++ [']'])
      (∃ s ∈ texts, p :: pattern <:+: s.toList.map fold) := by
  have hitems := occursIff_separated hp fun s (_ : s ∈ texts) => occursIff_quote hkept s
  have hclosing := @occursIff_glue fold p pattern hp [']'] (by decide)
  exact (hitems.append hclosing).congr (by rw [or_false])

theorem occursIff_arrayText (hkept : KeptByQuoting fold p pattern) (hp : p ∉ glue.map fold)
    (texts : List String) : OccursIff fold (p :: pattern) (arrayText texts)
      (∃ s ∈ texts, p :: pattern <:+: s.toList.map fold) := by
  have hopening := @occursIff_glue fold p pattern hp ['['] (by decide)
  exact (hopening.append (occursIff_items hkept hp texts)).congr (by rw [false_or])

theorem occursIff_filesText (hkept : KeptByQuoting fold p pattern) (hp : p ∉ glue.map fold)
    (files : DeferredFiles) : OccursIff fold (p :: pattern) (filesText files)
      (∃ s ∈ files.js ++ files.css, p :: pattern <:+: s.toList.map fold) := by
  have hjs := occursIff_arrayText hkept hp files.js
  have hcss := occursIff_arrayText hkept hp files.css
  have hopening := @occursIff_glue fold p pattern hp "\x7b js: ".toList (by decide)
  have hbetween := @occursIff_glue fold p pattern hp ", css: ".toList (by decide)
  have hclosing := @occursIff_glue fold p pattern hp " \x7d".toList (by decide)
  rw [filesText_eq]
  refine (hopening.append (hjs.append (hbetween.append (hcss.append hclosing)))).congr ?_
  simp only [false_or, or_false, List.mem_append, or_and_right, exists_or]

theorem occursIff_entryText (hkept : KeptByQuoting fold p pattern) (hp : p ∉ glue.map fold)
    (e : String × DeferredFiles) : OccursIff fold (p :: pattern) (entryText e)
      (∃ s ∈ e.1 :: (e.2.js ++ e.2.css), p :: pattern <:+: s.toList.map fold) := by
  have hkey := occursIff_quote hkept e.1
  have hcolon := @occursIff_glue fold p pattern hp [':', ' '] (by decide)
  have hfiles := occursIff_filesText hkept hp e.2
  refine (hkey.append (hcolon.append hfiles)).congr ?_
  rw [false_or]
  exact (List.exists_mem_cons_iff (fun s => p :: pattern <:+: s.toList.map fold) e.1 _).symm

/-- **A pattern occurs in the map** just where it occurs in a name or an address. -/
theorem occursIff_chunkMapText (hkept : KeptByQuoting fold p pattern) (hp : p ∉ glue.map fold)
    (chunkMap : TextMap DeferredFiles) : OccursIff fold (p :: pattern) (chunkMapText chunkMap)
      (∃ s ∈ texts chunkMap, p :: pattern <:+: s.toList.map fold) := by
  have hitems := occursIff_separated hp fun e (_ : e ∈ chunkMap) => occursIff_entryText hkept hp e
  have hopening := @occursIff_glue fold p pattern hp ['\x7b'] (by decide)
  have hclosing := @occursIff_glue fold p pattern hp ['\x7d'] (by decide)
  refine (hopening.append (hitems.append hclosing)).congr ?_
  rw [false_or, or_false]
  simp only [texts, List.mem_flatMap]
  constructor
  · rintro ⟨e, he, s, hs, hoccurs⟩
    exact ⟨s, ⟨e, he, hs⟩, hoccurs⟩
  · rintro ⟨s, ⟨e, he, hs⟩, hoccurs⟩
    exact ⟨e, he, s, hs, hoccurs⟩

end

/-- The mark of the list stands in no escape. -/
theorem kept_initialMark : KeptByQuoting id '_' "_WEFT_INITIAL__".toList :=
  ⟨by decide, by decide, by decide⟩

/-- What ends an inline script stands in no escape. -/
theorem kept_scriptEnd : KeptByQuoting asciiLower '<' "/script".toList :=
  ⟨by decide, by decide, by decide⟩

/-! ## §5. The runtime. -/

/-- The literals of a runtime: what is assigned to `self.__weft_chunks__`, and what stands before
`.forEach`. -/
def embedded : Scan (TextMap DeferredFiles × List String) := do
  expectText templateStart
  let chunks ← chunkMapObject
  expectText templateMiddle
  let initial ← array string
  expectText ".forEach("
  return (chunks, initial)

/-- The data in a runtime. -/
def data? (runtime : String) : Option (TextMap DeferredFiles × List String) :=
  (embedded runtime.toList).map (·.1)

/-- The text would end an inline script: it has the beginning of its closing tag, in any case. -/
def endsScript (text : String) : Bool :=
  contains "</script".toList (text.toList.map asciiLower)

theorem endsScript_iff {text : String} :
    endsScript text = true ↔ '<' :: "/script".toList <:+: text.toList.map asciiLower := by
  have hend : "</script".toList = '<' :: "/script".toList := rfl
  rw [endsScript, contains_iff, hend]

/-- The text has the mark of the list. -/
def hasInitialMark (text : String) : Bool :=
  contains initialMark.toList text.toList

/-- A mark that occurs once is replaced there. -/
theorem fill_toList {mark value text : String} {xs ys : List Char} (hmark : mark.toList ≠ [])
    (htext : text.toList = xs ++ mark.toList ++ ys) (hxs : FirstBehind mark.toList xs)
    (hys : ¬ mark.toList <:+: ys) : (fill mark value text).toList = xs ++ value.toList ++ ys := by
  rw [fill, String.toList_ofList, htext, replaceAll_append hmark hxs, replaceAll_eq_self hys]

theorem initialMark_toList : initialMark.toList = '_' :: "_WEFT_INITIAL__".toList := by
  rw [initialMark, String.toList_ofList, String.toList_ofList]

/-- The mark of the map occurs nowhere else in the template. -/
theorem chunkMapMark_once {rest : List Char} (hrest : 'W' ∉ rest) :
    FirstBehind chunkMapMark.toList templateStart.toList ∧
    ¬ chunkMapMark.toList
      <:+: templateMiddle.toList ++ (initialMark.toList ++ (".forEach".toList ++ '(' :: rest)) := by
  have hmark : chunkMapMark.toList = "__WEFT_CHUNK_MAP__".toList := rfl
  have hletter : 'W' ∈ chunkMapMark.toList := hmark ▸ by decide
  have hblank : ' ' ∉ chunkMapMark.toList := hmark ▸ by decide
  have hparen : '(' ∉ chunkMapMark.toList := hmark ▸ by decide
  have hpart {part : String} (h : part ∈ [templateStart, templateMiddle]) :
      OccursIff id chunkMapMark.toList part.toList False :=
    occursIff_part h hletter hblank
  refine ⟨(hpart (by simp)).firstBehind (List.ne_nil_of_mem hletter) not_false, ?_⟩
  have hfixed : ¬ chunkMapMark.toList <:+: initialMark.toList ++ ".forEach".toList := by
    refine not_infix_of_contains ?_
    rw [initialMark_toList, hmark]
    decide
  have hmiddle := @hpart templateMiddle (by simp) (initialMark.toList ++ (".forEach".toList ++ '(' :: rest))
  rw [List.map_id, List.map_id, false_or] at hmiddle
  rw [hmiddle, ← List.append_assoc, infix_append_cons_iff hparen, not_or]
  exact ⟨hfixed, fun hoccurs => hrest (hoccurs.subset hletter)⟩

/-- The template with the map put in. -/
def withMap (chunkMap : TextMap DeferredFiles) : String :=
  fill chunkMapMark (chunkMapLiteral chunkMap) runtimeTemplate

/-- **The map is put in**, whatever texts it has; the place of the list is still open behind it. -/
theorem withMap_toList (chunkMap : TextMap DeferredFiles) :
    ∃ rest : List Char, '<' ∉ rest.map asciiLower ∧ 'W' ∉ rest ∧ (withMap chunkMap).toList
      = templateStart.toList ++ (chunkMapText chunkMap ++ (templateMiddle.toList
        ++ (initialMark.toList ++ (".forEach".toList ++ '(' :: rest)))) := by
  obtain ⟨rest, hrest, htemplate⟩ := runtimeTemplate_toList
  obtain ⟨hless, hletter⟩ := notMem_of_isPlain hrest
  have hne : chunkMapMark.toList ≠ [] := by
    rw [chunkMapMark, String.toList_ofList]
    exact List.cons_ne_nil _ _
  obtain ⟨hfirst, honce⟩ := chunkMapMark_once hletter
  have hmap := @fill_toList chunkMapMark (chunkMapLiteral chunkMap) _ _ _ hne htemplate hfirst honce
  refine ⟨rest, hless, hletter, ?_⟩
  rw [withMap, hmap, chunkMapLiteral_toList]
  simp only [List.append_assoc]

/-- **The mark of the list** occurs nowhere before its place when no text of the map has it. -/
theorem initialMark_first {chunkMap : TextMap DeferredFiles}
    (hmark : ∀ s ∈ texts chunkMap, hasInitialMark s = false) :
    FirstBehind initialMark.toList
      (templateStart.toList ++ (chunkMapText chunkMap ++ templateMiddle.toList)) := by
  have hletter : 'W' ∈ initialMark.toList := initialMark_toList ▸ by decide
  have hblank : ' ' ∉ initialMark.toList := initialMark_toList ▸ by decide
  have hstart := @occursIff_part templateStart _ (by simp) hletter hblank
  have hmiddle := @occursIff_part templateMiddle _ (by simp) hletter hblank
  have hmap := occursIff_chunkMapText kept_initialMark (by decide) chunkMap
  rw [← initialMark_toList] at hmap
  have hnone : ¬ ∃ s ∈ texts chunkMap, initialMark.toList <:+: s.toList.map id := by
    rintro ⟨s, hs, hoccurs⟩
    rw [List.map_id] at hoccurs
    exact not_infix_of_contains (hmark s hs) hoccurs
  have hwhole := hstart.append (hmap.append hmiddle)
  exact hwhole.firstBehind (initialMark_toList ▸ List.cons_ne_nil _ _) (by simpa using hnone)

/-- **The list is put in its place** when no text of the map has its mark. -/
theorem runtime_toList {chunkMap : TextMap DeferredFiles}
    (hmark : ∀ s ∈ texts chunkMap, hasInitialMark s = false) (initial : List String) :
    ∃ rest : List Char, (runtime chunkMap initial).toList
      = templateStart.toList ++ (chunkMapText chunkMap ++ (templateMiddle.toList
        ++ (arrayText initial ++ (".forEach(".toList ++ rest)))) := by
  obtain ⟨rest, -, hletter, htext⟩ := withMap_toList chunkMap
  have hbehind : ¬ initialMark.toList <:+: ".forEach".toList ++ '(' :: rest := by
    have hmem : 'W' ∈ initialMark.toList := initialMark_toList ▸ by decide
    have hnone : 'W' ∉ ".forEach".toList ++ '(' :: rest := by simpa using hletter
    exact fun hoccurs => hnone (hoccurs.subset hmem)
  have hshape : (withMap chunkMap).toList
      = templateStart.toList ++ (chunkMapText chunkMap ++ templateMiddle.toList)
        ++ initialMark.toList ++ (".forEach".toList ++ '(' :: rest) := by
    rw [htext]
    simp only [List.append_assoc]
  have hlist := @fill_toList initialMark (arrayLiteral initial) _ _ _
    (initialMark_toList ▸ List.cons_ne_nil _ _) hshape (initialMark_first hmark) hbehind
  have hforEach : ".forEach".toList ++ '(' :: rest = ".forEach(".toList ++ rest := rfl
  refine ⟨rest, ?_⟩
  rw [runtime, ← withMap, hlist, arrayLiteral_toList, hforEach]
  simp only [List.append_assoc]

theorem embedded_apply {chunkMap : TextMap DeferredFiles}
    (hkeys : (chunkMap.map (·.1)).Pairwise (· < ·)) (initial : List String) (rest : List Char) :
    embedded (templateStart.toList ++ (chunkMapText chunkMap ++ (templateMiddle.toList
        ++ (arrayText initial ++ (".forEach(".toList ++ rest)))))
      = some ((chunkMap.filter (fun e => e.1 != "__proto__"), initial), rest) := by
  have hmap (behind : List Char) : chunkMapObject (chunkMapText chunkMap ++ behind)
      = some (chunkMap.filter (fun e => e.1 != "__proto__"), behind) :=
    spells_chunkMap hkeys 0 behind
  have hlist (behind : List Char) : array string (arrayText initial ++ behind) = some (initial, behind) :=
    spells_texts initial 0 behind
  unfold embedded
  rw [bind_of_eq (expectText_append ..), bind_of_eq (hmap _), bind_of_eq (expectText_append ..),
    bind_of_eq (hlist _), bind_of_eq (expectText_append ..), pure_apply]

theorem data?_runtime {chunkMap : TextMap DeferredFiles}
    (hkeys : (chunkMap.map (·.1)).Pairwise (· < ·))
    (hmark : ∀ s ∈ texts chunkMap, hasInitialMark s = false) (initial : List String) :
    data? (runtime chunkMap initial)
      = some (chunkMap.filter (fun e => e.1 != "__proto__"), initial) := by
  obtain ⟨rest, hruntime⟩ := runtime_toList hmark initial
  rw [data?, hruntime, embedded_apply hkeys, Option.map_some]

/-- The template has no tags. -/
theorem occursIff_template {rest : List Char} (hless : '<' ∉ rest.map asciiLower) :
    OccursIff asciiLower ('<' :: "/script".toList) templateStart.toList False ∧
    OccursIff asciiLower ('<' :: "/script".toList) (templateMiddle.toList
      ++ (initialMark.toList ++ (".forEach".toList ++ '(' :: rest))) False := by
  have hpart {part : String} (h : part ∈ [templateStart, templateMiddle]) :
      '<' ∉ part.toList.map asciiLower :=
    (notMem_of_isPlain (parts_plain part h).1).1
  have hplace : '<' ∉ (initialMark.toList ++ ".forEach".toList).map asciiLower :=
    initialMark_toList ▸ by decide
  have hrest : '<' ∉ ('(' :: rest).map asciiLower := by
    rw [List.map_cons, List.mem_cons, not_or]
    exact ⟨by decide, hless⟩
  refine ⟨occursIff_of_head (hpart (by simp)), occursIff_of_head ?_⟩
  rw [List.map_append, List.mem_append, not_or, ← List.append_assoc, List.map_append, List.mem_append,
    not_or]
  exact ⟨hpart (by simp), hplace, hrest⟩

/-- **The runtime would end its script** just where a text in it would. -/
theorem endsScript_runtime_iff (chunkMap : TextMap DeferredFiles) (initial : List String) :
    endsScript (runtime chunkMap initial) = true
      ↔ ∃ s ∈ texts chunkMap ++ initial, endsScript s = true := by
  obtain ⟨rest, hless, -, htext⟩ := withMap_toList chunkMap
  obtain ⟨hstart, hbehind⟩ := occursIff_template hless
  have hmap := occursIff_chunkMapText kept_scriptEnd (by decide) chunkMap
  have hwith := (hstart.append (hmap.append hbehind)).infix_iff (List.cons_ne_nil _ _)
  rw [← htext, false_or, or_false] at hwith
  -- the place of the list is there, whatever other occurrences its mark has
  have hplace : '_' :: "_WEFT_INITIAL__".toList <:+: (withMap chunkMap).toList := by
    rw [htext, ← initialMark_toList]
    exact ⟨templateStart.toList ++ (chunkMapText chunkMap ++ templateMiddle.toList),
      ".forEach".toList ++ '(' :: rest, by simp only [List.append_assoc]⟩
  have hitems := occursIff_items kept_scriptEnd (by decide) initial
  have hreplaced := @infix_replaceAll_iff _ _ asciiLower _ '_' '[' "_WEFT_INITIAL__".toList _
    (by decide) (by decide) (by decide) hitems (withMap chunkMap).toList
  have hruntime : (runtime chunkMap initial).toList
      = replaceAll ('_' :: "_WEFT_INITIAL__".toList) (arrayText initial) (withMap chunkMap).toList := by
    rw [runtime, ← withMap, fill, String.toList_ofList, initialMark_toList, arrayLiteral_toList]
  simp only [endsScript_iff]
  rw [hruntime, arrayText, hreplaced, hwith, and_iff_right hplace]
  simp only [List.mem_append, or_and_right, exists_or]

/-- **The data in the runtime.** When no name and no address of the map has the mark of the list, the
runtime has the map, but for a module `__proto__`, and the list; and it would end the script that it stands
in just where a name or an address would. -/
theorem runtime_has_data {chunkMap : TextMap DeferredFiles}
    (hkeys : (chunkMap.map (·.1)).Pairwise (· < ·)) (initial : List String) :
    ((∀ s ∈ texts chunkMap, hasInitialMark s = false) →
      data? (runtime chunkMap initial)
        = some (chunkMap.filter (fun e => e.1 != "__proto__"), initial)) ∧
    (endsScript (runtime chunkMap initial) = true
      ↔ ∃ s ∈ texts chunkMap ++ initial, endsScript s = true) :=
  ⟨fun hmark => data?_runtime hkeys hmark initial, endsScript_runtime_iff chunkMap initial⟩

/-- A map with characters that quoting escapes and with the mark of the map. -/
def twistedMap : TextMap DeferredFiles :=
  [("a\"\\\n.js", { js := ["/__WEFT_CHUNK_MAP__.js"], css := ["/</style>.css"] })]

/-- It is read back, together with an address that has the mark of the list. -/
theorem twistedMap_is_data : data? (runtime twistedMap ["/__WEFT_INITIAL__.js"])
      = some (twistedMap, ["/__WEFT_INITIAL__.js"]) ∧
    endsScript (runtime twistedMap ["/__WEFT_INITIAL__.js"]) = false := by
  have hkeys : (twistedMap.map (·.1)).Pairwise (· < ·) := List.pairwise_singleton _ _
  have hmark : ∀ s ∈ texts twistedMap, hasInitialMark s = false := by decide
  have hends : ¬ ∃ s ∈ texts twistedMap ++ ["/__WEFT_INITIAL__.js"], endsScript s = true := by
    decide
  obtain ⟨hdata, hscript⟩ := runtime_has_data hkeys ["/__WEFT_INITIAL__.js"]
  exact ⟨hdata hmark, Bool.eq_false_iff.mpr fun h => hends (hscript.mp h)⟩

/-- A module whose name has the mark of the list. -/
def markedMap : TextMap DeferredFiles :=
  [("__WEFT_INITIAL__.js", { js := ["/a.js"] })]

/-- A module whose name has the beginning of a closing tag. -/
def closingMap : TextMap DeferredFiles :=
  [("</script.js", { js := ["/a.js"] })]

/-- A module whose name is no name of a member. -/
def protoMap : TextMap DeferredFiles :=
  [("__proto__", { js := ["/a.js"] })]

/-- A list in a name ends the name with its first quote. -/
theorem markedMap_unreadable : data? (runtime markedMap ["/m.js"]) = none := by
  obtain ⟨rest, -, -, htext⟩ := withMap_toList markedMap
  obtain ⟨behind, hbehind⟩ : ∃ behind, chunkMapText markedMap
      = ['\x7b', '"'] ++ initialMark.toList ++ behind := ⟨_, rfl⟩
  have hfirst : FirstBehind initialMark.toList (templateStart.toList ++ ['\x7b', '"']) := by
    rw [initialMark_toList]
    have hstart := @occursIff_part templateStart ('_' :: "_WEFT_INITIAL__".toList) (by simp) (by decide)
      (by decide)
    have hname := @occursIff_of_head "_WEFT_INITIAL__".toList ['\x7b', '"'] '_' id (by decide)
    exact (hstart.append hname).firstBehind (List.cons_ne_nil _ _) (by simp)
  obtain ⟨tail, hshape⟩ : ∃ tail, (withMap markedMap).toList
      = templateStart.toList ++ ['\x7b', '"'] ++ initialMark.toList ++ tail := by
    refine ⟨behind ++ (templateMiddle.toList
      ++ (initialMark.toList ++ (".forEach".toList ++ '(' :: rest))), ?_⟩
    rw [htext, hbehind]
    simp only [List.append_assoc]
  have harray : arrayText ["/m.js"] = '[' :: '"' :: '/' :: 'm' :: ".js\"]".toList := by decide
  have hruntime : (runtime markedMap ["/m.js"]).toList = templateStart.toList ++ ('\x7b' :: '"' :: '['
      :: '"' :: '/' :: 'm' :: (".js\"]".toList
        ++ replaceAll initialMark.toList (arrayText ["/m.js"]) tail)) := by
    rw [runtime, ← withMap, fill, String.toList_ofList, hshape, arrayLiteral_toList,
      replaceAll_append (initialMark_toList ▸ List.cons_ne_nil _ _) hfirst]
    simp only [harray, List.append_assoc, List.cons_append, List.nil_append]
  have hmap (others : List Char) :
      chunkMapObject ('\x7b' :: '"' :: '[' :: '"' :: '/' :: 'm' :: others) = none := rfl
  rw [data?, hruntime, embedded, bind_of_eq (expectText_append ..), bind_apply, hmap,
    Option.bind_none, Option.map_none]

/-- **Names that the runtime does not keep.** Of the first nothing is read back, the second ends the
script, and the third is no member. -/
theorem names_get_lost : data? (runtime markedMap ["/m.js"]) = none ∧
    endsScript (runtime closingMap ["/m.js"]) = true ∧
    data? (runtime protoMap ["/m.js"]) = some ([], ["/m.js"]) := by
  have hends : ∃ s ∈ texts closingMap ++ ["/m.js"], endsScript s = true := by decide
  have hkeys : (protoMap.map (·.1)).Pairwise (· < ·) := List.pairwise_singleton _ _
  have hmark : ∀ s ∈ texts protoMap, hasInitialMark s = false := by decide
  exact ⟨markedMap_unreadable, (endsScript_runtime_iff closingMap _).mpr hends,
    data?_runtime hkeys hmark ["/m.js"]⟩

end Page

end AssetBundler
