/-
  AssetBundler.Proofs.Style.Renderings
  ────────────────────────────────
  **ONE STYLESHEET IN TWO FORMS.**

  A stylesheet reaches a page in one of two forms: as text in a stylesheet
  chunk, or as a script that puts the text into the document.  For the first
  the placeholders are replaced by addresses; for the second, in the text in
  double quotes, by the ends of two texts with an expression between them that
  asks for the address.  Both forms are written with the same pieces, so both
  give the text of the source with its addresses put in:

    • `Style.extract_eq` — a stylesheet that has been read, in pieces,
    • `Render.rulesOf_stylesheet`, `Render.infix_stylesheet` — its text in a
      chunk,
    • `Style.applyStyle_eq` — the script, and the sum in it,
    • `Render.renderings_agree` — both forms of one stylesheet.
-/
import AssetBundler.Build.Render
import AssetBundler.Proofs.Build.Phases
import AssetBundler.Proofs.Style.Expression
import AssetBundler.Proofs.Transform.Modes

namespace AssetBundler

open AssetBundler.Text

namespace Style

/-! ## §1. A stylesheet in pieces. -/

/-- The text of a stylesheet without its local import rules. -/
def withoutImports (source : List Char) : List Char :=
  (removeImports 0 source []).css

/-- The pieces of a stylesheet. -/
def sheetPieces (source : List Char) : List Piece :=
  trimPieces (pieces 0 (withoutImports source))

/-- **A stylesheet that has been read** is written with its pieces. -/
theorem extract_eq (source : List Char) :
    (extract source).css = written single (placeholderIn (extract source).imports) (sheetPieces source) := by
  unfold extract
  dsimp only
  rw [replaceUrls_eq]
  exact trim_written _ _

theorem applyCss_eq {input : Artifact} {source : String} (h : input.sourceText = .ok source) :
    Step.applyCss input = .ok (.stylesheet (String.ofList (extract source.toList).css)
      (extract source.toList).imports) := by
  unfold Step.applyCss
  rw [h]
  rfl

/-- The references of a stylesheet are among its imports. -/
theorem mem_imports {source : List Char} {s : String} (h : s ∈ specifiers (sheetPieces source)) :
    ⟨s, .url⟩ ∈ (extract source).imports := by
  unfold extract
  dsimp only
  rw [replaceUrls_eq]
  exact mem_recordAll (specifiers_trimPieces _ s h)

/-- **The text with its addresses**, written with the pieces. -/
theorem trim_withAddresses (url : String → String) (source : List Char) :
    trim (withAddresses url 0 (withoutImports source))
      = written single (fun s => (url s).toList) (sheetPieces source) := by
  rw [withAddresses_eq, trim_written]
  rfl

theorem clean_sheetPieces {source : List Char}
    (hfree : ¬ Placeholder.opening <:+: withoutImports source) :
    Clean Placeholder.opening (sheetPieces source) :=
  (clean_pieces hfree 0).trimPieces

/-- The placeholder of a reference has the index of its import. -/
theorem getElem?_idxOf {imports : List Import} {i : Import} (h : i ∈ imports) :
    imports[imports.idxOf i]? = some i := by
  rw [List.getElem?_eq_getElem (List.idxOf_lt_length_of_mem h), List.getElem_idxOf]

theorem index_lt {source : List Char} (hcount : (extract source).imports.length ≤ UInt64.size)
    {s : String} (h : s ∈ specifiers (sheetPieces source)) :
    (extract source).imports.idxOf ⟨s, .url⟩ < UInt64.size :=
  Nat.lt_of_lt_of_le (List.idxOf_lt_length_of_mem (mem_imports h)) hcount

end Style

/-! ## §2. The text in a chunk. -/

namespace Render

open Style

variable {g : ModuleGraph} {r : ModuleRecord} {source : List Char} {url : String → String}

/-- **The addresses of the files that a stylesheet refers to**: its dependencies are one for each import,
and that of a file reference is an asset with the address of the specifier. -/
def Addresses (g : ModuleGraph) (url : String → String) (imports : List Import)
    (dependencies : List Dependency) : Prop :=
  List.Forall₂ (fun i d => i.kind = .url →
    ∃ file?, g.artifact? d.target = some (.asset (url i.specifier) file?)) imports dependencies

theorem exists_getElem?_of_forall₂ {α β : Type} {R : α → β → Prop} {xs : List α} {ys : List β}
    (h : List.Forall₂ R xs ys) : ∀ {k : Nat} {x : α}, xs[k]? = some x →
      ∃ y, ys[k]? = some y ∧ R x y := by
  induction h with
  | nil =>
      intro k x hx
      cases hx
  | cons hfirst _ ih =>
      intro k x hx
      cases k with
      | zero =>
          cases hx
          exact ⟨_, rfl, hfirst⟩
      | succ k => exact ih hx

theorem addressOf_eq {imports : List Import} (h : Addresses g url imports r.dependencies) {index : Nat}
    {s : String} (hindex : imports[index]? = some ⟨s, .url⟩) :
    addressOf g r index = .ok (url s).toList := by
  obtain ⟨d, hd, htarget⟩ := exists_getElem?_of_forall₂ h hindex
  obtain ⟨file?, hasset⟩ := htarget rfl
  unfold addressOf
  rw [hd]
  dsimp only
  rw [hasset]

/-- **The text of a stylesheet in a chunk** is that of its source with the addresses put in. -/
theorem rulesOf_stylesheet
    (hr : r.artifact = .stylesheet (String.ofList (extract source).css) (extract source).imports)
    (hfree : ¬ Placeholder.opening <:+: withoutImports source)
    (hcount : (extract source).imports.length ≤ UInt64.size)
    (h : Addresses g url (extract source).imports r.dependencies) :
    rulesOf g r = .ok (trim (withAddresses url 0 (withoutImports source))) := by
  have hreplaced : Placeholder.replace (addressOf g r) (extract source).css
      = .ok (written single (fun s => (url s).toList) (sheetPieces source)) := by
    have hall : Placeholder.replaceFrom (addressOf g r) 0
        (written single (placeholderIn (extract source).imports) (sheetPieces source) ++ [])
        = .ok (written single (fun s => (url s).toList) (sheetPieces source) ++ []) :=
      Placeholder.replaceFrom_written Placeholder.escapes_single Placeholder.stops_nil rfl
        (clean_sheetPieces hfree) fun s hs =>
          ⟨_, index_lt hcount hs, rfl, addressOf_eq h (getElem?_idxOf (mem_imports hs))⟩
    rwa [List.append_nil, List.append_nil, ← extract_eq] at hall
  unfold rulesOf
  rw [hr]
  dsimp only
  rw [String.toList_ofList, hreplaced, trim_withAddresses]

theorem infix_intercalate {separator xs : List Char} {xss : List (List Char)} (h : xs ∈ xss) :
    xs <:+: separator.intercalate xss := by
  induction xss with
  | nil => cases h
  | cons first rest ih =>
      cases rest with
      | nil =>
          rw [List.mem_singleton.mp h, List.intercalate_singleton]
      | cons second rest =>
          rw [List.intercalate_cons_cons]
          rcases List.mem_cons.mp h with rfl | h
          · rw [List.append_assoc]
            exact (List.prefix_append _ _).isInfix
          · exact (ih h).trans (List.suffix_append _ _).isInfix

/-- The rules of every module of a chunk are in its text. -/
theorem infix_stylesheet {chunk : Chunk} {code : String} {rules : List Char}
    (hr : r ∈ recordsOf g chunk) (hrules : rulesOf g r = .ok rules)
    (h : stylesheet g chunk = .ok code) : rules <:+: code.toList := by
  unfold stylesheet at h
  obtain ⟨parts, hparts, h⟩ := exists_of_bind_eq_ok h
  obtain ⟨part, hpart, hsame⟩ :=
    exists_mem_right_of_forall₂ (Bundler.forall₂_of_mapM hparts) r hr
  obtain rfl := Except.ok.inj (hsame.symm.trans hrules)
  cases h
  cases part with
  | nil => exact List.nil_infix
  | cons c cs =>
      -- rules that are not empty are one of the texts
      have hmem : c :: cs ∈ ((parts.filter fun text => !text.isEmpty).map String.ofList).map (·.toList) :=
        List.mem_map.mpr ⟨String.ofList (c :: cs),
          List.mem_map_of_mem (List.mem_filter.mpr ⟨hpart, rfl⟩), String.toList_ofList⟩
      have hoccurs := @infix_intercalate "\n".toList _ _ hmem
      rw [String.toList_append]
      refine List.IsInfix.trans ?_ (List.prefix_append _ _).isInfix
      rwa [String.toList_intercalate]

end Render

/-! ## §3. The script. -/

namespace Style

/-- The script of a stylesheet up to the text that it puts into the document. -/
def scriptHead (imports : List Import) : String :=
  String.join (imports.filterMap fun i =>
      if i.kind = .style then some ("require(" ++ quote i.specifier ++ ");\n") else none)
    ++ "var style = document.createElement(\"style\");\nstyle.textContent = "

/-- The script of a stylesheet behind the text. -/
def scriptEnd : String :=
  ";\ndocument.head.appendChild(style);\nmodule.exports = \x7b\x7d;\n"

variable {source : List Char}

/-- In the text in double quotes, every placeholder becomes the export of its file. -/
theorem replace_quotedChars (hfree : ¬ Placeholder.opening <:+: withoutImports source)
    (hcount : (extract source).imports.length ≤ UInt64.size) :
    Placeholder.replace (addressExpression (extract source).imports)
        (quotedChars (extract source).css)
      = .ok ('"' :: (written quotedChar splice (sheetPieces source) ++ ['"'])) := by
  have hquoted : quotedChars (extract source).css
      = ['"'] ++ (written quotedChar (placeholderIn (extract source).imports) (sheetPieces source)
        ++ ['"']) := by
    have hform : (fun s => (placeholderIn (extract source).imports s).flatMap quotedChar)
        = placeholderIn (extract source).imports :=
      funext fun _ => flatMap_quotedChar_text _
    rw [quotedChars, extract_eq, flatMap_quotedChar_written, hform]
    rfl
  have hexpression : ∀ s ∈ specifiers (sheetPieces source),
      addressExpression (extract source).imports ((extract source).imports.idxOf ⟨s, .url⟩)
        = .ok (splice s) := by
    intro s hs
    rw [addressExpression, getElem?_idxOf (mem_imports hs)]
    rfl
  have hall : Placeholder.replaceFrom (addressExpression (extract source).imports) 0
      (written quotedChar (placeholderIn (extract source).imports) (sheetPieces source) ++ ['"'])
      = .ok (written quotedChar splice (sheetPieces source) ++ ['"']) :=
    Placeholder.replaceFrom_written Placeholder.escapes_quotedChar (Placeholder.stops_quote []) rfl
      (clean_sheetPieces hfree) fun s hs => ⟨_, index_lt hcount hs, rfl, hexpression s hs⟩
  have hquote : '_' ∉ ['"'] := by decide
  rw [hquoted, Placeholder.replace, Placeholder.replaceFrom_append hquote, hall]
  rfl

/-- **The script of a stylesheet** puts a sum into the document that stands for the text of the source
with the exports of its files put in. -/
theorem applyStyle_eq (hfree : ¬ Placeholder.opening <:+: withoutImports source)
    (hcount : (extract source).imports.length ≤ UInt64.size) :
    Step.applyStyle (.stylesheet (String.ofList (extract source).css) (extract source).imports)
      = .ok (.script (scriptHead (extract source).imports
            ++ String.ofList ('"' :: (written quotedChar splice (sheetPieces source) ++ ['"']))
            ++ scriptEnd)
          ((extract source).imports.map fun i => ⟨i.specifier, .static⟩)) := by
  unfold Step.applyStyle inject
  dsimp only
  rw [String.toList_ofList, replace_quotedChars hfree hcount]
  rfl

end Style

/-! ## §4. Both forms. -/

namespace Render

open Style

variable {g : ModuleGraph} {r : ModuleRecord} {url : String → String}

/-- **The two forms of a stylesheet agree.** Read from a source without placeholders of its own, and with
an asset for every file that it refers to, its text in a stylesheet chunk is that of the source with the
addresses put in; and its script assigns a sum that stands for the same text, when modules export the
addresses by default. -/
theorem renderings_agree {input : Artifact} {source css : String} {imports : List Import}
    (hsource : input.sourceText = .ok source)
    (hcss : Step.applyCss input = .ok (.stylesheet css imports))
    (hfree : ¬ Placeholder.opening <:+: withoutImports source.toList)
    (hcount : imports.length ≤ UInt64.size)
    (hr : r.artifact = .stylesheet css imports)
    (haddresses : Addresses g url imports r.dependencies) :
    rulesOf g r = .ok (trim (withAddresses url 0 (withoutImports source.toList)))
      ∧ (∀ chunk code, r ∈ recordsOf g chunk → stylesheet g chunk = .ok code →
          trim (withAddresses url 0 (withoutImports source.toList)) <:+: code.toList)
      ∧ ∃ expression : List Char,
          Step.applyStyle (.stylesheet css imports)
            = .ok (.script (scriptHead imports ++ String.ofList expression ++ scriptEnd)
                (imports.map fun i => ⟨i.specifier, .static⟩))
            ∧ Expression.value? url expression
              = some (String.ofList (trim (withAddresses url 0 (withoutImports source.toList)))) := by
  rw [applyCss_eq hsource] at hcss
  injection hcss with hartifact
  injection hartifact with hcss himports
  subst hcss himports
  have hrules := rulesOf_stylesheet hr hfree hcount haddresses
  refine ⟨hrules, fun chunk code hmem hcode => infix_stylesheet hmem hrules hcode, _,
    applyStyle_eq hfree hcount, ?_⟩
  rw [trim_withAddresses]
  exact Expression.value?_spliced url _

/-- A stylesheet with an import rule, a reference, and characters that double quotes escape. -/
def cardSource : String :=
  "@import './b.css';a\x7bb:url('./i.png') \"é\"\x7d\n"

def cardImports : List Import := [⟨"./b.css", .style⟩, ⟨"./i.png", .url⟩]

/-- The record of the stylesheet. -/
def cardRecord : ModuleRecord :=
  ⟨⟨["a.css"]⟩, "css", "", .stylesheet "a\x7bb:url(__weft_url_1__) \"é\"\x7d" cardImports,
    [⟨"./b.css", .style, ⟨["b.css"]⟩⟩, ⟨"./i.png", .url, ⟨["i.png"]⟩⟩], none⟩

/-- The stylesheet with those that it needs. -/
def cardGraph : ModuleGraph :=
  ⟨[⟨⟨["b.css"]⟩, "css", "", .stylesheet "" [], [], none⟩,
    ⟨⟨["i.png"]⟩, "png", "", .asset "/i.5a.png" none, [], none⟩, cardRecord], [], []⟩

theorem card_renderings_agree :
    Step.applyCss (.raw cardSource.toUTF8) = .ok cardRecord.artifact
      ∧ ¬ Placeholder.opening <:+: withoutImports cardSource.toList
      ∧ Addresses cardGraph (fun _ => "/i.5a.png") cardImports cardRecord.dependencies
      ∧ rulesOf cardGraph cardRecord = .ok "a\x7bb:url(/i.5a.png) \"é\"\x7d".toList
      ∧ ∃ expression : List Char,
        Step.applyStyle cardRecord.artifact
          = .ok (.script (scriptHead cardImports ++ String.ofList expression ++ scriptEnd)
              [⟨"./b.css", .static⟩, ⟨"./i.png", .static⟩])
          ∧ Expression.value? (fun _ => "/i.5a.png") expression
            = some "a\x7bb:url(/i.5a.png) \"é\"\x7d" := by
  have hsource : Artifact.sourceText (.raw cardSource.toUTF8) = .ok cardSource := by
    rw [Artifact.sourceText, Utf8.decode_toUTF8]
  have hsheet : (extract cardSource.toList).css = "a\x7bb:url(__weft_url_1__) \"é\"\x7d".toList
      ∧ (extract cardSource.toList).imports = cardImports := by
    decide +kernel
  have hcss : Step.applyCss (.raw cardSource.toUTF8) = .ok cardRecord.artifact := by
    rw [applyCss_eq hsource, hsheet.1, hsheet.2, String.ofList_toList, cardRecord]
  have hfree : ¬ Placeholder.opening <:+: withoutImports cardSource.toList := by
    decide +kernel
  have haddresses : Addresses cardGraph (fun _ => "/i.5a.png") cardImports cardRecord.dependencies :=
    .cons (fun hkind => by cases hkind) (.cons (fun _ => ⟨none, rfl⟩) .nil)
  have htext : trim (withAddresses (fun _ => "/i.5a.png") 0 (withoutImports cardSource.toList))
      = "a\x7bb:url(/i.5a.png) \"é\"\x7d".toList := by
    decide +kernel
  obtain ⟨hrules, _, expression, hscript, hvalue⟩ :=
    renderings_agree hsource hcss hfree (by decide) rfl haddresses
  rw [htext] at hrules hvalue
  rw [String.ofList_toList] at hvalue
  exact ⟨hcss, hfree, haddresses, hrules, expression, hscript, hvalue⟩

end Render

end AssetBundler
