/-
  AssetBundler.Proofs.Serve.ErrorPage
  ────────────────────────────────
  **THE PAGE FOR FAILURES.**

  The page shows a message as the content of an element.  The message is
  written with entities, so no character of it begins or ends a tag: the
  element ends where the page ends it, and the closing tag before which the
  script is put is the page's own.

    • `Html.insertBefore_append` — a snippet before the last place of a tag,
    • `Client.unescape_escape` — the entities stand for the message,
    • `Client.errorPage_shows_message` — the element, and the script.
-/
import AssetBundler.Proofs.Page.Runtime
import AssetBundler.Serve.Client

namespace AssetBundler

open AssetBundler.Text

/-! ## §1. Elements of pages. -/

namespace Html

variable {tag before after text behind : List Char}

/-- What stands before the last place of a tag does not matter. -/
theorem cutAtLast?_append (h : cutAtLast? tag text = some (before, after)) (xs : List Char) :
    cutAtLast? tag (xs ++ text) = some (xs ++ before, after) := by
  induction xs with
  | nil => exact h
  | cons c xs ih => rw [List.cons_append, cutAtLast?, ih, List.cons_append]

/-- **A snippet before the last place of a tag.** -/
theorem insertBefore_append {page tag snippet : String} {xs : List Char}
    (hpage : page.toList = xs ++ text) (h : cutAtLast? tag.toList text = some ([], text)) :
    (insertBefore page tag snippet).toList = xs ++ snippet.toList ++ text := by
  have hcut : cutAtLast? tag.toList page.toList = some (xs ++ [], text) :=
    hpage ▸ cutAtLast?_append h xs
  rw [insertBefore, hcut]
  simp

/-- The content of the first element of a name, and what stands behind the element. -/
def element? (name page : List Char) : Option (List Char × List Char) := do
  let (_, opened) ← cutAt? ('<' :: name) page
  let (_, content) ← cutAt? ['>'] opened
  cutAt? ('<' :: '/' :: name ++ ['>']) content

/-- **The content of an element** of text, which has no tags. -/
theorem element?_append {name attributes : List Char} (hbefore : FirstBehind ('<' :: name) before)
    (hattributes : '>' ∉ attributes) (htext : '<' ∉ text) :
    element? name (before ++ '<' :: name
        ++ (attributes ++ ['>'] ++ (text ++ ('<' :: '/' :: name ++ ['>']) ++ behind)))
      = some (text, behind) := by
  have hname := cutAt?_append (List.cons_ne_nil _ _) hbefore
    (attributes ++ ['>'] ++ (text ++ ('<' :: '/' :: name ++ ['>']) ++ behind))
  have hopening := cutAt?_append (List.cons_ne_nil _ _)
    (@firstBehind_of_head [] attributes '>' hattributes)
    (text ++ ('<' :: '/' :: name ++ ['>']) ++ behind)
  have hclosing := cutAt?_append (List.cons_ne_nil _ _)
    (@firstBehind_of_head ('/' :: name ++ ['>']) text '<' htext) behind
  unfold element?
  rw [hname]
  show (cutAt? ['>'] _).bind _ = _
  rw [hopening]
  exact hclosing

end Html

/-! ## §2. Texts with entities. -/

namespace Client

/-- The text that a text with the three entities stands for. -/
def unescape : List Char → List Char
  | '&' :: 'a' :: 'm' :: 'p' :: ';' :: rest => '&' :: unescape rest
  | '&' :: 'l' :: 't' :: ';' :: rest => '<' :: unescape rest
  | '&' :: 'g' :: 't' :: ';' :: rest => '>' :: unescape rest
  | c :: rest => c :: unescape rest
  | [] => []

theorem unescape_cons {c : Char} (hc : c ≠ '&') (rest : List Char) :
    unescape (c :: rest) = c :: unescape rest := by
  conv_lhs => unfold unescape
  split <;> simp_all

theorem escapedChar_of_ne {c : Char} (hamp : c ≠ '&') (hless : c ≠ '<') (hgreater : c ≠ '>') :
    escapedChar c = [c] := by
  simp [escapedChar, hamp, hless, hgreater]

/-- A character and its three exceptions. -/
theorem escapedChar_cases (c : Char) :
    (c = '&' ∨ c = '<' ∨ c = '>') ∨ (c ≠ '&' ∧ escapedChar c = [c] ∧ c ≠ '<' ∧ c ≠ '>') := by
  by_cases hamp : c = '&'
  · exact .inl (.inl hamp)
  · by_cases hless : c = '<'
    · exact .inl (.inr (.inl hless))
    · by_cases hgreater : c = '>'
      · exact .inl (.inr (.inr hgreater))
      · exact .inr ⟨hamp, escapedChar_of_ne hamp hless hgreater, hless, hgreater⟩

/-- **The entities stand for the message.** -/
theorem unescape_escape (cs : List Char) : unescape (cs.flatMap escapedChar) = cs := by
  induction cs with
  | nil => rfl
  | cons c cs ih =>
      rw [List.flatMap_cons]
      rcases escapedChar_cases c with (rfl | rfl | rfl) | ⟨hamp, hplain, -, -⟩
      · exact congrArg ('&' :: ·) ih
      · exact congrArg ('<' :: ·) ih
      · exact congrArg ('>' :: ·) ih
      · rw [hplain, List.singleton_append, unescape_cons hamp, ih]

/-- No character of an escaped text begins or ends a tag. -/
theorem bracket_notMem_escape (cs : List Char) :
    '<' ∉ cs.flatMap escapedChar ∧ '>' ∉ cs.flatMap escapedChar := by
  have hchar : ∀ c, '<' ∉ escapedChar c ∧ '>' ∉ escapedChar c := by
    intro c
    rcases escapedChar_cases c with (rfl | rfl | rfl) | ⟨-, hplain, hless, hgreater⟩
    · decide
    · decide
    · decide
    · rw [hplain]
      simp [Ne.symm hless, Ne.symm hgreater]
  simp only [List.mem_flatMap, not_exists, not_and]
  exact ⟨fun c _ => (hchar c).1, fun c _ => (hchar c).2⟩

/-- **Three replacements** escape a text as well, that of the ampersand first. -/
theorem escape_eq_fill (text : String) :
    escape text = Page.fill ">" "&gt;" (Page.fill "<" "&lt;" (Page.fill "&" "&amp;" text)) := by
  have hamp : "&".toList = ['&'] := rfl
  have hless : "<".toList = ['<'] := rfl
  have hgreater : ">".toList = ['>'] := rfl
  unfold escape Page.fill
  simp only [String.toList_ofList, hamp, hless, hgreater, replaceAll_singleton, List.flatMap_assoc]
  congr 1
  refine List.flatMap_congr fun c _ => ?_
  -- what a replacement puts in has none of the characters that are replaced after it
  rcases escapedChar_cases c with (rfl | rfl | rfl) | ⟨hamp, hplain, hless, hgreater⟩
  · decide
  · decide
  · decide
  · rw [hplain]
    simp only [List.flatMap_singleton, if_neg hamp, if_neg hless, if_neg hgreater]

/-! ## §3. The page. -/

/-- The lines of the page above the message. -/
def pageHead : List String :=
  ["<!DOCTYPE html>",
   "<html lang=\"en\">",
   "  <head>",
   "    <meta charset=\"UTF-8\" />",
   "    <title>Build failed</title>",
   "  </head>",
   "  <body style=\"margin:0;padding:24px;background:#180000;color:#ff8080;"
     ++ "font:14px/1.5 monospace\">",
   "    <h1>Build failed</h1>"]

/-- The page up to the element that shows the message. -/
def pageStart : String :=
  Page.lines pageHead ++ "    "

/-- The attributes of the element. -/
def messageAttributes : String :=
  " style=\"white-space:pre-wrap\""

/-- The page's own closing tags. -/
def pageEnd : String :=
  "</body>\n</html>\n"

/-- The element that loads the script. -/
def scriptElement : String :=
  "<script src=\"/__weft_reload.js\"></script>"

/-- The page up to its own closing tags. -/
def messagePart (text : List Char) : List Char :=
  pageStart.toList ++ '<' :: "pre".toList ++ (messageAttributes.toList ++ ['>']
    ++ (text ++ ('<' :: '/' :: "pre".toList ++ ['>']) ++ "\n  ".toList))

theorem pageStart_toList :
    pageStart.toList = (pageHead.flatMap fun s => s.toList ++ ['\n']) ++ "    ".toList := by
  rw [pageStart, String.toList_append, Page.lines_toList]

/-- Above the message there is neither an element like the one that shows it nor an end of the body nor a
script. -/
theorem occursIff_pageStart {name : String} (hname : name ∈ ["pre", "/body", "script"]) :
    OccursIff id ('<' :: name.toList) pageStart.toList False := by
  have hnone : pageStart.toList.getLast? = some ' ' ∧ ∀ name ∈ ["pre", "/body", "script"],
      contains ('<' :: name.toList) pageStart.toList = false ∧ ' ' ∉ '<' :: name.toList := by
    rw [pageStart_toList, pageHead]
    simp only [List.flatMap_cons, String.toList_append]
    repeat rw [String.toList_ofList]
    decide +kernel
  obtain ⟨hlast, htags⟩ := hnone
  obtain ⟨htag, hblank⟩ := htags name hname
  refine occursIff_of_getLast? hlast hblank ?_
  rw [List.map_id]
  exact not_infix_of_contains htag

theorem plainErrorPage_toList (message : String) :
    (plainErrorPage message).toList
      = messagePart (message.toList.flatMap escapedChar) ++ pageEnd.toList := by
  have hlines : plainErrorPage message = Page.lines (pageHead
      ++ ["    <pre style=\"white-space:pre-wrap\">" ++ escape message ++ "</pre>", "  </body>",
        "</html>"]) := rfl
  rw [hlines, Page.lines_toList, List.flatMap_append, messagePart, pageStart_toList]
  simp only [List.flatMap_cons, List.flatMap_nil, String.toList_append, escape, String.toList_ofList,
    messageAttributes, pageEnd]
  repeat rw [String.toList_ofList]
  simp only [List.append_assoc, List.cons_append, List.nil_append]

/-- The script is put before the page's own closing tags. -/
theorem inject_toList {page : String} {before : List Char}
    (h : page.toList = before ++ pageEnd.toList) :
    (inject page).toList = before ++ scriptElement.toList ++ pageEnd.toList := by
  have hcut : Html.cutAtLast? "</body>".toList pageEnd.toList = some ([], pageEnd.toList) := by
    rw [pageEnd, String.toList_ofList, String.toList_ofList]
    decide
  exact Html.insertBefore_append h hcut

/-- The element that shows the message, whatever stands behind it. -/
theorem element?_messagePart {text : List Char} (htext : '<' ∉ text) (behind : List Char) :
    Html.element? "pre".toList (messagePart text ++ behind)
      = some (text, "\n  ".toList ++ behind) := by
  have hstart : FirstBehind ('<' :: "pre".toList) pageStart.toList :=
    (@occursIff_pageStart "pre" (by simp)).firstBehind (List.cons_ne_nil _ _) not_false
  have hattributes : '>' ∉ messageAttributes.toList := by
    rw [messageAttributes, String.toList_ofList]
    decide
  have helement := @Html.element?_append pageStart.toList text ("\n  ".toList ++ behind) "pre".toList
    messageAttributes.toList hstart hattributes htext
  rw [← helement]
  simp only [messagePart, List.append_assoc, List.cons_append, List.nil_append]

/-- A tag that stands neither above the message nor in the element that shows it stands nowhere before the
page's own closing tags. -/
theorem not_infix_messagePart {name : String} {text : List Char}
    (hname : name ∈ ["pre", "/body", "script"]) (hgreater : '>' ∉ '<' :: name.toList) (htext : '<' ∉ text)
    (hopening : contains ('<' :: name.toList) ('<' :: "pre".toList ++ messageAttributes.toList) = false)
    (hclosing : contains ('<' :: name.toList) ('<' :: '/' :: "pre".toList ++ ['>'] ++ "\n  ".toList) = false) :
    ¬ '<' :: name.toList <:+: messagePart text := by
  have hshape : messagePart text
      = pageStart.toList ++ (('<' :: "pre".toList ++ messageAttributes.toList)
        ++ '>' :: (text ++ ('<' :: '/' :: "pre".toList ++ ['>'] ++ "\n  ".toList))) := by
    simp only [messagePart, List.append_assoc, List.cons_append, List.nil_append]
  have hstart := occursIff_pageStart hname (('<' :: "pre".toList ++ messageAttributes.toList)
    ++ '>' :: (text ++ ('<' :: '/' :: "pre".toList ++ ['>'] ++ "\n  ".toList)))
  rw [List.map_id, List.map_id, false_or] at hstart
  rw [hshape, hstart, infix_append_cons_iff hgreater, infix_append_iff_of_head htext]
  exact not_or.mpr ⟨not_infix_of_contains hopening, not_infix_of_contains hclosing⟩

/-- The tags that the page itself has once stand only behind the part that shows the message. -/
theorem not_infix_body_or_script {text : List Char} (htext : '<' ∉ text) :
    ¬ '<' :: "/body".toList <:+: messagePart text ∧ ¬ '<' :: "script".toList <:+: messagePart text :=
  ⟨@not_infix_messagePart "/body" text (by simp) (by decide) htext (by decide) (by decide),
    @not_infix_messagePart "script" text (by simp) (by decide) htext (by decide) (by decide)⟩

/-- **The page shows the message.** Its element holds a text without brackets that stands for the message;
the page with the script is the page without it but for the script, which comes right before the page's
own closing tags, and before these there is no closing tag of a body and no other script. -/
theorem errorPage_shows_message (message : String) : ∃ text before : List Char,
    unescape text = message.toList ∧ '<' ∉ text ∧ '>' ∉ text ∧
    (errorPage message false).toList = before ++ pageEnd.toList ∧
    (errorPage message true).toList = before ++ scriptElement.toList ++ pageEnd.toList ∧
    ¬ '<' :: "/body".toList <:+: before ∧ ¬ '<' :: "script".toList <:+: before ∧
    Html.element? "pre".toList (errorPage message false).toList
      = some (text, "\n  ".toList ++ pageEnd.toList) ∧
    Html.element? "pre".toList (errorPage message true).toList
      = some (text, "\n  ".toList ++ (scriptElement.toList ++ pageEnd.toList)) := by
  obtain ⟨hless, hgreater⟩ := bracket_notMem_escape message.toList
  obtain ⟨hbody, hscript⟩ := not_infix_body_or_script hless
  have hplain : (errorPage message false).toList = _ := plainErrorPage_toList message
  have hinjected : errorPage message true = inject (plainErrorPage message) := if_pos rfl
  have hinserted := inject_toList (plainErrorPage_toList message)
  rw [← hinjected] at hinserted
  have hshown := element?_messagePart hless pageEnd.toList
  have hshownBefore := element?_messagePart hless (scriptElement.toList ++ pageEnd.toList)
  rw [← hplain] at hshown
  rw [← List.append_assoc, ← hinserted] at hshownBefore
  exact ⟨message.toList.flatMap escapedChar, messagePart (message.toList.flatMap escapedChar),
    unescape_escape message.toList, hless, hgreater, hplain, hinserted, hbody, hscript, hshown,
    hshownBefore⟩

end Client

end AssetBundler
