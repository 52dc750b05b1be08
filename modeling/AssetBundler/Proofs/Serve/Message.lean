/-
  AssetBundler.Proofs.Serve.Message
  ────────────────────────────────
  **MESSAGES AND THEIR TEXTS.**

  A message is written as an object that names it in its member `type`, and
  read from any object that has its members: in any order, with any blanks
  between, and among members of other names.  What is written is such an
  object, whatever characters the texts of the message hold:

    • `ReloadMessage.ofMembers?_of_perm` — the objects that are a message,
    • `Json.parse?_compact_texts` — an object of texts, read back,
    • `ReloadMessage.text_reads_back` — every message is read back from its
      text.
-/
import AssetBundler.Proofs.Data.Json
import AssetBundler.Serve.Message

namespace AssetBundler

open Data

/-! ## §1. Objects of texts. -/

namespace Data.Json

/-- A member with a text, as it is written. -/
def textSpelling (entry : String × String) : Spelling where
  key := entry.1
  text := (Text.quote entry.2).toList
  value := .text entry.2

/-- A member with a text. -/
def textMember (entry : String × String) : String × Value :=
  (entry.1, .text entry.2)

/-- Members on one line are written without gaps. -/
theorem compactMembers_toList : ∀ entries : List (String × String),
    (compactMembers (entries.map textMember)).toList = membersText [] (entries.map textSpelling)
  | [] => rfl
  | [entry] => by
      simp [compactMembers, compact, membersText, Spelling.written, textSpelling, textMember]
  | entry :: entry' :: rest => by
      have hrest := compactMembers_toList (entry' :: rest)
      simp only [List.map_cons] at hrest ⊢
      rw [membersText_cons_cons, ← hrest]
      simp [compactMembers, compact, Spelling.written, textSpelling, textMember]

theorem spells_textSpelling (entry : String × String) :
    Spells 127 (textSpelling entry).text (textSpelling entry).value := by
  simpa [textSpelling] using spells_quote 126 entry.2

/-- **An object of texts is read back.** -/
theorem parse?_compact_texts (entries : List (String × String)) :
    parse? (compact (.table (entries.map textMember))) = some (.table (entries.map textMember)) := by
  have hspells : ∀ m ∈ entries.map textSpelling, Spells 127 m.text m.value :=
    List.forall_mem_map.mpr fun entry _ => spells_textSpelling entry
  have htable := spells_table (List.forall_mem_nil _) hspells
  rw [List.map_map] at htable
  have htext : (compact (.table (entries.map textMember))).toList
      = tableText [] (entries.map textSpelling) := by
    simp [compact, tableText, compactMembers_toList]
  exact parse?_of_spells (htext ▸ htable)

end Data.Json

/-! ## §2. Objects that are a message. -/

namespace ReloadMessage

variable {name : String} {names : List String} {members others : List (String × Value)}
  {m : ReloadMessage}

/-- The members of a message, in the order in which they are written. -/
def entries : ReloadMessage → List (String × String)
  | connected => [("type", "connected")]
  | reload reason => [("type", "reload"), ("reason", reason)]
  | buildError component message module? =>
    [("type", "build-error"), ("component", component), ("message", message)]
      ++ (module?.map fun m => ("module", m)).toList

/-- The names of the members that say what the message is. -/
def fields : ReloadMessage → List String
  | connected => ["type"]
  | reload _ => ["type", "reason"]
  | buildError .. => ["type", "component", "message", "module"]

theorem toValue_eq (m : ReloadMessage) : m.toValue = .table (m.entries.map Json.textMember) := by
  cases m with
  | connected => rfl
  | reload reason => rfl
  | buildError component message module? => cases module? <;> rfl

/-- The members of a name among those that count. -/
theorem membersOf_perm (hname : names.contains name = true)
    (h : (members.filter fun e => names.contains e.1).Perm others) :
    (membersOf name members).Perm (membersOf name others) := by
  have hcounts : membersOf name members
      = membersOf name (members.filter fun e => names.contains e.1) := by
    unfold membersOf
    rw [List.filter_filter]
    congr 1
    refine List.filter_congr fun e _ => ?_
    by_cases he : e.1 = name
    · rw [he, hname, Bool.and_true]
    · rw [beq_false_of_ne he, Bool.false_and]
  rw [hcounts]
  exact (h.filter _).map _

/-- **The objects that are a message**: their members of its names are those of the message, in any
order. -/
theorem ofMembers?_of_perm
    (h : (members.filter fun e => m.fields.contains e.1).Perm (m.entries.map Json.textMember)) :
    ofMembers? members = some m := by
  have hperm (name : String) (hname : m.fields.contains name = true) :
      (membersOf name members).Perm (membersOf name (m.entries.map Json.textMember)) :=
    membersOf_perm hname h
  have htext (name value : String) (hname : m.fields.contains name = true)
      (hvalue : membersOf name (m.entries.map Json.textMember) = [.text value]) :
      textMember? name members = some value := by
    have hmembers := hperm name hname
    rw [hvalue, List.perm_singleton] at hmembers
    rw [textMember?, hmembers]
  cases m with
  | connected =>
      have htype := htext "type" "connected" rfl rfl
      simp [ofMembers?, htype]
  | reload reason =>
      have htype := htext "type" "reload" rfl rfl
      have hreason := htext "reason" reason rfl rfl
      simp [ofMembers?, htype, hreason]
  | buildError component message module? =>
      have htype := htext "type" "build-error" rfl (by cases module? <;> rfl)
      have hcomponent := htext "component" component rfl (by cases module? <;> rfl)
      have hmessage := htext "message" message rfl (by cases module? <;> rfl)
      have hmodule : optionalText? "module" members = some module? := by
        have hmembers := hperm "module" rfl
        unfold optionalText?
        cases module? with
        | none => rw [List.perm_nil.mp hmembers]
        | some m => rw [List.perm_singleton.mp hmembers, Json.textMember]
      simp [ofMembers?, htype, hcomponent, hmessage, hmodule]

/-! ## §3. Texts of messages. -/

/-- A text of an object that is a message. -/
theorem parse?_of_perm {text : String} (htext : Json.parse? text = some (.table members))
    (h : (members.filter fun e => m.fields.contains e.1).Perm (m.entries.map Json.textMember)) :
    parse? text = some m := by
  rw [parse?, htext]
  exact ofMembers?_of_perm h

/-- The written members all count. -/
theorem filter_entries (m : ReloadMessage) :
    (m.entries.map Json.textMember).filter (fun e => m.fields.contains e.1)
      = m.entries.map Json.textMember := by
  cases m with
  | connected => rfl
  | reload reason => rfl
  | buildError component message module? => cases module? <;> rfl

theorem parse?_text (m : ReloadMessage) : parse? m.text = some m := by
  have htext : Json.parse? m.text = some (.table (m.entries.map Json.textMember)) := by
    rw [text, toValue_eq]
    exact Json.parse?_compact_texts m.entries
  exact parse?_of_perm htext (.of_eq m.filter_entries)

/-- **Every message is read back from its text**, and from every text of an object with its members; a text
that is read as a message is written anew as a text of the same message, and this stays as it is. -/
theorem text_reads_back :
    (∀ m : ReloadMessage, parse? m.text = some m) ∧
    (∀ (m : ReloadMessage) (text : String) (members : List (String × Value)),
      Json.parse? text = some (.table members) →
      (members.filter fun e => m.fields.contains e.1).Perm (m.entries.map Json.textMember) →
      parse? text = some m) ∧
    ∀ (m : ReloadMessage) (text : String), parse? text = some m →
      ∃ again, parse? m.text = some again ∧ again = m ∧ again.text = m.text :=
  ⟨parse?_text, fun _ _ _ htext h => parse?_of_perm htext h,
    fun m _ _ => ⟨m, parse?_text m, rfl, rfl⟩⟩

/-- The members of a message in another order, and one more among them. -/
def shuffledEntries : List (String × String) :=
  [("message", "a\tb"), ("line", "3"), ("component", "resolver"), ("type", "build-error")]

/-- A text of the same message with an escape that writing would spell otherwise. -/
def escapedText : String :=
  "\x7b \"message\": \"a\\u0009b\", \"module\": null, \"component\": \"resolver\", "
    ++ "\"type\": \"build-error\" \x7d"

/-- Their message. -/
def tabbedMessage : ReloadMessage :=
  .buildError "resolver" "a\tb" none

/-- Both are read, and what is written then is read back. -/
theorem tabbedMessage_reads_back :
    parse? (Json.compact (.table (shuffledEntries.map Json.textMember))) = some tabbedMessage ∧
    parse? escapedText = some tabbedMessage ∧
    ∃ again, parse? tabbedMessage.text = some again ∧ again = tabbedMessage ∧
      again.text = tabbedMessage.text := by
  have hescaped : parse? escapedText = some tabbedMessage := by decide +kernel
  have hshuffled : ((shuffledEntries.map Json.textMember).filter fun e =>
      tabbedMessage.fields.contains e.1).Perm (tabbedMessage.entries.map Json.textMember) :=
    List.reverse_perm (tabbedMessage.entries.map Json.textMember)
  exact ⟨text_reads_back.2.1 tabbedMessage _ _ (Json.parse?_compact_texts shuffledEntries) hshuffled,
    hescaped, text_reads_back.2.2 tabbedMessage escapedText hescaped⟩

end ReloadMessage

end AssetBundler
