/-
  AssetBundler.Serve.Message
  ────────────────────────────────
  **MESSAGES TO OPEN PAGES.**

  What the development server tells the pages that are connected to it, and
  the text form of it: an object whose member `type` names the message.
-/
import AssetBundler.Data.Json

namespace AssetBundler

open AssetBundler.Data

/-- A message to the pages that show a project. -/
inductive ReloadMessage where
  /-- The connection stands. -/
  | connected
  /-- A build is done, for a reason; pages load themselves anew. -/
  | reload (reason : String)
  /-- A build has failed; what was built before is still served. -/
  | buildError (component message : String) (module? : Option String)
  deriving DecidableEq, Repr

namespace ReloadMessage

/-! ## §1. Writing. -/

/-- The message as a value of a document. A module that is not known has no member. -/
def toValue : ReloadMessage → Value
  | connected => .table [("type", .text "connected")]
  | reload reason => .table [("type", .text "reload"), ("reason", .text reason)]
  | buildError component message module? =>
    .table ([("type", .text "build-error"), ("component", .text component),
      ("message", .text message)]
      ++ (module?.map fun m => ("module", .text m)).toList)

/-- The text of a message. -/
def text (m : ReloadMessage) : String :=
  Json.compact m.toValue

/-! ## §2. Reading. -/

/-- The members of a name. -/
def membersOf (name : String) (members : List (String × Value)) : List Value :=
  (members.filter fun m => m.1 == name).map (·.2)

/-- The text of the one member of a name. -/
def textMember? (name : String) (members : List (String × Value)) : Option String :=
  match membersOf name members with
  | [.text s] => some s
  | _ => none

/-- The text of the member of a name, which may be missing or null. -/
def optionalText? (name : String) (members : List (String × Value)) : Option (Option String) :=
  match membersOf name members with
  | [] | [.null] => some none
  | [.text s] => some (some s)
  | _ => none

/-- The message of an object. Members of other names do not count. -/
def ofMembers? (members : List (String × Value)) : Option ReloadMessage := do
  match ← textMember? "type" members with
  | "connected" => return connected
  | "reload" => return reload (← textMember? "reason" members)
  | "build-error" =>
    let component ← textMember? "component" members
    let message ← textMember? "message" members
    return buildError component message (← optionalText? "module" members)
  | _ => none

/-- The message of a list: its name, and what its members would be, in order. -/
def ofItems? : List Value → Option ReloadMessage
  | [.text "connected"] => some connected
  | [.text "reload", .text reason] => some (reload reason)
  | [.text "build-error", .text component, .text message, .null] =>
    some (buildError component message none)
  | [.text "build-error", .text component, .text message, .text m] =>
    some (buildError component message (some m))
  | _ => none

/-- The message that a value stands for. -/
def ofValue? : Value → Option ReloadMessage
  | .table members => ofMembers? members
  | .list items => ofItems? items
  | _ => none

/-- The message that a text spells. -/
def parse? (text : String) : Option ReloadMessage :=
  (Json.parse? text).bind ofValue?

end ReloadMessage

end AssetBundler
