/-
  AssetBundler.Files.Archive
  ────────────────────────────────
  **TREES OF FILES AS DOCUMENTS.**

  A tree is written as a table from paths to contents: text, the base 64 form
  of bytes that are no text, the target of a link, or nothing for a directory.
-/
import AssetBundler.Data.Json
import AssetBundler.Files.Tree
import AssetBundler.Text.Base64

namespace AssetBundler.FileTree

open AssetBundler.Text AssetBundler.Data

/-! ## §1. Writing. -/

/-- The name of the member that holds bytes. -/
def bytesMember : String := "base64"

/-- The name of the member that holds the target of a link. -/
def linkMember : String := "link"

/-- An entry as a value of a document. -/
def entryValue : Entry → Value
  | .file content =>
    match Utf8.decode content with
    | .ok text => .text text
    | .error _ => .table [(bytesMember, .text (Base64.encode content))]
  | .directory => .null
  | .link target => .table [(linkMember, .text target)]

/-- A tree as a document. -/
def toValue (tree : FileTree) : Value :=
  .table (tree.entries.map fun (at_, e) => ((Path.ofNames at_).text, entryValue e))

/-! ## §2. Reading. -/

/-- The tree with an entry of a document put at a path, with the directories that lead to it. -/
def addEntry? (tree : FileTree) (path : Path) (v : Value) : Option FileTree :=
  let tree := tree.createParents path
  match v with
  | .null => some (tree.createDirectories path).1
  | .text text => (tree.write path text.toUTF8).toOption
  | v =>
    match (v.member? bytesMember).bind Value.text?, (v.member? linkMember).bind Value.text? with
    | some coded, _ =>
      (Base64.decode? coded).bind fun content => (tree.write path content).toOption
    | none, some target => (tree.makeLink path target).toOption
    | none, none => none

/-- The tree with the entries of a document added, whose paths may start from a directory. -/
def addEntries? (tree : FileTree) (members : List (String × Value)) : Option FileTree :=
  members.foldlM (fun tree (name, v) =>
    tree.addEntry? ((Path.ofNames tree.here).join name) v) tree

/-- The tree that a document describes; relative paths start from `here`. -/
def ofValue? (here : Location) : Value → Option FileTree
  | .table members =>
    let start : FileTree := { entries := [], here }
    (start.createDirectories (Path.ofNames here)).1.addEntries? members
  | _ => none

/-- The tree that a text describes. -/
def parse? (here : Location) (text : String) : Option FileTree :=
  (Json.parse? text).bind (ofValue? here)

/-- The text that describes a tree. -/
def text (tree : FileTree) : String :=
  Json.compact tree.toValue

end AssetBundler.FileTree
