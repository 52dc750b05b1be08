/-
  AssetBundler.Files.Tree
  ────────────────────────────────
  **A TREE OF FILES.**

  Files, directories and symbolic links by their location, the list of names
  that leads to them from the root.  `walk` follows a path as written through
  links and dots; everything else is said in terms of it.
-/
import AssetBundler.Files.Path
import AssetBundler.Text.Utf8

namespace AssetBundler

open AssetBundler.Text

/-! ## §1. Trees and errors. -/

/-- The names that lead to a file from the root. -/
abbrev Location := List String

/-- What stands at a location. -/
inductive Entry where
  | file (content : ByteArray)
  | directory
  /-- A symbolic link, with the path it leads to as written. -/
  | link (target : String)

/-- Entries by location. The root itself is a directory without an entry. -/
structure FileTree where
  entries : List (Location × Entry)
  /-- The directory that relative paths start from. -/
  here : Location := []

/-- Why an operation on files fails. -/
inductive FileError where
  | notFound
  | busy
  | alreadyExists
  | notDirectory
  | isDirectory
  | invalidArgument
  | notEmpty
  | tooManyLinks
  | invalidText
  deriving DecidableEq, Repr

/-- The error in words. -/
def FileError.message : FileError → String
  | notFound => "No such file or directory (os error 2)"
  | busy => "Device or resource busy (os error 16)"
  | alreadyExists => "File exists (os error 17)"
  | notDirectory => "Not a directory (os error 20)"
  | isDirectory => "Is a directory (os error 21)"
  | invalidArgument => "Invalid argument (os error 22)"
  | notEmpty => "Directory not empty (os error 39)"
  | tooManyLinks => "Too many levels of symbolic links (os error 40)"
  | invalidText => "stream did not contain valid UTF-8"

namespace FileTree

/-- A tree without entries. -/
def empty : FileTree := { entries := [] }

/-- What stands at a location. -/
def entry? (tree : FileTree) (at_ : Location) : Option Entry :=
  if at_.isEmpty then some .directory else tree.entries.lookup at_

/-- The tree without what stands at a location and below it. -/
def without (tree : FileTree) (at_ : Location) : FileTree :=
  { tree with entries := tree.entries.filter fun e => !at_.isPrefixOf e.1 }

/-- The tree with an entry put at a location; what stands there is replaced. -/
def put (tree : FileTree) (at_ : Location) (e : Entry) : FileTree :=
  { tree with
    entries := if tree.entries.any fun old => old.1 == at_ then
        tree.entries.map fun old => if old.1 == at_ then (at_, e) else old
      else tree.entries ++ [(at_, e)] }

/-- Something stands below a location. -/
def hasChildren (tree : FileTree) (at_ : Location) : Bool :=
  tree.entries.any fun e => at_.isPrefixOf e.1 && e.1 != at_

/-! ## §2. Following a path. -/

/-- Where a path leads. -/
inductive Place where
  | occupied (at_ : Location) (e : Entry)
  /-- Nothing stands there, but its directory exists; `slash` tells of a slash behind the name. -/
  | vacant (at_ : Location) (slash : Bool)

/-- Follows segments from a directory. A link is followed where more segments come, and at the end if
`follow` holds; `links` more links may be followed. The first argument bounds the number of segments. -/
def walk (tree : FileTree) (follow : Bool) :
    Nat → Nat → Location → List String → Except FileError Place
  | 0, _, _, _ => .error .tooManyLinks
  | _ + 1, _, here, [] => .ok (.occupied here .directory)
  | fuel + 1, links, here, segment :: rest =>
    if segment == "" || segment == "." then walk tree follow fuel links here rest
    else if segment == ".." then walk tree follow fuel links here.dropLast rest
    else
      let at_ := here ++ [segment]
      match tree.entry? at_ with
      | none =>
        if rest.all (· == "") then .ok (.vacant at_ !rest.isEmpty) else .error .notFound
      | some .directory => walk tree follow fuel links at_ rest
      | some (.file content) =>
        if rest.isEmpty then .ok (.occupied at_ (.file content)) else .error .notDirectory
      | some (.link target) =>
        if rest.isEmpty && !follow then .ok (.occupied at_ (.link target))
        else if links = 0 then .error .tooManyLinks
        else
          let target : Path := ⟨target⟩
          walk tree follow fuel (links - 1) (if target.isAbsolute then [] else here)
            (target.segments ++ rest)

/-- How many links may be followed on one way. -/
def maxLinks : Nat := 40

/-- A bound on the segments that are met on one way. -/
def segmentBound (tree : FileTree) (count : Nat) : Nat :=
  let linkSegments := tree.entries.map fun e => match e.2 with
    | .link target => (Path.mk target).segments.length
    | _ => 0
  count + 1 + (maxLinks + 1) * (linkSegments.foldl (· + ·) 0 + 1)

/-- Where a path leads. -/
def find (tree : FileTree) (follow : Bool) (path : Path) : Except FileError Place :=
  if path.text == "" then .error .notFound
  else
    let segments := path.segments
    tree.walk follow (tree.segmentBound segments.length) maxLinks
      (if path.isAbsolute then [] else tree.here) segments

/-- What stands at the end of a path, links followed. -/
def resolve (tree : FileTree) (path : Path) : Except FileError (Location × Entry) :=
  match tree.find true path with
  | .ok (.occupied at_ e) => .ok (at_, e)
  | .ok (.vacant ..) => .error .notFound
  | .error e => .error e

/-! ## §3. Questions. -/

/-- A file stands at the end of the path. -/
def isFile (tree : FileTree) (path : Path) : Bool :=
  match tree.resolve path with
  | .ok (_, .file _) => true
  | _ => false

/-- A directory stands at the end of the path. -/
def isDirectory (tree : FileTree) (path : Path) : Bool :=
  match tree.resolve path with
  | .ok (_, .directory) => true
  | _ => false

/-- Something stands at the end of the path. -/
def exists_ (tree : FileTree) (path : Path) : Bool :=
  match tree.resolve path with
  | .ok _ => true
  | .error _ => false

/-- The location at the end of the path. -/
def canonical (tree : FileTree) (path : Path) : Except FileError Location :=
  (tree.resolve path).map (·.1)

/-- The bytes of a file. -/
def read (tree : FileTree) (path : Path) : Except FileError ByteArray :=
  match tree.resolve path with
  | .ok (_, .file content) => .ok content
  | .ok _ => .error .isDirectory
  | .error e => .error e

/-- The text of a file. -/
def readText (tree : FileTree) (path : Path) : Except FileError String := do
  let content ← tree.read path
  match Utf8.decode content with
  | .ok text => return text
  | .error _ => throw .invalidText

/-! ## §4. Changes. -/

/-- Makes one directory. -/
def makeDirectory (tree : FileTree) (path : Path) : Except FileError FileTree :=
  match tree.find false path with
  | .ok (.vacant at_ _) => .ok (tree.put at_ .directory)
  | .ok (.occupied ..) => .error .alreadyExists
  | .error e => .error e

/-- Makes one directory if none stands there. -/
def ensureDirectory (tree : FileTree) (path : Path) : Except FileError FileTree :=
  match tree.makeDirectory path with
  | .ok tree => .ok tree
  | .error e => if tree.isDirectory path then .ok tree else .error e

/-- Makes a directory with all that lead to it; the tree keeps what was made before a failure. The
first argument exceeds the number of components. -/
def makeDirectories : Nat → FileTree → Path → FileTree × Option FileError
  | 0, tree, _ => (tree, some .notFound)
  | fuel + 1, tree, path =>
    if path.text == "" then (tree, none)
    else
      match tree.ensureDirectory path with
      | .ok tree => (tree, none)
      | .error .notFound =>
        match path.parent? with
        | none => (tree, some .notFound)
        | some parent =>
          match makeDirectories fuel tree parent with
          | (tree, some e) => (tree, some e)
          | (tree, none) =>
            match tree.ensureDirectory path with
            | .ok tree => (tree, none)
            | .error e => (tree, some e)
      | .error e => (tree, some e)

/-- Makes a directory with all that lead to it. -/
def createDirectories (tree : FileTree) (path : Path) : FileTree × Option FileError :=
  makeDirectories (path.segments.length + 2) tree path

/-- The path without the slashes at its end, and whether there were any behind a name. -/
def dropSlashes (path : Path) : Path × Bool :=
  let text := trimEndWhile (· == '/') path.text.toList
  if text.isEmpty || text.length = path.text.toList.length then (path, false)
  else (⟨String.ofList text⟩, true)

/-- Puts bytes into a file, which is made if nothing stands there. -/
def write (tree : FileTree) (path : Path) (content : ByteArray) : Except FileError FileTree :=
  let (bare, slash) := dropSlashes path
  match tree.find (!slash) bare with
  | .error e => .error e
  | .ok place =>
    if slash then .error .isDirectory
    else match place with
      | .vacant at_ _ => .ok (tree.put at_ (.file content))
      | .occupied _ .directory => .error .isDirectory
      | .occupied at_ _ => .ok (tree.put at_ (.file content))

/-- Takes an empty directory away. -/
def removeDirectory (tree : FileTree) (path : Path) : Except FileError FileTree :=
  match tree.find false path with
  | .error e => .error e
  | .ok (.vacant ..) => .error .notFound
  | .ok (.occupied at_ e) =>
    match (Path.segments path).filter (· != "") |>.getLast? with
    | none => .error .busy
    | some "." => .error .invalidArgument
    | some ".." => .error .notEmpty
    | some _ =>
      match e with
      | .directory => if tree.hasChildren at_ then .error .notEmpty else .ok (tree.without at_)
      | _ => .error .notDirectory

/-- Takes a directory away with all that stands below it, or a link. What is gone before a failure stays
gone. -/
def removeAll (tree : FileTree) (path : Path) : FileTree × Option FileError :=
  match tree.find false path with
  | .error e => (tree, some e)
  | .ok (.vacant ..) => (tree, some .notFound)
  | .ok (.occupied at_ (.link _)) => (tree.without at_, none)
  | .ok (.occupied _ (.file _)) => (tree, some .notDirectory)
  | .ok (.occupied at_ .directory) =>
    let cleared :=
      { tree with entries := tree.entries.filter fun e => !(at_.isPrefixOf e.1 && e.1 != at_) }
    match cleared.removeDirectory path with
    | .ok tree => (tree, none)
    | .error e => (cleared, some e)

/-- What stands at one location and below it, moved to another. -/
def move (tree : FileTree) (source target : Location) : FileTree :=
  { tree with
    entries := tree.entries.map fun e =>
      if source.isPrefixOf e.1 then (target ++ e.1.drop source.length, e.2) else e }

/-- Gives a directory another path. -/
def rename (tree : FileTree) (source target : Path) : Except FileError FileTree :=
  match tree.find false source, tree.find false target with
  | .error e, _ => .error e
  | .ok (.vacant ..), _ => .error .notFound
  | _, .error e => .error e
  | .ok (.occupied old _), .ok (.vacant new _) => .ok (tree.move old new)
  | .ok (.occupied old _), .ok (.occupied new .directory) =>
    if tree.hasChildren new then .error .notEmpty else .ok ((tree.without new).move old new)
  | .ok (.occupied ..), .ok (.occupied ..) => .error .notDirectory

/-- Makes a link. -/
def makeLink (tree : FileTree) (path : Path) (target : String) : Except FileError FileTree :=
  match tree.find false path with
  | .ok (.vacant at_ _) => .ok (tree.put at_ (.link target))
  | .ok (.occupied ..) => .error .alreadyExists
  | .error e => .error e

/-- Makes the directories that lead to a path. -/
def createParents (tree : FileTree) (path : Path) : FileTree :=
  match path.parent? with
  | some parent => (tree.createDirectories parent).1
  | none => tree

/-- Takes away what stands at a path, a link itself and not what it leads to. -/
def discard (tree : FileTree) (path : Path) : FileTree :=
  match tree.find false path with
  | .ok (.occupied at_ _) => tree.without at_
  | _ => tree

/-! ## §5. Listing. -/

/-- The names in a directory. -/
def childNames (tree : FileTree) (at_ : Location) : List String :=
  tree.entries.filterMap fun e =>
    match e.1.reverse with
    | name :: above => if above.reverse == at_ then some name else none
    | [] => none

/-- The files below a location with their ways from there, links followed; directories at a depth of
the first argument are not entered. -/
def filesBelow (tree : FileTree) : Nat → Location → List (String × ByteArray)
  | 0, _ => []
  | depth + 1, at_ =>
    (tree.childNames at_).flatMap fun name =>
      match tree.resolve (Path.ofNames (at_ ++ [name])) with
      | .ok (_, .file content) => [(name, content)]
      | .ok (inner, .directory) =>
        (filesBelow tree depth inner).map fun (way, content) => (name ++ "/" ++ way, content)
      | _ => []

/-- The files below a directory with their ways from there; none when the path leads to no directory. -/
def list (tree : FileTree) (path : Path) : List (String × ByteArray) :=
  match tree.resolve path with
  | .ok (at_, .directory) => tree.filesBelow (tree.entries.length + 1) at_
  | _ => []

end FileTree

end AssetBundler
