/-
  AssetBundler.Files.Path
  ────────────────────────────────
  **PATHS AS TEXT.**

  A path is kept as it is written, because messages show it so.  What it
  means is its list of components: slashes that repeat or end it and dots in
  its middle do not count.
-/
import AssetBundler.Text.Search

namespace AssetBundler

/-! ## §1. Segments and components. -/

/-- A path as written. -/
structure Path where
  text : String
  deriving DecidableEq, Repr

/-- A component of a path. -/
inductive PathComponent where
  | root
  | current
  | parent
  | name (text : String)
  deriving DecidableEq, Repr

namespace PathComponent

/-- The component as written. -/
def text : PathComponent → String
  | root => "/"
  | current => "."
  | parent => ".."
  | name text => text

end PathComponent

namespace Path

open AssetBundler.Text

/-- The texts between the slashes. -/
def segments (p : Path) : List String :=
  (splitAt (· == '/') p.text.toList).map String.ofList

/-- The path begins at the root. -/
def isAbsolute (p : Path) : Bool :=
  p.text.toList.head? == some '/'

/-- The component that a segment spells; `atStart` holds for the first segment of a relative path,
where a dot counts. -/
def componentOf? (atStart : Bool) (segment : String) : Option PathComponent :=
  if segment == "" then none
  else if segment == "." then (if atStart then some .current else none)
  else if segment == ".." then some .parent
  else some (.name segment)

/-- The components of the segments of a path. -/
def componentsOf (absolute : Bool) : List String → List PathComponent
  | [] => []
  | first :: rest =>
    (if absolute then [.root] else (componentOf? true first).toList)
      ++ rest.filterMap (componentOf? false)

/-- The components of a path. -/
def components (p : Path) : List PathComponent :=
  componentsOf p.isAbsolute p.segments

/-- The path as absolute names, for a path that is written out from the root. -/
def ofNames (names : List String) : Path :=
  ⟨"/" ++ "/".intercalate names⟩

/-! ## §2. Joining and taking apart. -/

/-- What `q` means from the place `p`: `q` itself when it is absolute, else `q` behind `p`. -/
def join (p : Path) (q : String) : Path :=
  if q.toList.head? == some '/' then ⟨q⟩
  else if p.text == "" || p.text.toList.getLast? == some '/' then ⟨p.text ++ q⟩
  else ⟨p.text ++ "/" ++ q⟩

/-- The path with text put behind its last character. -/
def append (p : Path) (s : String) : Path :=
  ⟨p.text ++ s⟩

/-- Segments without those at the end that spell no component. -/
def dropIdle (segments : List String) : List String :=
  (segments.reverse.dropWhile fun s => (componentOf? false s).isNone).reverse

/-- The segments behind the root, or all segments of a relative path with the leading dot kept apart:
the text before them and themselves. -/
def splitStart (p : Path) : String × List String :=
  match p.isAbsolute, p.segments with
  | true, _ :: rest => ("/", rest)
  | false, "." :: rest => ("./", rest)
  | _, segments => ("", segments)

/-- The path without its last component; none for the root and for the empty path. -/
def parent? (p : Path) : Option Path :=
  let (start, rest) := p.splitStart
  match dropIdle rest with
  | [] => if start == "./" then some ⟨""⟩ else none
  | kept =>
    match dropIdle kept.dropLast with
    | [] => some ⟨if start == "./" then "." else start⟩
    | kept => some ⟨start ++ "/".intercalate kept⟩

/-- The name of the last component, unless that is a dot or two. -/
def fileName? (p : Path) : Option String :=
  match p.components.getLast? with
  | some (.name text) => some text
  | _ => none

/-- The name with another last component. -/
def withFileName (p : Path) (name : String) : Path :=
  if p.fileName?.isSome then (p.parent?.getD ⟨""⟩).join name else p.join name

/-- A file name cut at its last dot: stem and extension. A dot that begins the name does not count. -/
def splitName (name : String) : String × Option String :=
  let reversed := name.toList.reverse
  let extension := (reversed.takeWhile (· != '.')).reverse
  match (reversed.dropWhile (· != '.')).tail.reverse with
  | [] => (name, none)
  | stem => (String.ofList stem, some (String.ofList extension))

/-- The file name without its extension. -/
def stem? (p : Path) : Option String :=
  p.fileName?.map fun name => (splitName name).1

/-- The extension of the file name. -/
def extension? (p : Path) : Option String :=
  p.fileName?.bind fun name => (splitName name).2

/-- The components of `base` begin those of `p`. -/
def startsWith (p base : Path) : Bool :=
  base.components.isPrefixOf p.components

/-! ## §3. Relative paths. -/

/-- The way from `base` to a path, by components; none when `base` climbs above a place it does not
name. `fresh` holds as long as the two agree. -/
def difference (fresh : Bool) :
    List PathComponent → List PathComponent → Option (List PathComponent)
  | [], [] => some []
  | rest, [] => some rest
  | [], _ :: base => (difference fresh [] base).map (.parent :: ·)
  | c :: rest, d :: base =>
    if fresh && c == d then difference fresh rest base
    else if d == .current then (difference false rest base).map (c :: ·)
    else if d == .parent then none
    else some (.parent :: base.map (fun _ => .parent) ++ c :: rest)

/-- Components written one after the other. -/
def ofComponents (components : List PathComponent) : Path :=
  components.foldl (fun p c => p.join c.text) ⟨""⟩

/-- The way from `base` to `p`, when there is one. -/
def relativeTo? (p base : Path) : Option Path :=
  if p.isAbsolute != base.isAbsolute then
    if p.isAbsolute then some p else none
  else
    (difference true p.components base.components).map ofComponents

/-- The stable name of a file in a project: its way from the root of the project, with slashes for
backslashes. -/
def moduleId (p root : Path) : String :=
  let relative := (p.relativeTo? root).getD p
  String.ofList (relative.text.toList.map fun c => if c == '\\' then '/' else c)

end Path

end AssetBundler
