/-
  AssetBundler.Project.Resolve
  ────────────────────────────────
  **FROM SPECIFIERS TO MODULES.**

  A specifier is a path relative to the importing module, a path below the
  root of the project, or the name of a package.  Packages are looked for in
  the package directories from the importing module upwards.
-/
import AssetBundler.Config.Basic
import AssetBundler.Data.Json
import AssetBundler.Project.Error

namespace AssetBundler.Resolve

open AssetBundler.Text

/-! ## §1. Files. -/

/-- The files that a path can mean when it does not lead to one itself: each extension put behind it. -/
def candidates (extensions : List String) (target : Path) : List Path :=
  extensions.map target.append

/-- The file that a path means: itself, or with an extension, or the index of a directory. -/
def file? (files : FileTree) (extensions : List String) (target : Path) : Option Path :=
  if files.isFile target then some target
  else match (candidates extensions target).find? files.isFile with
    | some found => some found
    | none =>
      if files.isDirectory target then
        (candidates extensions (target.join "index")).find? files.isFile
      else none

/-! ## §2. Packages. -/

/-- The name of a package and the way to a file in it, if one is given. -/
structure PackageRequest where
  name : String
  subpath? : Option String
  deriving DecidableEq, Repr

/-- The text up to the first slash, and what stands behind that. -/
def cutAtSlash (text : List Char) : List Char × Option (List Char) :=
  match text.dropWhile (· != '/') with
  | _ :: rest => (text.takeWhile (· != '/'), some rest)
  | [] => (text, none)

/-- The package that a specifier asks for. A name that begins with `@` has two parts. -/
def packageRequest? (specifier : String) : Option PackageRequest :=
  let (first, rest?) := cutAtSlash specifier.toList
  if specifier.toList.head? == some '@' then
    match rest? with
    | none => none
    | some rest =>
      let (second, sub?) := cutAtSlash rest
      some ⟨String.ofList (first ++ '/' :: second), sub?.map String.ofList⟩
  else some ⟨String.ofList first, rest?.map String.ofList⟩

/-- The entries that a package description names, the preferred one first. -/
def describedEntries (description : Data.Value) : List String :=
  ["module", "main"].filterMap fun field => (description.member? field).bind Data.Value.text?

/-- The file of a package that its description names. -/
def describedFile (files : FileTree) (extensions : List String) (package : Path) :
    Except ResolutionFault (Option Path) :=
  let description := package.join "package.json"
  if !files.isFile description then .ok none
  else match files.readText description with
    | .error e => .error (.unreadablePackage description e)
    | .ok text =>
      match Data.Json.parse? text with
      | none => .error (.malformedPackage description)
      | some value =>
        .ok ((describedEntries value).findSome? fun entry =>
          file? files extensions (package.join entry))

/-- The file that a request means in one package directory. -/
def inPackages (files : FileTree) (extensions : List String) (packages : Path)
    (request : PackageRequest) : Except ResolutionFault (Option Path) :=
  let package := packages.join request.name
  if !files.isDirectory package then .ok none
  else match request.subpath? with
    | some sub => .ok (file? files extensions (package.join sub))
    | none =>
      match describedFile files extensions package with
      | .error e => .error e
      | .ok (some found) => .ok (some found)
      | .ok none => .ok (file? files extensions (package.join "index"))

/-- The directories from a location up to the root, the nearest first. -/
def upwards (location : Location) : List Location :=
  (List.range (location.length + 1)).reverse.map location.take

/-- What one search comes to, or another when the first finds nothing. -/
@[macro_inline] def orElse (first second : Except ResolutionFault (Option Path)) :
    Except ResolutionFault (Option Path) :=
  match first with
  | .ok none => second
  | found => found

/-- The file that a request means in the package directories beside some locations, the first of them
that has one. -/
def inDirectories (files : FileTree) (extensions : List String)
    (request? : Option PackageRequest) : List Location → Except ResolutionFault (Option Path)
  | [] => .ok none
  | location :: rest =>
    let packages := (Path.ofNames location).join "node_modules"
    match request? with
    | some request =>
      orElse
        (if files.isDirectory packages then inPackages files extensions packages request
          else .ok none)
        (inDirectories files extensions request? rest)
    | none => .ok none

/-! ## §3. Specifiers. -/

/-- What a specifier asks for, without query and fragment. -/
def request (specifier : String) : String :=
  String.ofList (specifier.toList.takeWhile fun c => c != '?' && c != '#')

/-- The specifier is relative to the importing module. -/
def isRelative (request : String) : Bool :=
  let text := request.toList
  startsWith "./".toList text || startsWith "../".toList text || request == "."
    || request == ".."

/-- The file that a request of a module means. -/
def requestedFile (config : Config) (files : FileTree) (request : String) (importer : Identity) :
    Except ResolutionFault (Option Path) :=
  let extensions := config.resolution.extensions
  if request == "" then .error .emptySpecifier
  else if isRelative request then
    .ok (file? files extensions ((Path.ofNames importer.location.dropLast).join request))
  else match dropPrefix? ['/'] request.toList with
    | some rooted => .ok (file? files extensions (config.root.join (String.ofList rooted)))
    | none =>
      if request.toList.contains ':' then .error .url
      else inDirectories files extensions (packageRequest? request)
        (upwards importer.location.dropLast)

/-- The module that a specifier means in a module. -/
def specifier (config : Config) (files : FileTree) (specifier : String) (importer : Identity) :
    Except BuildError Identity :=
  let fail (fault : ResolutionFault) : Except BuildError Identity :=
    .error (.resolution specifier importer.path fault)
  match requestedFile config files (request specifier) importer with
  | .error fault => fail fault
  | .ok none => fail .noMatch
  | .ok (some path) =>
    match Identity.ofPath files path with
    | .ok m => .ok m
    | .error e => fail (.file e)

/-- The module of an entry file. -/
def entry (config : Config) (files : FileTree) (path : Path) : Except BuildError Identity :=
  match Identity.ofPath files path with
  | .ok m => .ok m
  | .error e => .error (.resolution path.text config.root (.file e))

end AssetBundler.Resolve
