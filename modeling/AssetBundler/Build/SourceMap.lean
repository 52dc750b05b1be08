/-
  AssetBundler.Build.SourceMap
  ────────────────────────────────
  **SOURCE MAPS.**

  A source map leads from lines of a generated file to lines of its sources.
  Its text holds the differences between one place and the next as numbers in
  base 64 with five bits a digit, the lowest first; the lowest bit of a number
  is its sign.
-/
import AssetBundler.Data.Json
import AssetBundler.Text.Base64

namespace AssetBundler

/-- A line of the generated file with the line of a source that it comes from. -/
structure LineMapping where
  line : Nat
  /-- The index of the source. -/
  source : Nat
  sourceLine : Nat
  deriving DecidableEq, Repr

/-- A source map: the sources with their texts, and mappings in the order of the generated lines. -/
structure SourceMap where
  sources : List (String × String) := []
  mappings : List LineMapping := []

namespace SourceMap

/-- The index of a source. -/
def indexOf? (map : SourceMap) (name : String) : Option Nat :=
  (map.sources.map (·.1)).idxOf? name

/-- The map with a source, and its index; a name that is there already keeps its text. -/
def addSource (map : SourceMap) (name text : String) : SourceMap × Nat :=
  match map.indexOf? name with
  | some i => (map, i)
  | none => ({ map with sources := map.sources ++ [(name, text)] }, map.sources.length)

/-- The map with mappings from successive lines to the first lines of a source. -/
def addLines (map : SourceMap) (line source count : Nat) : SourceMap :=
  { map with
    mappings := map.mappings ++ (List.range count).map fun i => ⟨line + i, source, i⟩ }

/-! ## Text. -/

/-- The digits of a number in base 32, the lowest first; all but the last are marked. The first argument
exceeds their number. -/
def digits : Nat → Nat → List Nat
  | 0, _ => []
  | fuel + 1, n => if n < 32 then [n] else (n % 32 + 32) :: digits fuel (n / 32)

/-- A number in base 64. -/
def encodeNumber (n : Int) : List Char :=
  let shifted := if n < 0 then 2 * n.natAbs + 1 else 2 * n.natAbs
  (digits (shifted + 1) shifted).map Text.Base64.encodeSextet

/-- Mappings as text: a semicolon for every line end from `line` on, and the differences to the source
and source line before. Columns are all zero. -/
def encodeMappings : Nat → Nat → Nat → List LineMapping → List Char
  | _, _, _, [] => []
  | line, source, sourceLine, m :: rest =>
    List.replicate (m.line - line) ';' ++ encodeNumber 0
      ++ encodeNumber ((m.source : Int) - source)
      ++ encodeNumber ((m.sourceLine : Int) - sourceLine) ++ encodeNumber 0
      ++ encodeMappings m.line m.source m.sourceLine rest

/-- The text of a source map for a file. -/
def text (map : SourceMap) (file : String) : String :=
  let texts (f : String × String → String) : Data.Value :=
    .list (map.sources.map fun s => .text (f s))
  let contents := if map.sources.isEmpty then [] else [("sourcesContent", texts (·.2))]
  Data.Json.compact (.table ([("version", .integer 3), ("file", .text file),
    ("names", .list []), ("sources", texts (·.1))] ++ contents
    ++ [("mappings", .text (String.ofList (encodeMappings 0 0 0 map.mappings)))]))

end SourceMap

end AssetBundler
