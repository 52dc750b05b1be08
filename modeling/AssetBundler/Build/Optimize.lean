/-
  AssetBundler.Build.Optimize
  ────────────────────────────────
  **CHUNKS FOR PRODUCTION.**

  Before it is emitted in production a chunk is read as a whole; one that
  cannot be read fails the build.
-/
import AssetBundler.Build.Render
import AssetBundler.Style.Syntax.Rule

namespace AssetBundler.Optimize

/-- The text of a chunk can be read. -/
def isReadable (kind : ChunkKind) (code : String) : Bool :=
  match kind with
  | .script => (Script.parse? false code.toList).isSome
  | .stylesheet => Style.Syntax.isStylesheet code.toList

/-- A chunk for production. -/
def chunk (c : Chunk) (rendered : RenderedChunk) : Except BuildError RenderedChunk :=
  if isReadable c.kind rendered.code then .ok { rendered with map? := none }
  else .error (.optimization (c.name ++ "." ++ c.kind.extension))

end AssetBundler.Optimize
