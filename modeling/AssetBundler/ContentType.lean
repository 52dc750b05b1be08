/-
  AssetBundler.ContentType
  ────────────────────────────────
  **CONTENT TYPES BY FILE EXTENSION.**

  The media type that a server declares for a file, and which extensions are
  those of static assets.  Letter case does not count.
-/
import AssetBundler.Text.CharClass

namespace AssetBundler.ContentType

/-- Extensions with their content types. -/
def table : List (String × String) :=
  [("html", "text/html; charset=utf-8"), ("htm", "text/html; charset=utf-8"),
   ("js", "application/javascript; charset=utf-8"),
   ("mjs", "application/javascript; charset=utf-8"),
   ("css", "text/css; charset=utf-8"),
   ("json", "application/json; charset=utf-8"), ("map", "application/json; charset=utf-8"),
   ("png", "image/png"), ("jpg", "image/jpeg"), ("jpeg", "image/jpeg"), ("gif", "image/gif"),
   ("webp", "image/webp"), ("avif", "image/avif"), ("ico", "image/x-icon"),
   ("bmp", "image/bmp"), ("svg", "image/svg+xml"),
   ("woff", "font/woff"), ("woff2", "font/woff2"), ("ttf", "font/ttf"), ("otf", "font/otf"),
   ("eot", "application/vnd.ms-fontobject"),
   ("mp3", "audio/mpeg"), ("wav", "audio/wav"), ("mp4", "video/mp4"), ("webm", "video/webm")]

/-- The content type of files that no other type is known for. -/
def unknown : String := "application/octet-stream"

/-- The extension with its ASCII letters in lower case. -/
def lowered (extension : String) : String :=
  String.ofList (extension.toList.map Text.asciiLower)

/-- The content type for an extension. -/
def ofExtension (extension : String) : String :=
  (table.lookup (lowered extension)).getD unknown

/-- Extensions of images, fonts, sounds and films. -/
def staticAssets : List String :=
  ["png", "jpg", "jpeg", "gif", "webp", "avif", "ico", "bmp", "svg",
   "eot", "otf", "ttf", "woff", "woff2", "mp3", "wav", "mp4", "webm"]

/-- Files with this extension are emitted even when no rule covers them. -/
def isStaticAsset (extension : String) : Bool :=
  staticAssets.contains (lowered extension)

end AssetBundler.ContentType
