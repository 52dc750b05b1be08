/-
  AssetBundler.Build.Page
  ────────────────────────────────
  **THE PAGE AND ITS RUNTIME.**

  The page loads the stylesheets and scripts of the entries.  An inline
  script in front of them runs registered modules and fetches the files of
  deferred ones by a map from module names to addresses.
-/
import AssetBundler.Config.Basic
import AssetBundler.Html
import AssetBundler.Text.Quoted

namespace AssetBundler

open AssetBundler.Text

/-! ## §1. The runtime. -/

/-- The files to be fetched before a deferred module can run. -/
structure DeferredFiles where
  js : List String := []
  css : List String := []
  deriving DecidableEq, Repr

namespace Page

/-- Lines of text, each with its line break. -/
def lines (texts : List String) : String :=
  String.join (texts.map (· ++ "\n"))

/-- The place of the map of deferred modules in the runtime. -/
def chunkMapMark : String := "__WEFT_CHUNK_MAP__"

/-- The place of the list of addresses that the page loads itself. -/
def initialMark : String := "__WEFT_INITIAL__"

/-- The runtime with its two places still open. -/
def runtimeTemplate : String := lines
  ["(function () \x7b",
   "  var modules = self.__weft_modules__ = self.__weft_modules__ || \x7b\x7d;",
   "  var chunks = self.__weft_chunks__ = __WEFT_CHUNK_MAP__;",
   "  var cache = \x7b\x7d;",
   "  var loading = \x7b\x7d;",
   "",
   "  __WEFT_INITIAL__.forEach(function (url) \x7b",
   "    loading[url] = new Promise(function (resolve) \x7b",
   "      if (document.readyState === \"loading\") \x7b",
   "        document.addEventListener(\"DOMContentLoaded\", resolve);",
   "      \x7d else \x7b",
   "        resolve();",
   "      \x7d",
   "    \x7d);",
   "  \x7d);",
   "",
   "  function fetchFile(url, css) \x7b",
   "    if (!loading[url]) \x7b",
   "      loading[url] = new Promise(function (resolve, reject) \x7b",
   "        var el = document.createElement(css ? \"link\" : \"script\");",
   "        if (css) \x7b",
   "          el.rel = \"stylesheet\";",
   "          el.href = url;",
   "        \x7d else \x7b",
   "          el.src = url;",
   "        \x7d",
   "        el.onload = resolve;",
   "        el.onerror = function () \x7b",
   "          delete loading[url];",
   "          reject(new Error(\"Failed to load \" + url));",
   "        \x7d;",
   "        document.head.appendChild(el);",
   "      \x7d);",
   "    \x7d",
   "    return loading[url];",
   "  \x7d",
   "",
   "  function run(id) \x7b",
   "    if (id === null) return \x7b\x7d;",
   "    if (cache[id]) return cache[id].exports;",
   "    var entry = modules[id];",
   "    if (!entry) throw new Error(\"Module not found: \" + id);",
   "    var module = cache[id] = \x7b exports: \x7b\x7d \x7d;",
   "    var deps = entry[1];",
   "    entry[0].call(module.exports, module, module.exports, function (spec) \x7b",
   "      return run(deps[spec] === undefined ? spec : deps[spec]);",
   "    \x7d, function (spec) \x7b",
   "      return load(deps[spec] === undefined ? spec : deps[spec]);",
   "    \x7d);",
   "    return module.exports;",
   "  \x7d",
   "",
   "  function load(id) \x7b",
   "    var files = chunks[id] || \x7b js: [], css: [] \x7d;",
   "    var pending = files.css.map(function (url) \x7b return fetchFile(url, true); \x7d)",
   "      .concat(files.js.map(function (url) \x7b return fetchFile(url, false); \x7d));",
   "    return Promise.all(pending).then(function () \x7b return run(id); \x7d);",
   "  \x7d",
   "",
   "  self.__weft_require__ = run;",
   "  self.__weft_import__ = load;",
   "\x7d)();"]

/-- Texts as an array literal. -/
def arrayLiteral (texts : List String) : String :=
  "[" ++ ", ".intercalate (texts.map quote) ++ "]"

/-- The map of deferred modules as an object literal. -/
def chunkMapLiteral (chunkMap : TextMap DeferredFiles) : String :=
  let entries := chunkMap.map fun (name, files) =>
    quote name ++ ": \x7b js: " ++ arrayLiteral files.js ++ ", css: "
      ++ arrayLiteral files.css ++ " \x7d"
  "\x7b" ++ ", ".intercalate entries ++ "\x7d"

/-- A text with every occurrence of a mark replaced. -/
def fill (mark value text : String) : String :=
  String.ofList (replaceAll mark.toList value.toList text.toList)

/-- The runtime for some deferred modules; `initial` holds the addresses that the page loads itself. -/
def runtime (chunkMap : TextMap DeferredFiles) (initial : List String) : String :=
  fill initialMark (arrayLiteral initial)
    (fill chunkMapMark (chunkMapLiteral chunkMap) runtimeTemplate)

/-! ## §2. The page. -/

/-- The page of projects without a template. -/
def defaultTemplate (title : String) : String := lines
  ["<!DOCTYPE html>",
   "<html lang=\"en\">",
   "  <head>",
   "    <meta charset=\"UTF-8\" />",
   "    <meta name=\"viewport\" content=\"width=device-width, initial-scale=1.0\" />",
   "    <title>" ++ title ++ "</title>",
   "  </head>",
   "  <body>",
   "    <div id=\"app\"></div>",
   "  </body>",
   "</html>"]

/-- What is put into a template. -/
structure Shell where
  /-- Addresses of stylesheets, those needed first in front. -/
  stylesheets : List String := []
  /-- Addresses of scripts, those needed first in front. -/
  scripts : List String := []
  chunkMap : TextMap DeferredFiles := []

/-- The addresses that a page loads itself. -/
def Shell.initial (shell : Shell) : List String :=
  shell.stylesheets ++ shell.scripts

/-- The elements that load stylesheets. -/
def Shell.links (shell : Shell) : String :=
  String.join (shell.stylesheets.map fun address =>
    "<link rel=\"stylesheet\" href=\"" ++ address ++ "\">")

/-- The runtime and the elements that load scripts. -/
def Shell.scriptElements (shell : Shell) : String :=
  let inline := String.ofList (trimEnd (runtime shell.chunkMap shell.initial).toList)
  "<script>" ++ inline ++ "</script>"
    ++ String.join (shell.scripts.map fun address =>
      "<script src=\"" ++ address ++ "\"></script>")

/-- A template with stylesheets at the end of its head and scripts at the end of its body. -/
def Shell.render (shell : Shell) (template : String) : String :=
  Html.insertBefore (Html.insertBefore template "</head>" shell.links) "</body>"
    shell.scriptElements

end Page

end AssetBundler
