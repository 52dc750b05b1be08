/-
  AssetBundler.Serve.Client
  ────────────────────────────────
  **WHAT THE SERVER PUTS INTO PAGES.**

  The script by which pages hear of new builds, and the page that stands in
  for the project while nothing has been built.
-/
import AssetBundler.Build.Page

namespace AssetBundler.Client

open AssetBundler.Text

/-! ## §1. The script. -/

/-- Where pages connect to the server. -/
def socketPath : String := "/__weft_reload"

/-- Where the script is. -/
def scriptPath : String := "/__weft_reload.js"

/-- The place of the path of the connection in the script. -/
def socketMark : String := "__WEFT_RELOAD_PATH__"

/-- The place in the script that tells whether failures are shown in the page. -/
def overlayMark : String := "__WEFT_OVERLAY__"

/-- The script with its two places still open. -/
def scriptTemplate : String := Page.lines
  ["(function () \x7b",
   "  var overlay = __WEFT_OVERLAY__;",
   "  var protocol = location.protocol === \"https:\" ? \"wss:\" : \"ws:\";",
   "  var ws = new WebSocket(protocol + \"//\" + location.host + \"__WEFT_RELOAD_PATH__\");",
   "",
   "  function showError(message) \x7b",
   "    if (!overlay) return;",
   "    var el = document.getElementById(\"__weft_overlay\");",
   "    if (!el) \x7b",
   "      el = document.createElement(\"pre\");",
   "      el.id = \"__weft_overlay\";",
   "      el.style.cssText = \"position:fixed;inset:0;margin:0;padding:24px;z-index:2147483647;\" +",
   "        \"background:rgba(24,0,0,0.92);color:#ff8080;font:14px/1.5 monospace;white-space:pre-wrap;overflow:auto\";",
   "      document.body.appendChild(el);",
   "    \x7d",
   "    el.textContent = message;",
   "  \x7d",
   "",
   "  ws.onmessage = function (event) \x7b",
   "    var message = JSON.parse(event.data);",
   "    switch (message.type) \x7b",
   "      case \"reload\":",
   "        console.log(\"[weft] \" + message.reason);",
   "        location.reload();",
   "        break;",
   "      case \"build-error\":",
   "        console.error(\"[weft] build failed in \" + message.component + \": \" + message.message);",
   "        showError(\"Build failed in \" + message.component + \"\\n\\n\" + message.message);",
   "        break;",
   "      case \"connected\":",
   "        console.log(\"[weft] live reload connected\");",
   "        break;",
   "    \x7d",
   "  \x7d;",
   "",
   "  ws.onclose = function () \x7b",
   "    console.log(\"[weft] disconnected, reloading when the server is back...\");",
   "    setTimeout(function () \x7b location.reload(); \x7d, 1000);",
   "  \x7d;",
   "\x7d)();"]

/-- The script; `overlay` tells whether failures are shown in the page. -/
def script (overlay : Bool) : String :=
  Page.fill overlayMark (if overlay then "true" else "false")
    (Page.fill socketMark socketPath scriptTemplate)

/-- A page that loads the script. -/
def inject (page : String) : String :=
  Html.insertBefore page "</body>" ("<script src=\"" ++ scriptPath ++ "\"></script>")

/-! ## §2. The page for failures. -/

/-- How a character is written in the text of a page. -/
def escapedChar (c : Char) : List Char :=
  if c == '&' then "&amp;".toList
  else if c == '<' then "&lt;".toList
  else if c == '>' then "&gt;".toList
  else [c]

/-- A text as text of a page. -/
def escape (text : String) : String :=
  String.ofList (text.toList.flatMap escapedChar)

/-- The page for failures, without the script. -/
def plainErrorPage (message : String) : String := Page.lines
  ["<!DOCTYPE html>",
   "<html lang=\"en\">",
   "  <head>",
   "    <meta charset=\"UTF-8\" />",
   "    <title>Build failed</title>",
   "  </head>",
   "  <body style=\"margin:0;padding:24px;background:#180000;color:#ff8080;"
     ++ "font:14px/1.5 monospace\">",
   "    <h1>Build failed</h1>",
   "    <pre style=\"white-space:pre-wrap\">" ++ escape message ++ "</pre>",
   "  </body>",
   "</html>"]

/-- The page that shows why there is nothing to serve. -/
def errorPage (message : String) (liveReload : Bool) : String :=
  if liveReload then inject (plainErrorPage message) else plainErrorPage message

end AssetBundler.Client
