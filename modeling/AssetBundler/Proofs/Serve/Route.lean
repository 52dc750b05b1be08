/-
  AssetBundler.Proofs.Serve.Route
  ────────────────────────────────
  **A FILE IS FOUND UNDER ITS ADDRESS.**

  Pages ask for the files of an output by their addresses, the public path with
  the path of the file behind it.  On its way an address is encoded: what must
  not stand in it as it is, is written in bytes.  The server takes the public
  path away and looks for the rest as it has been written, so it finds every
  file whose address is the same encoded, and a file with a space in its name
  not:

    • `Address.encode` — an address on its way,
    • `Server.relativePath_encode` — what the server looks for,
    • `Server.Serves` — a request is answered with a file,
    • `Bundler.respond_serves_files` — every file of a build is served,
    • `Bundler.encoded_name_not_found` — a file that is not.
-/
import AssetBundler.Proofs.Build.Output
import AssetBundler.Proofs.Build.Phases
import AssetBundler.Proofs.Text.Search
import AssetBundler.Proofs.Transform.Modes
import AssetBundler.Serve.Address
import AssetBundler.Serve.Server

namespace AssetBundler

open AssetBundler.Text

/-! ## §1. Addresses on their way. -/

namespace Address

/-- What may stand in the path of an address as it is. -/
def isPlain (c : Char) : Bool :=
  isAlphanumeric c
    || ['-', '.', '_', '~', '!', '$', '&', '\'', '(', ')', '*', '+', ',', ';', '=', ':', '@',
        '/'].contains c

def hexDigit (n : Nat) : Char :=
  "0123456789ABCDEF".toList.getD n '0'

/-- A byte in an address. -/
def encodedByte (b : UInt8) : List Char :=
  ['%', hexDigit (b.toNat / 16), hexDigit (b.toNat % 16)]

/-- A character in an address. -/
def encodedChar (c : Char) : List Char :=
  if isPlain c then [c] else (String.singleton c).toUTF8.toList.flatMap encodedByte

/-- **A path as it is written in an address.** -/
def encode (path : String) : String :=
  String.ofList (path.toList.flatMap encodedChar)

/-- The path is the same in an address. -/
def IsPlainText (path : String) : Prop :=
  ∀ c ∈ path.toList, isPlain c = true

instance (path : String) : Decidable (IsPlainText path) :=
  decidable_of_iff (path.toList.all isPlain = true) List.all_eq_true

theorem encode_append (p q : String) : encode (p ++ q) = encode p ++ encode q := by
  simp [encode, String.toList_append, List.flatMap_append, String.ofList_append]

theorem encode_of_isPlainText {path : String} (h : IsPlainText path) : encode path = path := by
  have hchars : ∀ cs : List Char, (∀ c ∈ cs, isPlain c = true) → cs.flatMap encodedChar = cs := by
    intro cs
    induction cs with
    | nil => exact fun _ => rfl
    | cons c cs ih =>
        intro hcs
        rw [List.flatMap_cons, ih fun d hd => hcs d (List.mem_cons_of_mem _ hd), encodedChar,
          if_pos (hcs c List.mem_cons_self)]
        rfl
  rw [encode, hchars _ h, String.ofList_toList]

end Address

/-! ## §2. Texts that are read again. -/

/-- A text that is written is read again, also where ill-formed bytes are mended. -/
theorem Text.Utf8.decodeLossy_toUTF8 (text : String) : decodeLossy text.toUTF8 = text := by
  rw [decodeLossy, lossyChars, decode_toUTF8]
  exact String.ofList_toList

/-! ## §3. Answers. -/

namespace Server

/-- The path is that of a page. -/
def IsPage (path : String) : Prop :=
  Path.extension? ⟨path⟩ = some "html"

/-- A page as it is served; with `liveReload` it has the script by which it hears of new builds. -/
def servedPage (liveReload : Bool) (page : String) : String :=
  if liveReload then Client.inject page else page

/-- **A request is answered with a file of an output**: pages as text, and everything else as it is. -/
structure Serves (s : Server) (o : BuildOutput) (path key : String) (content : ByteArray) :
    Prop where
  routed : route o path s.publicPath s.fallback = some key
  file : o.file? key = some content
  status : (s.respond path).status = 200
  bytes : ¬ IsPage key → (s.respond path).body = content
  page : IsPage key → ∀ page : String, content = page.toUTF8 →
    (s.respond path).body = (servedPage s.liveReload page).toUTF8
  /-- In a page whose bytes are no text, the offending ones are mended. -/
  mended : IsPage key →
    (s.respond path).body = (servedPage s.liveReload (Utf8.decodeLossy content)).toUTF8

variable {s : Server} {o : BuildOutput} {path key : String} {content : ByteArray}

theorem serves_of_route (hs : s.output? = some o)
    (hroute : route o path s.publicPath s.fallback = some key) (hfile : o.file? key = some content) :
    s.Serves o path key content := by
  have hanswer : s.respond path = fileResponse s.liveReload key content := by
    simp only [respond, hs, hroute, hfile]
  have hpage : IsPage key → s.respond path
      = Response.page 200 (servedPage s.liveReload (Utf8.decodeLossy content)) := by
    intro hpage
    rw [hanswer, fileResponse, show Path.extension? ⟨key⟩ = some "html" from hpage]
    rfl
  have hother : ¬ IsPage key → s.respond path
      = ⟨200, some (ContentType.ofExtension ((Path.extension? ⟨key⟩).getD "")), content⟩ := by
    intro hother
    have hextension : ((Path.extension? ⟨key⟩).getD "" == "html") = false := by
      cases hkey : Path.extension? ⟨key⟩ with
      | none => rfl
      | some extension =>
          refine beq_false_of_ne fun heq : extension = "html" => hother ?_
          rw [IsPage, hkey, heq]
    rw [hanswer, fileResponse, hextension]
    rfl
  refine ⟨hroute, hfile, ?_, fun h => by rw [hother h], fun h page hcontent => ?_,
    fun h => by rw [hpage h]; rfl⟩
  · by_cases h : IsPage key
    · rw [hpage h]
      rfl
    · rw [hother h]
  · rw [hpage h, hcontent, Utf8.decodeLossy_toUTF8]
    rfl

/-! ## §4. Routes. -/

/-- **What the server looks for**: the path of the file as it is written in the address. -/
theorem relativePath_encode {publicPath : String} (h : Address.IsPlainText publicPath)
    (key : String) : relativePath publicPath (Address.encode (publicPath ++ key))
      = Address.encode key := by
  rw [Address.encode_append, Address.encode_of_isPlainText h, relativePath, stripStart?,
    String.toList_append, dropPrefix?_append]
  exact String.ofList_toList

/-- A file of the output is found under its path; the empty path means the page. -/
theorem route_encode {publicPath : String} {fallback : Bool}
    (h : Address.IsPlainText (publicPath ++ key)) (hkey : key ≠ "" ∨ o.html = "")
    (hfile : o.file? key = some content) :
    route o (Address.encode (publicPath ++ key)) publicPath fallback = some key := by
  have hpublic : Address.IsPlainText publicPath := fun c hc => h c (by simp [hc])
  have hplain : Address.IsPlainText key := fun c hc => h c (by simp [hc])
  have hrelative := relativePath_encode hpublic key
  rw [Address.encode_of_isPlainText hplain] at hrelative
  have hmeant : (if key == "" then o.html else key) = key := by
    split
    next hempty => rw [hkey.resolve_left fun hne => hne (eq_of_beq hempty), eq_of_beq hempty]
    next => rfl
  unfold route
  simp only [hrelative, hmeant, hfile, Option.isSome_some, if_pos]

theorem route_empty {publicPath : String} {fallback : Bool}
    (h : Address.IsPlainText publicPath) (hfile : o.file? o.html = some content) :
    route o (Address.encode (publicPath ++ "")) publicPath fallback = some o.html := by
  have hrelative : relativePath publicPath (Address.encode (publicPath ++ "")) = "" :=
    relativePath_encode h ""
  unfold route
  simp only [hrelative, beq_self_eq_true, if_true, hfile, Option.isSome_some]

end Server

/-! ## §5. Builds. -/

namespace Bundler

variable {b : Bundler} {files : FileTree} {signal : CancelSignal} {write : Bool}
  {o : BuildOutput}

/-- The page of a build is one of its files. -/
theorem exists_page_of_execute (h : (b.execute signal write files).result = .ok o) :
    ∃ content, o.file? o.html = some content := by
  obtain ⟨g, hmade⟩ := exists_assemble_of_execute h
  obtain ⟨contents, _, houtput⟩ := (makes_of_assemble hmade).output
  obtain ⟨text, paged, _, hpaged, ho⟩ := Emit.exists_withPage_of_output houtput
  have hpage : ∃ content, paged.file? paged.html = some content := by
    rw [hpaged, Emit.file?_withPage]
    exact ⟨_, if_pos rfl⟩
  rcases ho with rfl | ⟨_, rfl⟩
  · exact hpage
  · -- the manifest takes the place of the page or leaves it
    rw [BuildOutput.file?_putFile]
    split
    next => exact ⟨_, rfl⟩
    next => exact hpage

/-- **EVERY FILE OF A BUILD IS SERVED** under its address, if that needs no encoding, whatever else has
happened to the server since the build.  The address with nothing behind the public path is that of
the page. -/
theorem respond_serves_files {s : Server} {key : String} {content : ByteArray}
    (hbuilt : (b.execute signal write files).result = .ok o) (hs : s.output? = some o)
    (hpublic : s.publicPath = b.config.publicPath) (hfile : o.file? key = some content)
    (hplain : Address.IsPlainText (b.config.publicPath ++ key)) :
    (key ≠ "" ∨ o.html = "" →
        s.Serves o (Address.encode (b.config.publicPath ++ key)) key content)
      ∧ (key = "" → ∃ page,
        s.Serves o (Address.encode (b.config.publicPath ++ key)) o.html page) := by
  rw [← hpublic] at hplain ⊢
  constructor
  · intro hkey
    exact Server.serves_of_route hs (Server.route_encode hplain hkey hfile) hfile
  · rintro rfl
    obtain ⟨page, hpage⟩ := exists_page_of_execute hbuilt
    have hpath : Address.IsPlainText s.publicPath := fun c hc => hplain c (by simp [hc])
    exact ⟨page, Server.serves_of_route hs (Server.route_empty hpath hpage) hpage⟩

/-- A project whose entry refers to a font. -/
def fontTree (name : String) : FileTree where
  entries :=
    [(["main.css"], .file ("a \x7b b:url(\"./" ++ name ++ "\") \x7d").toUTF8),
      ([name], .file "font".toUTF8)]

/-- Its configuration. -/
def fontConfig : Config :=
  { (Graph.projectOf []).config with
    entrypoints := [("main", "main.css")]
    ownRules := [{ name := "styles", test := "\\.css$", steps := ["css"] },
      { name := "fonts", test := "\\.woff$", steps := ["file"] }] }

/-- The server of the project behind a build. -/
def fontServer (o : BuildOutput) : Server :=
  { Server.ofConfig fontConfig true with output? := some o }

theorem font_is_served :
    ∃ b g o, FirstBuild (fontTree "photo.woff") fontConfig b g o
      ∧ b.config.publicPath = "/"
      ∧ o.file? "static/media/photo.795ea3ef.woff" = some "font".toUTF8
      ∧ Address.IsPlainText (b.config.publicPath ++ "static/media/photo.795ea3ef.woff")
      ∧ (fontServer o).Serves o
          (Address.encode (b.config.publicPath ++ "static/media/photo.795ea3ef.woff"))
          "static/media/photo.795ea3ef.woff" "font".toUTF8 := by
  obtain ⟨b, g, o, hbuild, hpublic, hfile⟩ :
      ∃ b g o, FirstBuild (fontTree "photo.woff") fontConfig b g o ∧ b.config.publicPath = "/"
        ∧ o.file? "static/media/photo.795ea3ef.woff" = some "font".toUTF8 :=
    exists_firstBuild (by decide +kernel)
  have hplain : Address.IsPlainText
      (b.config.publicPath ++ "static/media/photo.795ea3ef.woff") := by
    rw [hpublic]
    decide +kernel
  exact ⟨b, g, o, hbuild, hpublic, hfile, hplain,
    (respond_serves_files (s := fontServer o) hbuild.built rfl hpublic.symm hfile hplain).1
      (Or.inl (by decide))⟩

/-- **A file is not found** whose name has a space in it: the server looks for the name as it is written
in the address. -/
theorem encoded_name_not_found :
    ∃ b g o, FirstBuild (fontTree "my photo.woff") fontConfig b g o
      ∧ b.config.publicPath = "/"
      ∧ o.file? "static/media/my photo.795ea3ef.woff" = some "font".toUTF8
      ∧ Address.encode "/static/media/my photo.795ea3ef.woff"
          = "/static/media/my%20photo.795ea3ef.woff"
      ∧ ((fontServer o).respond "/static/media/my%20photo.795ea3ef.woff").status = 404 :=
  exists_firstBuild (by decide +kernel)

end Bundler

end AssetBundler
