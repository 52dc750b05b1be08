/-
  AssetBundler.Proofs.Style.Pieces
  ────────────────────────────────
  **A STYLESHEET AS PIECES.**

  Once its import rules have been taken out, a stylesheet is a list of pieces:
  characters that stay, and file references that get an address.  Every form
  in which it is written later, with placeholders or with addresses, is made
  of the same pieces, so what is done to the text can be said of these:

    • `Style.pieces`, `Style.written` — the pieces, and how they are written,
    • `Style.withAddresses_eq` — the text with the addresses put in,
    • `Style.replaceUrls_eq` — the text with placeholders, and its imports,
    • `Style.trim_written` — white space is taken off the pieces,
    • `Style.clean_pieces` — a beginning that the text has not, no run of
      characters has.
-/
import AssetBundler.Proofs.Text.Search
import AssetBundler.Style.Stylesheet
import Mathlib.Data.List.DropRight
import Mathlib.Data.List.Induction
import Mathlib.Data.List.Infix

namespace AssetBundler.Style

open AssetBundler.Text

/-! ## §1. Pieces. -/

/-- A piece of a stylesheet without local import rules. -/
inductive Piece where
  | char (c : Char)
  /-- A file reference, with the specifier of its file. -/
  | address (specifier : String)
  deriving DecidableEq

/-- The pieces of a text; `skip` characters of a reference are still to be passed over. -/
def pieces : Nat → List Char → List Piece
  | _, [] => []
  | skip + 1, _ :: rest => pieces skip rest
  | 0, c :: rest =>
    match urlReference? (c :: rest) with
    | none => .char c :: pieces 0 rest
    | some found =>
      (if isExternal found.target then ((c :: rest).take found.length).map .char
        else [.address (String.ofList found.target)]) ++ pieces (found.length - 1) rest

section

variable {c : Char} {rest : List Char} {found : Found}

theorem pieces_of_none (h : urlReference? (c :: rest) = none) :
    pieces 0 (c :: rest) = .char c :: pieces 0 rest := by
  rw [pieces, h]

theorem pieces_of_external (h : urlReference? (c :: rest) = some found)
    (hexternal : isExternal found.target = true) :
    pieces 0 (c :: rest)
      = ((c :: rest).take found.length).map .char ++ pieces (found.length - 1) rest := by
  rw [pieces, h]
  exact congrArg (· ++ _) (if_pos hexternal)

theorem pieces_of_local (h : urlReference? (c :: rest) = some found)
    (hlocal : ¬ isExternal found.target = true) :
    pieces 0 (c :: rest)
      = .address (String.ofList found.target) :: pieces (found.length - 1) rest := by
  rw [pieces, h]
  exact congrArg (· ++ _) (if_neg hlocal)

end

/-- How a piece is written, with a form for characters and one for what stands in a reference. -/
def Piece.written (encode : Char → List Char) (form : String → List Char) : Piece → List Char
  | .char c => encode c
  | .address specifier => "url(".toList ++ form specifier ++ [')']

/-- How some pieces are written. -/
def written (encode : Char → List Char) (form : String → List Char) (ps : List Piece) : List Char :=
  ps.flatMap (Piece.written encode form)

/-- A character as it is. -/
def single (c : Char) : List Char := [c]

/-- The specifiers of the file references. -/
def specifiers (ps : List Piece) : List String :=
  ps.filterMap fun
    | .char _ => none
    | .address specifier => some specifier

section

variable {encode : Char → List Char} {form : String → List Char} {ps qs : List Piece}

@[simp]
theorem written_nil : written encode form [] = [] := rfl

@[simp]
theorem written_char (c : Char) :
    written encode form (.char c :: ps) = encode c ++ written encode form ps := rfl

@[simp]
theorem written_address (specifier : String) :
    written encode form (.address specifier :: ps)
      = "url(".toList ++ form specifier ++ [')'] ++ written encode form ps := rfl

@[simp]
theorem written_append :
    written encode form (ps ++ qs) = written encode form ps ++ written encode form qs :=
  List.flatMap_append

@[simp]
theorem written_map_char (cs : List Char) :
    written encode form (cs.map .char) = cs.flatMap encode := by
  induction cs with
  | nil => rfl
  | cons c cs ih => rw [List.map_cons, written_char, ih, List.flatMap_cons]

@[simp]
theorem specifiers_append : specifiers (ps ++ qs) = specifiers ps ++ specifiers qs :=
  List.filterMap_append

@[simp]
theorem specifiers_map_char (cs : List Char) : specifiers (cs.map .char) = [] := by
  induction cs with
  | nil => rfl
  | cons c cs ih => exact ih

theorem flatMap_single (cs : List Char) : cs.flatMap single = cs := by
  induction cs with
  | nil => rfl
  | cons c cs ih => rw [List.flatMap_cons, ih]; rfl

end

/-! ## §2. The text with addresses. -/

/-- **The text with an address in every local file reference**, and all else as it is; `skip` characters
of a reference are still to be passed over. -/
def withAddresses (url : String → String) : Nat → List Char → List Char
  | _, [] => []
  | skip + 1, _ :: rest => withAddresses url skip rest
  | 0, c :: rest =>
    match urlReference? (c :: rest) with
    | none => c :: withAddresses url 0 rest
    | some found =>
      (if isExternal found.target then (c :: rest).take found.length
        else "url(".toList ++ (url (String.ofList found.target)).toList ++ [')'])
        ++ withAddresses url (found.length - 1) rest

theorem withAddresses_eq (url : String → String) (xs : List Char) : ∀ skip,
    withAddresses url skip xs = written single (fun s => (url s).toList) (pieces skip xs) := by
  induction xs with
  | nil => exact fun _ => rfl
  | cons c rest ih =>
      intro skip
      cases skip with
      | succ skip => exact ih skip
      | zero =>
          unfold withAddresses pieces
          split
          next => rw [written_char, ih]; rfl
          next found _ =>
            rw [written_append, ih]
            split
            next => rw [written_map_char, flatMap_single]
            next => rw [written_address, written_nil, List.append_nil]

/-! ## §3. The text with placeholders. -/

/-- The imports with those of some file references. -/
def recordAll (imports : List Import) (specifiers : List String) : List Import :=
  specifiers.foldl (fun imports s => record imports ⟨s, .url⟩) imports

theorem prefix_record (imports : List Import) (i : Import) : imports <+: record imports i := by
  unfold record
  split
  next => exact List.prefix_rfl
  next => exact List.prefix_append _ _

theorem mem_record (imports : List Import) (i : Import) : i ∈ record imports i := by
  unfold record
  split
  next h => exact List.contains_iff_mem.mp h
  next => exact List.mem_append_right _ List.mem_cons_self

theorem prefix_recordAll (imports : List Import) (specifiers : List String) :
    imports <+: recordAll imports specifiers := by
  induction specifiers generalizing imports with
  | nil => exact List.prefix_rfl
  | cons s rest ih => exact (prefix_record imports ⟨s, .url⟩).trans (ih _)

theorem mem_recordAll {imports : List Import} {specifiers : List String} {s : String}
    (h : s ∈ specifiers) : ⟨s, .url⟩ ∈ recordAll imports specifiers := by
  induction specifiers generalizing imports with
  | nil => cases h
  | cons s' rest ih =>
      rcases List.mem_cons.mp h with rfl | h
      · exact (prefix_recordAll _ rest).subset (mem_record imports ⟨s, .url⟩)
      · exact ih h

/-- The index of an import stays when more are recorded. -/
theorem idxOf_of_prefix {imports all : List Import} {i : Import} (h : imports <+: all)
    (hi : i ∈ imports) : all.idxOf i = imports.idxOf i := by
  obtain ⟨rest, rfl⟩ := h
  exact List.idxOf_append_of_mem hi

/-- What stands in a reference until its address is known. -/
def placeholderIn (imports : List Import) (specifier : String) : List Char :=
  Placeholder.text (imports.idxOf ⟨specifier, .url⟩)

/-- **The text with placeholders** is written with the same pieces, and its imports are those of the
references, each where it is recorded first. -/
theorem replaceUrls_eq (xs : List Char) : ∀ (skip : Nat) (imports : List Import),
    replaceUrls skip xs imports
      = ⟨written single (placeholderIn (recordAll imports (specifiers (pieces skip xs))))
          (pieces skip xs), recordAll imports (specifiers (pieces skip xs))⟩ := by
  induction xs with
  | nil => exact fun _ _ => rfl
  | cons c rest ih =>
      intro skip imports
      cases skip with
      | succ skip => exact ih skip imports
      | zero =>
          unfold replaceUrls
          cases hfound : urlReference? (c :: rest) with
          | none =>
              dsimp only
              rw [ih, pieces_of_none hfound]
              rfl
          | some found =>
              dsimp only
              by_cases hexternal : isExternal found.target = true
              · rw [if_pos hexternal, ih, pieces_of_external hfound hexternal, specifiers_append,
                  specifiers_map_char, List.nil_append, written_append, written_map_char,
                  flatMap_single]
              · rw [if_neg hexternal, ih, pieces_of_local hfound hexternal]
                -- the index is the one that the import has when it is recorded
                have hindex := idxOf_of_prefix
                  (prefix_recordAll _ (specifiers (pieces (found.length - 1) rest)))
                  (mem_record imports ⟨String.ofList found.target, .url⟩)
                have hall : recordAll imports (specifiers (.address (String.ofList found.target)
                      :: pieces (found.length - 1) rest))
                    = recordAll (record imports ⟨String.ofList found.target, .url⟩)
                        (specifiers (pieces (found.length - 1) rest)) := rfl
                rw [hall, written_address, placeholderIn, hindex]
                simp only [List.append_assoc, List.singleton_append]

/-! ## §4. White space at the ends. -/

/-- The piece is white space. -/
def Piece.isBlank : Piece → Bool
  | .char c => isSpace c
  | .address _ => false

/-- The pieces without white space at their ends. -/
def trimPieces (ps : List Piece) : List Piece :=
  (ps.dropWhile Piece.isBlank).rdropWhile Piece.isBlank

theorem dropWhile_written (form : String → List Char) (ps : List Piece) :
    (written single form ps).dropWhile isSpace
      = written single form (ps.dropWhile Piece.isBlank) := by
  induction ps with
  | nil => rfl
  | cons p ps ih =>
      cases p with
      | char c =>
          by_cases hc : isSpace c = true
          · rw [List.dropWhile_cons_of_pos (by exact hc), ← ih]
            exact List.dropWhile_cons_of_pos hc
          · rw [List.dropWhile_cons_of_neg (by exact hc)]
            exact List.dropWhile_cons_of_neg hc
      | address s =>
          rw [List.dropWhile_cons_of_neg Bool.false_ne_true]
          exact List.dropWhile_cons_of_neg (by decide)

theorem trimEnd_written (form : String → List Char) (ps : List Piece) :
    trimEnd (written single form ps) = written single form (ps.rdropWhile Piece.isBlank) := by
  show (written single form ps).rdropWhile isSpace = _
  induction ps using List.reverseRecOn with
  | nil => rfl
  | append_singleton ps p ih =>
      rw [List.rdropWhile_concat, written_append]
      cases p with
      | char c =>
          show (written single form ps ++ [c]).rdropWhile isSpace = _
          rw [List.rdropWhile_concat]
          show (if isSpace c = true then _ else _) = written single form (if isSpace c = true then _ else _)
          split
          next => exact ih
          next => rw [written_append]; rfl
      | address s =>
          -- a reference ends with its parenthesis
          have hends : written single form ps ++ written single form [.address s]
              = (written single form ps ++ ("url(".toList ++ form s)) ++ [')'] := by
            simp
          rw [hends, List.rdropWhile_concat_neg _ _ _ (by decide)]
          show _ = written single form (ps ++ [.address s])
          rw [← hends, written_append]

/-- **White space is taken off the pieces.** -/
theorem trim_written (form : String → List Char) (ps : List Piece) :
    trim (written single form ps) = written single form (trimPieces ps) := by
  rw [trim, dropWhile_written, trimEnd_written]
  rfl

/-- No reference is taken off. -/
theorem specifiers_trimPieces (ps : List Piece) : ∀ s ∈ specifiers (trimPieces ps), s ∈ specifiers ps := by
  intro s hs
  have hsub : (trimPieces ps).Sublist ps :=
    (List.rdropWhile_prefix _ _).sublist.trans (List.dropWhile_sublist _)
  exact (hsub.filterMap _).subset hs

/-! ## §5. Runs of characters. -/

/-- The characters that some pieces begin with. -/
def run : List Piece → List Char
  | .char c :: ps => c :: run ps
  | _ => []

/-- **A text begins nowhere** in a run of characters. -/
def Clean (opening : List Char) : List Piece → Prop
  | [] => True
  | .char c :: ps => ¬ opening <+: c :: run ps ∧ Clean opening ps
  | .address _ :: ps => Clean opening ps

section

variable {opening : List Char} {ps qs : List Piece}

theorem prefix_run_append : ∀ ps : List Piece, run ps <+: run (ps ++ qs)
  | [] => List.nil_prefix
  | .char _ :: ps => List.cons_prefix_cons.mpr ⟨rfl, prefix_run_append ps⟩
  | .address _ :: _ => List.nil_prefix

theorem run_map_char_append (cs : List Char) : run (cs.map .char ++ ps) = cs ++ run ps := by
  induction cs with
  | nil => rfl
  | cons c cs ih => exact congrArg (c :: ·) ih

theorem Clean.of_append_left (h : Clean opening (ps ++ qs)) : Clean opening ps := by
  induction ps with
  | nil => trivial
  | cons p ps ih =>
      cases p with
      | char c =>
          have hrun : c :: run ps <+: c :: run (ps ++ qs) :=
            List.cons_prefix_cons.mpr ⟨rfl, prefix_run_append ps⟩
          exact ⟨fun hbegins => h.1 (hbegins.trans hrun), ih h.2⟩
      | address s => exact ih h

theorem Clean.of_append_right (h : Clean opening (ps ++ qs)) : Clean opening qs := by
  induction ps with
  | nil => exact h
  | cons p ps ih =>
      cases p with
      | char c => exact ih h.2
      | address s => exact ih h

theorem Clean.trimPieces (h : Clean opening ps) : Clean opening (Style.trimPieces ps) := by
  have hdropped : Clean opening (ps.dropWhile Piece.isBlank) := by
    rw [← List.takeWhile_append_dropWhile (p := Piece.isBlank) (l := ps)] at h
    exact h.of_append_right
  obtain ⟨rest, hrest⟩ := List.rdropWhile_prefix Piece.isBlank (ps.dropWhile Piece.isBlank)
  rw [← hrest] at hdropped
  exact hdropped.of_append_left

theorem Clean.map_char_append (h : Clean opening ps) : ∀ {cs : List Char},
    ¬ opening <:+: cs ++ run ps → Clean opening (cs.map .char ++ ps)
  | [], _ => h
  | c :: cs, hcs => by
      refine ⟨fun hbegins => hcs ?_, h.map_char_append fun hoccurs => hcs ?_⟩
      · have hrun : run (cs.map .char ++ ps) = cs ++ run ps := run_map_char_append cs
        exact (hrun ▸ hbegins : opening <+: c :: (cs ++ run ps)).isInfix
      · exact hoccurs.trans (List.suffix_cons c (cs ++ run ps)).isInfix

end

/-! ## §6. The runs of a text. -/

theorem length_dropQuote_le (text : List Char) : (dropQuote text).length ≤ text.length := by
  unfold dropQuote
  split
  next =>
    split
    next => exact Nat.le_succ _
    next => exact Nat.le_refl _
  next => exact Nat.le_refl _

theorem length_lt_of_dropClosing? {text behind : List Char} (h : dropClosing? text = some behind) :
    behind.length < text.length := by
  unfold dropClosing? at h
  split at h
  next rest hrest =>
    obtain rfl := Option.some.inj h
    have hle := List.length_dropWhile_le isSpace text
    rw [hrest] at hle
    exact hle
  next => cases h

/-- A file reference has a character at least. -/
theorem length_pos_of_urlReference? {text : List Char} {found : Found}
    (h : urlReference? text = some found) : 0 < found.length := by
  unfold urlReference? at h
  split at h
  next => cases h
  next rest hrest =>
    have htext : text.length = 4 + rest.length := by
      rw [dropPrefix?_eq_some_iff.mp hrest, List.length_append]
      rfl
    -- whatever is read behind the opening, what is left is shorter than the text
    have hargument := List.length_dropWhile_le isSpace rest
    have hpos : ∀ {xs behind : List Char}, xs.length ≤ rest.length →
        dropClosing? (dropQuote xs) = some behind → 0 < text.length - behind.length := by
      intro xs behind hle hclosed
      have hlt := length_lt_of_dropClosing? hclosed
      have hquote := length_dropQuote_le xs
      omega
    dsimp only at h
    split at h
    next behind hclosed =>
      obtain rfl := Option.some.inj h
      split at hclosed
      next => cases hclosed
      next =>
        refine hpos ?_ hclosed
        have hinner := length_dropQuote_le (rest.dropWhile isSpace)
        have hbehind := List.length_dropWhile_le isUrlChar (dropQuote (rest.dropWhile isSpace))
        omega
    next =>
      split at h
      next =>
        obtain ⟨behind, hclosed, rfl⟩ := Option.map_eq_some_iff.mp h
        exact hpos hargument hclosed
      next => cases h

/-- A text is what is taken of it, and what is left when its rest is passed over. -/
theorem take_append_drop_pred {c : Char} {rest : List Char} {n : Nat} (hn : 0 < n) :
    (c :: rest).take n ++ rest.drop (n - 1) = c :: rest := by
  obtain ⟨n, rfl⟩ := Nat.exists_eq_succ_of_ne_zero (Nat.pos_iff_ne_zero.mp hn)
  exact List.take_append_drop (n + 1) (c :: rest)

/-- The pieces of a text begin with characters that it begins with. -/
theorem prefix_run_pieces (xs : List Char) : ∀ skip, run (pieces skip xs) <+: xs.drop skip := by
  induction xs with
  | nil => exact fun _ => List.nil_prefix
  | cons c rest ih =>
      intro skip
      cases skip with
      | succ skip => exact ih skip
      | zero =>
          rw [List.drop_zero]
          cases hfound : urlReference? (c :: rest) with
          | none =>
              rw [pieces_of_none hfound]
              exact List.cons_prefix_cons.mpr ⟨rfl, ih 0⟩
          | some found =>
              by_cases hexternal : isExternal found.target = true
              · rw [pieces_of_external hfound hexternal, run_map_char_append]
                conv_rhs => rw [← take_append_drop_pred (length_pos_of_urlReference? hfound)]
                exact (List.prefix_append_right_inj _).mpr (ih _)
              · rw [pieces_of_local hfound hexternal]
                exact List.nil_prefix

/-- **What the text has nowhere, its runs of characters have nowhere.** -/
theorem clean_pieces {opening xs : List Char} (h : ¬ opening <:+: xs) :
    ∀ skip, Clean opening (pieces skip xs) := by
  induction xs with
  | nil => exact fun _ => trivial
  | cons c rest ih =>
      have hrest : ∀ skip, Clean opening (pieces skip rest) :=
        ih fun hoccurs => h (hoccurs.trans (List.suffix_cons c rest).isInfix)
      intro skip
      cases skip with
      | succ skip => exact hrest skip
      | zero =>
          cases hfound : urlReference? (c :: rest) with
          | none =>
              rw [pieces_of_none hfound]
              refine ⟨fun hbegins => h ?_, hrest 0⟩
              exact (hbegins.trans (List.cons_prefix_cons.mpr ⟨rfl, prefix_run_pieces rest 0⟩)).isInfix
          | some found =>
              by_cases hexternal : isExternal found.target = true
              · rw [pieces_of_external hfound hexternal]
                refine (hrest _).map_char_append fun hoccurs => h (hoccurs.trans ?_)
                conv_rhs => rw [← take_append_drop_pred (length_pos_of_urlReference? hfound)]
                exact ((List.prefix_append_right_inj _).mpr (prefix_run_pieces rest _)).isInfix
              · rw [pieces_of_local hfound hexternal]
                exact hrest _

end AssetBundler.Style
