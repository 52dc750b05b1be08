/-
  AssetBundler.Proofs.Style.Search
  ────────────────────────────────
  **A SEARCH THROUGH A STYLESHEET.**

  A stylesheet is searched from left to right, once for import rules and once
  for file references; what is found is passed over as a whole.  A search goes
  part by part as long as what it looks for begins at the head of certain
  parts only, and these are gone through by themselves:

    • `Style.removeImports_eq`, `Style.pieces_eq` — the two searches,
    • `Style.Passes` — texts that a search goes through by themselves,
    • `Style.Passes.exists_leaves` — texts of which all is left,
    • `Style.cuts_textOf` — a search through parts.
-/
import AssetBundler.Proofs.Style.Parts
import AssetBundler.Proofs.Style.Pieces
import Mathlib

namespace AssetBundler.Style

open AssetBundler.Text AssetBundler.Style.Syntax

/-! ## §1. Searching. -/

/-- What a search makes of a text: a character that is passed over, or what has been found, with its
target and its text. -/
inductive Cut where
  | char (c : Char)
  | found (target text : List Char)

/-- A text in which references of one kind are searched for, from left to right; `skip` characters of a
reference are still to be passed over. -/
def cuts (find : List Char → Option Found) : Nat → List Char → List Cut
  | _, [] => []
  | skip + 1, _ :: rest => cuts find skip rest
  | 0, c :: rest =>
    match find (c :: rest) with
    | none => .char c :: cuts find 0 rest
    | some found =>
      .found found.target ((c :: rest).take found.length) :: cuts find (found.length - 1) rest

namespace Cut

/-- What is left of the text when references of the project are taken out. -/
def left : Cut → List Char
  | char c => [c]
  | found target text => if isExternal target then text else []

/-- What is asked for by a reference of the project. -/
def import? (kind : ImportKind) : Cut → Option Import
  | char _ => none
  | found target _ => if isExternal target then none else some ⟨String.ofList target, kind⟩

/-- The pieces of the text when it is searched for references to files. -/
def pieces : Cut → List Piece
  | char c => [.char c]
  | found target text => if isExternal target then text.map .char else [.address (String.ofList target)]

end Cut

/-- **Import rules are taken out** of what the search finds. -/
theorem removeImports_eq (text : List Char) : ∀ (skip : Nat) (imports : List Import),
    removeImports skip text imports
      = ⟨(cuts importRule? skip text).flatMap Cut.left,
          ((cuts importRule? skip text).filterMap (Cut.import? .style)).foldl record imports⟩ := by
  induction text with
  | nil => exact fun _ _ => rfl
  | cons c rest ih =>
      intro skip imports
      cases skip with
      | succ skip => exact ih skip imports
      | zero =>
          unfold removeImports cuts
          cases hfound : importRule? (c :: rest) with
          | none =>
              dsimp only
              rw [ih]
              rfl
          | some found =>
              dsimp only
              by_cases hexternal : isExternal found.target = true
              · rw [if_pos hexternal, ih, List.flatMap_cons, List.filterMap_cons, Cut.left, Cut.import?,
                  if_pos hexternal, if_pos hexternal]
              · rw [if_neg hexternal, ih, List.flatMap_cons, List.filterMap_cons, Cut.left, Cut.import?,
                  if_neg hexternal, if_neg hexternal]
                rfl

/-- **The pieces of a stylesheet** are those of what the search finds. -/
theorem pieces_eq (text : List Char) : ∀ skip,
    pieces skip text = (cuts urlReference? skip text).flatMap Cut.pieces := by
  induction text with
  | nil => exact fun _ => rfl
  | cons c rest ih =>
      intro skip
      cases skip with
      | succ skip => exact ih skip
      | zero =>
          unfold pieces cuts
          cases urlReference? (c :: rest) with
          | none =>
              dsimp only
              rw [ih, List.flatMap_cons]
              rfl
          | some found =>
              dsimp only
              rw [ih, List.flatMap_cons]
              rfl

section

variable {find : List Char → Option Found} {needle : List Char}

theorem cuts_skip (text : List Char) : ∀ skip, cuts find skip text = cuts find 0 (text.drop skip) := by
  induction text with
  | nil => exact fun skip => by rw [cuts, List.drop_nil, cuts]
  | cons c rest ih =>
      intro skip
      cases skip with
      | zero => rfl
      | succ skip => exact ih skip

/-- A text in which nothing is found. -/
theorem cuts_append {text rest : List Char}
    (h : ∀ zs, zs <:+ text → zs ≠ [] → find (zs ++ rest) = none) :
    cuts find 0 (text ++ rest) = text.map .char ++ cuts find 0 rest := by
  induction text with
  | nil => rfl
  | cons c text ih =>
      have hnone : find (c :: (text ++ rest)) = none :=
        h (c :: text) List.suffix_rfl (List.cons_ne_nil _ _)
      rw [List.cons_append, cuts, hnone]
      dsimp only
      rw [ih fun zs hzs hne => h zs (hzs.trans (List.suffix_cons _ _)) hne]
      rfl

/-! ## §2. Texts that are gone through. -/

/-- **A search passes through a text** by itself, whatever stands behind it. -/
def Passes (find : List Char → Option Found) (text : List Char) (seen : List Cut) : Prop :=
  ∀ rest, cuts find 0 (text ++ rest) = seen ++ cuts find 0 rest

namespace Passes

variable {text text' target : List Char} {seen seen' : List Cut}

theorem eq (h : Passes find text seen) : cuts find 0 text = seen := by
  have hnil := h []
  rwa [List.append_nil, cuts, List.append_nil] at hnil

theorem append (h : Passes find text seen) (h' : Passes find text' seen') :
    Passes find (text ++ text') (seen ++ seen') := by
  intro rest
  rw [List.append_assoc, h, h', List.append_assoc]

/-- A search that finds something at the head of a text goes on behind it. -/
theorem cons_found {n : Nat} (hpos : 0 < n) (hle : n ≤ text.length)
    (h : ∀ rest, find (text ++ rest) = some ⟨target, n⟩) (hrest : Passes find (text.drop n) seen) :
    Passes find text (.found target (text.take n) :: seen) := by
  intro rest
  cases text with
  | nil => exact absurd (hle.trans (Nat.le_refl 0)) (by omega)
  | cons c text =>
      have hfound := h rest
      rw [List.cons_append] at hfound ⊢
      have hskip : (text ++ rest).drop (n - 1) = (c :: text).drop n ++ rest := by
        obtain ⟨k, rfl⟩ := Nat.exists_eq_succ_of_ne_zero (Nat.pos_iff_ne_zero.mp hpos)
        exact List.drop_append_of_le_length (Nat.le_of_succ_le_succ hle)
      have htake : (c :: (text ++ rest)).take n = (c :: text).take n := by
        rw [← List.cons_append, List.take_append_of_le_length hle]
      rw [cuts, hfound]
      dsimp only
      rw [cuts_skip, hskip, hrest, htake]
      rfl

/-- A text that is found as a whole. -/
theorem of_found (hne : text ≠ []) (h : ∀ rest, find (text ++ rest) = some ⟨target, text.length⟩) :
    Passes find text [.found target text] := by
  have hrest : Passes find (text.drop text.length) [] := by
    rw [List.drop_length]
    exact fun rest => rfl
  have hpasses := cons_found (List.length_pos_of_ne_nil hne) (Nat.le_refl _) h hrest
  rwa [List.take_length] at hpasses

end Passes

/-- What a text has nowhere begins nowhere in it, unless it goes on behind it. -/
theorem not_prefix_append {text rest : List Char} (hfree : ¬ needle <:+: text)
    (hhead : ∀ c ∈ rest.head?, c ∉ needle.tail) :
    ∀ zs, zs <:+ text → zs ≠ [] → ¬ needle <+: zs ++ rest := by
  rintro zs hzs hne ⟨behind, hbehind⟩
  rcases List.append_eq_append_iff.mp hbehind with ⟨others, hothers, -⟩ | ⟨others, hothers, hrest⟩
  · exact hfree (List.IsInfix.trans ⟨[], others, hothers.symm⟩ hzs.isInfix)
  · cases others with
    | nil =>
        rw [List.append_nil] at hothers
        exact hfree (hothers ▸ hzs.isInfix)
    | cons c others =>
        rw [List.cons_append] at hrest
        cases zs with
        | nil => exact hne rfl
        | cons z zs =>
            -- the character behind the text is not the first one
            have hmem : c ∈ needle.tail := by
              rw [hothers]
              exact List.mem_append_right zs List.mem_cons_self
            exact hhead c (by rw [hrest]; rfl) hmem

/-- What is searched for neither begins in the text nor reaches into it. -/
theorem Passes.closed {text : List Char} {last : Char} (hfind : ∀ xs, find xs ≠ none → needle <+: xs)
    (hne : needle ≠ []) (hfree : ¬ needle <:+: text) (hlast : last ∉ needle) :
    Passes find (text ++ [last]) ((text ++ [last]).map .char) := by
  intro rest
  have hnone : find (last :: rest) = none := by
    by_contra hfound
    obtain ⟨behind, hbehind⟩ := hfind _ hfound
    cases needle with
    | nil => exact hne rfl
    | cons a needle =>
        obtain ⟨rfl, -⟩ := List.cons.inj hbehind
        exact hlast List.mem_cons_self
  have hhead : ∀ c ∈ (last :: rest).head?, c ∉ needle.tail := by
    intro c hc hmem
    obtain rfl : last = c := Option.some.inj hc
    exact hlast (List.mem_of_mem_tail hmem)
  rw [List.append_assoc, List.singleton_append, cuts_append fun zs hzs hne => not_not.mp fun hfound =>
    not_prefix_append hfree hhead zs hzs hne (hfind _ hfound), cuts, hnone, List.map_append, List.append_assoc]
  rfl

/-- **Nothing of the project is found**: what is passed over and what is found make up the text, which is
left as it is. -/
structure Leaves (seen : List Cut) (text : List Char) : Prop where
  left : seen.flatMap Cut.left = text
  imports : ∀ kind, seen.filterMap (Cut.import? kind) = []
  pieces : seen.flatMap Cut.pieces = text.map .char

theorem Leaves.map_char (text : List Char) : Leaves (text.map .char) text := by
  induction text with
  | nil => exact ⟨rfl, fun _ => rfl, rfl⟩
  | cons c text ih =>
      refine ⟨?_, fun kind => ?_, ?_⟩
      · rw [List.map_cons, List.flatMap_cons, ih.left]
        rfl
      · rw [List.map_cons, List.filterMap_cons_none rfl, ih.imports kind]
      · rw [List.map_cons, List.flatMap_cons, ih.pieces]
        rfl

theorem Leaves.append {seen seen' : List Cut} {text text' : List Char} (h : Leaves seen text)
    (h' : Leaves seen' text') : Leaves (seen ++ seen') (text ++ text') := by
  refine ⟨?_, fun kind => ?_, ?_⟩
  · rw [List.flatMap_append, h.left, h'.left]
  · rw [List.filterMap_append, h.imports, h'.imports, List.nil_append]
  · rw [List.flatMap_append, h.pieces, h'.pieces, List.map_append]

theorem Leaves.found {target : List Char} (text : List Char) (hexternal : isExternal target = true) :
    Leaves [.found target text] text := by
  refine ⟨?_, fun kind => ?_, ?_⟩
  · rw [List.flatMap_singleton, Cut.left, if_pos hexternal]
  · rw [List.filterMap_cons_none (by rw [Cut.import?, if_pos hexternal]), List.filterMap_nil]
  · rw [List.flatMap_singleton, Cut.pieces, if_pos hexternal]

/-- **A search passes through a text in which it finds nothing of the project.**  What it looks for stands
at the head of the text and nowhere else in it. -/
theorem Passes.exists_leaves {c last : Char} {core : List Char} (hfind : ∀ xs, find xs ≠ none → needle <+: xs)
    (hne : needle ≠ []) (hcore : ¬ needle <:+: core) (hlast : last ∉ needle)
    (hstable : ∀ rest, find (c :: (core ++ [last]) ++ rest) = find (c :: (core ++ [last])))
    (hexternal : ∀ found, find (c :: (core ++ [last])) = some found → isExternal found.target = true
      ∧ 0 < found.length ∧ found.length ≤ (c :: (core ++ [last])).length) :
    ∃ seen, Passes find (c :: (core ++ [last])) seen ∧ Leaves seen (c :: (core ++ [last])) := by
  -- what is searched for begins in no end of the text but the whole
  have hends : ∀ k, Passes find ((core ++ [last]).drop k) (((core ++ [last]).drop k).map .char) := by
    intro k
    rcases Nat.lt_or_ge core.length k with hk | hk
    · rw [List.drop_eq_nil_of_le (by simpa using hk)]
      exact fun rest => rfl
    · rw [List.drop_append_of_le_length hk]
      exact .closed hfind hne (fun hoccurs => hcore (hoccurs.trans (List.drop_suffix k core).isInfix)) hlast
  cases hfound : find (c :: (core ++ [last])) with
  | none =>
      refine ⟨_, fun rest => ?_, .map_char _⟩
      have hnone := (hstable rest).trans hfound
      rw [List.cons_append] at hnone ⊢
      rw [cuts, hnone]
      dsimp only
      have hcut := hends 0 rest
      rw [List.drop_zero] at hcut
      rw [hcut]
      rfl
  | some found =>
      obtain ⟨hout, hpos, hle⟩ := hexternal found hfound
      obtain ⟨k, hk⟩ := Nat.exists_eq_succ_of_ne_zero (Nat.pos_iff_ne_zero.mp hpos)
      have hdrop : (c :: (core ++ [last])).drop found.length = (core ++ [last]).drop k := by rw [hk]; rfl
      refine ⟨_, .cons_found hpos hle (fun rest => (hstable rest).trans hfound) (hdrop ▸ hends k), ?_⟩
      have hleaves := (Leaves.found ((c :: (core ++ [last])).take found.length) hout).append
        (Leaves.map_char ((core ++ [last]).drop k))
      rwa [← hdrop, List.take_append_drop] at hleaves

/-! ## §3. A search through parts. -/

theorem ne_nil_of_head {text : List Char} {c : Char} (h : text.head? = some c) : text ≠ [] := by
  rintro rfl
  cases h

/-- The text up to the first part of interest. -/
def stretch (special : Kind → Bool) (ps : List Part) : List Char :=
  textOf (ps.takeWhile fun p => !special p.kind)

/-- What is searched for stands nowhere between the parts of interest. -/
def Clear (needle : List Char) (special : Kind → Bool) (ps : List Part) : Prop :=
  ∀ qs ∈ ps.tails, ¬ needle <:+: stretch special qs

/-- A part of interest that a search goes through by itself. -/
structure Framed (find : List Char → Option Found) (needle : List Char) (p : Part) : Prop where
  ne_nil : p.text ≠ []
  head : ∀ c ∈ p.text.head?, c ∉ needle.tail
  passes : ∃ seen, Passes find p.text seen

theorem Framed.of_head {p : Part} {c : Char} {seen : List Cut} (hhead : p.text.head? = some c)
    (hc : c ∉ needle.tail) (hpasses : Passes find p.text seen) : Framed find needle p := by
  refine ⟨ne_nil_of_head hhead, fun d hd => ?_, seen, hpasses⟩
  obtain rfl : c = d := Option.some.inj (hhead.symm.trans hd)
  exact hc

variable {special : Kind → Bool}

theorem Clear.tail {p : Part} {ps : List Part} (h : Clear needle special (p :: ps)) :
    Clear needle special ps :=
  fun qs hqs => h qs ((List.mem_tails _ _).mpr (((List.mem_tails _ _).mp hqs).trans (List.suffix_cons _ _)))

/-- Where nothing is found in a part. -/
theorem Clear.cuts_eq (hfind : ∀ xs, find xs ≠ none → needle <+: xs) {ps : List Part}
    (h : Clear needle special ps) {p : Part} (hp : p ∈ ps) (hplain : ¬ special p.kind = true) :
    cuts find 0 p.text = p.text.map .char := by
  obtain ⟨before, behind, rfl⟩ := List.append_of_mem hp
  have hstretch := h (p :: behind) ((List.mem_tails _ _).mpr (List.suffix_append _ _))
  have hfree : ¬ needle <:+: p.text := by
    refine fun hoccurs => hstretch (hoccurs.trans ?_)
    rw [stretch, List.takeWhile_cons_of_pos (by simpa using hplain), textOf_cons]
    exact (List.prefix_append _ _).isInfix
  have hcuts := @cuts_append find p.text [] fun zs hzs hne => not_not.mp fun hfound =>
    not_prefix_append hfree (by simp) zs hzs hne (hfind _ hfound)
  simpa [cuts] using hcuts

/-- **A search goes part by part**, when what is searched for stands only at the head of parts of
interest, and these are framed. -/
theorem cuts_textOf (hfind : ∀ xs, find xs ≠ none → needle <+: xs) {ps : List Part}
    (hclear : Clear needle special ps)
    (hframed : ∀ p ∈ ps, special p.kind = true → Framed find needle p) :
    cuts find 0 (textOf ps) = ps.flatMap fun p => cuts find 0 p.text := by
  induction ps with
  | nil => rfl
  | cons p ps ih =>
      have hrest := ih hclear.tail fun q hq => hframed q (List.mem_cons_of_mem _ hq)
      rw [textOf_cons, List.flatMap_cons, ← hrest]
      by_cases hspecial : special p.kind = true
      · obtain ⟨seen, hpasses⟩ := (hframed p List.mem_cons_self hspecial).passes
        rw [hpasses, hpasses.eq]
      rw [hclear.cuts_eq hfind List.mem_cons_self hspecial]
      refine cuts_append fun zs hzs hne => not_not.mp fun hfound => ?_
      -- what begins in the part reaches neither the next part of interest nor the end of the text
      have hsplit : textOf ps = stretch special ps ++ textOf (ps.dropWhile fun q => !special q.kind) := by
        rw [stretch, ← textOf_append, List.takeWhile_append_dropWhile]
      have hstretch : stretch special (p :: ps) = p.text ++ stretch special ps := by
        rw [stretch, List.takeWhile_cons_of_pos (by simpa using hspecial), textOf_cons]
        rfl
      have hhead : ∀ c ∈ (textOf (ps.dropWhile fun q => !special q.kind)).head?, c ∉ needle.tail := by
        cases hdrop : ps.dropWhile fun q => !special q.kind with
        | nil => simp
        | cons q qs =>
            have hq : q ∈ ps := (List.dropWhile_sublist _).subset (hdrop ▸ List.mem_cons_self)
            have hkind := List.head?_dropWhile_not (fun q : Part => !special q.kind) ps
            rw [hdrop] at hkind
            have hthere := hframed q (List.mem_cons_of_mem _ hq) (by simpa using hkind)
            intro c hc
            rw [textOf_cons, List.head?_append_of_ne_nil _ hthere.ne_nil] at hc
            exact hthere.head c hc
      rw [hsplit, ← List.append_assoc] at hfound
      have hsuffix : zs ++ stretch special ps <:+ stretch special (p :: ps) := by
        rw [hstretch]
        obtain ⟨before, hbefore⟩ := hzs
        exact ⟨before, by rw [← List.append_assoc, hbefore]⟩
      exact not_prefix_append (hclear _ ((List.mem_tails _ _).mpr List.suffix_rfl)) hhead _ hsuffix
        (by simp [hne]) (hfind _ hfound)

end

end AssetBundler.Style
