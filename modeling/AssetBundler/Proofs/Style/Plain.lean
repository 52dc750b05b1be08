/-
  AssetBundler.Proofs.Style.Plain
  ────────────────────────────────
  **REFERENCES THAT ARE WRITTEN PLAINLY.**

  The two searches see the shape of a reference only.  They find what the
  grammar finds where a reference of the project is written plainly, and they
  leave a reference alone that begins as addresses do which lead out of the
  project, whatever else is in it:

    • `Style.PlainRule.found`, `Style.PlainFile.found` — references of the
      project,
    • `Style.OutsideRule`, `Style.OutsideAddress` — references that lead out of
      it,
    • `Style.Plain` — stylesheets that say what the searches look for in their
      references only.
-/
import AssetBundler.Proofs.Style.Placeholder
import AssetBundler.Proofs.Style.Search
import AssetBundler.Proofs.Transform.AssetName

namespace AssetBundler.Style

open AssetBundler.Text AssetBundler.Style.Syntax

/-! ## §1. Blanks and marks. -/

theorem isSpace_of_isBlank {c : Char} (h : isBlank c = true) : isSpace c = true := by
  simp only [isBlank, isBreak, Bool.or_eq_true, beq_iff_eq] at h
  rcases h with (rfl | rfl) | ((rfl | rfl) | rfl) <;> rfl

theorem isUrlChar_of_isSpace {c : Char} (h : isSpace c = true) : isUrlChar c = true := by
  cases hurl : isUrlChar c with
  | true => rfl
  | false =>
      simp only [isUrlChar, isQuote, Bool.not_eq_false', Bool.or_eq_true, beq_iff_eq] at hurl
      rcases hurl with (rfl | rfl) | rfl <;> revert h <;> decide

theorem isSpace_of_isQuote {c : Char} (h : isQuote c = true) : isSpace c = false := by
  simp only [isQuote, Bool.or_eq_true, beq_iff_eq] at h
  rcases h with rfl | rfl <;> rfl

section

variable {c : Char}

theorem isImportChar_iff : isImportChar c = true ↔
    isQuote c = false ∧ c ≠ ')' ∧ c ≠ ';' ∧ isSpace c = false := by
  simp [isImportChar, and_assoc]

theorem isUrlChar_of_isImportChar (h : isImportChar c = true) : isUrlChar c = true := by
  obtain ⟨hquote, hclosing, -⟩ := isImportChar_iff.mp h
  simp [isUrlChar, hquote, hclosing]

end

/-- A text is read up to the first character that fails a test. -/
theorem read_append_cons {test : Char → Bool} {xs ys : List Char} {d : Char}
    (hxs : ∀ c ∈ xs, test c = true) (hd : test d = false) :
    (xs ++ d :: ys).takeWhile test = xs ∧ (xs ++ d :: ys).dropWhile test = d :: ys := by
  rw [List.takeWhile_append_of_pos hxs, List.dropWhile_append_of_pos hxs,
    List.takeWhile_cons_of_neg (by simp [hd]), List.dropWhile_cons_of_neg (by simp [hd]), List.append_nil]
  exact ⟨rfl, rfl⟩

/-- The first character of a text that has been trimmed is no white space. -/
theorem not_isSpace_of_mem_trim (text : List Char) : ∀ c ∈ (trim text).head?, isSpace c = false := by
  intro c hc
  obtain ⟨behind, hbehind⟩ : trim text <+: text.dropWhile isSpace := List.rdropWhile_prefix _ _
  have hhead : (text.dropWhile isSpace).head? = some c := by
    rw [← hbehind, List.head?_append, hc]
    rfl
  have hnot := List.head?_dropWhile_not isSpace text
  rwa [hhead] at hnot

theorem not_isSpace_of_trim {target : List Char} (h : trim target = target) :
    ∀ c ∈ target.head?, isSpace c = false := by
  rw [← h]
  exact not_isSpace_of_mem_trim target

/-- Blanks behind a text that is trimmed are taken off. -/
theorem trim_append {target blanks : List Char} (h : trim target = target) (hne : target ≠ [])
    (hblanks : ∀ c ∈ blanks, isSpace c = true) : trim (target ++ blanks) = target := by
  have hhead (rest : List Char) : (target ++ rest).dropWhile isSpace = target ++ rest := by
    cases target with
    | nil => exact absurd rfl hne
    | cons d rest =>
        exact List.dropWhile_cons_of_neg (by simp [not_isSpace_of_trim h d rfl])
  have hend : trimEnd target = target := by
    have hbare := hhead []
    rw [List.append_nil] at hbare
    rwa [trim, hbare] at h
  rw [trim, hhead, trimEnd, trimEndWhile, List.reverse_append,
    List.dropWhile_append_of_pos (by simpa using hblanks)]
  exact hend

/-- A quotation mark in front of a target is passed over. -/
theorem dropQuote_mark {mark text : List Char} (hmark : mark = [] ∨ ∃ q, isQuote q = true ∧ mark = [q])
    (hfirst : ∀ c ∈ text.head?, isQuote c = false) : dropQuote (mark ++ text) = text := by
  rcases hmark with rfl | ⟨q, hq, rfl⟩
  · cases text with
    | nil => rfl
    | cons c text => simp [dropQuote, hfirst c rfl]
  · simp [dropQuote, hq]

/-- Blanks in front of a target are passed over. -/
theorem dropWhile_mark {before mark text : List Char} (hbefore : ∀ c ∈ before, isBlank c = true)
    (hmark : mark = [] ∨ ∃ q, isQuote q = true ∧ mark = [q]) (hfirst : ∀ c ∈ text.head?, isSpace c = false) :
    (before ++ (mark ++ text)).dropWhile isSpace = mark ++ text := by
  rw [List.dropWhile_append_of_pos fun c hc => isSpace_of_isBlank (hbefore c hc)]
  rcases hmark with rfl | ⟨q, hq, rfl⟩
  · cases text with
    | nil => rfl
    | cons c text => exact List.dropWhile_cons_of_neg (by simp [hfirst c rfl])
  · exact List.dropWhile_cons_of_neg (by simp [isSpace_of_isQuote hq])

/-! ## §2. What the searches read. -/

theorem urlReference?_prefix {xs : List Char} (h : urlReference? xs ≠ none) : "url(".toList <+: xs := by
  unfold urlReference? at h
  cases hdrop : dropPrefix? "url(".toList xs with
  | none =>
      rw [hdrop] at h
      exact absurd rfl h
  | some rest => exact ⟨rest, (dropPrefix?_eq_some_iff.mp hdrop).symm⟩

theorem importRule?_prefix {xs : List Char} (h : importRule? xs ≠ none) : "@import".toList <+: xs := by
  unfold importRule? at h
  cases hdrop : dropPrefix? "@import".toList xs with
  | none =>
      rw [hdrop] at h
      exact absurd rfl h
  | some rest => exact ⟨rest, (dropPrefix?_eq_some_iff.mp hdrop).symm⟩

/-- The target that the search reads from the argument of an import rule. -/
def targetOf (argument : List Char) : List Char :=
  let inside := match dropPrefix? "url(".toList argument with
    | some inside => importTarget (inside.dropWhile isSpace)
    | none => []
  if inside.isEmpty then importTarget argument else inside

theorem targetOf_quoted {mark : Char} (hmark : isQuote mark = true) (text : List Char) :
    targetOf (mark :: text) = text.takeWhile isImportChar := by
  have hnone : dropPrefix? "url(".toList (mark :: text) = none := by
    simp only [isQuote, Bool.or_eq_true, beq_iff_eq] at hmark
    rcases hmark with rfl | rfl <;> rfl
  rw [targetOf, hnone]
  dsimp only
  rw [if_pos List.isEmpty_nil, importTarget, dropQuote, if_pos hmark]

theorem targetOf_address {before mark text : List Char} (hbefore : ∀ c ∈ before, isBlank c = true)
    (hmark : mark = [] ∨ ∃ q, isQuote q = true ∧ mark = [q])
    (hfirst : ∀ c ∈ text.head?, isImportChar c = true) (hne : text ≠ []) :
    targetOf ("url(".toList ++ (before ++ (mark ++ text))) = text.takeWhile isImportChar := by
  have hinside : importTarget ((before ++ (mark ++ text)).dropWhile isSpace) = text.takeWhile isImportChar := by
    rw [dropWhile_mark hbefore hmark fun c hc => (isImportChar_iff.mp (hfirst c hc)).2.2.2, importTarget,
      dropQuote_mark hmark fun c hc => (isImportChar_iff.mp (hfirst c hc)).1]
  have hsome : (text.takeWhile isImportChar).isEmpty = false := by
    obtain ⟨first, rest, rfl⟩ := List.exists_cons_of_ne_nil hne
    rw [List.takeWhile_cons_of_pos (hfirst first rfl)]
    rfl
  rw [targetOf, dropPrefix?_append]
  simp only [hinside, hsome, Bool.false_eq_true, if_false]

/-- What the search makes of a text that has the name of an import rule at its head. -/
theorem importRule?_append (text : List Char) : importRule? ("@import".toList ++ text)
    = if (text.dropWhile isSpace).length = text.length then none else
      match (text.dropWhile isSpace).dropWhile (· != ';') with
      | _ :: behind => if (targetOf (text.dropWhile isSpace)).isEmpty = true then none
        else some ⟨targetOf (text.dropWhile isSpace), ("@import".toList ++ text).length - behind.length⟩
      | [] => none := by
  unfold importRule?
  rw [dropPrefix?_append]
  rfl

theorem length_of_importRule? {text : List Char} {found : Found} (h : importRule? text = some found) :
    0 < found.length ∧ found.length ≤ text.length := by
  have hsome : importRule? text ≠ none := by simp [h]
  obtain ⟨rest, rfl⟩ := importRule?_prefix hsome
  have hargument := List.length_dropWhile_le isSpace rest
  rw [importRule?_append] at h
  split at h
  next => cases h
  next =>
    split at h
    next d behind hbehind =>
      have hle := List.length_dropWhile_le (· != ';') (rest.dropWhile isSpace)
      rw [hbehind, List.length_cons] at hle
      split at h
      next => cases h
      next =>
        obtain rfl := Option.some.inj h
        refine ⟨?_, Nat.sub_le _ _⟩
        simp only [List.length_append]
        omega
    next => cases h

theorem target_of_importRule? {text : List Char} {found : Found}
    (h : importRule? ("@import".toList ++ text) = some found) : found.target = targetOf (text.dropWhile isSpace) := by
  rw [importRule?_append] at h
  split at h
  next => cases h
  next =>
    split at h
    next =>
      split at h
      next => cases h
      next =>
        obtain rfl := Option.some.inj h
        rfl
    next => cases h

theorem length_le_of_urlReference? {text : List Char} {found : Found} (h : urlReference? text = some found) :
    found.length ≤ text.length := by
  unfold urlReference? at h
  split at h
  next => cases h
  next =>
    dsimp only at h
    split at h
    next =>
      obtain rfl := Option.some.inj h
      exact Nat.sub_le _ _
    next =>
      split at h
      next =>
        obtain ⟨behind, -, rfl⟩ := Option.map_eq_some_iff.mp h
        exact Nat.sub_le _ _
      next => cases h

theorem dropQuote_append_cons {c : Char} (hc : isQuote c = false) (text rest : List Char) :
    dropQuote (text ++ c :: rest) = dropQuote text ++ c :: rest := by
  cases text with
  | nil => simp [dropQuote, hc]
  | cons d text =>
      rw [List.cons_append, dropQuote, dropQuote]
      split
      next => rfl
      next => rfl

theorem dropClosing?_append_cons (text rest : List Char) :
    dropClosing? (text ++ ')' :: rest) = (dropClosing? (text ++ [')'])).map (· ++ rest) := by
  have hspace : isSpace ')' = false := rfl
  unfold dropClosing?
  rw [dropWhile_append_cons hspace, dropWhile_append_cons hspace]
  cases text.dropWhile isSpace with
  | nil => rfl
  | cons c text =>
      rw [List.cons_append, List.cons_append]
      by_cases hc : c = ')'
      · subst hc
        simp
      · simp [hc]

/-- **A file reference is read up to the first parenthesis that closes.** -/
theorem urlReference?_append_cons (text rest : List Char) :
    urlReference? (text ++ ')' :: rest) = urlReference? (text ++ [')']) := by
  have hspace : isSpace ')' = false := rfl
  have hquote : isQuote ')' = false := rfl
  have hurl : isUrlChar ')' = false := rfl
  have hopening : ')' ∉ "url(".toList := by simp
  unfold urlReference?
  rw [dropPrefix?_append_cons rest text hopening, dropPrefix?_append_cons [] text hopening]
  cases dropPrefix? "url(".toList text with
  | none => rfl
  | some inside =>
      simp only [Option.map_some, dropWhile_append_cons hspace, dropQuote_append_cons hquote,
        dropWhile_append_cons hurl, takeWhile_append_cons hurl, dropClosing?_append_cons _ rest]
      have hlength (behind : List Char) : (text ++ ')' :: rest).length - (behind ++ rest).length
          = (text ++ [')']).length - behind.length := by
        simp only [List.length_append, List.length_cons, List.length_nil]
        omega
      have hshorter : ((inside.dropWhile isSpace ++ ')' :: rest).length < (inside ++ ')' :: rest).length)
          ↔ ((inside.dropWhile isSpace ++ [')']).length < (inside ++ [')']).length) := by
        simp only [List.length_append, List.length_cons, List.length_nil]
        omega
      simp only [hshorter]
      have hfound (target : List Char) (closed : Option (List Char)) :
          (closed.map (· ++ rest)).map (fun behind => (⟨trim target, (text ++ ')' :: rest).length - behind.length⟩ : Found))
            = closed.map fun behind => ⟨trim target, (text ++ [')']).length - behind.length⟩ := by
        rw [Option.map_map]
        exact congrArg (Option.map · closed) (funext fun behind => congrArg (Found.mk _) (hlength behind))
      simp only [hfound]
      by_cases hempty : ((dropQuote (inside.dropWhile isSpace)).takeWhile isUrlChar).isEmpty = true
      · simp only [hempty, if_true]
      · simp only [hempty, Bool.false_eq_true, if_false]
        cases dropClosing? (dropQuote ((dropQuote (inside.dropWhile isSpace)).dropWhile isUrlChar) ++ [')']) with
        | none => rfl
        | some behind => simp only [Option.map_some, hlength]

/-- **An import rule is read up to the first semicolon.** -/
theorem importRule?_append_cons (text rest : List Char) :
    importRule? (text ++ ';' :: rest) = importRule? (text ++ [';']) := by
  have hspace : isSpace ';' = false := rfl
  have hquote : isQuote ';' = false := rfl
  have hchar : isImportChar ';' = false := rfl
  have hopening : ';' ∉ "url(".toList := by simp
  have hread (text rest : List Char) : importTarget (text ++ ';' :: rest) = importTarget text := by
    rw [importTarget, importTarget, dropQuote_append_cons hquote, takeWhile_append_cons hchar]
  have htarget (text rest : List Char) : targetOf (text ++ ';' :: rest) = targetOf text := by
    rw [targetOf, targetOf, dropPrefix?_append_cons rest text hopening]
    cases dropPrefix? "url(".toList text with
    | none => simp only [Option.map_none, hread]
    | some inside => simp only [Option.map_some, dropWhile_append_cons hspace, hread]
  cases hname : dropPrefix? "@import".toList text with
  | none =>
      unfold importRule?
      rw [dropPrefix?_append_cons rest text (by simp), dropPrefix?_append_cons [] text (by simp), hname]
      rfl
  | some argument =>
      obtain rfl := dropPrefix?_eq_some_iff.mp hname
      have hbehind : (argument.dropWhile isSpace ++ ';' :: rest).dropWhile (· != ';')
          = (argument.dropWhile isSpace ++ [';']).dropWhile (· != ';') ++ rest := by
        rw [@dropWhile_append_cons ';' (· != ';') rfl rest, @dropWhile_append_cons ';' (· != ';') rfl [],
          List.append_assoc, List.singleton_append]
      obtain ⟨d, behind, hcut⟩ : ∃ d behind,
          (argument.dropWhile isSpace ++ [';']).dropWhile (· != ';') = d :: behind := by
        rw [@dropWhile_append_cons ';' (· != ';') rfl []]
        exact List.exists_cons_of_ne_nil (by simp)
      have hlonger : ((argument.dropWhile isSpace ++ ';' :: rest).length = (argument ++ ';' :: rest).length)
          ↔ ((argument.dropWhile isSpace ++ [';']).length = (argument ++ [';']).length) := by
        simp only [List.length_append, List.length_cons, List.length_nil]
        omega
      have hlength : ("@import".toList ++ (argument ++ ';' :: rest)).length - (behind ++ rest).length
          = ("@import".toList ++ (argument ++ [';'])).length - behind.length := by
        simp only [List.length_append, List.length_cons, List.length_nil]
        omega
      rw [List.append_assoc, List.append_assoc, importRule?_append, importRule?_append]
      simp only [dropWhile_append_cons hspace, htarget, hlonger, hbehind, hcut, List.cons_append, hlength]

/-! ## §3. References of the project. -/

/-- An address without escapes and comments. -/
inductive PlainAddress (target : List Char) : List Char → Prop
  | intro (before mark behind : List Char) (hbefore : ∀ c ∈ before, isBlank c = true)
      (hmark : mark = [] ∨ ∃ q, isQuote q = true ∧ mark = [q])
      (hbehind : ∀ c ∈ behind, isBlank c = true) :
      PlainAddress target
        ("url(".toList ++ (before ++ (mark ++ (target ++ (mark ++ (behind ++ [')']))))))

/-- The argument of an import rule without escapes and comments. -/
inductive PlainArgument (target : List Char) : List Char → Prop
  | quoted (mark : Char) (hmark : isQuote mark = true) :
      PlainArgument target (mark :: (target ++ [mark]))
  | address {text : List Char} (h : PlainAddress target text) : PlainArgument target text

/-- **An import rule that is written plainly**: in small letters, with blanks behind its name and a
semicolon at its end, and with a target that neither blanks nor marks are part of. -/
structure PlainRule (target condition text : List Char) : Prop where
  target_ne_nil : target ≠ []
  target_chars : ∀ c ∈ target, isImportChar c = true
  condition_chars : ';' ∉ condition
  text_eq : ∃ gap argument, gap ≠ [] ∧ (∀ c ∈ gap, isBlank c = true) ∧ PlainArgument target argument
    ∧ text = "@import".toList ++ (gap ++ (argument ++ (condition ++ [';'])))

/-- **A reference to a file that is written plainly**: in small letters, with a target that is not blank
at its ends. -/
structure PlainFile (target text : List Char) : Prop where
  target_ne_nil : target ≠ []
  target_chars : ∀ c ∈ target, isUrlChar c = true
  target_trim : trim target = target
  address : PlainAddress target text

/-- **A reference that is written plainly is found.** -/
theorem PlainFile.found {target text : List Char} (h : PlainFile target text) (rest : List Char) :
    urlReference? (text ++ rest) = some ⟨target, text.length⟩ := by
  obtain ⟨before, mark, behind, hbefore, hmark, hbehind⟩ := h.address
  have hbehind := fun c hc => isSpace_of_isBlank (hbehind c hc)
  have htext : "url(".toList ++ (before ++ (mark ++ (target ++ (mark ++ (behind ++ [')']))))) ++ rest
      = "url(".toList ++ (before ++ (mark ++ (target ++ (mark ++ (behind ++ ')' :: rest))))) := by simp
  have hlength : ("url(".toList ++ (before ++ (mark ++ (target ++ (mark ++ (behind ++ [')'])))))).length
      = ("url(".toList ++ (before ++ (mark ++ (target ++ (mark ++ (behind ++ ')' :: rest)))))).length
        - rest.length := by simp; omega
  have hhead : ∀ c ∈ (target ++ (mark ++ (behind ++ ')' :: rest))).head?,
      isSpace c = false ∧ isQuote c = false := by
    obtain ⟨first, others, rfl⟩ := List.exists_cons_of_ne_nil h.target_ne_nil
    intro c hc
    obtain rfl : first = c := Option.some.inj hc
    have hurl := h.target_chars first List.mem_cons_self
    simp only [isUrlChar, Bool.not_eq_true', Bool.or_eq_false_iff] at hurl
    exact ⟨not_isSpace_of_trim h.target_trim first rfl, hurl.1⟩
  -- without marks the blanks behind the target are read with it
  obtain ⟨blanks, hblanks, hread, hclosed⟩ : ∃ blanks : List Char, (∀ c ∈ blanks, isSpace c = true)
      ∧ (target ++ (mark ++ (behind ++ ')' :: rest))).takeWhile isUrlChar = target ++ blanks
      ∧ dropClosing? (dropQuote ((target ++ (mark ++ (behind ++ ')' :: rest))).dropWhile isUrlChar)) = some rest := by
    rcases hmark with rfl | ⟨q, hq, rfl⟩
    · have hchars : ∀ c ∈ target ++ behind, isUrlChar c = true := fun c hc =>
        (List.mem_append.mp hc).elim (h.target_chars c) fun hc => isUrlChar_of_isSpace (hbehind c hc)
      obtain ⟨hread, hleft⟩ := @read_append_cons isUrlChar _ rest ')' hchars rfl
      rw [List.append_assoc] at hread hleft
      refine ⟨behind, hbehind, hread, ?_⟩
      rw [List.nil_append, hleft]
      rfl
    · obtain ⟨hread, hleft⟩ := @read_append_cons isUrlChar target (behind ++ ')' :: rest) q
        h.target_chars (by simp [isUrlChar, hq])
      refine ⟨[], by simp, by rw [List.append_nil]; exact hread, ?_⟩
      rw [List.singleton_append, hleft, dropQuote, if_pos hq, dropClosing?, (read_append_cons hbehind rfl).2]
      rfl
  have hnonempty : ¬ (target ++ blanks).isEmpty = true := by simp [h.target_ne_nil]
  rw [hlength, htext]
  unfold urlReference?
  rw [dropPrefix?_append]
  dsimp only
  rw [dropWhile_mark hbefore hmark fun c hc => (hhead c hc).1, dropQuote_mark hmark fun c hc => (hhead c hc).2,
    hread, hclosed, if_neg hnonempty, trim_append h.target_trim h.target_ne_nil hblanks]

/-- The first character of an argument is no blank, and no semicolon is in it. -/
theorem PlainArgument.chars {target argument : List Char} (h : PlainArgument target argument)
    (htarget : ∀ c ∈ target, isImportChar c = true) :
    (∃ first others, argument = first :: others ∧ isSpace first = false) ∧ ';' ∉ argument := by
  have hsemicolon : ';' ∉ target := fun hc => (isImportChar_iff.mp (htarget _ hc)).2.2.1 rfl
  have hmark {q : Char} (hq : isQuote q = true) : ';' ≠ q := by
    rintro rfl
    cases hq
  have hblank {blanks : List Char} (hblanks : ∀ c ∈ blanks, isBlank c = true) : ';' ∉ blanks := by
    intro hc
    cases hblanks _ hc
  cases h with
  | quoted mark hq =>
      exact ⟨⟨mark, _, rfl, isSpace_of_isQuote hq⟩, by simp [hsemicolon, hmark hq]⟩
  | address haddress =>
      obtain ⟨before, mark, behind, hbefore, hquote, hbehind⟩ := haddress
      have hmarks : ';' ∉ mark := by
        rcases hquote with rfl | ⟨q, hq, rfl⟩
        · simp
        · simp [hmark hq]
      refine ⟨⟨'u', _, rfl, rfl⟩, ?_⟩
      simp [hsemicolon, hblank hbefore, hblank hbehind, hmarks]

/-- The target of an argument is read from it, with its parenthesis or without. -/
theorem PlainArgument.read {target argument : List Char} (h : PlainArgument target argument)
    (hne : target ≠ []) (htarget : ∀ c ∈ target, isImportChar c = true) (rest : List Char) :
    targetOf (argument ++ rest) = target := by
  have hstop {q : Char} (hq : isQuote q = true) : isImportChar q = false := by
    simp [isImportChar, hq]
  cases h with
  | quoted mark hq =>
      rw [List.cons_append, targetOf_quoted hq, List.append_assoc]
      exact (read_append_cons htarget (hstop hq)).1
  | address haddress =>
      obtain ⟨before, mark, behind, hbefore, hmark, hbehind⟩ := haddress
      -- what stands behind the target ends it, be it a mark, a blank or the parenthesis
      obtain ⟨last, more, hmore, hlast⟩ : ∃ last more,
          mark ++ (behind ++ ')' :: rest) = last :: more ∧ isImportChar last = false := by
        rcases hmark with rfl | ⟨q, hq, rfl⟩
        · cases behind with
          | nil => exact ⟨')', rest, rfl, rfl⟩
          | cons b behind =>
              refine ⟨b, _, rfl, ?_⟩
              simp [isImportChar, isSpace_of_isBlank (hbehind b List.mem_cons_self)]
        · exact ⟨q, _, rfl, hstop hq⟩
      have htext : "url(".toList ++ (before ++ (mark ++ (target ++ (mark ++ (behind ++ [')']))))) ++ rest
          = "url(".toList ++ (before ++ (mark ++ (target ++ last :: more))) := by
        rw [← hmore]
        simp
      have hfirst : ∀ c ∈ (target ++ last :: more).head?, isImportChar c = true := by
        obtain ⟨first, others, rfl⟩ := List.exists_cons_of_ne_nil hne
        exact fun c hc => Option.some.inj hc ▸ htarget first List.mem_cons_self
      rw [htext, targetOf_address hbefore hmark hfirst (by simp)]
      exact (read_append_cons htarget hlast).1

/-- **A rule that is written plainly is found.** -/
theorem PlainRule.found {target condition text : List Char} (h : PlainRule target condition text)
    (rest : List Char) : importRule? (text ++ rest) = some ⟨target, text.length⟩ := by
  obtain ⟨gap, argument, hgap, hblank, hargument, rfl⟩ := h.text_eq
  obtain ⟨⟨first, others, hfirst, hspace⟩, hsemicolon⟩ := hargument.chars h.target_chars
  have hblank := fun c hc => isSpace_of_isBlank (hblank c hc)
  have htext : "@import".toList ++ (gap ++ (argument ++ (condition ++ [';']))) ++ rest
      = "@import".toList ++ (gap ++ (argument ++ (condition ++ ';' :: rest))) := by simp
  have hdrop : (gap ++ (argument ++ (condition ++ ';' :: rest))).dropWhile isSpace
      = argument ++ (condition ++ ';' :: rest) := by
    rw [hfirst]
    exact (read_append_cons hblank hspace).2
  have hlength : ¬ (argument ++ (condition ++ ';' :: rest)).length
      = (gap ++ (argument ++ (condition ++ ';' :: rest))).length := by
    have := List.length_pos_of_ne_nil hgap
    simp
    omega
  have hbehind : (argument ++ (condition ++ ';' :: rest)).dropWhile (fun c => c != ';') = ';' :: rest := by
    rw [← List.append_assoc]
    refine (read_append_cons (fun c hc => ?_) rfl).2
    rw [bne_iff_ne]
    rintro rfl
    exact (List.mem_append.mp hc).elim hsemicolon h.condition_chars
  have hempty : target.isEmpty = false := by
    rw [List.isEmpty_eq_false_iff]
    exact h.target_ne_nil
  have hfound : ("@import".toList ++ (gap ++ (argument ++ (condition ++ ';' :: rest)))).length - rest.length
      = ("@import".toList ++ (gap ++ (argument ++ (condition ++ [';'])))).length := by
    simp only [List.length_append, List.length_cons, List.length_nil]
    omega
  rw [htext, importRule?_append, hdrop, if_neg hlength, hbehind]
  simp only [hargument.read h.target_ne_nil h.target_chars, hempty, hfound, Bool.false_eq_true, if_false]

theorem PlainFile.head {target text : List Char} (h : PlainFile target text) : text.head? = some 'u' := by
  obtain ⟨before, mark, behind, -, -, -⟩ := h.address
  rfl

theorem PlainFile.passes {target text : List Char} (h : PlainFile target text) :
    Passes urlReference? text [.found target text] :=
  .of_found (ne_nil_of_head h.head) h.found

namespace PlainRule

variable {target condition text : List Char}

theorem head (h : PlainRule target condition text) : text.head? = some '@' := by
  obtain ⟨gap, argument, -, -, -, rfl⟩ := h.text_eq
  rfl

theorem passes (h : PlainRule target condition text) : Passes importRule? text [.found target text] :=
  .of_found (ne_nil_of_head h.head) h.found

end PlainRule

/-! ## §4. References that lead out of the project. -/

/-- A character that an address which leads out of the project may begin with. -/
theorem isImportChar_of_beginning {c : Char} (h : asciiLower c ∈ externalBeginnings.flatMap String.toList) :
    isImportChar c = true := by
  have hmem : asciiLower c ∈ ['d', 'a', 't', ':', 'h', 'p', 's', '/', '#'] := by
    simp [externalBeginnings] at h ⊢
    grind
  by_cases hupper : 'A' ≤ c ∧ c ≤ 'Z'
  · have hfirst : 65 ≤ c.toNat := hupper.1
    have hlast : c.toNat ≤ 90 := hupper.2
    rw [← Char.ofNat_toNat c]
    clear h hmem hupper
    generalize c.toNat = n at hfirst hlast
    interval_cases n <;> rfl
  · have hlower : asciiLower c = c := by
      rw [asciiLower, if_neg (by simpa using hupper)]
    rw [hlower] at hmem
    simp only [List.mem_cons, List.not_mem_nil, or_false] at hmem
    rcases hmem with rfl | rfl | rfl | rfl | rfl | rfl | rfl | rfl | rfl <;> rfl

/-- **What an address begins with that leads out of the project.** -/
theorem exists_beginning {target : List Char} (h : isExternal target = true) :
    ∃ first start rest, target = first :: (start ++ rest) ∧ (∀ c ∈ first :: start, isImportChar c = true)
      ∧ ∀ others, isExternal (first :: (start ++ others)) = true := by
  obtain ⟨b, hb, hbegins⟩ := List.any_eq_true.mp h
  obtain ⟨behind, hbehind⟩ := Option.isSome_iff_exists.mp hbegins
  obtain ⟨begins, rest, rfl, hlower, -⟩ := List.map_eq_append_iff.mp (dropPrefix?_eq_some_iff.mp hbehind)
  have hchars : ∀ c ∈ begins, isImportChar c = true := by
    intro c hc
    refine isImportChar_of_beginning (List.mem_flatMap.mpr ⟨b, hb, ?_⟩)
    rw [← hlower]
    exact List.mem_map_of_mem hc
  have hothers (others : List Char) : isExternal (begins ++ others) = true := by
    refine List.any_eq_true.mpr ⟨b, hb, ?_⟩
    rw [startsWith, List.map_append, hlower, dropPrefix?_append]
    rfl
  cases begins with
  | nil =>
      rw [List.map_nil] at hlower
      have hnone : ∀ b ∈ externalBeginnings, b.toList ≠ [] := by decide
      exact absurd hlower.symm (hnone b hb)
  | cons first start => exact ⟨first, start, rest, rfl, hchars, hothers⟩

theorem isExternal_takeWhile {test : Char → Bool} (htest : ∀ c, isImportChar c = true → test c = true)
    {target : List Char} (h : isExternal target = true) (others : List Char) :
    isExternal ((target ++ others).takeWhile test) = true := by
  obtain ⟨first, start, rest, rfl, hchars, hexternal⟩ := exists_beginning h
  rw [← List.cons_append, List.append_assoc,
    List.takeWhile_append_of_pos fun c hc => htest c (hchars c hc)]
  exact hexternal _

/-- Blanks are taken off behind the beginning of an address. -/
theorem isExternal_trim {target : List Char} (h : isExternal target = true) :
    isExternal (trim target) = true := by
  obtain ⟨first, start, rest, rfl, hchars, hexternal⟩ := exists_beginning h
  have hspace : ∀ c ∈ first :: start, isSpace c = false := fun c hc => (isImportChar_iff.mp (hchars c hc)).2.2.2
  obtain ⟨front, last, hlast⟩ := (List.eq_nil_or_concat (first :: start)).resolve_left (List.cons_ne_nil _ _)
  have hend : ((first :: start).reverse).dropWhile isSpace = (first :: start).reverse := by
    rw [hlast, List.concat_eq_append, List.reverse_append]
    exact List.dropWhile_cons_of_neg (by simp [hspace last (by simp [hlast])])
  rw [trim, List.dropWhile_cons_of_neg (by simp [hspace first List.mem_cons_self]), ← List.cons_append, trimEnd,
    trimEndWhile, List.reverse_append, List.dropWhile_append, hend]
  split
  next => simpa using hexternal []
  next =>
    rw [List.reverse_append, List.reverse_reverse]
    exact hexternal _

/-- An address that leads out of the project begins with no blank and no mark. -/
theorem head_of_isExternal {target : List Char} (h : isExternal target = true) (others : List Char) :
    ∀ c ∈ (target ++ others).head?, isImportChar c = true := by
  obtain ⟨first, start, rest, rfl, hchars, -⟩ := exists_beginning h
  exact fun c hc => Option.some.inj hc ▸ hchars first List.mem_cons_self

/-- **An address that leads out of the project**, in small letters: what stands behind its opening begins
as such addresses do, and no other address begins in it. -/
structure OutsideAddress (text : List Char) : Prop where
  text_eq : ∃ before mark inner, (∀ c ∈ before, isBlank c = true)
    ∧ (mark = [] ∨ ∃ q, isQuote q = true ∧ mark = [q]) ∧ isExternal inner = true
    ∧ text = "url(".toList ++ (before ++ (mark ++ (inner ++ [')'])))
  once : ¬ "url(".toList <:+: text.tail

/-- The argument of an import rule that leads out of the project. -/
inductive OutsideArgument : List Char → Prop
  | quoted (mark : Char) (inner : List Char) (hmark : isQuote mark = true) (hinner : isExternal inner = true)
      (hfree : ¬ "url(".toList <:+: inner) : OutsideArgument (mark :: (inner ++ [mark]))
  | address {text : List Char} (h : OutsideAddress text) : OutsideArgument text

/-- **An import rule that leads out of the project**, in small letters, with blanks behind its name and a
semicolon at its end: its argument begins as such addresses do, and no other reference begins in it. -/
structure OutsideRule (text : List Char) : Prop where
  text_eq : ∃ gap argument condition, gap ≠ [] ∧ (∀ c ∈ gap, isBlank c = true) ∧ OutsideArgument argument
    ∧ ¬ "url(".toList <:+: condition ∧ text = "@import".toList ++ (gap ++ (argument ++ (condition ++ [';'])))
  once : ¬ "@import".toList <:+: text.tail

namespace OutsideAddress

variable {text : List Char}

theorem head (h : OutsideAddress text) : text.head? = some 'u' := by
  obtain ⟨before, mark, inner, -, -, -, htext⟩ := h.text_eq
  rw [htext]
  rfl

/-- What the search finds of the address leads out of the project. -/
theorem external (h : OutsideAddress text) {found : Found} (hfound : urlReference? text = some found) :
    isExternal found.target = true := by
  obtain ⟨before, mark, inner, hbefore, hmark, hinner, rfl⟩ := h.text_eq
  have hhead := head_of_isExternal hinner [')']
  have hnone : dropClosing? (inner ++ [')']) = none := by
    obtain ⟨first, start, rest, rfl, -⟩ := exists_beginning hinner
    obtain ⟨-, hclosing, -, hspace⟩ := isImportChar_iff.mp (hhead first rfl)
    rw [dropClosing?, List.cons_append, List.dropWhile_cons_of_neg (by simp [hspace])]
    split
    next hsame => exact absurd (List.cons.inj hsame).1 hclosing
    next => rfl
  unfold urlReference? at hfound
  rw [dropPrefix?_append] at hfound
  dsimp only at hfound
  rw [dropWhile_mark hbefore hmark fun c hc => (isImportChar_iff.mp (hhead c hc)).2.2.2,
    dropQuote_mark hmark fun c hc => (isImportChar_iff.mp (hhead c hc)).1, hnone] at hfound
  split at hfound
  next =>
    obtain rfl := Option.some.inj hfound
    exact isExternal_trim (isExternal_takeWhile (fun c hc => isUrlChar_of_isImportChar hc) hinner _)
  next =>
    split at hfound
    next => cases hfound
    next => cases hfound

/-- **The address is gone through** without a reference of the project. -/
theorem exists_passes (h : OutsideAddress text) : ∃ seen, Passes urlReference? text seen ∧ Leaves seen text := by
  obtain ⟨before, mark, inner, -, -, -, htext⟩ := h.text_eq
  have hlast : text = 'u' :: (("rl(".toList ++ (before ++ (mark ++ inner))) ++ [')']) := by
    rw [htext]
    simp
  have honce := h.once
  have hexternal := fun found => @external text h found
  rw [hlast] at honce hexternal ⊢
  refine Passes.exists_leaves (fun _ => urlReference?_prefix) (by simp)
    (fun hoccurs => honce (hoccurs.trans (List.prefix_append _ _).isInfix)) (by simp) (fun rest => ?_)
    fun found hfound => ⟨hexternal found hfound, length_pos_of_urlReference? hfound,
      length_le_of_urlReference? hfound⟩
  have hclosed := urlReference?_append_cons ('u' :: ("rl(".toList ++ (before ++ (mark ++ inner)))) rest
  simpa using hclosed

end OutsideAddress

namespace OutsideRule

variable {text : List Char}

theorem head (h : OutsideRule text) : text.head? = some '@' := by
  obtain ⟨gap, argument, condition, -, -, -, -, htext⟩ := h.text_eq
  rw [htext]
  rfl

/-- What the search finds of the rule leads out of the project. -/
theorem external (h : OutsideRule text) {found : Found} (hfound : importRule? text = some found) :
    isExternal found.target = true := by
  obtain ⟨gap, argument, condition, -, hgap, hargument, -, rfl⟩ := h.text_eq
  rw [target_of_importRule? hfound, List.dropWhile_append_of_pos fun c hc => isSpace_of_isBlank (hgap c hc)]
  cases hargument with
  | quoted mark inner hmark hinner _ =>
      rw [List.cons_append, List.dropWhile_cons_of_neg (by simp [isSpace_of_isQuote hmark]), targetOf_quoted hmark,
        List.append_assoc]
      exact isExternal_takeWhile (fun c hc => hc) hinner _
  | address haddress =>
      obtain ⟨before, mark, inner, hbefore, hmark, hinner, rfl⟩ := haddress.text_eq
      have htext : ("url(".toList ++ (before ++ (mark ++ (inner ++ [')']))) ++ (condition ++ [';'])).dropWhile isSpace
          = "url(".toList ++ (before ++ (mark ++ (inner ++ (')' :: (condition ++ [';']))))) := by
        simp [show isSpace 'u' = false from rfl]
      rw [htext, targetOf_address hbefore hmark (head_of_isExternal hinner _) (by simp)]
      exact isExternal_takeWhile (fun c hc => hc) hinner _

/-- **The rule is kept.** -/
theorem exists_passes (h : OutsideRule text) : ∃ seen, Passes importRule? text seen ∧ Leaves seen text := by
  obtain ⟨gap, argument, condition, -, -, -, -, htext⟩ := h.text_eq
  have hlast : text = '@' :: (("import".toList ++ (gap ++ (argument ++ condition))) ++ [';']) := by
    rw [htext]
    simp
  have honce := h.once
  have hexternal := fun found => @external text h found
  rw [hlast] at honce hexternal ⊢
  refine Passes.exists_leaves (fun _ => importRule?_prefix) (by simp)
    (fun hoccurs => honce (hoccurs.trans (List.prefix_append _ _).isInfix)) (by simp) (fun rest => ?_)
    fun found hfound => ⟨hexternal found hfound, length_of_importRule? hfound⟩
  have hclosed := importRule?_append_cons ('@' :: ("import".toList ++ (gap ++ (argument ++ condition)))) rest
  simpa using hclosed

/-- **The rule is gone through** without a reference of the project. -/
theorem exists_passes_files (h : OutsideRule text) :
    ∃ seen, Passes urlReference? text seen ∧ Leaves seen text := by
  have hfind : ∀ xs, urlReference? xs ≠ none → "url(".toList <+: xs := fun _ => urlReference?_prefix
  obtain ⟨gap, argument, condition, hgap, hblank, hargument, hcondition, rfl⟩ := h.text_eq
  have hend : Passes urlReference? (condition ++ [';']) ((condition ++ [';']).map .char) :=
    .closed hfind (by simp) hcondition (by simp)
  -- an address cannot begin where no parenthesis is
  have hfree {cs : List Char} (hcs : '(' ∉ cs) : ¬ "url(".toList <:+: cs :=
    fun hoccurs => hcs (hoccurs.subset (by simp))
  obtain ⟨blanks, last, rfl⟩ := (List.eq_nil_or_concat gap).resolve_left hgap
  have hstart : Passes urlReference? ("@import".toList ++ blanks ++ [last])
      (("@import".toList ++ blanks ++ [last]).map .char) := by
    have hthere := hblank last (by simp)
    refine .closed hfind (by simp) (hfree fun hc => ?_) fun hc => ?_
    · rcases List.mem_append.mp hc with hc | hc
      · simp at hc
      · cases hblank '(' (by simp [hc])
    · simp only [isBlank, isBreak, Bool.or_eq_true, beq_iff_eq] at hthere
      rcases hthere with (rfl | rfl) | ((rfl | rfl) | rfl) <;> simp at hc
  obtain ⟨seen, hpasses, hleaves⟩ : ∃ seen, Passes urlReference? argument seen ∧ Leaves seen argument := by
    cases hargument with
    | quoted mark inner hmark _ hinner =>
        have hmarks : mark = '"' ∨ mark = '\'' := by simpa [isQuote] using hmark
        have hopen : ¬ "url(".toList <:+: mark :: inner := by
          intro hoccurs
          rcases List.infix_cons_iff.mp hoccurs with hprefix | hoccurs
          · rcases hmarks with rfl | rfl <;> simp at hprefix
          · exact hinner hoccurs
        exact ⟨_, .closed hfind (by simp) hopen (by rcases hmarks with rfl | rfl <;> simp), .map_char _⟩
    | address haddress => exact haddress.exists_passes
  have htext : "@import".toList ++ (blanks.concat last ++ (argument ++ (condition ++ [';'])))
      = ("@import".toList ++ blanks ++ [last]) ++ (argument ++ (condition ++ [';'])) := by simp
  rw [htext]
  exact ⟨_, hstart.append (hpasses.append hend), (Leaves.map_char _).append (hleaves.append (.map_char _))⟩

end OutsideRule

/-! ## §5. Stylesheets that are written plainly. -/

/-- **A part that is written plainly**, if it is a reference. -/
def Part.Plain (p : Part) : Prop :=
  match p.kind with
  | .rule target condition =>
    (isExternal target = true → OutsideRule p.text) ∧ (¬ isExternal target = true → PlainRule target condition p.text)
  | .file target =>
    (isExternal target = true → OutsideAddress p.text) ∧ (¬ isExternal target = true → PlainFile target p.text)
  | _ => True

/-- **A stylesheet that is written plainly**: its references are, and no comment, string or other text has
the beginning of one. -/
structure Plain (ps : List Part) : Prop where
  part : ∀ p ∈ ps, p.Plain
  rules : Clear "@import".toList Kind.isRule ps
  files : Clear "url(".toList Kind.isReference (kept ps)

end AssetBundler.Style
