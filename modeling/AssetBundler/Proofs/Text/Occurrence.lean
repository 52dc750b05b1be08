/-
  AssetBundler.Proofs.Text.Occurrence
  ────────────────────────────────
  **WHERE A PATTERN OCCURS.**

  A pattern that occurs in a text lies on one side of every character that it
  does not have.  Where a text goes on with the pattern and no occurrence
  begins before, this is the first occurrence: cutting the text finds it, and
  replacing leaves what stands before it as it is.

    • `Text.infix_append_cons_iff` — texts with a separator between,
    • `Text.cutAt?_append` — the text cut at the first occurrence,
    • `Text.replaceAll_append` — the first occurrence replaced,
    • `Text.replaceAll_eq_self` — a text without occurrences,
    • `Text.OccursIff` — occurrences in a text whatever stands behind it.
-/
import AssetBundler.Proofs.Text.Search
import Mathlib.Data.List.Infix

namespace AssetBundler.Text

variable {pattern replacement text xs ys : List Char} {c p : Char}

/-! ## §1. Occurrences in parts of a text. -/

/-- A beginning without a character ends before it. -/
theorem prefix_of_prefix_append_cons (hc : c ∉ pattern) (h : pattern <+: xs ++ c :: ys) :
    pattern <+: xs := by
  induction xs generalizing pattern with
  | nil =>
      cases pattern with
      | nil => exact List.nil_prefix
      | cons a rest =>
          obtain ⟨rfl, _⟩ := List.cons_prefix_cons.mp h
          exact absurd List.mem_cons_self hc
  | cons x xs ih =>
      cases pattern with
      | nil => exact List.nil_prefix
      | cons a rest =>
          obtain ⟨rfl, hrest⟩ := List.cons_prefix_cons.mp h
          have hrest := ih (fun hmem => hc (List.mem_cons_of_mem _ hmem)) hrest
          exact List.cons_prefix_cons.mpr ⟨rfl, hrest⟩

/-- **An occurrence lies on one side** of a character that the pattern does not have. -/
theorem infix_append_cons_iff (hc : c ∉ pattern) :
    pattern <:+: xs ++ c :: ys ↔ pattern <:+: xs ∨ pattern <:+: ys := by
  constructor
  · intro h
    induction xs with
    | nil =>
        rcases List.infix_cons_iff.mp h with hprefix | hoccurs
        · exact .inl (@prefix_of_prefix_append_cons pattern [] ys c hc hprefix).isInfix
        · exact .inr hoccurs
    | cons x xs ih =>
        rcases List.infix_cons_iff.mp h with hprefix | hoccurs
        · exact .inl (@prefix_of_prefix_append_cons pattern (x :: xs) ys c hc hprefix).isInfix
        · exact (ih hoccurs).imp_left fun h => List.infix_cons_iff.mpr (.inr h)
  · intro h
    rcases h with h | h
    · exact h.trans (List.prefix_append _ _).isInfix
    · exact h.trans ((List.suffix_cons _ _).trans (List.suffix_append _ _)).isInfix

/-- No occurrence begins in a text without the first character of the pattern. -/
theorem infix_append_iff_of_head (hp : p ∉ xs) :
    p :: pattern <:+: xs ++ ys ↔ p :: pattern <:+: ys := by
  induction xs with
  | nil => rw [List.nil_append]
  | cons x xs ih =>
      rw [List.mem_cons, not_or] at hp
      rw [List.cons_append, List.infix_cons_iff, ih hp.2, List.cons_prefix_cons]
      simp [hp.1]

theorem contains_iff : contains pattern text = true ↔ pattern <:+: text := by
  induction text with
  | nil => simp [contains, List.infix_nil]
  | cons c text ih =>
      rw [contains, Bool.or_eq_true, startsWith_iff, ih, List.infix_cons_iff]

theorem not_infix_of_contains (h : contains pattern text = false) : ¬ pattern <:+: text :=
  fun hoccurs => Bool.false_ne_true (h.symm.trans (contains_iff.mpr hoccurs))

/-! ## §2. The first occurrence. -/

/-- No occurrence of the pattern begins in a text behind which the pattern stands. -/
def FirstBehind (pattern xs : List Char) : Prop :=
  ¬ pattern <:+: xs ++ pattern.dropLast

theorem FirstBehind.of_cons (h : FirstBehind pattern (c :: xs)) : FirstBehind pattern xs :=
  fun hoccurs => h (List.infix_cons_iff.mpr (.inr hoccurs))

/-- The text does not start with the pattern. -/
theorem FirstBehind.not_startsWith (h : FirstBehind pattern (c :: xs)) (ys : List Char) :
    startsWith pattern (c :: (xs ++ pattern ++ ys)) = false := by
  rw [Bool.eq_false_iff]
  intro hstart
  have hprefix : pattern <+: (c :: xs) ++ pattern ++ ys := startsWith_iff.mp hstart
  -- what the text starts with ends before the last character of the pattern behind it
  have hshort : (c :: xs) ++ pattern.dropLast <+: (c :: xs) ++ pattern ++ ys :=
    ((List.prefix_append_right_inj _).mpr (List.dropLast_prefix _)).trans (List.prefix_append _ _)
  have hlength : pattern.length ≤ ((c :: xs) ++ pattern.dropLast).length := by
    simp only [List.length_append, List.length_cons, List.length_dropLast]
    omega
  exact h (List.prefix_of_prefix_length_le hprefix hshort hlength).isInfix

/-- The pattern begins with a character that the text does not have. -/
theorem firstBehind_of_head (hp : p ∉ xs) : FirstBehind (p :: pattern) xs := by
  intro h
  have hlength := ((infix_append_iff_of_head hp).mp h).length_le
  simp only [List.length_dropLast, List.length_cons] at hlength
  omega

/-- Where the pattern occurs, it occurs a first time. -/
theorem exists_firstBehind (hpattern : pattern ≠ []) (h : pattern <:+: text) :
    ∃ before behind, text = before ++ pattern ++ behind ∧ FirstBehind pattern before := by
  induction text with
  | nil => exact absurd (List.infix_nil.mp h) hpattern
  | cons c text ih =>
      by_cases hprefix : pattern <+: c :: text
      · obtain ⟨behind, hbehind⟩ := hprefix
        obtain ⟨p, rest, rfl⟩ := List.exists_cons_of_ne_nil hpattern
        exact ⟨[], behind, hbehind.symm, firstBehind_of_head List.not_mem_nil⟩
      · obtain ⟨before, behind, rfl, hfirst⟩ := ih ((List.infix_cons_iff.mp h).resolve_left hprefix)
        refine ⟨c :: before, behind, rfl, fun hoccurs => ?_⟩
        rcases List.infix_cons_iff.mp hoccurs with hstart | hlater
        · -- an occurrence here would end before the last character of the one found
          have hlonger : c :: (before ++ pattern.dropLast) <+: c :: (before ++ pattern ++ behind) :=
            List.cons_prefix_cons.mpr ⟨rfl, ((List.prefix_append_right_inj _).mpr
              (List.dropLast_prefix _)).trans (List.prefix_append _ _)⟩
          exact hprefix (hstart.trans hlonger)
        · exact hfirst hlater

/-- The text cut at the first occurrence of a pattern that is not empty: what stands before it, and
what stands behind it. -/
def cutAt? (pattern : List Char) : List Char → Option (List Char × List Char)
  | [] => none
  | c :: rest =>
    match dropPrefix? pattern (c :: rest) with
    | some behind => some ([], behind)
    | none => (cutAt? pattern rest).map fun (before, behind) => (c :: before, behind)

/-- **The text is cut at the first occurrence.** -/
theorem cutAt?_append (hpattern : pattern ≠ []) (h : FirstBehind pattern xs) (ys : List Char) :
    cutAt? pattern (xs ++ pattern ++ ys) = some (xs, ys) := by
  induction xs with
  | nil =>
      obtain ⟨p, rest, rfl⟩ := List.exists_cons_of_ne_nil hpattern
      have hdrop := dropPrefix?_append (p :: rest) ys
      rw [List.cons_append] at hdrop
      rw [List.nil_append, List.cons_append, cutAt?, hdrop]
  | cons c xs ih =>
      have hnone : dropPrefix? pattern (c :: (xs ++ pattern ++ ys)) = none := by
        have hstart := h.not_startsWith ys
        simpa [startsWith] using hstart
      rw [List.cons_append, List.cons_append, cutAt?, hnone, ih h.of_cons]
      rfl

/-! ## §3. Replacing. -/

/-- What is still to be passed over is passed over. -/
theorem replaceFrom_append_length (pattern replacement ys : List Char) :
    ∀ passed : List Char,
      replaceFrom pattern replacement passed.length (passed ++ ys) = replaceFrom pattern replacement 0 ys
  | [] => rfl
  | _ :: passed => replaceFrom_append_length pattern replacement ys passed

theorem replaceAll_nil (pattern replacement : List Char) : replaceAll pattern replacement [] = [] := by
  unfold replaceAll
  split <;> rfl

theorem replaceAll_cons_of_not_startsWith {rest : List Char}
    (h : startsWith pattern (c :: rest) = false) :
    replaceAll pattern replacement (c :: rest) = c :: replaceAll pattern replacement rest := by
  unfold replaceAll
  split
  next => rfl
  next => rw [replaceFrom, h, if_neg Bool.false_ne_true]

/-- **The first occurrence is replaced**, what stands before it is kept, and replacing goes on behind it. -/
theorem replaceAll_append (hpattern : pattern ≠ []) (h : FirstBehind pattern xs) (ys : List Char) :
    replaceAll pattern replacement (xs ++ pattern ++ ys)
      = xs ++ replacement ++ replaceAll pattern replacement ys := by
  induction xs with
  | nil =>
      obtain ⟨p, rest, rfl⟩ := List.exists_cons_of_ne_nil hpattern
      have hstart : startsWith (p :: rest) (p :: (rest ++ ys)) = true :=
        startsWith_iff.mpr (List.prefix_append (p :: rest) ys)
      have hskip := replaceFrom_append_length (p :: rest) replacement ys rest
      simp only [List.nil_append, List.cons_append, replaceAll, List.isEmpty_cons, Bool.false_eq_true,
        if_false]
      rw [replaceFrom, if_pos hstart, List.length_cons, Nat.add_sub_cancel, hskip]
  | cons c xs ih =>
      rw [List.cons_append, List.cons_append,
        replaceAll_cons_of_not_startsWith (h.not_startsWith ys), ih h.of_cons,
        List.cons_append, List.cons_append]

/-- A text without occurrences stays as it is. -/
theorem replaceAll_eq_self (h : ¬ pattern <:+: text) :
    replaceAll pattern replacement text = text := by
  induction text with
  | nil => exact replaceAll_nil _ _
  | cons c text ih =>
      rw [List.infix_cons_iff, not_or] at h
      have hstart : startsWith pattern (c :: text) = false :=
        Bool.eq_false_iff.mpr fun hstart => h.1 (startsWith_iff.mp hstart)
      rw [replaceAll_cons_of_not_startsWith hstart, ih h.2]

/-- A pattern of one character is replaced character by character. -/
theorem replaceAll_singleton (c : Char) (replacement text : List Char) :
    replaceAll [c] replacement text = text.flatMap fun d => if d = c then replacement else [d] := by
  induction text with
  | nil => exact replaceAll_nil _ _
  | cons d text ih =>
      rw [List.flatMap_cons, ← ih]
      by_cases hd : d = c
      · obtain rfl := hd
        rw [if_pos rfl]
        exact @replaceAll_append [d] replacement [] (List.cons_ne_nil _ _)
          (firstBehind_of_head List.not_mem_nil) text
      · have hstart : startsWith [c] (d :: text) = false := by
          simp [startsWith, dropPrefix?, Ne.symm hd]
        rw [if_neg hd, replaceAll_cons_of_not_startsWith hstart]
        rfl

/-! ## §4. Occurrences whatever stands behind. -/

/-- Before any other text the pattern occurs just when `P` holds or it occurs in that; characters are
compared as `fold` gives them. -/
def OccursIff (fold : Char → Char) (pattern text : List Char) (P : Prop) : Prop :=
  ∀ behind, pattern <:+: (text ++ behind).map fold ↔ P ∨ pattern <:+: behind.map fold

section

variable {fold : Char → Char} {P Q : Prop}

theorem OccursIff.append (hxs : OccursIff fold pattern xs P) (hys : OccursIff fold pattern ys Q) :
    OccursIff fold pattern (xs ++ ys) (P ∨ Q) := by
  intro behind
  rw [List.append_assoc, hxs, hys, or_assoc]

theorem OccursIff.congr (h : OccursIff fold pattern xs P) (hiff : P ↔ Q) :
    OccursIff fold pattern xs Q :=
  fun behind => (h behind).trans (or_congr_left hiff)

/-- Where the first character of the pattern does not stand there is no occurrence. -/
theorem occursIff_of_head (hp : p ∉ xs.map fold) : OccursIff fold (p :: pattern) xs False := by
  intro behind
  rw [List.map_append, infix_append_iff_of_head hp, false_or]

/-- No occurrence stretches over a character that the pattern does not have. -/
theorem occursIff_concat (hc : fold c ∉ pattern) :
    OccursIff fold pattern (xs ++ [c]) (pattern <:+: xs.map fold) := by
  intro behind
  rw [List.append_assoc, List.singleton_append, List.map_append, List.map_cons,
    infix_append_cons_iff hc]

/-- A text without occurrences that ends with such a character. -/
theorem occursIff_of_getLast? (hlast : text.getLast? = some c) (hc : fold c ∉ pattern)
    (hnone : ¬ pattern <:+: text.map fold) : OccursIff fold pattern text False := by
  have htext : text.dropLast ++ [c] = text := List.dropLast_append_getLast? c hlast
  have hbefore : ¬ pattern <:+: text.dropLast.map fold := fun hoccurs =>
    hnone (hoccurs.trans ((List.dropLast_prefix text).map fold).isInfix)
  have hiff := (@occursIff_concat pattern text.dropLast c fold hc).congr (iff_false_intro hbefore)
  rwa [htext] at hiff

theorem OccursIff.infix_iff (h : OccursIff fold pattern text P) (hpattern : pattern ≠ []) :
    pattern <:+: text.map fold ↔ P := by
  have hnil : ¬ pattern <:+: [].map fold := fun hoccurs => hpattern (List.infix_nil.mp hoccurs)
  rw [← text.append_nil, h, or_iff_left hnil]

/-- Nothing before the pattern is an occurrence. -/
theorem OccursIff.firstBehind (h : OccursIff id pattern text P) (hpattern : pattern ≠ [])
    (hP : ¬ P) : FirstBehind pattern text := by
  intro hoccurs
  have hcases := h pattern.dropLast
  rw [List.map_id, List.map_id] at hcases
  rcases hcases.mp hoccurs with hholds | hshort
  · exact hP hholds
  · have hlength := hshort.length_le
    have hpos := List.length_pos_iff.mpr hpattern
    rw [List.length_dropLast] at hlength
    omega

/-- Texts with a separator between them in which the pattern does not begin. -/
theorem occursIff_intercalate {α : Type} {separator : List Char} (hp : p ∉ separator.map fold)
    {spelling : α → List Char} {R : α → Prop} : ∀ as : List α,
    (∀ a ∈ as, OccursIff fold (p :: pattern) (spelling a) (R a)) →
    OccursIff fold (p :: pattern) (separator.intercalate (as.map spelling)) (∃ a ∈ as, R a)
  | [], _ => by
      rw [List.map_nil, List.intercalate_nil]
      exact (occursIff_of_head List.not_mem_nil).congr (by simp)
  | [a], h => by
      rw [List.map_singleton, List.intercalate_singleton]
      exact (h a List.mem_cons_self).congr (by simp)
  | a :: b :: as, h => by
      have hrest := occursIff_intercalate hp (b :: as) (List.forall_mem_of_forall_mem_cons h)
      have hfirst := (h a List.mem_cons_self).append (occursIff_of_head hp)
      rw [List.map_cons, List.map_cons, List.intercalate_cons_cons]
      refine (hfirst.append hrest).congr ?_
      rw [or_false]
      exact (List.exists_mem_cons_iff R a (b :: as)).symm

/-- **Occurrences when a mark is replaced.** The pattern begins in no mark and reaches into none, nor does
it reach into the value that is put there. -/
theorem infix_replaceAll_iff {m o : Char} {mark value : List Char} (hm : fold m ∉ p :: pattern)
    (hp : p ∉ mark.map fold) (ho : fold o ∉ p :: pattern)
    (hvalue : OccursIff fold (p :: pattern) value P) (text : List Char) :
    p :: pattern <:+: (replaceAll (m :: mark) (o :: value) text).map fold
      ↔ p :: pattern <:+: text.map fold ∨ m :: mark <:+: text ∧ P := by
  by_cases hoccurs : m :: mark <:+: text
  · obtain ⟨before, behind, htext, hfirst⟩ := exists_firstBehind (List.cons_ne_nil _ _) hoccurs
    have hshorter : behind.length < text.length := by
      rw [htext]
      simp only [List.length_append, List.length_cons]
      omega
    have hrest := infix_replaceAll_iff hm hp ho hvalue behind
    have hreplaced : replaceAll (m :: mark) (o :: value) text
        = before ++ o :: (value ++ replaceAll (m :: mark) (o :: value) behind) := by
      rw [htext, replaceAll_append (List.cons_ne_nil _ _) hfirst, List.append_assoc, List.cons_append]
    have hkept : text.map fold = before.map fold ++ fold m :: (mark ++ behind).map fold := by
      rw [htext, List.append_assoc, List.cons_append, List.map_append, List.map_cons]
    rw [hreplaced, List.map_append, List.map_cons, infix_append_cons_iff ho, hvalue, hrest, hkept,
      infix_append_cons_iff hm, occursIff_of_head hp]
    tauto
  · rw [replaceAll_eq_self hoccurs, or_iff_left fun h => hoccurs h.1]
termination_by text.length

end

end AssetBundler.Text
