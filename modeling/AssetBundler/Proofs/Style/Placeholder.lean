/-
  AssetBundler.Proofs.Style.Placeholder
  ────────────────────────────────
  **PLACEHOLDERS ARE FOUND AGAIN.**

  A placeholder is found by its shape.  When no run of characters of a
  stylesheet has the beginning of one, exactly those are found that have been
  put into its references, each with its own index.  This is so for the text
  as it is and for the text in double quotes: an escape has no underscore and
  begins with a backslash, so neither does it begin a placeholder nor does one
  reach into it.

    • `Placeholder.replaceFrom_text` — a placeholder that has been written,
    • `Placeholder.Escapes` — the ways to write characters,
    • `Placeholder.replaceFrom_written` — all placeholders of a stylesheet.
-/
import AssetBundler.Proofs.Style.Pieces
import AssetBundler.Proofs.Text.Quoted
import AssetBundler.Proofs.Transform.AssetName

namespace AssetBundler.Style.Placeholder

open AssetBundler.Text

variable {ε : Type} {lookup : Nat → Except ε (List Char)} {index : Nat} {value : List Char}

/-! ## §1. A placeholder that has been written. -/

theorem toList_toString (index : Nat) : (toString index).toList = Nat.toDigits 10 index := by
  simp

theorem isAsciiDigit_of_mem {c : Char} (h : c ∈ (toString index).toList) : isAsciiDigit c = true := by
  rw [toList_toString] at h
  exact Nat.isDigit_of_mem_toDigits (by decide) (by decide) h

/-- Digits are read up to the underscore behind them. -/
theorem takeWhile_digits {test : Char → Bool} (hdigit : ∀ c, isAsciiDigit c = true → test c = true)
    (hunderscore : test '_' = false) (rest : List Char) :
    ((toString index).toList ++ '_' :: rest).takeWhile test = (toString index).toList
      ∧ ((toString index).toList ++ '_' :: rest).dropWhile test = '_' :: rest := by
  have hall : ∀ c ∈ (toString index).toList, test c = true :=
    fun c hc => hdigit c (isAsciiDigit_of_mem hc)
  rw [List.takeWhile_append_of_pos hall, List.dropWhile_append_of_pos hall,
    List.takeWhile_cons_of_neg (by simp [hunderscore]),
    List.dropWhile_cons_of_neg (by simp [hunderscore]), List.append_nil]
  exact ⟨rfl, rfl⟩

theorem digitsAt?_text (index : Nat) (rest : List Char) :
    digitsAt? (text index ++ rest) = some (toString index).toList := by
  obtain ⟨htake, hdrop⟩ := @takeWhile_digits index isDecimalDigit
    (fun _ => AssetName.isDecimalDigit_of_isAsciiDigit) (by rfl) ('_' :: rest)
  have htext : text index ++ rest = opening ++ ((toString index).toList ++ '_' :: '_' :: rest) := by
    rw [text, List.append_assoc, List.append_assoc]
    rfl
  have hdigits : (toString index).toList.isEmpty = false := by
    rw [toList_toString]
    simp
  have hclosing : startsWith closing ('_' :: '_' :: rest) = true := rfl
  rw [htext, digitsAt?, dropPrefix?_append]
  dsimp only
  rw [htake, hdrop, hdigits, hclosing]
  rfl

theorem indexOf_toString (h : index < UInt64.size) :
    indexOf (toString index).toList = .ok index := by
  have htake : (toString index).toList.takeWhile isAsciiDigit = (toString index).toList :=
    List.takeWhile_eq_self_iff.mpr fun c hc => isAsciiDigit_of_mem hc
  have hnumber : decimalNumber (toString index).toList = index := by
    rw [toList_toString]
    exact Nat.ofDigitChars_ten_toDigits
  unfold indexOf
  dsimp only
  rw [htake, hnumber, if_neg (Nat.not_le.mpr h), if_neg (lt_irrefl _)]

/-- Characters that are passed over. -/
theorem replaceFrom_append_length (passed rest : List Char) :
    replaceFrom lookup passed.length (passed ++ rest) = replaceFrom lookup 0 rest := by
  induction passed with
  | nil => rfl
  | cons c passed ih => exact ih

/-- **A placeholder is replaced by its value.** -/
theorem replaceFrom_text (hindex : index < UInt64.size) (hvalue : lookup index = .ok value)
    (rest : List Char) :
    replaceFrom lookup 0 (text index ++ rest) = (replaceFrom lookup 0 rest).map (value ++ ·) := by
  have hdigits := digitsAt?_text index rest
  obtain ⟨c, behind, htext⟩ : ∃ c behind, text index = c :: behind :=
    ⟨'_', "_weft_url_".toList ++ (toString index).toList ++ closing, rfl⟩
  have hlength : opening.length + (toString index).toList.length + closing.length - 1
      = behind.length := by
    have hall := congrArg List.length htext
    rw [text, List.length_append, List.length_append, List.length_cons] at hall
    omega
  rw [htext, List.cons_append] at hdigits ⊢
  rw [replaceFrom, hdigits]
  dsimp only
  rw [indexOf_toString hindex]
  dsimp only
  rw [hvalue, hlength]
  dsimp only
  rw [replaceFrom_append_length]

/-! ## §2. Characters that belong to no placeholder. -/

/-- A placeholder stands only where a text has its beginning. -/
theorem digitsAt?_eq_none {xs : List Char} (h : ¬ opening <+: xs) : digitsAt? xs = none := by
  unfold digitsAt?
  cases hdrop : dropPrefix? opening xs with
  | none => rfl
  | some rest => exact absurd ⟨rest, (dropPrefix?_eq_some_iff.mp hdrop).symm⟩ h

theorem replaceFrom_cons {c : Char} {rest : List Char} (h : ¬ opening <+: c :: rest) :
    replaceFrom lookup 0 (c :: rest) = (replaceFrom lookup 0 rest).map (c :: ·) := by
  rw [replaceFrom, digitsAt?_eq_none h]

/-- Characters other than the underscore stay. -/
theorem replaceFrom_append {cs : List Char} (h : '_' ∉ cs) (rest : List Char) :
    replaceFrom lookup 0 (cs ++ rest) = (replaceFrom lookup 0 rest).map (cs ++ ·) := by
  induction cs with
  | nil =>
      rw [List.nil_append]
      cases replaceFrom lookup 0 rest <;> rfl
  | cons c cs ih =>
      rw [List.mem_cons, not_or] at h
      have hbegins : ¬ opening <+: c :: (cs ++ rest) := by
        rintro ⟨behind, hbehind⟩
        exact h.1 (List.cons.inj hbehind).1
      rw [List.cons_append, replaceFrom_cons hbegins, ih h.2]
      cases replaceFrom lookup 0 rest <;> rfl

/-! ## §3. Characters as they are written. -/

/-- **A way to write characters**: as they are, or by an escape without an underscore. -/
def Escapes (encode : Char → List Char) : Prop :=
  ∀ c, encode c = [c] ∨ ∃ behind, encode c = '\\' :: behind ∧ '_' ∉ behind

theorem escapes_single : Escapes single := fun _ => Or.inl rfl

theorem escapes_quotedChar : Escapes quotedChar := by
  intro c
  rcases quotedChar_cases c with hplain | ⟨escape, hescape⟩
  · exact .inl hplain
  · refine .inr ⟨escape, hescape, fun hmem => ?_⟩
    have hquoted : '_' ∈ quotedChar c := hescape ▸ List.mem_cons_of_mem _ hmem
    by_cases hc : '_' = c
    · -- an underscore is written as it is
      have hself : quotedChar '_' = ['_'] := by decide
      rw [← hc, hself] at hescape
      exact absurd (List.cons.inj hescape).1 (by decide)
    · exact notMem_quotedChar (by decide) hc hquoted

/-- A text at which no placeholder that has begun before goes on. -/
def Stops (tail : List Char) : Prop :=
  ∀ q, q <:+ opening → q ≠ [] → ¬ q <+: tail

theorem stops_of_head {tail : List Char} (h : ∀ c rest, tail = c :: rest → c ∉ opening) :
    Stops tail := by
  intro q hq hne hbegins
  obtain ⟨c, q, rfl⟩ := List.exists_cons_of_ne_nil hne
  obtain ⟨rest, rfl⟩ := hbegins
  exact h c (q ++ rest) rfl (hq.subset List.mem_cons_self)

theorem stops_nil : Stops [] :=
  stops_of_head fun _ _ h => by cases h

theorem stops_quote (rest : List Char) : Stops ('"' :: rest) :=
  stops_of_head fun c _ h => by
    rw [← (List.cons.inj h).1]
    decide

/-- No placeholder goes on at a file reference: what comes before its parenthesis is too short. -/
theorem stops_url (rest : List Char) : Stops ("url(".toList ++ rest) := by
  have hshort : ∀ q ∈ opening.tails, q ≠ [] → ¬ q.take 4 <+: "url(".toList := by
    decide
  intro q hq hne hbegins
  refine hshort q ((List.mem_tails _ _).mpr hq) hne ?_
  have htake := hbegins.take 4
  exact htake

/-- The beginning of a placeholder is found in written characters only where the characters have it, or
where it goes on behind them. -/
theorem prefix_of_flatMap {encode : Char → List Char} (hencode : Escapes encode) {tail : List Char} :
    ∀ {cs p : List Char}, '\\' ∉ p → p <+: cs.flatMap encode ++ tail →
      p <+: cs ∨ ∃ q, q <:+ p ∧ q ≠ [] ∧ q <+: tail := by
  intro cs
  induction cs with
  | nil =>
      intro p _ hp
      by_cases hnil : p = []
      · exact Or.inl (hnil ▸ List.nil_prefix)
      · exact Or.inr ⟨p, List.suffix_rfl, hnil, hp⟩
  | cons c cs ih =>
      intro p hslash hp
      cases p with
      | nil => exact Or.inl List.nil_prefix
      | cons d p =>
          rw [List.mem_cons, not_or] at hslash
          rw [List.flatMap_cons, List.append_assoc] at hp
          rcases hencode c with hplain | ⟨behind, hescape, _⟩
          · rw [hplain] at hp
            obtain ⟨rfl, hrest⟩ := List.cons_prefix_cons.mp hp
            rcases ih hslash.2 hrest with hcs | ⟨q, hq, hne, htail⟩
            · exact Or.inl (List.cons_prefix_cons.mpr ⟨rfl, hcs⟩)
            · exact Or.inr ⟨q, hq.trans (List.suffix_cons _ _), hne, htail⟩
          · rw [hescape] at hp
            exact absurd (List.cons_prefix_cons.mp hp).1.symm hslash.1

/-! ## §4. All placeholders of a stylesheet. -/

section

variable {encode : Char → List Char} {form value : String → List Char} {ps : List Piece}
  {ending : List Char}

/-- Behind the characters that some pieces begin with there is a reference or the end. -/
theorem exists_stops (hending : Stops ending) : ∀ ps : List Piece, ∃ tail, Stops tail
    ∧ written encode form ps ++ ending = (run ps).flatMap encode ++ tail
  | [] => ⟨ending, hending, rfl⟩
  | .char c :: ps => by
      obtain ⟨tail, htail, hwritten⟩ := exists_stops hending ps
      refine ⟨tail, htail, ?_⟩
      rw [written_char, List.append_assoc, hwritten, run, List.flatMap_cons, List.append_assoc]
  | .address s :: ps => by
      refine ⟨_, stops_url (form s ++ [')'] ++ written encode form ps ++ ending), ?_⟩
      have hrun : run (.address s :: ps) = [] := rfl
      rw [written_address, hrun]
      simp only [List.append_assoc, List.flatMap_nil, List.nil_append]

/-- A character that a clean stylesheet begins with stays. -/
theorem replaceFrom_encode (hencode : Escapes encode) (hending : Stops ending) {c : Char}
    (hclean : ¬ opening <+: c :: run ps) :
    replaceFrom lookup 0 (encode c ++ (written encode form ps ++ ending))
      = (replaceFrom lookup 0 (written encode form ps ++ ending)).map (encode c ++ ·) := by
  rcases hencode c with hplain | ⟨behind, hescape, hunderscore⟩
  · rw [hplain]
    refine replaceFrom_cons fun hbegins : opening <+: [c] ++ (written encode form ps ++ ending) => ?_
    obtain ⟨tail, htail, hwritten⟩ := @exists_stops encode form _ hending ps
    have hall : [c] ++ (written encode form ps ++ ending) = (c :: run ps).flatMap encode ++ tail := by
      rw [hwritten, List.flatMap_cons, hplain, List.append_assoc]
    have hslash : '\\' ∉ opening := by decide
    rw [hall] at hbegins
    rcases prefix_of_flatMap hencode hslash hbegins with hrun | ⟨q, hq, hne, hq'⟩
    · exact hclean hrun
    · exact htail q hq hne hq'
  · rw [hescape]
    refine replaceFrom_append (fun hmem => ?_) _
    rcases List.mem_cons.mp hmem with heq | hmem
    · cases heq
    · exact hunderscore hmem

/-- **All placeholders of a stylesheet are replaced**, and nothing else. -/
theorem replaceFrom_written (hencode : Escapes encode) (hending : Stops ending)
    (hrest : replaceFrom lookup 0 ending = .ok ending) :
    ∀ {ps : List Piece}, Clean opening ps →
      (∀ s ∈ specifiers ps, ∃ index, index < UInt64.size ∧ form s = text index
        ∧ lookup index = .ok (value s)) →
      replaceFrom lookup 0 (written encode form ps ++ ending)
        = .ok (written encode value ps ++ ending)
  | [], _, _ => hrest
  | .char c :: ps, hclean, hforms => by
      have ih := replaceFrom_written hencode hending hrest hclean.2 hforms
      rw [written_char, List.append_assoc, replaceFrom_encode hencode hending hclean.1, ih,
        written_char, List.append_assoc]
      rfl
  | .address s :: ps, hclean, hforms => by
      have hps : Clean opening ps := hclean
      have ih := replaceFrom_written hencode hending hrest hps
        fun s' hs' => hforms s' (List.mem_cons_of_mem _ hs')
      obtain ⟨index, hindex, hform, hvalue⟩ := hforms s List.mem_cons_self
      have hurl : '_' ∉ "url(".toList := by decide
      have hclosing : '_' ∉ [')'] := by decide
      rw [written_address, hform]
      simp only [List.append_assoc]
      rw [replaceFrom_append hurl, replaceFrom_text hindex hvalue, replaceFrom_append hclosing, ih,
        written_address]
      simp only [Except.map, List.append_assoc]

end

end AssetBundler.Style.Placeholder
