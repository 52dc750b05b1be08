/-
  AssetBundler.Proofs.Pattern.Suffix
  ────────────────────────────────
  **PATTERNS FOR THE ENDS OF PATHS.**

  A pattern that ends at the end of a text and has no slash looks at what
  stands behind the last slash alone.  The default rules have such patterns,
  so the rule for a module does not depend on where the project is:

    • `Pattern.Accepts` — what a pattern leaves of a text,
    • `Pattern.mem_ends_iff` — the places where a match may end,
    • `Pattern.isMatch_behind_slash` — texts with the same end,
    • `Pattern.contains_slash_folded` — patterns in which letter case does not
      count,
    • `RuleTable.select_below`, `RuleTable.transform_below` — the default rules.
-/
import AssetBundler.Proofs.Files.Below
import AssetBundler.Proofs.Transform.Modes
import Mathlib.Data.List.Find

namespace AssetBundler

namespace Pattern

variable {p : Pattern} {xs ys zs : List Char} {spots seen : List Spot} {s : Spot}

/-! ## §1. What a pattern leaves. -/

/-- The pattern has no slash, no repetition, and no condition but that on the end of the text. -/
def isSlashless : Pattern → Bool
  | empty => true
  | one set => !set.contains '/'
  | assert a => a = .textEnd
  | both first second => first.isSlashless && second.isSlashless
  | either a b => a.isSlashless && b.isSlashless
  | repeated .. => false

/-- Every match ends at the end of the text. -/
def isAtEnd : Pattern → Bool
  | assert a => a = .textEnd
  | both _ second => second.isAtEnd
  | either a b => a.isAtEnd && b.isAtEnd
  | _ => false

/-- **What a pattern leaves of a text** behind a match that begins it, for patterns without repetition. -/
def Accepts : Pattern → List Char → List Char → Prop
  | empty, xs, ys => ys = xs
  | one set, xs, ys => ∃ c, xs = c :: ys ∧ set.contains c = true
  | assert _, xs, ys => xs = [] ∧ ys = []
  | both first second, xs, ys => ∃ zs, first.Accepts xs zs ∧ second.Accepts zs ys
  | either a b, xs, ys => a.Accepts xs ys ∨ b.Accepts xs ys
  | repeated .., _, _ => False

theorem Accepts.exists_append (h : p.isSlashless = true) (haccepts : p.Accepts xs ys) :
    ∃ taken, xs = taken ++ ys ∧ '/' ∉ taken := by
  induction p generalizing xs ys with
  | empty => exact ⟨[], haccepts.symm, List.not_mem_nil⟩
  | one set =>
      obtain ⟨c, rfl, hc⟩ := haccepts
      refine ⟨[c], rfl, fun hmem => ?_⟩
      obtain rfl := List.mem_singleton.mp hmem
      rw [isSlashless, hc] at h
      cases h
  | assert a =>
      obtain ⟨rfl, rfl⟩ := haccepts
      exact ⟨[], rfl, List.not_mem_nil⟩
  | both first second ihFirst ihSecond =>
      obtain ⟨zs, hfirst, hsecond⟩ := haccepts
      obtain ⟨hslashless, hslashless'⟩ := (Bool.and_eq_true _ _).mp h
      obtain ⟨taken, rfl, hmem⟩ := ihFirst hslashless hfirst
      obtain ⟨taken', rfl, hmem'⟩ := ihSecond hslashless' hsecond
      refine ⟨taken ++ taken', (List.append_assoc ..).symm, fun hslash => ?_⟩
      exact (List.mem_append.mp hslash).elim hmem hmem'
  | either a b iha ihb =>
      obtain ⟨hslashless, hslashless'⟩ := (Bool.and_eq_true _ _).mp h
      exact haccepts.elim (iha hslashless) (ihb hslashless')
  | repeated p least more? => exact absurd haccepts id

theorem Accepts.eq_nil (h : p.isAtEnd = true) (haccepts : p.Accepts xs ys) : ys = [] := by
  induction p generalizing xs ys with
  | empty => cases h
  | one set => cases h
  | assert a => exact haccepts.2
  | both first second _ ihSecond =>
      obtain ⟨zs, _, hsecond⟩ := haccepts
      exact ihSecond h hsecond
  | either a b iha ihb =>
      obtain ⟨ha, hb⟩ := (Bool.and_eq_true _ _).mp h
      exact haccepts.elim (iha ha) (ihb hb)
  | repeated p least more? => cases h

/-! ## §2. Places. -/

/-- Of places that differ in nothing but the character before them one is kept. -/
theorem mem_freshSpots_iff (hsuffix : ∀ t ∈ spots, t.after <:+ xs) (hseen : ∀ t ∈ seen, t.after <:+ xs) :
    (∃ t ∈ freshSpots seen spots, t.after = ys)
      ↔ (∃ t ∈ spots, t.after = ys) ∧ ∀ t ∈ seen, t.after ≠ ys := by
  -- places in one text with rests of one length have the same rest
  have hsame : ∀ {s t : Spot}, s.after <:+ xs → t.after <:+ xs →
      s.after.length = t.after.length → s.after = t.after :=
    fun hs ht hlength => (List.suffix_of_suffix_length_le hs ht hlength.le).eq_of_length hlength
  induction spots generalizing seen with
  | nil => simp [freshSpots]
  | cons s rest ih =>
      obtain ⟨hs, hrest⟩ := List.forall_mem_cons.mp hsuffix
      unfold freshSpots
      split
      next hany =>
        obtain ⟨t, ht, hlength⟩ := List.any_eq_true.mp hany
        have hafter : t.after = s.after := hsame (hseen t ht) hs (eq_of_beq hlength)
        refine (ih hrest hseen).trans ?_
        rw [List.exists_mem_cons_iff]
        constructor
        · exact fun h => ⟨Or.inr h.1, h.2⟩
        · rintro ⟨rfl | h, hnone⟩
          · exact absurd hafter (hnone t ht)
          · exact ⟨h, hnone⟩
      next hany =>
        have hnew : ∀ t ∈ seen, t.after ≠ s.after := by
          intro t ht heq
          exact hany (List.any_eq_true.mpr ⟨t, ht, by simp [heq]⟩)
        have hlater := ih hrest (List.forall_mem_cons.mpr ⟨hs, hseen⟩)
        rw [List.forall_mem_cons] at hlater
        rw [List.exists_mem_cons_iff, List.exists_mem_cons_iff, or_congr_right hlater]
        constructor
        · rintro (rfl | ⟨h, _, hnone⟩)
          · exact ⟨Or.inl rfl, hnew⟩
          · exact ⟨Or.inr h, hnone⟩
        · rintro ⟨rfl | h, hnone⟩
          · exact Or.inl rfl
          · by_cases heq : s.after = ys
            · exact Or.inl heq
            · exact Or.inr ⟨h, heq, hnone⟩

theorem exists_mem_freshSpots_iff (hsuffix : ∀ t ∈ spots, t.after <:+ xs) :
    (∃ t ∈ freshSpots [] spots, t.after = ys) ↔ ∃ t ∈ spots, t.after = ys := by
  rw [mem_freshSpots_iff hsuffix (List.forall_mem_nil _)]
  simp

/-- **The places where a match may end** are those of what the pattern leaves. -/
theorem mem_ends_iff (h : p.isSlashless = true) :
    (∃ t ∈ p.ends s, t.after = ys) ↔ p.Accepts s.after ys := by
  have hsuffix : ∀ {p : Pattern} {s : Spot}, p.isSlashless = true →
      (∀ ys, (∃ t ∈ p.ends s, t.after = ys) ↔ p.Accepts s.after ys) →
      ∀ t ∈ p.ends s, t.after <:+ s.after := by
    intro p s h hends t ht
    obtain ⟨taken, htaken, _⟩ := ((hends t.after).mp ⟨t, ht, rfl⟩).exists_append h
    exact ⟨taken, htaken.symm⟩
  induction p generalizing s ys with
  | empty => simp [ends, Accepts, eq_comm]
  | one set =>
      obtain ⟨before, after⟩ := s
      cases after with
      | nil => simp [ends, Spot.next?, Accepts]
      | cons c rest =>
          by_cases hc : set.contains c = true <;> simp [ends, Spot.next?, Accepts, hc]
  | assert a =>
      obtain rfl : a = .textEnd := of_decide_eq_true h
      obtain ⟨before, after⟩ := s
      cases after <;> simp [ends, Assertion.holds, Accepts, eq_comm]
  | both first second ihFirst ihSecond =>
      obtain ⟨hfirst, hsecond⟩ := (Bool.and_eq_true _ _).mp h
      have hwithin : ∀ t ∈ (first.ends s).flatMap second.ends, t.after <:+ s.after := by
        intro t ht
        obtain ⟨u, hu, ht⟩ := List.mem_flatMap.mp ht
        exact (hsuffix hsecond (fun _ => ihSecond hsecond) t ht).trans
          (hsuffix hfirst (fun _ => ihFirst hfirst) u hu)
      rw [ends, exists_mem_freshSpots_iff hwithin, Accepts]
      constructor
      · rintro ⟨t, ht, rfl⟩
        obtain ⟨u, hu, ht⟩ := List.mem_flatMap.mp ht
        exact ⟨u.after, (ihFirst hfirst).mp ⟨u, hu, rfl⟩, (ihSecond hsecond).mp ⟨t, ht, rfl⟩⟩
      · rintro ⟨zs, hzs, hys⟩
        obtain ⟨u, hu, rfl⟩ := (ihFirst hfirst).mpr hzs
        obtain ⟨t, ht, rfl⟩ := (ihSecond hsecond).mpr hys
        exact ⟨t, List.mem_flatMap.mpr ⟨u, hu, ht⟩, rfl⟩
  | either a b iha ihb =>
      obtain ⟨ha, hb⟩ := (Bool.and_eq_true _ _).mp h
      have hwithin : ∀ t ∈ a.ends s ++ b.ends s, t.after <:+ s.after := by
        intro t ht
        exact (List.mem_append.mp ht).elim (hsuffix ha (fun _ => iha ha) t)
          (hsuffix hb (fun _ => ihb hb) t)
      rw [ends, exists_mem_freshSpots_iff hwithin, Accepts, ← (iha ha).eq, ← (ihb hb).eq]
      simp [or_and_right, exists_or]
  | repeated p least more? => cases h

/-! ## §3. Texts with the same end. -/

/-- A match begins at some place. -/
theorem matchesFrom_iff (h : p.isSlashless = true) : ∀ (before : Option Char) (xs : List Char),
    p.matchesFrom before xs = true ↔ ∃ zs ys, zs <:+ xs ∧ p.Accepts zs ys := by
  have hends : ∀ s : Spot, (!(p.ends s).isEmpty) = true ↔ ∃ ys, p.Accepts s.after ys := by
    intro s
    simp only [← mem_ends_iff h]
    cases p.ends s <;> simp
  intro before xs
  induction xs generalizing before with
  | nil =>
      rw [matchesFrom, hends]
      simp
  | cons c xs ih =>
      rw [matchesFrom, Bool.or_eq_true, hends, ih]
      constructor
      · rintro (⟨ys, hys⟩ | ⟨zs, ys, hzs, hys⟩)
        · exact ⟨_, ys, List.suffix_rfl, hys⟩
        · exact ⟨zs, ys, hzs.trans (List.suffix_cons c xs), hys⟩
      · rintro ⟨zs, ys, hzs, hys⟩
        rcases List.suffix_cons_iff.mp hzs with rfl | hzs
        · exact Or.inl ⟨ys, hys⟩
        · exact Or.inr ⟨zs, ys, hzs, hys⟩

/-- **Texts that are the same behind a slash** are the same to a pattern for ends. -/
theorem isMatch_behind_slash (h : p.isSlashless = true) (hend : p.isAtEnd = true)
    (xs zs : List Char) :
    p.isMatch (String.ofList (xs ++ '/' :: ys)) = p.isMatch (String.ofList (zs ++ '/' :: ys)) := by
  -- a match in either text begins behind the slash
  have hbehind : ∀ xs : List Char, p.isMatch (String.ofList (xs ++ '/' :: ys)) = true
      ↔ ∃ ws, ws <:+ ys ∧ p.Accepts ws [] := by
    intro xs
    rw [isMatch, String.toList_ofList, matchesFrom_iff h]
    constructor
    · rintro ⟨ws, rest, hws, haccepts⟩
      obtain rfl := haccepts.eq_nil hend
      obtain ⟨taken, htaken, hslash⟩ := haccepts.exists_append h
      rw [List.append_nil] at htaken
      obtain rfl := htaken
      refine ⟨ws, ?_, haccepts⟩
      rcases List.suffix_or_suffix_of_suffix hws (List.suffix_append xs ('/' :: ys)) with hle | hle
      · rcases List.suffix_cons_iff.mp hle with rfl | hle
        · exact absurd List.mem_cons_self hslash
        · exact hle
      · exact absurd (hle.mem List.mem_cons_self) hslash
    · rintro ⟨ws, hws, haccepts⟩
      exact ⟨ws, [], hws.trans ⟨xs ++ ['/'], by simp⟩, haccepts⟩
  rw [Bool.eq_iff_iff, hbehind, hbehind]

/-! ## §4. Letter case. -/

open AssetBundler.Text

/-- No run of the case folding begins at a slash or below, or leads there. -/
theorem slash_lt_foldRuns : ∀ r ∈ UnicodeRanges.foldRuns.toList,
    '/'.toNat < r.first ∧ ('/'.toNat : Int) < r.first + r.delta := by
  decide +kernel

/-- **A slash has no letter case**: no other character folds to it. -/
theorem foldCodePoint_eq_slash {n : Nat} : foldCodePoint n = '/'.toNat ↔ n = '/'.toNat := by
  unfold foldCodePoint
  cases hfound : UnicodeRanges.foldRuns.find? fun r =>
      r.first ≤ n && n ≤ r.last && (n - r.first) % r.stride == 0 with
  | none => exact Iff.rfl
  | some r =>
      obtain ⟨hfirst, hdelta⟩ :=
        slash_lt_foldRuns r (Array.mem_toList_iff.mpr (Array.mem_of_find?_eq_some hfound))
      have hrun := Array.find?_some hfound
      simp only [Bool.and_eq_true, decide_eq_true_eq] at hrun
      simp only [Int.ofNat_eq_natCast]
      omega

theorem eq_slash_of_mem_caseVariants {c : Char} (h : c ∈ caseVariants '/') : c = '/' := by
  have htarget : foldCodePoint '/'.toNat = '/'.toNat := foldCodePoint_eq_slash.mpr rfl
  unfold caseVariants at h
  rw [htarget] at h
  rcases List.mem_cons.mp h with hc | h
  · exact hc
  rcases List.mem_cons.mp h with hc | h
  · exact hc
  · obtain ⟨r, _, hr⟩ := List.mem_filterMap.mp h
    dsimp only at hr
    split at hr
    next hfold =>
      rw [← Option.some.inj hr, foldCodePoint_eq_slash.mp (eq_of_beq hfold)]
      rfl
    next => cases hr

theorem contains_slash_folded (set : CharSet) :
    (CharSet.folded set).contains '/' = set.contains '/' := by
  rw [CharSet.contains]
  have hmem : '/' ∈ caseVariants '/' := List.mem_cons_self
  cases hset : set.contains '/' with
  | true => exact List.any_eq_true.mpr ⟨'/', hmem, hset⟩
  | false =>
      refine List.any_eq_false.mpr fun c hc => ?_
      rw [eq_slash_of_mem_caseVariants hc, hset]
      exact Bool.false_ne_true

/-- The pattern in which letter case counts. -/
def unfolded : Pattern → Pattern
  | one (.folded set) => one set
  | both first second => both first.unfolded second.unfolded
  | either a b => either a.unfolded b.unfolded
  | p => p

theorem isSlashless_unfolded (p : Pattern) : p.unfolded.isSlashless = p.isSlashless := by
  induction p using unfolded.induct with
  | case1 set => rw [unfolded, isSlashless, isSlashless, contains_slash_folded]
  | case2 first second ihFirst ihSecond => rw [unfolded, isSlashless, isSlashless, ihFirst, ihSecond]
  | case3 a b iha ihb => rw [unfolded, isSlashless, isSlashless, iha, ihb]
  | case4 p hone hboth heither => rw [unfolded] <;> assumption

end Pattern

/-! ## §5. Rules for modules of a project. -/

/-- **Where the project is** shows in front of the last slash only. -/
theorem Identity.exists_matchText_below {m : Identity} (h : m.location ≠ []) :
    ∃ ys, ∀ root, ∃ xs, (m.below root).matchText = String.ofList (xs ++ '/' :: ys) := by
  have hlead : Path.lead m.location = "/" ++ "/".intercalate m.location := by
    rw [Path.lead, String.intercalate_cons_of_ne_nil h, String.empty_append]
  refine ⟨("/".intercalate m.location).toList.map fun c => if c == '\\' then '/' else c,
    fun root => ⟨(Path.lead root).toList.map fun c => if c == '\\' then '/' else c, ?_⟩⟩
  have htext : (m.below root).path.text = Path.lead root ++ Path.lead m.location := by
    rw [path_below h, path, Path.ofNames_eq h, Path.below]
  rw [matchText, htext, hlead]
  simp

namespace RuleTable

variable {config : Config} {mode : Mode} {table : RuleTable} {root : Location} {m : Identity}

/-- The default rules have patterns for the ends of paths. -/
theorem default_tests : ∀ rule ∈ Config.defaultRules, rule.exclude? = none
    ∧ (Pattern.parse? rule.test).all (fun p => p.isSlashless && p.isAtEnd) = true := by
  have hunfolded : ∀ rule ∈ Config.defaultRules, rule.exclude? = none
      ∧ (Pattern.parse? rule.test).all (fun p => p.unfolded.isSlashless && p.isAtEnd) = true := by
    decide +kernel
  simpa only [Pattern.isSlashless_unfolded] using hunfolded

/-- **The default rule for a module** does not depend on where the project is. -/
theorem select_below (hrules : config.ownRules = []) (htable : compile config mode = .ok table)
    (h : m.location ≠ []) : table.select (m.below root) = table.select m := by
  obtain ⟨hall, _⟩ := forall₂_of_compile htable
  rw [Config.rules, hrules] at hall
  obtain ⟨ys, hys⟩ := Identity.exists_matchText_below h
  obtain ⟨xs, hxs⟩ := hys root
  obtain ⟨zs, hzs⟩ := hys []
  refine List.find?_congr fun rule hrule => ?_
  obtain ⟨source, hsource, hcompile⟩ := exists_mem_right_of_forall₂ hall.flip rule hrule
  obtain ⟨hexclude, htest⟩ := default_tests source hsource
  obtain ⟨hparse, _, happlies⟩ := TransformRule.of_compile hcompile hexclude
  rw [hparse] at htest
  obtain ⟨hslashless, hend⟩ := (Bool.and_eq_true _ _).mp htest
  rw [happlies, happlies, hxs, show m.matchText = _ from hzs,
    Pattern.isMatch_behind_slash hslashless hend xs zs]

/-- **What the default rules make of a module** does not depend on where the project is. -/
theorem transform_below (hrules : config.ownRules = []) (htable : compile config mode = .ok table)
    (h : m.location ≠ []) (content : ByteArray) :
    (table.transform (m.below root) content).2.toOption
      = (table.transform m content).2.toOption := by
  have hcontext : ∀ limit name, table.context (m.below root) limit name
      = table.context m limit name := by
    intro limit name
    rw [context, Identity.stem_below h, Identity.extension_below h, context]
  have hfinished : ∀ rule m m' result, (finished rule m' result).toOption
      = (finished rule m result).toOption := by
    rintro rule m m' (e | ⟨_ | _ | _ | _⟩) <;> rfl
  unfold transform
  rw [select_below hrules htable h]
  cases table.select m with
  | some rule =>
      dsimp only
      rw [hcontext, hfinished]
  | none =>
      dsimp only
      rw [hcontext, Identity.extension_below h]
      split <;> rfl

end RuleTable

end AssetBundler
