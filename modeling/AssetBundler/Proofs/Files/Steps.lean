/-
  AssetBundler.Proofs.Files.Steps
  ────────────────────────────────
  **THE STEPS OF A PATH.**

  A path as written is the list of its segments, of which empty ones and dots
  do not count.  What is left are its steps: names and two dots.  Joining puts
  steps behind others, and the parent of a path has all but the last:

    • `Text.intercalate_splitAt`, `Text.splitAt_intercalate` — pieces and texts,
    • `Path.names_join` — the steps of a path behind another,
    • `Path.names_of_parent?` — the steps of a parent,
    • `Path.exists_of_fileName?` — the last step of a path with a file name,
    • `Path.exists_segments_withFileName` — a path with another last step.
-/
import AssetBundler.Proofs.Files.Path
import AssetBundler.Proofs.Files.Walk
import Mathlib.Data.List.DropRight

namespace AssetBundler

/-! ## §1. Pieces and texts. -/

namespace Text

variable {test : Char → Bool}

/-- No piece has a separator. -/
theorem eq_false_of_mem_splitAt {piece : List Char} : ∀ {xs : List Char},
    piece ∈ Text.splitAt test xs → ∀ c ∈ piece, test c = false
  | [], h => by
      rw [Text.splitAt, List.mem_singleton] at h
      rw [h]
      exact List.forall_mem_nil _
  | x :: xs, h => by
      unfold Text.splitAt at h
      split at h
      next =>
        rcases List.mem_cons.mp h with rfl | h
        · exact List.forall_mem_nil _
        · exact eq_false_of_mem_splitAt h
      next hx =>
        obtain ⟨first, rest, hxs⟩ := List.exists_cons_of_ne_nil (splitAt_ne_nil test xs)
        have ih : ∀ {piece}, piece ∈ first :: rest → ∀ c ∈ piece, test c = false :=
          fun hpiece => eq_false_of_mem_splitAt (hxs ▸ hpiece)
        rw [hxs] at h
        rcases List.mem_cons.mp h with rfl | h
        · intro c hc
          rcases List.mem_cons.mp hc with rfl | hc
          · exact Bool.eq_false_iff.mpr hx
          · exact ih List.mem_cons_self c hc
        · exact ih (List.mem_cons_of_mem _ h)

theorem splitAt_of_forall : ∀ {xs : List Char}, (∀ c ∈ xs, test c = false) →
    Text.splitAt test xs = [xs]
  | [], _ => rfl
  | x :: xs, h => by
      rw [Text.splitAt, h x List.mem_cons_self,
        splitAt_of_forall fun c hc => h c (List.mem_cons_of_mem _ hc)]
      rfl

theorem splitAt_intercalate {c : Char} (hc : test c = true) : ∀ {pieces : List (List Char)},
    pieces ≠ [] → (∀ piece ∈ pieces, ∀ d ∈ piece, test d = false) →
      Text.splitAt test ([c].intercalate pieces) = pieces
  | [], h, _ => absurd rfl h
  | [piece], _, h => by
      rw [List.intercalate_singleton]
      exact splitAt_of_forall (h piece List.mem_cons_self)
  | piece :: next :: rest, _, h => by
      rw [List.intercalate_cons_cons, List.append_assoc, List.singleton_append, splitAt_append hc,
        splitAt_of_forall (h piece List.mem_cons_self),
        splitAt_intercalate hc (List.cons_ne_nil _ _) fun p hp => h p (List.mem_cons_of_mem _ hp)]
      rfl

/-- A text is put together again from its pieces. -/
theorem intercalate_splitAt {c : Char} (htest : ∀ d, test d = true ↔ d = c) : ∀ xs : List Char,
    [c].intercalate (Text.splitAt test xs) = xs
  | [] => rfl
  | x :: xs => by
      have ih := intercalate_splitAt htest xs
      obtain ⟨first, rest, hxs⟩ := List.exists_cons_of_ne_nil (splitAt_ne_nil test xs)
      unfold Text.splitAt
      split
      next hx =>
        obtain rfl := (htest x).mp hx
        rw [hxs] at ih ⊢
        rw [List.intercalate_cons_cons, ih]
        rfl
      next =>
        rw [hxs] at ih ⊢
        cases rest with
        | nil => simpa using ih
        | cons next rest =>
            dsimp only
            rw [List.intercalate_cons_cons] at ih ⊢
            rw [← ih]
            simp

end Text

/-! ## §2. Segments. -/

namespace Path

open FileTree

variable {p q : Path} {name : String} {segments rest : List String}

theorem segments_ne_nil (p : Path) : p.segments ≠ [] := by
  unfold segments
  simpa using Text.splitAt_ne_nil (· == '/') p.text.toList

theorem slash_notMem_of_mem_segments {s : String} (h : s ∈ p.segments) : '/' ∉ s.toList := by
  obtain ⟨piece, hpiece, rfl⟩ := List.mem_map.mp h
  rw [String.toList_ofList]
  intro hslash
  have := Text.eq_false_of_mem_splitAt hpiece '/' hslash
  simp at this

/-- A path is written with its segments. -/
theorem text_eq_intercalate (p : Path) : p.text = "/".intercalate p.segments := by
  refine String.toList_inj.mp ?_
  have hpieces : ['/'].intercalate (Text.splitAt (· == '/') p.text.toList) = p.text.toList :=
    Text.intercalate_splitAt (by simp) _
  rw [String.toList_intercalate, segments, List.map_map]
  simpa [Function.comp_def] using hpieces.symm

theorem eq_of_segments_eq {s t : String} (h : (Path.mk s).segments = (Path.mk t).segments) :
    s = t := by
  have hs := text_eq_intercalate (Path.mk s)
  rwa [h, ← text_eq_intercalate (Path.mk t)] at hs

theorem segments_mk_intercalate (hne : segments ≠ [])
    (hslash : ∀ s ∈ segments, '/' ∉ s.toList) :
    (Path.mk ("/".intercalate segments)).segments = segments := by
  have hpieces : Text.splitAt (· == '/') (['/'].intercalate (segments.map String.toList))
      = segments.map String.toList := by
    refine Text.splitAt_intercalate (by rfl) (by simpa using hne) fun piece hpiece d hd => ?_
    obtain ⟨s, hs, rfl⟩ := List.mem_map.mp hpiece
    exact beq_false_of_ne fun heq : d = '/' => hslash s hs (heq ▸ hd)
  rw [Path.segments, String.toList_intercalate]
  show (Text.splitAt (· == '/') (['/'].intercalate _)).map String.ofList = _
  rw [hpieces, List.map_map]
  simp [Function.comp_def]

/-- The segments of two texts with a slash between. -/
theorem segments_slash (s t : String) :
    (Path.mk (s ++ "/" ++ t)).segments = (Path.mk s).segments ++ (Path.mk t).segments := by
  have htext : (s ++ "/" ++ t).toList = s.toList ++ '/' :: t.toList := by
    simp [String.toList_append]
  rw [segments, segments, segments, htext, Text.splitAt_append (by rfl), List.map_append]

/-! ## §3. Joining. -/

/-- The text begins at the place where it is used, and not at the root. -/
def IsRelative (q : String) : Prop :=
  q.toList.head? ≠ some '/'

theorem names_append (segments rest : List String) :
    names (segments ++ rest) = names segments ++ names rest :=
  List.filter_append ..

theorem names_concat (h : segments = rest ++ [name]) (hname : IsName name) :
    names segments = names rest ++ [name] := by
  rw [h, names_append, names_cons_of_isName hname]
  rfl

/-- **The segments of a path behind another.** -/
theorem exists_segments_join (p : Path) {q : String} (hq : IsRelative q) :
    ∃ above, (p.join q).segments = above ++ (Path.mk q).segments
      ∧ names above = names p.segments := by
  unfold join
  rw [if_neg (by simpa [IsRelative] using hq)]
  split
  next hend =>
    rcases (Bool.or_eq_true _ _).mp hend with hempty | hslash
    · have htext : p.text = "" := eq_of_beq hempty
      have hp : p = ⟨""⟩ := by rw [← htext]
      refine ⟨[], ?_, ?_⟩
      · rw [hp, List.nil_append]
        show (Path.mk ("" ++ q)).segments = _
        rw [String.empty_append]
      · rw [hp]
        rfl
    · -- the slash at the end closes an empty segment
      obtain ⟨before, hbefore⟩ := List.getLast?_eq_some_iff.mp (eq_of_beq hslash)
      have htext : p.text = String.ofList before ++ "/" ++ "" := by
        refine String.toList_inj.mp ?_
        rw [hbefore]
        simp
      have hjoined : p.text ++ q = String.ofList before ++ "/" ++ q := by
        rw [htext, String.append_empty]
      have hp : p = ⟨String.ofList before ++ "/" ++ ""⟩ := by rw [← htext]
      refine ⟨(Path.mk (String.ofList before)).segments, ?_, ?_⟩
      · rw [hjoined, segments_slash]
      · rw [hp, segments_slash, names_append]
        simp [names, Path.segments, Text.splitAt]
  next => exact ⟨p.segments, segments_slash _ _, rfl⟩

/-- **The steps of a path behind another.** -/
theorem names_join (p : Path) {q : String} (hq : IsRelative q) :
    names (p.join q).segments = names p.segments ++ names (Path.mk q).segments := by
  obtain ⟨above, hsegments, hnames⟩ := exists_segments_join p hq
  rw [hsegments, names_append, hnames]

theorem isAbsolute_join (p : Path) {q : String} (hq : IsRelative q) :
    (p.join q).isAbsolute = p.isAbsolute := by
  have hq' : (q.toList.head? == some '/') = false := beq_false_of_ne hq
  unfold join
  rw [hq', if_neg Bool.false_ne_true]
  cases htext : p.text.toList with
  | nil =>
      have hempty : p.text = "" := String.toList_inj.mp htext
      simp [hempty, isAbsolute, hq']
  | cons c rest =>
      split <;> simp [isAbsolute, String.toList_append, htext]

/-! ## §4. Parents. -/

/-- The segment does not count. -/
def IsIdle (s : String) : Prop := s = "" ∨ s = "."

theorem componentOf?_isNone (s : String) : (componentOf? false s).isNone = true ↔ IsIdle s := by
  unfold componentOf? IsIdle
  by_cases hempty : s = ""
  · simp [hempty]
  · by_cases hdot : s = "."
    · simp [hdot]
    · by_cases hup : s = ".." <;> simp [hempty, hdot, hup]

theorem names_eq_nil (h : ∀ s ∈ segments, IsIdle s) : names segments = [] := by
  refine List.filter_eq_nil_iff.mpr fun s hs => ?_
  rcases h s hs with rfl | rfl <;> decide

theorem names_cons_of_step {s : String} (h : ¬ IsIdle s) : names (s :: rest) = s :: names rest := by
  rw [IsIdle, not_or] at h
  simp [names, h.1, h.2]

/-- What is dropped at the end does not count. -/
theorem exists_dropIdle_append (segments : List String) :
    ∃ idle, segments = dropIdle segments ++ idle ∧ ∀ s ∈ idle, IsIdle s := by
  set test : String → Bool := fun s => (componentOf? false s).isNone
  refine ⟨segments.rtakeWhile test, List.rdropWhile_append_rtakeWhile.symm, fun s hs => ?_⟩
  exact (componentOf?_isNone s).mp (List.mem_rtakeWhile_imp (p := test) hs)

theorem names_dropIdle (segments : List String) : names (dropIdle segments) = names segments := by
  obtain ⟨idle, hsegments, hidle⟩ := exists_dropIdle_append segments
  conv_rhs => rw [hsegments]
  rw [names_append, names_eq_nil hidle, List.append_nil]

/-- The last segment that is left is a step. -/
theorem names_dropLast_dropIdle (segments : List String) :
    names (dropIdle segments).dropLast = (names segments).dropLast := by
  rw [← names_dropIdle segments]
  rcases List.eq_nil_or_concat (dropIdle segments) with hnil | ⟨before, last, hlast⟩
  · rw [hnil]
    rfl
  · have hstep : ¬ IsIdle last := by
      intro hidle
      have hne : dropIdle segments ≠ [] := by simp [hlast]
      have := List.rdropWhile_last_not (fun s => (componentOf? false s).isNone) segments hne
      refine this ?_
      rw [componentOf?_isNone]
      have : (dropIdle segments).getLast hne = last := by simp [hlast]
      exact this ▸ hidle
    have hnames : names [last] = [last] := names_cons_of_step hstep
    rw [hlast, List.concat_eq_append, names_append, hnames, List.dropLast_concat,
      List.dropLast_concat]

/-- A path that begins at the root has an empty segment before others. -/
theorem isAbsolute_iff : p.isAbsolute = true ↔ ∃ s rest, p.segments = "" :: s :: rest := by
  unfold isAbsolute segments
  cases p.text.toList with
  | nil => simp [Text.splitAt]
  | cons c cs =>
      obtain ⟨first, others, hcs⟩ := List.exists_cons_of_ne_nil (Text.splitAt_ne_nil (· == '/') cs)
      by_cases hc : c = '/'
      · simp [Text.splitAt, hc, hcs]
      · simp [Text.splitAt, hc, hcs]

/-- What stands before the segments that a parent is looked for in. -/
theorem splitStart_cases (p : Path) :
    (∃ rest, p.segments = "" :: rest ∧ p.isAbsolute = true ∧ p.splitStart = ("/", rest))
      ∨ (∃ rest, p.segments = "." :: rest ∧ p.isAbsolute = false ∧ p.splitStart = ("./", rest))
      ∨ p.isAbsolute = false ∧ p.splitStart = ("", p.segments) := by
  unfold splitStart
  cases habsolute : p.isAbsolute with
  | true =>
      obtain ⟨s, rest, hsegments⟩ := isAbsolute_iff.mp habsolute
      exact Or.inl ⟨s :: rest, hsegments, rfl, by rw [hsegments]⟩
  | false =>
      split
      next hfalse _ => cases hfalse
      next rest _ hsegments => exact Or.inr (Or.inl ⟨rest, hsegments, rfl, rfl⟩)
      next => exact Or.inr (Or.inr ⟨rfl, rfl⟩)

/-- The path that is left of some segments behind a beginning. -/
theorem names_start {start : String} (hstart : start = "/" ∨ start = "./" ∨ start = "")
    (hslash : ∀ s ∈ segments, '/' ∉ s.toList) :
    names (Path.mk (start ++ "/".intercalate segments)).segments = names segments := by
  cases segments with
  | nil => rcases hstart with rfl | rfl | rfl <;> decide
  | cons first rest =>
      have hsegments := segments_mk_intercalate (List.cons_ne_nil first rest) hslash
      rcases hstart with rfl | rfl | rfl
      · have htext := segments_slash "" ("/".intercalate (first :: rest))
        rw [String.empty_append] at htext
        rw [htext, hsegments]
        rfl
      · have htext := segments_slash "." ("/".intercalate (first :: rest))
        rw [show ("." : String) ++ "/" = "./" by decide] at htext
        rw [htext, hsegments]
        rfl
      · rw [String.empty_append, hsegments]

/-- A parent that is looked for in some segments behind a beginning. -/
def parentFrom? (start : String) (rest : List String) : Option Path :=
  match dropIdle rest with
  | [] => if start == "./" then some ⟨""⟩ else none
  | kept =>
    match dropIdle kept.dropLast with
    | [] => some ⟨if start == "./" then "." else start⟩
    | kept => some ⟨start ++ "/".intercalate kept⟩

theorem parent?_eq (p : Path) : p.parent? = parentFrom? p.splitStart.1 p.splitStart.2 := rfl

theorem isSome_parentFrom? {start : String} (h : names rest ≠ []) :
    (parentFrom? start rest).isSome = true := by
  unfold parentFrom?
  split
  next hnil =>
    rw [← names_dropIdle, hnil] at h
    exact absurd rfl h
  next => split <;> rfl

theorem names_of_parentFrom? {start : String} (hstart : start = "/" ∨ start = "./" ∨ start = "")
    (hslash : ∀ s ∈ rest, '/' ∉ s.toList) (h : parentFrom? start rest = some q) :
    names q.segments = (names rest).dropLast := by
  unfold parentFrom? at h
  rw [← names_dropLast_dropIdle]
  split at h
  next hnil =>
    rw [hnil]
    split at h <;> cases h
    decide
  next =>
    rw [← names_dropIdle (dropIdle rest).dropLast]
    split at h
    next hnil =>
      obtain rfl := Option.some.inj h
      rw [hnil]
      rcases hstart with rfl | rfl | rfl <;> decide
    next =>
      obtain rfl := Option.some.inj h
      refine names_start hstart fun s hs => hslash s ?_
      obtain ⟨idle, hidle, _⟩ := exists_dropIdle_append rest
      obtain ⟨idle', hidle', _⟩ := exists_dropIdle_append (dropIdle rest).dropLast
      have hdropped : s ∈ (dropIdle rest).dropLast := hidle' ▸ List.mem_append_left _ hs
      exact hidle ▸ List.mem_append_left _ (List.dropLast_subset _ hdropped)

/-- What is dropped at the end leaves the beginning. -/
theorem dropIdle_isPrefix (segments : List String) : dropIdle segments <+: segments := by
  obtain ⟨idle, hidle, _⟩ := exists_dropIdle_append segments
  exact ⟨idle, hidle.symm⟩

theorem isAbsolute_of_parentFrom? (h : parentFrom? p.splitStart.1 p.splitStart.2 = some q) :
    q.isAbsolute = p.isAbsolute := by
  unfold parentFrom? at h
  rcases splitStart_cases p with ⟨rest, _, habsolute, hstart⟩ | ⟨rest, _, habsolute, hstart⟩
    | ⟨habsolute, hstart⟩
  all_goals
    rw [hstart] at h
    rw [habsolute]
    dsimp only at h
  · split at h
    next => cases h
    next =>
      split at h <;> obtain rfl := Option.some.inj h
      · simp [isAbsolute]
      · simp [isAbsolute, String.toList_append]
  · split at h
    next =>
      cases h
      rfl
    next =>
      split at h <;> obtain rfl := Option.some.inj h
      · simp [isAbsolute]
      · simp [isAbsolute, String.toList_append]
  · split at h
    next => cases h
    next =>
      split at h
      next =>
        cases h
        rfl
      next kept hkept =>
        obtain rfl := Option.some.inj h
        -- the parent begins with the segments of the path
        have hbegins : dropIdle (dropIdle p.segments).dropLast <+: p.segments :=
          ((dropIdle_isPrefix _).trans (List.dropLast_prefix _)).trans (dropIdle_isPrefix _)
        have hslash : ∀ s ∈ dropIdle (dropIdle p.segments).dropLast, '/' ∉ s.toList :=
          fun s hs => slash_notMem_of_mem_segments (hbegins.mem hs)
        refine Bool.eq_false_iff.mpr fun hq => ?_
        obtain ⟨s, rest, hsegments⟩ := isAbsolute_iff.mp hq
        rw [String.empty_append, segments_mk_intercalate hkept hslash] at hsegments
        obtain ⟨more, hmore⟩ := hbegins
        rw [hsegments] at hmore
        rw [isAbsolute_iff.mpr ⟨s, rest ++ more, hmore.symm⟩] at habsolute
        cases habsolute

/-- **The steps of a parent**: all steps but the last. -/
theorem names_of_parent? (h : p.parent? = some q) :
    names q.segments = (names p.segments).dropLast ∧ q.isAbsolute = p.isAbsolute := by
  rw [parent?_eq] at h
  refine ⟨?_, isAbsolute_of_parentFrom? h⟩
  have hslash : ∀ s ∈ p.segments, '/' ∉ s.toList := fun s hs => slash_notMem_of_mem_segments hs
  rcases splitStart_cases p with ⟨rest, hsegments, _, hstart⟩ | ⟨rest, hsegments, _, hstart⟩
    | ⟨_, hstart⟩
  all_goals rw [hstart] at h
  · rw [hsegments] at hslash ⊢
    refine Eq.trans (names_of_parentFrom? (Or.inl rfl) (fun s hs => ?_) h) rfl
    exact hslash s (List.mem_cons_of_mem _ hs)
  · rw [hsegments] at hslash ⊢
    refine Eq.trans (names_of_parentFrom? (Or.inr (Or.inl rfl)) (fun s hs => ?_) h) rfl
    exact hslash s (List.mem_cons_of_mem _ hs)
  · exact names_of_parentFrom? (Or.inr (Or.inr rfl)) hslash h

/-- A path with a step has a parent. -/
theorem exists_parent? (h : names p.segments ≠ []) : ∃ q, p.parent? = some q := by
  refine Option.isSome_iff_exists.mp ?_
  rw [parent?_eq]
  rcases splitStart_cases p with ⟨rest, hsegments, _, hstart⟩ | ⟨rest, hsegments, _, hstart⟩
    | ⟨_, hstart⟩
  all_goals rw [hstart]
  · exact isSome_parentFrom? (by rwa [hsegments] at h)
  · exact isSome_parentFrom? (by rwa [hsegments] at h)
  · exact isSome_parentFrom? h

/-! ## §5. File names. -/

/-- A step as a component. -/
def stepComponent (s : String) : PathComponent :=
  if s == ".." then .parent else .name s

theorem componentOf?_of_step {s : String} (h : ¬ IsIdle s) :
    componentOf? false s = some (stepComponent s) := by
  rw [IsIdle, not_or] at h
  unfold componentOf? stepComponent
  by_cases hup : s = ".." <;> simp [h.1, h.2, hup]

theorem filterMap_componentOf? (segments : List String) :
    segments.filterMap (componentOf? false) = (names segments).map stepComponent := by
  induction segments with
  | nil => rfl
  | cons s segments ih =>
      by_cases hs : IsIdle s
      · have hnone := (componentOf?_isNone s).mpr hs
        rw [List.filterMap_cons_none (Option.isNone_iff_eq_none.mp hnone), ih, names_cons_of_idle hs]
      · rw [List.filterMap_cons_some (componentOf?_of_step hs), ih, names_cons_of_step hs,
          List.map_cons]

/-- The components of a path are its steps behind a beginning that has no name. -/
theorem exists_components_eq (p : Path) :
    ∃ start, p.components = start ++ (names p.segments).map stepComponent
      ∧ ∀ c ∈ start, ∀ text, c ≠ .name text := by
  unfold components
  cases hsegments : p.segments with
  | nil => exact ⟨[], rfl, nofun⟩
  | cons first rest =>
      show ∃ start, (if p.isAbsolute = true then [.root] else (componentOf? true first).toList)
          ++ rest.filterMap (componentOf? false) = _ ∧ _
      rw [filterMap_componentOf?]
      cases habsolute : p.isAbsolute with
      | true =>
          obtain ⟨s, others, hroot⟩ := isAbsolute_iff.mp habsolute
          obtain ⟨rfl, _⟩ := List.cons.inj (hsegments.symm.trans hroot)
          refine ⟨[.root], rfl, fun c hc text => ?_⟩
          rw [List.mem_singleton.mp hc]
          exact nofun
      | false =>
          by_cases hdot : first = "."
          · refine ⟨[.current], by rw [hdot]; rfl, fun c hc text => ?_⟩
            rw [List.mem_singleton.mp hc]
            exact nofun
          · refine ⟨[], ?_, nofun⟩
            have hfirst : (componentOf? true first).toList = [first].filterMap (componentOf? false) := by
              unfold componentOf?
              by_cases hempty : first = ""
              · simp [hempty]
              · by_cases hup : first = ".." <;> simp [hempty, hdot, hup]
            rw [if_neg Bool.false_ne_true, hfirst, filterMap_componentOf?, List.nil_append,
              ← List.map_append, ← names_append]
            rfl

/-- **The last step of a path with a file name.** -/
theorem exists_of_fileName? (h : p.fileName? = some name) :
    IsName name ∧ '/' ∉ name.toList ∧ ∃ above, names p.segments = above ++ [name] := by
  obtain ⟨start, hcomponents, hstart⟩ := exists_components_eq p
  have hlast : p.components.getLast? = some (.name name) := by
    unfold fileName? at h
    split at h
    next hlast =>
      cases h
      exact hlast
    next => cases h
  rw [hcomponents] at hlast
  rcases List.eq_nil_or_concat (names p.segments) with hnil | ⟨above, last, hsteps⟩
  · rw [hnil, List.map_nil, List.append_nil] at hlast
    exact absurd rfl (hstart _ (List.mem_of_getLast? hlast) name)
  · rw [List.concat_eq_append] at hsteps
    rw [hsteps, List.map_append, ← List.append_assoc, List.map_singleton, List.getLast?_concat] at hlast
    have hmem : last ∈ names p.segments := by simp [hsteps]
    obtain ⟨hsegment, hcounts⟩ := List.mem_filter.mp hmem
    have hup : last ≠ ".." := by
      rintro rfl
      cases hlast
    obtain rfl : last = name := by
      rw [stepComponent, if_neg (by simpa using hup)] at hlast
      injection hlast with hlast
      injection hlast
    refine ⟨⟨?_, ?_, hup⟩, slash_notMem_of_mem_segments hsegment, above, hsteps⟩
    · rintro rfl
      simp at hcounts
    · rintro rfl
      simp at hcounts

theorem segments_of_notMem (h : '/' ∉ name.toList) : (Path.mk name).segments = [name] := by
  have hpieces : Text.splitAt (· == '/') name.toList = [name.toList] :=
    Text.splitAt_of_forall fun c hc => beq_false_of_ne fun heq : c = '/' => h (heq ▸ hc)
  rw [segments, hpieces, List.map_singleton, String.ofList_toList]

/-- **A path with another file name** ends with that. -/
theorem exists_segments_withFileName {other : String} {above : List String}
    (h : p.fileName? = some name) (hsteps : names p.segments = above ++ [name])
    (hslash : '/' ∉ other.toList) :
    (p.withFileName other).isAbsolute = p.isAbsolute
      ∧ ∃ before, (p.withFileName other).segments = before ++ [other] ∧ names before = above := by
  obtain ⟨q, hq⟩ := exists_parent? (p := p) (by simp [hsteps])
  obtain ⟨hnames, habsolute⟩ := names_of_parent? hq
  have hrelative : IsRelative other := fun hhead => hslash (List.mem_of_head? hhead)
  have hpath : p.withFileName other = q.join other := by
    unfold withFileName
    rw [h, hq]
    rfl
  obtain ⟨before, hsegments, hbefore⟩ := exists_segments_join q hrelative
  rw [hpath]
  refine ⟨(isAbsolute_join q hrelative).trans habsolute, before, ?_, ?_⟩
  · rw [hsegments, segments_of_notMem hslash]
  · rw [hbefore, hnames, hsteps, List.dropLast_concat]

end Path

end AssetBundler
