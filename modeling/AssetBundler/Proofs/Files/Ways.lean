/-
  AssetBundler.Proofs.Files.Ways
  ────────────────────────────────
  **WHAT MODULE NAMES TELL APART.**

  A module is called by its way from the root of the project: up as far as
  it must, and down from there.  The way leads back to the module, so two
  modules have two ways.  The name is written with slashes for backslashes,
  and a file name may have these: what is left of a way in its name is what
  stands between all of them.

    • `Path.way`, `Path.place_way` — the way, and that it leads back,
    • `Path.relativeTo?_eq_way` — relative paths are ways,
    • `Path.moduleId_eq_iff` — when two modules have one name,
    • `Path.moduleId_inj` — where no name has a backslash, each has its own.
-/
import AssetBundler.Proofs.Files.Below

namespace AssetBundler.Path

open FileTree

variable {root l l' : Location} {s : String} {steps : List String}

/-! ## §1. Ways. -/

/-- **The way from one location to another**: up from the names of the first that the second does not
share, and down along those of the second. -/
def way : Location → Location → List String
  | [], l => l
  | _ :: root, [] => ".." :: root.map fun _ => ".."
  | r :: root, n :: l => if r = n then way root l else ".." :: root.map (fun _ => "..") ++ n :: l

/-- As many steps up as there are names lead out of them. -/
theorem place_up (start : Location) (names : List String) :
    place (start ++ names) (names.map fun _ => "..") = start := by
  induction names using List.reverseRecOn with
  | nil => exact List.append_nil start
  | append_singleton names n ih =>
      have hmap : (names ++ [n]).map (fun _ => "..") = ".." :: names.map fun _ => ".." := by
        rw [List.map_const', List.map_const', List.length_append, List.length_singleton,
          List.replicate_succ]
      have hstep : stepTo (start ++ (names ++ [n])) ".." = start ++ names := by
        rw [← List.append_assoc, stepTo, if_pos (by rfl), List.dropLast_concat]
      rw [hmap, place_cons, hstep, ih]

/-- **The way leads back**, by induction on what the two locations share. -/
theorem place_way : ∀ (start root : Location) {l : Location}, (∀ n ∈ l, IsName n) →
    place (start ++ root) (way root l) = start ++ l
  | start, [], l, hl => by
      rw [way, List.append_nil, place_of_isName start hl]
  | start, r :: root, [], _ => by
      rw [List.append_nil]
      exact place_up start (r :: root)
  | start, r :: root, n :: l, hl => by
      unfold way
      split
      next hsame =>
        obtain rfl := hsame
        have hrest := place_way (start ++ [r]) root (List.forall_mem_cons.mp hl).2
        simpa using hrest
      next =>
        have hup := place_up start (r :: root)
        rw [List.map_cons] at hup
        rw [place_append, hup, place_of_isName start hl]

/-- **Two locations have two ways.** -/
theorem way_inj (hl : ∀ n ∈ l, IsName n) (hl' : ∀ n ∈ l', IsName n)
    (h : way root l = way root l') : l = l' := by
  have hback := place_way [] root hl
  rw [h, place_way [] root hl', List.nil_append, List.nil_append] at hback
  exact hback.symm

/-- A step leads up or down to a name of the location. -/
theorem mem_way : ∀ {root l : Location}, s ∈ way root l → s = ".." ∨ s ∈ l
  | [], _, h => Or.inr h
  | _ :: root, [], h => by
      rcases List.mem_cons.mp h with rfl | h
      · exact Or.inl rfl
      · obtain ⟨_, _, rfl⟩ := List.mem_map.mp h
        exact Or.inl rfl
  | r :: root, n :: l, h => by
      unfold way at h
      split at h
      next => exact (mem_way h).imp_right (List.mem_cons_of_mem _)
      next =>
        rcases List.mem_append.mp h with h | h
        · rcases List.mem_cons.mp h with rfl | h
          · exact Or.inl rfl
          · obtain ⟨_, _, rfl⟩ := List.mem_map.mp h
            exact Or.inl rfl
        · exact Or.inr h

/-- The step is written as a segment. -/
def IsStep (s : String) : Prop :=
  s ≠ "" ∧ '/' ∉ s.toList

theorem isStep_of_mem_way (hl : ∀ n ∈ l, IsFileName n) (h : s ∈ way root l) : IsStep s := by
  rcases mem_way h with rfl | h
  · exact ⟨by decide, by decide⟩
  · exact ⟨(hl s h).1.1, (hl s h).2⟩

/-! ## §2. Relative paths. -/

theorem components_ofNames_of_isFileName (hl : ∀ n ∈ l, IsFileName n) :
    (ofNames l).components = .root :: l.map .name := by
  rw [components_ofNames]
  congr 1
  induction l with
  | nil => rfl
  | cons n l ih =>
      obtain ⟨⟨⟨hempty, hdot, hup⟩, hslash⟩, hrest⟩ := List.forall_mem_cons.mp hl
      have hpieces : Text.splitAt (· == '/') n.toList = [n.toList] :=
        Text.splitAt_of_forall fun c hc => beq_false_of_ne fun heq : c = '/' => hslash (heq ▸ hc)
      have hname : spelled n.toList = [.name n] := by
        simp [spelled, hpieces, componentOf?, hempty, hdot, hup]
      rw [List.flatMap_cons, hname, ih hrest]
      rfl

theorem difference_nil (fresh : Bool) (names : List String) :
    difference fresh [] (names.map .name) = some (names.map fun _ => .parent) := by
  induction names with
  | nil => rfl
  | cons n names ih =>
      rw [List.map_cons, difference, ih]
      rfl

/-- **The way by components.** -/
theorem difference_eq_way : ∀ {root l : Location}, (∀ n ∈ l, IsName n) →
    difference true (l.map .name) (root.map .name) = some ((way root l).map stepComponent)
  | [], l, hl => by
      have hdown : l.map stepComponent = l.map .name := by
        refine List.map_congr_left fun n hn => ?_
        rw [stepComponent, if_neg (by simpa using (hl n hn).2.2)]
      rw [way, hdown]
      cases l <;> rfl
  | r :: root, [], _ => by
      rw [List.map_nil, difference_nil, way]
      simp [stepComponent]
  | r :: root, n :: l, hl => by
      obtain ⟨hn, hrest⟩ := List.forall_mem_cons.mp hl
      have hdown : ∀ m ∈ n :: l, stepComponent m = .name m := by
        intro m hm
        rw [stepComponent, if_neg (by simpa using (hl m hm).2.2)]
      rw [List.map_cons, List.map_cons, difference]
      unfold way
      by_cases hsame : r = n
      · rw [if_pos (by simp [hsame]), if_pos hsame]
        exact difference_eq_way hrest
      · rw [if_neg (by simp [Ne.symm hsame]), if_neg hsame]
        rw [if_neg (by simp), if_neg (by simp)]
        rw [List.map_append, List.map_congr_left hdown]
        simp [stepComponent, Function.comp_def]

/-- A step is spelled as it is written. -/
theorem text_stepComponent (s : String) : (stepComponent s).text = s := by
  unfold stepComponent
  split
  next hup => exact (eq_of_beq hup).symm
  next => rfl

/-- A text that ends with a step does not end with a slash. -/
theorem getLast?_intercalate_ne (hs : IsStep s) (before : List String) :
    ("/".intercalate (before ++ [s])).toList.getLast? ≠ some '/' := by
  have hne : s.toList ≠ [] := fun h => hs.1 (String.toList_inj.mp h)
  have hend : ∃ start, "/".intercalate (before ++ [s]) = start ++ s := by
    by_cases hbefore : before = []
    · exact ⟨"", by simp [hbefore]⟩
    · refine ⟨"/".intercalate before ++ "/", ?_⟩
      rw [String.intercalate_append_of_ne_nil hbefore (List.cons_ne_nil _ _),
        String.intercalate_singleton]
  obtain ⟨start, hstart⟩ := hend
  rw [hstart, String.toList_append, List.getLast?_append_of_ne_nil _ hne]
  exact fun h => hs.2 (List.mem_of_getLast? h)

/-- Steps are not written as the empty text. -/
theorem intercalate_steps_ne (h : ∀ s ∈ steps, IsStep s) (hne : steps ≠ []) :
    "/".intercalate steps ≠ "" := by
  intro hempty
  have hsegments : (Path.mk ("/".intercalate steps)).segments = steps :=
    segments_mk_intercalate hne fun s hs => (h s hs).2
  rw [hempty] at hsegments
  have hnil : (Path.mk "").segments = [""] := rfl
  rw [hnil] at hsegments
  exact (h "" (hsegments ▸ List.mem_cons_self)).1 rfl

/-- Steps are written one behind the other, with slashes between. -/
theorem ofComponents_steps (h : ∀ s ∈ steps, IsStep s) :
    ofComponents (steps.map stepComponent) = ⟨"/".intercalate steps⟩ := by
  induction steps using List.reverseRecOn with
  | nil => rfl
  | append_singleton before s ih =>
      have hs : IsStep s := h s (by simp)
      have hbefore := ih fun t ht => h t (List.mem_append_left _ ht)
      unfold ofComponents at hbefore ⊢
      rw [List.map_append, List.foldl_append, hbefore]
      show (Path.mk ("/".intercalate before)).join (stepComponent s).text = _
      have hhead : ¬ (s.toList.head? == some '/') = true := by
        rw [beq_iff_eq]
        exact fun hslash => hs.2 (List.mem_of_head? hslash)
      rw [text_stepComponent]
      unfold join
      rw [if_neg hhead]
      rcases List.eq_nil_or_concat before with rfl | ⟨above, last, hconcat⟩
      · rfl
      · rw [List.concat_eq_append] at hconcat
        have hlast : IsStep last := h last (by simp [hconcat])
        have hslash := getLast?_intercalate_ne hlast above
        rw [← hconcat] at hslash
        have hempty : ("/".intercalate before == "") = false :=
          beq_false_of_ne (intercalate_steps_ne (fun t ht => h t (List.mem_append_left _ ht))
            (by simp [hconcat]))
        rw [hempty, Bool.false_or, if_neg (by simpa using hslash)]
        rw [String.intercalate_append_of_ne_nil (by simp [hconcat]) (List.cons_ne_nil _ _),
          String.intercalate_singleton]

/-- **A relative path is the way**, written with slashes. -/
theorem relativeTo?_eq_way (hroot : ∀ n ∈ root, IsFileName n) (hl : ∀ n ∈ l, IsFileName n) :
    (ofNames l).relativeTo? (ofNames root) = some ⟨"/".intercalate (way root l)⟩ := by
  have hsame : (PathComponent.root == PathComponent.root) = true := by decide
  unfold relativeTo?
  rw [isAbsolute_ofNames, isAbsolute_ofNames, components_ofNames_of_isFileName hroot,
    components_ofNames_of_isFileName hl, difference, hsame]
  show (difference true (l.map .name) (root.map .name)).map ofComponents = _
  rw [difference_eq_way fun n hn => (hl n hn).1, Option.map_some,
    ofComponents_steps fun s hs => isStep_of_mem_way hl hs]

/-! ## §3. Names of modules. -/

/-- A text with slashes for backslashes. -/
def slashed (s : String) : String :=
  String.ofList (s.toList.map fun c => if c == '\\' then '/' else c)

/-- **The parts of a step**: what stands between its backslashes. -/
def parts (s : String) : List String :=
  (Text.splitAt (· == '\\') s.toList).map String.ofList

/-- Where there is no slash yet, the segments of the new text are the parts of the old one. -/
theorem segments_slashed (hs : '/' ∉ s.toList) : (Path.mk (slashed s)).segments = parts s := by
  have hpieces : ∀ {text : List Char}, '/' ∉ text →
      Text.splitAt (· == '/') (text.map fun c => if c == '\\' then '/' else c)
        = Text.splitAt (· == '\\') text := by
    intro text
    induction text with
    | nil => exact fun _ => rfl
    | cons c text ih =>
        intro hslash
        obtain ⟨hc, hrest⟩ := not_or.mp (mt List.mem_cons.mpr hslash)
        rw [List.map_cons, Text.splitAt, Text.splitAt, ih hrest]
        by_cases hback : c = '\\'
        · simp [hback]
        · simp [hback, Ne.symm hc]
  rw [segments, slashed, String.toList_ofList, hpieces hs, parts]

theorem segments_intercalate : ∀ {texts : List String}, texts ≠ [] →
    (Path.mk ("/".intercalate texts)).segments = texts.flatMap fun t => (Path.mk t).segments
  | [], h => absurd rfl h
  | [t], _ => by simp
  | t :: t' :: texts, _ => by
      rw [String.intercalate_cons_cons, segments_slash, segments_intercalate (List.cons_ne_nil _ _)]
      rfl

theorem slashed_append (s t : String) : slashed (s ++ t) = slashed s ++ slashed t :=
  String.toList_inj.mp (by simp [slashed])

theorem slashed_intercalate : ∀ texts : List String,
    slashed ("/".intercalate texts) = "/".intercalate (texts.map slashed)
  | [] => rfl
  | [t] => by simp
  | t :: t' :: texts => by
      have hslash : slashed "/" = "/" := by decide
      rw [String.intercalate_cons_cons, slashed_append, slashed_append, hslash,
        slashed_intercalate (t' :: texts)]
      exact String.intercalate_cons_cons.symm

/-- **The name of a module** is its way, written with slashes only. -/
theorem moduleId_ofNames (hroot : ∀ n ∈ root, IsFileName n) (hl : ∀ n ∈ l, IsFileName n) :
    moduleId (ofNames l) (ofNames root) = slashed ("/".intercalate (way root l)) := by
  unfold moduleId
  rw [relativeTo?_eq_way hroot hl]
  rfl

/-- **What is left of a way in a name** are the parts of its steps. -/
theorem segments_moduleId (hroot : ∀ n ∈ root, IsFileName n) (hl : ∀ n ∈ l, IsFileName n)
    (hway : way root l ≠ []) :
    (Path.mk (moduleId (ofNames l) (ofNames root))).segments = (way root l).flatMap parts := by
  rw [moduleId_ofNames hroot hl, slashed_intercalate, segments_intercalate (by simpa using hway),
    List.flatMap_map]
  refine List.flatMap_congr fun s hs => ?_
  exact segments_slashed (isStep_of_mem_way hl hs).2

theorem eq_nil_of_flatMap_parts (h : steps.flatMap parts = []) : steps = [] := by
  cases steps with
  | nil => rfl
  | cons s rest =>
      have hne := Text.splitAt_ne_nil (· == '\\') s.toList
      simp [parts, hne] at h

/-- No step is left without a part, and the one part of an empty name is empty. -/
theorem flatMap_parts_ne (h : ∀ s ∈ steps, IsStep s) : steps.flatMap parts ≠ [""] := by
  intro hparts
  cases steps with
  | nil => cases hparts
  | cons s rest =>
      have hs : IsStep s := h s List.mem_cons_self
      have hne : parts s ≠ [] := by simpa [parts] using Text.splitAt_ne_nil (· == '\\') s.toList
      obtain ⟨first, more, hfirst⟩ := List.exists_cons_of_ne_nil hne
      rw [List.flatMap_cons, hfirst] at hparts
      obtain ⟨rfl, hmore⟩ := List.cons.inj hparts
      obtain ⟨rfl, _⟩ := List.append_eq_nil_iff.mp hmore
      -- the step is put together from its parts again
      have htext : ['\\'].intercalate (Text.splitAt (· == '\\') s.toList) = s.toList :=
        Text.intercalate_splitAt (by simp) _
      have hpiece : Text.splitAt (· == '\\') s.toList = [[]] := by
        have hmap := congrArg (List.map String.toList) hfirst
        simpa [parts, Function.comp_def] using hmap
      rw [hpiece] at htext
      exact hs.1 (String.toList_inj.mp (by simpa using htext.symm))

/-- **WHEN TWO MODULES HAVE ONE NAME**: their ways have the same parts, however these are divided into
file names. -/
theorem moduleId_eq_iff (hroot : ∀ n ∈ root, IsFileName n) (hl : ∀ n ∈ l, IsFileName n)
    (hl' : ∀ n ∈ l', IsFileName n) :
    moduleId (ofNames l) (ofNames root) = moduleId (ofNames l') (ofNames root)
      ↔ (way root l).flatMap parts = (way root l').flatMap parts := by
  have hempty : ∀ {l : Location}, (∀ n ∈ l, IsFileName n) → way root l = [] →
      (Path.mk (moduleId (ofNames l) (ofNames root))).segments = [""] := by
    intro l hl hway
    rw [moduleId_ofNames hroot hl, hway]
    rfl
  have hsegments : moduleId (ofNames l) (ofNames root) = moduleId (ofNames l') (ofNames root)
      ↔ (Path.mk (moduleId (ofNames l) (ofNames root))).segments
        = (Path.mk (moduleId (ofNames l') (ofNames root))).segments :=
    ⟨fun h => by rw [h], eq_of_segments_eq⟩
  have hparts : (way root l).flatMap parts ≠ [""] :=
    flatMap_parts_ne fun s hs => isStep_of_mem_way hl hs
  have hparts' : (way root l').flatMap parts ≠ [""] :=
    flatMap_parts_ne fun s hs => isStep_of_mem_way hl' hs
  rw [hsegments]
  -- the root of the project has the empty name, and no other location has it
  by_cases hway : way root l = [] <;> by_cases hway' : way root l' = []
  · rw [hempty hl hway, hempty hl' hway', hway, hway']
    exact iff_of_true rfl rfl
  · rw [hempty hl hway, segments_moduleId hroot hl' hway', hway]
    refine ⟨fun h => absurd h.symm hparts', fun h => ?_⟩
    exact absurd (eq_nil_of_flatMap_parts h.symm) hway'
  · rw [hempty hl' hway', segments_moduleId hroot hl hway, hway']
    exact ⟨fun h => absurd h hparts, fun h => absurd (eq_nil_of_flatMap_parts h) hway⟩
  · rw [segments_moduleId hroot hl hway, segments_moduleId hroot hl' hway']

/-- A location whose way has no backslash. -/
def IsPlainWay (root l : Location) : Prop :=
  ∀ s ∈ way root l, '\\' ∉ s.toList

theorem flatMap_parts_of_plain (h : IsPlainWay root l) : (way root l).flatMap parts = way root l := by
  have hpart : ∀ s ∈ way root l, parts s = [s] := by
    intro s hs
    have hpieces : Text.splitAt (· == '\\') s.toList = [s.toList] :=
      Text.splitAt_of_forall fun c hc => beq_false_of_ne fun heq : c = '\\' => h s hs (heq ▸ hc)
    rw [parts, hpieces, List.map_singleton, String.ofList_toList]
  rw [List.flatMap_congr hpart, List.flatMap_singleton']

/-- **Modules whose ways have no backslash have names of their own.** -/
theorem moduleId_inj (hroot : ∀ n ∈ root, IsFileName n) (hl : ∀ n ∈ l, IsFileName n)
    (hl' : ∀ n ∈ l', IsFileName n) (hplain : IsPlainWay root l) (hplain' : IsPlainWay root l')
    (h : moduleId (ofNames l) (ofNames root) = moduleId (ofNames l') (ofNames root)) : l = l' := by
  rw [moduleId_eq_iff hroot hl hl', flatMap_parts_of_plain hplain, flatMap_parts_of_plain hplain'] at h
  exact way_inj (fun n hn => (hl n hn).1) (fun n hn => (hl' n hn).1) h

end AssetBundler.Path
