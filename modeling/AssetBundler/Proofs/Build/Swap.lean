/-
  AssetBundler.Proofs.Build.Swap
  ────────────────────────────────
  **OUTPUT THAT TAKES ITS PLACE.**

  Once the output has been put together, what stands in its place is taken
  away, from the bottom, and the staged output is given its path.  Each of
  these operations may fail.  The new output is whole all the time: in its
  place if nothing fails, and where it has been staged otherwise.  The output
  before is whole only until the first thing has been taken away; from then on
  a part of it is left, and in the end nothing.

    • `BuildOutput.trySwap` — the operations under faults,
    • `BuildOutput.gives_trySwap` — without faults,
    • `BuildOutput.HoldsExactly.move` — the staged output in another place,
    • `BuildOutput.trySwap_keeps_new_output` — what is left, whatever fails,
    • `BuildOutput.swap_leaves_neither` — places with neither output,
    • `BuildOutput.tryPublish_keeps_new_output` — the same from the beginning.
-/
import AssetBundler.Proofs.Build.Staging
import AssetBundler.Proofs.Files.Removal

namespace AssetBundler

open FileTree FaultM

namespace BuildOutput

variable {o : BuildOutput} {outdir dir staging : Path} {files start made cleared : FileTree}
  {L S l : Location} {order : List Location} {e : Entry} {outputs : List (String × ByteArray)}

/-! ## §1. The operations. -/

/-- Takes a directory away if something stands there. -/
def tryClear (order : List Location) (dir : Path) (files : FileTree) : FaultM WriteResult :=
  if files.exists_ dir then do
    match ← tryRemoveAll order files dir with
    | (files, some e) => return (files, some (.emission dir e))
    | (files, none) => return (files, none)
  else return (files, none)

/-- Gives the staged output another path. -/
def tryRename (staging outdir : Path) (files : FileTree) : FaultM WriteResult := do
  match ← fault? with
  | some fault => return (files, some (.emission outdir fault.error))
  | none =>
    match files.rename staging outdir with
    | .ok files => return (files, none)
    | .error e => return (files, some (.emission outdir e))

/-- Puts the staged output in the place of the output directory. -/
def trySwap (order : List Location) (staging outdir : Path) (files : FileTree) :
    FaultM WriteResult := do
  match ← tryClear order outdir files with
  | (files, some e) => return (files, some e)
  | (files, none) => tryRename staging outdir files

/-- Writes the output for production: stages it, and puts it in its place. -/
def tryPublish (o : BuildOutput) (order : List Location) (outdir : Path) (files : FileTree) :
    FaultM WriteResult := do
  match ← o.tryStage outdir files with
  | (files, some e) => return (files, some e)
  | (files, none) => trySwap order (stagingDir outdir) outdir files

/-- **Without faults** the staged output is put in its place as it is. -/
theorem gives_trySwap (staging : Path)
    (horder : ∀ at_, files.find false outdir = .ok (.occupied at_ .directory) →
      Emptying files at_ order) :
    Gives (trySwap order staging outdir files) (swap staging outdir files) := by
  have hrename : ∀ files : FileTree, Gives (tryRename staging outdir files)
      (match files.rename staging outdir with
        | .ok files => (files, none)
        | .error e => (files, some (.emission outdir e))) := by
    intro files
    refine gives_fault?.bind ?_
    dsimp only
    cases files.rename staging outdir <;> exact gives_pure _
  have hclear : Gives (tryClear order outdir files) (clear outdir files) := by
    unfold tryClear clear
    split
    next =>
      refine (gives_tryRemoveAll horder).bind ?_
      rcases files.removeAll outdir with ⟨left, _ | e⟩ <;> exact gives_pure _
    next => exact gives_pure _
  refine hclear.bind ?_
  unfold swap
  rcases clear outdir files with ⟨left, _ | e⟩
  · exact hrename left
  · exact gives_pure _

/-! ## §2. The staged output. -/

theorem entry?_move_beside {source target : Location} (hsource : ¬ source <+: l)
    (htarget : ¬ target <+: l) : entry? (files.move source target) l = files.entry? l := by
  unfold FileTree.entry? FileTree.move
  split
  next => rfl
  next =>
    induction files.entries with
    | nil => rfl
    | cons entry rest ih =>
        rw [List.map_cons]
        by_cases hmoved : source <+: entry.1
        · have hnew : l ≠ target ++ entry.1.drop source.length :=
            fun heq => htarget (heq ▸ List.prefix_append _ _)
          have hold : l ≠ entry.1 := fun heq => hsource (heq ▸ hmoved)
          rw [if_pos (List.isPrefixOf_iff_prefix.mpr hmoved), List.lookup_cons, List.lookup_cons,
            beq_false_of_ne hnew, beq_false_of_ne hold, ih]
        · rw [if_neg (by simp [isPrefixOf_eq_false hmoved]), List.lookup_cons, List.lookup_cons, ih]

/-- A directory holds what it held if the same stands there and below. -/
theorem HoldsExactly.congr (h : HoldsExactly outputs S files)
    (hsame : ∀ l, made.entry? (S ++ l) = files.entry? (S ++ l)) : HoldsExactly outputs S made where
  written f hf := (hsame _).trans (h.written f hf)
  nothingElse l e hentry := h.nothingElse l e ((hsame l).symm.trans hentry)
  directory := by
    have hroot := hsame []
    rw [List.append_nil] at hroot
    exact hroot.trans h.directory

/-- **A directory that is moved** holds in its new place what it held. -/
theorem HoldsExactly.move (h : HoldsExactly outputs S files) (hS : S ≠ []) (hL : L ≠ [])
    (hvacated : files.Vacated L) : HoldsExactly outputs L (files.move S L) where
  written f hf := (entry?_move hS hL hvacated _).trans (h.written f hf)
  nothingElse l e hentry := h.nothingElse l e ((entry?_move hS hL hvacated l).symm.trans hentry)
  directory := by
    have hroot := entry?_move hS hL hvacated []
    rw [List.append_nil, List.append_nil] at hroot
    exact hroot.trans h.directory

/-- **Where a path leads**, to something or to a vacant place. -/
def LeadsTo (files : FileTree) (path : Path) (at_ : Location) : Prop :=
  (∃ e, files.find false path = .ok (.occupied at_ e))
    ∨ ∃ slash, files.find false path = .ok (.vacant at_ slash)

/-- **The output is ready to take its place**: it has been staged, and if the path of the output directory
leads anywhere, to a directory, a file, a link or nothing at all, then to a place beside it. -/
structure Ready (o : BuildOutput) (outdir : Path) (S L : Location) (files : FileTree) : Prop where
  coherent : files.Coherent
  stands : files.Stands (files.base outdir)
  staged : ∃ e, files.find false (stagingDir outdir) = .ok (.occupied S e)
  holds : HoldsExactly o.files S files
  leads : ∀ at_, LeadsTo files outdir at_ → at_ = L
  outside : ¬ L <+: files.base outdir
  beside : ¬ L <+: S
  beside' : ¬ S <+: L

namespace Ready

variable (h : Ready o outdir S L files)

include h

theorem ne_nil : L ≠ [] := by
  rintro rfl
  exact h.beside List.nil_prefix

theorem staged_ne_nil : S ≠ [] := by
  rintro rfl
  exact h.beside' List.nil_prefix

/-- What is taken away does not belong to the staged output. -/
theorem holds_withoutAll (hbelow : ∀ l ∈ order, L <+: l) :
    HoldsExactly o.files S (files.withoutAll order) := by
  refine h.holds.congr fun l => entry?_withoutAll fun l' hl' hprefix => ?_
  rcases List.prefix_or_prefix_of_prefix ((hbelow l' hl').trans hprefix) (List.prefix_append S l)
    with hle | hle
  · exact h.beside hle
  · exact h.beside' hle

/-- **The rename** puts the output in its place, when the output directory still leads there. -/
theorem rename (hbelow : ∀ l ∈ order, L <+: l)
    (hleads : ∀ at_, LeadsTo (files.withoutAll order) outdir at_ → at_ = L)
    (hmade : rename (files.withoutAll order) (stagingDir outdir) outdir = .ok made) :
    HoldsExactly o.files L made ∧ made.Vacated S
      ∧ ∀ l, ¬ L <+: l → ¬ S <+: l → made.entry? l = files.entry? l := by
  obtain ⟨e, hstaged⟩ := h.staged
  have hholds := h.holds_withoutAll hbelow
  have hsame : ∀ l, ¬ L <+: l → entry? (files.withoutAll order) l = files.entry? l :=
    fun l hl => entry?_withoutAll fun l' hl' hprefix => hl ((hbelow l' hl').trans hprefix)
  -- in both cases the staged output is moved into a tree in which nothing stands at its place
  obtain ⟨vacated, rfl, hvacated, hkept⟩ : ∃ vacated : FileTree, made = vacated.move S L
      ∧ vacated.Vacated L ∧ ∀ l, ¬ L <+: l → vacated.entry? l = entry? (files.withoutAll order) l := by
    unfold FileTree.rename at hmade
    split at hmade
    next => cases hmade
    next => cases hmade
    next => cases hmade
    next old _ new slash hold hnew =>
      obtain rfl := (eq_of_find_withoutAll hstaged hold).1
      obtain rfl := hleads new (Or.inr ⟨slash, hnew⟩)
      cases hmade
      refine ⟨_, rfl, (h.coherent.withoutAll order).vacated ?_, fun _ _ => rfl⟩
      exact (vacant_of_find hnew).2.1
    next old _ new hold hnew =>
      obtain rfl := (eq_of_find_withoutAll hstaged hold).1
      obtain rfl := hleads new (Or.inl ⟨_, hnew⟩)
      split at hmade
      next => cases hmade
      next =>
        cases hmade
        exact ⟨_, rfl, Vacated.without new _, fun _ hl => entry?_without hl⟩
    next => cases hmade
  have hmoved : HoldsExactly o.files S vacated := by
    refine hholds.congr fun l => hkept _ fun hprefix => ?_
    rcases List.prefix_or_prefix_of_prefix hprefix (List.prefix_append S l) with hle | hle
    · exact h.beside hle
    · exact h.beside' hle
  refine ⟨hmoved.move h.staged_ne_nil h.ne_nil hvacated, vacated_move h.beside' h.beside,
    fun l hL hS => ?_⟩
  rw [entry?_move_beside hS hL, hkept l hL, hsame l hL]

end Ready

/-! ## §3. What is left, whatever fails. -/

/-- **What is left of two outputs.**  If writing succeeds, the new one is in its place.  Otherwise it is
whole where it has been staged, and of what stood in its place the first things of an order are gone.
Nothing else changes. -/
structure Swapped (o : BuildOutput) (order : List Location) (S L : Location) (files : FileTree)
    (result : WriteResult) : Prop where
  placed : result.2 = none → HoldsExactly o.files L result.1 ∧ result.1.Vacated S
  kept : result.2 ≠ none → HoldsExactly o.files S result.1
    ∧ ∃ k, ∀ l, L <+: l → entry? result.1 l
      = if l ∈ (order ++ [L]).take k then none else files.entry? l
  unchanged : ∀ l, ¬ L <+: l → ¬ S <+: l → entry? result.1 l = files.entry? l

/-- Behind operations that have taken some things away, and then a failure. -/
theorem Ready.swapped (h : Ready o outdir S L files) (horder : Emptying files L order) (k : Nat)
    (e : BuildError) :
    Swapped o order S L files (files.withoutAll ((order ++ [L]).take k), some e) where
  placed hnone := by cases hnone
  kept _ := ⟨h.holds_withoutAll fun _ hl => horder.prefix_of_mem (List.mem_of_mem_take hl),
    k, fun l _ => horder.entry?_withoutAll h.ne_nil k l⟩
  unchanged l hL _ := by
    refine entry?_withoutAll fun l' hl' hprefix => hL ?_
    exact (horder.prefix_of_mem (List.mem_of_mem_take hl')).trans hprefix

/-- **What is left when the output directory is cleared**, and where it leads when this succeeds. -/
theorem Ready.ensures_tryClear (h : Ready o outdir S L files) (horder : Emptying files L order) :
    Ensures (tryClear order outdir files) fun result =>
      ∃ k, result.1 = files.withoutAll ((order ++ [L]).take k)
        ∧ (result.2 = none → ∀ at_, LeadsTo result.1 outdir at_ → at_ = L) := by
  unfold tryClear
  split
  next =>
    have hremoved : Ensures (tryRemoveAll order files outdir) fun result =>
        ∃ k, result.1 = files.withoutAll ((order ++ [L]).take k)
          ∧ (result.2 = none → ∀ at_, LeadsTo result.1 outdir at_ → at_ = L) := by
      by_cases hthere : ∃ at_ e, files.find false outdir = .ok (.occupied at_ e)
      · obtain ⟨at_, e, hfind⟩ := hthere
        obtain rfl := h.leads at_ (Or.inl ⟨e, hfind⟩)
        intro faults
        obtain ⟨⟨k, hk⟩, hall⟩ := ensures_tryRemoveAll hfind h.coherent horder faults
        refine ⟨k, hk, fun hnone at' hleads => ?_⟩
        rw [hall hnone] at hleads
        rcases hleads with ⟨e', hfind'⟩ | ⟨slash, hfind'⟩
        · exact (eq_of_find_withoutAll hfind hfind').1
        · exact eq_of_find_vacant hfind h.ne_nil h.stands h.outside
            (List.mem_append_right _ List.mem_cons_self) (fun _ hl => horder.prefix_of_mem hl) hfind'
      · refine ensures_fault?.bind fun fault? _ => ?_
        cases fault? with
        | some fault => exact ensures_pure ⟨0, rfl, fun hnone => by cases hnone⟩
        | none =>
            dsimp only
            cases hfind : files.find false outdir with
            | error e => exact ensures_pure ⟨0, rfl, fun hnone => by cases hnone⟩
            | ok found =>
                cases found with
                | occupied at_ e => exact absurd ⟨at_, e, hfind⟩ hthere
                | vacant at_ slash => exact ensures_pure ⟨0, rfl, fun hnone => by cases hnone⟩
    refine hremoved.bind ?_
    rintro ⟨left, _ | e⟩ ⟨k, hk, hleads⟩
    · exact ensures_pure ⟨k, hk, fun _ => hleads rfl⟩
    · exact ensures_pure ⟨k, hk, fun hnone => by cases hnone⟩
  next => exact ensures_pure ⟨0, rfl, fun _ => h.leads⟩

theorem ensures_tryRename (staging outdir : Path) (files : FileTree) :
    Ensures (tryRename staging outdir files) fun result =>
      (∃ e, result = (files, some e))
        ∨ ∃ made, files.rename staging outdir = .ok made ∧ result = (made, none) := by
  refine ensures_fault?.bind fun fault? _ => ?_
  cases fault? with
  | some fault => exact ensures_pure (Or.inl ⟨_, rfl⟩)
  | none =>
      dsimp only
      cases hmade : files.rename staging outdir with
      | error e => exact ensures_pure (Or.inl ⟨_, rfl⟩)
      | ok made => exact ensures_pure (Or.inr ⟨made, rfl, rfl⟩)

theorem Ready.ensures_trySwap (h : Ready o outdir S L files) (horder : Emptying files L order) :
    Ensures (trySwap order (stagingDir outdir) outdir files) (Swapped o order S L files) := by
  refine (h.ensures_tryClear horder).bind ?_
  rintro ⟨cleared, _ | e⟩ ⟨k, rfl, hleads⟩
  · intro faults
    rcases ensures_tryRename (stagingDir outdir) outdir _ faults with ⟨e, he⟩ | ⟨made, hmade, he⟩
    · dsimp only
      rw [he]
      exact h.swapped horder k e
    · dsimp only
      rw [he]
      obtain ⟨hholds, hvacated, hkept⟩ := h.rename
        (fun l hl => horder.prefix_of_mem (List.mem_of_mem_take hl)) (hleads rfl) hmade
      exact ⟨fun _ => ⟨hholds, hvacated⟩, fun hsome => absurd rfl hsome, hkept⟩
  · exact ensures_pure (h.swapped horder k e)

/-- When the first operation fails, nothing has been done. -/
theorem trySwap_of_fault (order : List Location) (staging outdir : Path) (files : FileTree)
    (fault : Fault) (faults : Faults) :
    (trySwap order staging outdir files (some fault :: faults)).1
      = (files, some (.emission outdir fault.error)) := by
  unfold trySwap tryClear
  split <;> rfl

/-- **WHAT IS LEFT WHEN THE OUTPUT TAKES ITS PLACE.**  The output has been staged, in a tree that may have
links anywhere, and the path of the output directory leads to a place beside it, at which there may be a
directory with anything below, a file, a link or nothing.  Whichever operations fail by themselves, and in
whatever order from the bottom the things below the place are taken away: if writing succeeds, the new output
is there as a whole, with nothing left of what stood there before; if it fails, the new output is whole
where it has been staged, and what stood in its place is there but for the first things of the order.  These
are none if the first operation fails.  What stands elsewhere is as it was.  Without faults this is how the
output is put in its place. -/
theorem trySwap_keeps_new_output (h : Ready o outdir S L files) (horder : Emptying files L order) :
    (∀ faults, Swapped o order S L files (trySwap order (stagingDir outdir) outdir files faults).1)
      ∧ (∀ fault faults, (trySwap order (stagingDir outdir) outdir files (some fault :: faults)).1
          = (files, some (.emission outdir fault.error)))
      ∧ (trySwap order (stagingDir outdir) outdir files []).1
          = swap (stagingDir outdir) outdir files := by
  refine ⟨h.ensures_trySwap horder, trySwap_of_fault order _ outdir files, ?_⟩
  refine congrArg Prod.fst (gives_trySwap (stagingDir outdir) fun at_ hfind => ?_)
  obtain rfl := h.leads at_ (Or.inl ⟨_, hfind⟩)
  exact horder

/-- A page that has been staged, and an output before with a directory and a link in it. -/
def stagedTree : FileTree where
  entries :=
    [(["dist"], .directory), (["dist", "old.txt"], .file "old".toUTF8),
      (["dist", "sub"], .directory), (["dist", "sub", "keep.txt"], .file "keep".toUTF8),
      (["dist", "latest"], .link "sub"),
      (["dist.weft-staging"], .directory),
      (["dist.weft-staging", "index.html"], .file "<p></p>".toUTF8)]

/-- An order for the output before. -/
def stagedOrder : List Location :=
  [["dist", "sub", "keep.txt"], ["dist", "sub"], ["dist", "latest"], ["dist", "old.txt"]]

theorem entry?_eq_some_iff_mem (hl : l ≠ []) :
    (∃ e, stagedTree.entry? l = some e) ↔ l ∈ stagedTree.entries.map Prod.fst := by
  refine ⟨fun ⟨e, he⟩ => List.mem_map_of_mem ( mem_of_entry? he hl), fun hmem => ?_⟩
  obtain ⟨entry, hentry, rfl⟩ := List.mem_map.mp hmem
  exact exists_entry?_of_mem hentry

theorem emptying_stagedTree : Emptying stagedTree ["dist"] stagedOrder where
  mem_iff l := by
    by_cases hl : l = []
    · simp [hl, stagedOrder]
    · rw [entry?_eq_some_iff_mem hl]
      have hall : ∀ l ∈ stagedTree.entries.map Prod.fst, l ∈ stagedOrder ↔ ["dist"] <+: l ∧ l ≠ ["dist"] := by
        decide +kernel
      have hsub : ∀ l ∈ stagedOrder, l ∈ stagedTree.entries.map Prod.fst := by
        decide +kernel
      refine ⟨fun h => ?_, fun ⟨hbelow, hne, hmem⟩ => (hall l hmem).mpr ⟨hbelow, hne⟩⟩
      obtain ⟨hbelow, hne⟩ := (hall l (hsub l h)).mp h
      exact ⟨hbelow, hne, hsub l h⟩
  bottomUp := by
    decide +kernel

theorem coherent_stagedTree : stagedTree.Coherent := by
  have habove : ∀ entry ∈ stagedTree.entries, ∀ l ∈ entry.1.inits, l = entry.1
      ∨ l ∈ [[], ["dist"], ["dist", "sub"], ["dist.weft-staging"]] := by
    decide +kernel
  intro entry hentry l hl hne
  have hl := (habove entry hentry l ((List.mem_inits _ _).mpr hl)).resolve_left hne
  simp only [List.mem_cons, List.not_mem_nil, or_false] at hl
  rcases hl with rfl | rfl | rfl | rfl <;> rfl

theorem holdsExactly_stagedTree :
    HoldsExactly Bundler.ownPage.files ["dist.weft-staging"] stagedTree where
  written := by
    intro f hf
    obtain rfl := List.mem_singleton.mp hf
    rfl
  nothingElse := by
    intro l e hentry
    have hmem := mem_of_entry? hentry (List.cons_ne_nil _ _)
    refine ⟨_, List.mem_singleton_self _, ?_⟩
    simp only [stagedTree, List.singleton_append, List.mem_cons, Prod.mk.injEq, List.cons.injEq,
      List.not_mem_nil, or_false] at hmem
    have hne : "dist.weft-staging" ≠ "dist" := by decide
    simp only [hne, false_and, true_and, false_or] at hmem
    rcases hmem with ⟨rfl, rfl⟩ | ⟨rfl, rfl⟩
    · exact Or.inr ⟨List.nil_prefix, rfl⟩
    · exact Or.inl ⟨by decide, rfl⟩
  directory := rfl

theorem ready_stagedTree : Ready Bundler.ownPage ⟨"dist"⟩ ["dist.weft-staging"] ["dist"] stagedTree where
  coherent := coherent_stagedTree
  stands := stands_nil
  staged := ⟨.directory, by rfl⟩
  holds := holdsExactly_stagedTree
  leads at_ h := by
    have hfind : stagedTree.find false ⟨"dist"⟩ = .ok (.occupied ["dist"] .directory) := by rfl
    rcases h with ⟨e, h⟩ | ⟨slash, h⟩ <;> rw [hfind] at h <;> cases h
    rfl
  outside := by decide
  beside := by decide
  beside' := by decide

theorem stagedPage_keeps_new_output :
    Ready Bundler.ownPage ⟨"dist"⟩ ["dist.weft-staging"] ["dist"] stagedTree
      ∧ Emptying stagedTree ["dist"] stagedOrder
      ∧ (trySwap stagedOrder (stagingDir ⟨"dist"⟩) ⟨"dist"⟩ stagedTree []).1.2.isNone
      ∧ (∀ faults, Swapped Bundler.ownPage stagedOrder ["dist.weft-staging"] ["dist"] stagedTree
          (trySwap stagedOrder (stagingDir ⟨"dist"⟩) ⟨"dist"⟩ stagedTree faults).1)
      ∧ (∀ fault faults,
          (trySwap stagedOrder (stagingDir ⟨"dist"⟩) ⟨"dist"⟩ stagedTree (some fault :: faults)).1
            = (stagedTree, some (.emission ⟨"dist"⟩ fault.error)))
      ∧ (trySwap stagedOrder (stagingDir ⟨"dist"⟩) ⟨"dist"⟩ stagedTree []).1
          = swap (stagingDir ⟨"dist"⟩) ⟨"dist"⟩ stagedTree :=
  ⟨ready_stagedTree, emptying_stagedTree, by decide +kernel,
    trySwap_keeps_new_output ready_stagedTree emptying_stagedTree⟩

/-- There is neither the output before nor the new one at a location. -/
def Neither (o : BuildOutput) (L : Location) (start files : FileTree) : Prop :=
  (∃ l, L <+: l ∧ ( start.entry? l).isSome ∧ ( files.entry? l).isNone) ∧ ¬ HoldsExactly o.files L files

theorem neither_of_isNone (l : Location) (hl : L <+: l) (hthere : ( start.entry? l).isSome)
    (hgone : ( files.entry? l).isNone) (f : String × ByteArray) (hf : f ∈ o.files)
    (hmissing : ( files.entry? (L ++ (Path.mk f.1).segments)).isNone) : Neither o L start files := by
  refine ⟨⟨l, hl, hthere, hgone⟩, fun hholds => ?_⟩
  rw [hholds.written f hf] at hmissing
  cases hmissing

/-- **Neither output is there** when an operation fails behind the first removal, or the rename.  No fault
is needed for this if the path of the output directory goes through the directory itself: it leads nowhere
once this has been taken away. -/
theorem swap_leaves_neither :
    Ready Bundler.ownPage ⟨"dist"⟩ ["dist.weft-staging"] ["dist"] stagedTree
      ∧ Emptying stagedTree ["dist"] stagedOrder
      ∧ Neither Bundler.ownPage ["dist"] stagedTree
          (trySwap stagedOrder (stagingDir ⟨"dist"⟩) ⟨"dist"⟩ stagedTree
            [none, none, some ⟨.busy, none⟩]).1.1
      ∧ Neither Bundler.ownPage ["dist"] stagedTree
          (trySwap stagedOrder (stagingDir ⟨"dist"⟩) ⟨"dist"⟩ stagedTree
            [none, none, none, none, none, none, some ⟨.busy, none⟩]).1.1
      ∧ (Bundler.ownPage.write ⟨"dist/sub/../../dist"⟩ .production stagedTree).2.isSome
      ∧ Neither Bundler.ownPage ["dist"] stagedTree
          (Bundler.ownPage.write ⟨"dist/sub/../../dist"⟩ .production stagedTree).1 := by
  refine ⟨ready_stagedTree, emptying_stagedTree, ?_, ?_, by decide +kernel, ?_⟩
  · exact neither_of_isNone ["dist", "sub", "keep.txt"] (by decide) (by decide +kernel)
      (by decide +kernel) _ (List.mem_singleton_self _) (by decide +kernel)
  · exact neither_of_isNone ["dist"] (by decide) (by decide +kernel)
      (by decide +kernel) _ (List.mem_singleton_self _) (by decide +kernel)
  · exact neither_of_isNone ["dist", "old.txt"] (by decide) (by decide +kernel)
      (by decide +kernel) _ (List.mem_singleton_self _) (by decide +kernel)

/-! ## §4. From the beginning. -/

/-- A path leads to a directory if all places on its way are directories. -/
theorem find_of_places {path : Path} {name : String} {above : List String}
    (hsegments : path.segments = above ++ [name]) (hname : IsName name)
    (hsteps : ∀ steps, steps <+: names above →
      files.entry? (place (files.base path) steps) = some .directory)
    (hentry : files.entry? (place (files.base path) (names above) ++ [name]) = some .directory) :
    files.find false path
      = .ok (.occupied (place (files.base path) (names above) ++ [name]) .directory) := by
  have htext : path.text ≠ "" := by
    intro hempty
    have hpath : path.segments = [""] := by
      rw [Path.segments, hempty]
      rfl
    obtain ⟨_, hlast⟩ := List.append_inj' (List.nil_append [""] |>.trans (hpath.symm.trans hsegments)) rfl
    exact hname.1 (List.cons.inj hlast).1.symm
  unfold find
  rw [if_neg (by simpa using htext)]
  simp only [hsegments]
  refine walk_of_places hname (fun target heq => by cases heq) _ _ ?_ hsteps hentry
  rw [List.length_append, List.length_singleton]
  exact length_lt_segmentBound _ _

/-- **Output that has been staged is ready**, if there is any. -/
theorem ready_of_staged {name : String} (hne : o.files ≠ []) (hname : outdir.fileName? = some name)
    (hdirect : DirectWay start outdir) (houtside : ¬ start.placeOf outdir <+: start.base outdir)
    (h : Staged start (start.base outdir) (start.placeOf (stagingDir outdir)) o.files o.files files) :
    Ready o outdir (start.placeOf (stagingDir outdir)) (start.placeOf outdir) files := by
  have hdir := stagingPath_of_directWay hname hdirect
  have hbase : files.base outdir = start.base outdir := by
    rw [FileTree.base, FileTree.base, h.kept.plain.here_eq]
  -- the first file of the output stands below the staging directory
  have hdirectory : files.entry? (start.placeOf (stagingDir outdir)) = some .directory := by
    obtain ⟨f, rest, hfiles⟩ := List.exists_cons_of_ne_nil hne
    have hwritten := h.filled.written f (by simp [hfiles])
    have hmem := mem_of_entry? hwritten (List.append_ne_nil_of_left_ne_nil hdir.ne_nil _)
    refine h.kept.coherent _ hmem _ (List.prefix_append _ _) fun heq => ?_
    exact Path.segments_ne_nil _ (List.append_cancel_left (heq.symm.trans (List.append_nil _).symm))
  obtain ⟨hbeside, hbeside'⟩ := placeOf_beside start hname
  refine ⟨h.kept.coherent, hbase ▸ h.kept.stands, ⟨.directory, ?_⟩, ⟨h.filled, hdirectory⟩,
    fun at_ hleads => ?_, hbase ▸ houtside, hbeside, hbeside'⟩
  · obtain ⟨before, mark, hsegments, hmark, hstaging, houtside⟩ := hdir.exists_segments
    have hbase' := hdir.base_eq files h.kept.plain.here_eq
    have hstands := h.kept.coherent.stands_dropLast hdirectory hdir.ne_nil
    rw [hstaging, ← hbase'] at hdirectory ⊢
    refine find_of_places hsegments hmark (fun steps hsteps => ?_) hdirectory
    rw [hbase']
    rcases houtside steps hsteps with habove | ⟨hthere, hnot⟩
    · exact hstands _ habove
    · rcases h.kept.unchanged _ hnot with hsame | ⟨hgone, _⟩
      · exact hsame.trans hthere
      · rw [hthere] at hgone
        cases hgone
  · have hplace : files.placeOf outdir = start.placeOf outdir := by
      rw [placeOf, placeOf, hbase]
    rcases hleads with ⟨e, hfind⟩ | ⟨slash, hfind⟩
    · exact (eq_placeOf_of_find h.kept.plain.linkFree hfind).trans hplace
    · exact (find_vacant h.kept.plain.linkFree hfind).1.trans hplace

/-- **The whole of writing for production**, whatever fails: the output directory holds the new output, or
what it held before as a whole, or the new output is whole where it has been staged and the first things of
an order are gone. -/
theorem tryPublish_keeps_new_output {name : String} (hkeys : ∀ f ∈ o.files, NormalPath f.1)
    (hnodup : (o.files.map Prod.fst).Nodup) (hne : o.files ≠ [])
    (hname : outdir.fileName? = some name) (hlinks : start.LinkFree) (hcoherent : start.Coherent)
    (hstands : start.Stands (start.base outdir)) (hdirect : DirectWay start outdir)
    (houtside : ¬ start.placeOf outdir <+: start.base outdir)
    (horder : Emptying start (start.placeOf outdir) order) :
    Ensures (o.tryPublish order outdir start) fun result =>
      (result.2 = none → HoldsExactly o.files (start.placeOf outdir) result.1
          ∧ result.1.Vacated (start.placeOf (stagingDir outdir)))
        ∧ (result.2 ≠ none →
          (∀ l, start.placeOf outdir <+: l → entry? result.1 l = start.entry? l)
            ∨ HoldsExactly o.files (start.placeOf (stagingDir outdir)) result.1
              ∧ ∃ k, ∀ l, start.placeOf outdir <+: l → entry? result.1 l
                = if l ∈ (order ++ [start.placeOf outdir]).take k then none else start.entry? l) := by
  have hdir := stagingPath_of_directWay hname hdirect
  obtain ⟨hbeside, hbeside'⟩ := placeOf_beside start hname
  refine (ensures_tryStage hdir hkeys hnodup hlinks hcoherent hstands).bind ?_
  rintro ⟨staged, failed⟩ ⟨hkept, hstaged⟩
  have hsame : ∀ l, start.placeOf outdir <+: l → staged.entry? l = start.entry? l := by
    intro l hl
    have hnot : ¬ start.placeOf (stagingDir outdir) <+: l := fun hl' =>
      (List.prefix_or_prefix_of_prefix hl hl').elim hbeside hbeside'
    rcases hkept l hnot with hsame | ⟨_, habove⟩
    · exact hsame
    · exact absurd ((hl.trans habove).trans (List.dropLast_prefix _)) hbeside
  cases failed with
  | some e => exact ensures_pure ⟨fun hnone => (by cases hnone), fun _ => Or.inl hsame⟩
  | none =>
      have hready := ready_of_staged hne hname hdirect houtside (hstaged rfl)
      have horder' : Emptying staged (start.placeOf outdir) order := by
        refine ⟨fun l => (horder.mem_iff l).trans ?_, horder.bottomUp⟩
        refine and_congr_right fun hl => ?_
        rw [hsame l hl]
      intro faults
      obtain ⟨hplaced, hleft, _⟩ := hready.ensures_trySwap horder' faults
      refine ⟨hplaced, fun hsome => Or.inr ?_⟩
      obtain ⟨hholds, k, hk⟩ := hleft hsome
      exact ⟨hholds, k, fun l hl => (hk l hl).trans (by rw [hsame l hl])⟩

end BuildOutput

end AssetBundler
