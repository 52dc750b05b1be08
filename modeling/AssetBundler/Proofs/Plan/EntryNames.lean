/-
  AssetBundler.Proofs.Plan.EntryNames
  ────────────────────────────────
  **THE CHUNKS OF ENTRIES.**

  The groups of the entries come first, when no name is taken that is not
  that of an entry.  So they have the names of the entries.  A module is in
  the group of the first entry that it is; the group of any later entry with
  the same module stays empty, since the first one is a second root for all
  that the module reaches:

    • `Plan.exists_group_of_entry` — the group of an entry,
    • `Plan.modulesOf_eq_nil_of_repeated` — an entry given before,
    • `Plan.exists_chunk_of_entry` — an entry not given before,
    • `Plan.exists_chunk_named_iff` — which entries have chunks of their names.
-/
import AssetBundler.Proofs.Page.Execution
import AssetBundler.Proofs.Plan.Names

namespace AssetBundler.Plan

open Relation

variable {g : ModuleGraph} {groups : List ChunkGroup} {base : String} {taken : List String}
  {role : ChunkRole} {root? : Option Identity} {e e' : String × Identity} {i j : Nat}
  {kind : ChunkKind}

/-! ## §1. The names of the first groups. -/

/-- A name that is not taken is used as it is. -/
theorem freeName_of_notMem (h : base ∉ taken) : freeName taken base = base := by
  simp [freeName, h]

theorem names_addGroup :
    (addGroup groups base role root?).map (·.name)
      = groups.map (·.name) ++ [freeName (groups.map (·.name)) base] := by
  simp [addGroup]

/-- Entries whose names differ keep their names. -/
theorem names_foldl_entries : ∀ (entries : List (String × Identity)) (groups : List ChunkGroup),
    (groups.map (·.name) ++ entries.map (·.1)).Nodup →
      (entries.foldl (fun groups (name, m) => addGroup groups name .entry (some m)) groups).map
          (·.name)
        = groups.map (·.name) ++ entries.map (·.1)
  | [], groups, _ => by simp
  | e :: entries, groups, h => by
      have hfree : e.1 ∉ groups.map (·.name) := by
        intro hmem
        exact (List.nodup_append.mp h).2.2 _ hmem _ List.mem_cons_self rfl
      have hnames : (addGroup groups e.1 .entry (some e.2)).map (·.name)
          = groups.map (·.name) ++ [e.1] := by
        rw [names_addGroup, freeName_of_notMem hfree]
      have hrest : ((addGroup groups e.1 .entry (some e.2)).map (·.name)
          ++ entries.map (·.1)).Nodup := by
        rw [hnames, List.append_assoc]
        exact h
      rw [List.foldl_cons, names_foldl_entries entries _ hrest, hnames, List.append_assoc]
      rfl

/-- **The names of the entries come first**: later groups change no name. -/
theorem names_isPrefix_split (hnames : (g.entries.map (·.1)).Nodup) :
    g.entries.map (·.1) <+: g.split.groups.map (·.name) := by
  have hadd : ∀ (groups : List ChunkGroup) (base : String) (role : ChunkRole)
      (root? : Option Identity), g.entries.map (·.1) <+: groups.map (·.name) →
        g.entries.map (·.1) <+: (addGroup groups base role root?).map (·.name) := by
    intro groups base role root? h
    rw [names_addGroup]
    exact h.trans (List.prefix_append _ _)
  have hentries : g.entries.map (·.1)
      <+: (g.entries.foldl (fun groups (name, m) => addGroup groups name .entry (some m)) []).map
        (·.name) := by
    rw [names_foldl_entries g.entries [] hnames]
    exact List.prefix_rfl
  have hroots : g.entries.map (·.1) <+: (rootGroups g).map (·.name) := by
    unfold rootGroups
    refine List.foldlRecOn
      (motive := fun groups : List ChunkGroup => g.entries.map (·.1) <+: groups.map (·.name))
      _ _ hentries fun groups h m _ => ?_
    split
    · exact h
    · exact hadd _ _ _ _ h
  have hall : g.entries.map (·.1) <+: (grouping g).1.map (·.name) :=
    List.foldlRecOn
      (motive := fun groups : List ChunkGroup => g.entries.map (·.1) <+: groups.map (·.name))
      (sharedOf g) _ hroots fun _ h _ _ => hadd _ _ _ _ h
  show g.entries.map (·.1) <+: (assemble g (grouping g).2 _ 0 (grouping g).1 ⟨[], []⟩).groups.map _
  rw [names_assemble]
  exact hall

/-- **The group of an entry** has its name and its module. -/
theorem exists_group_of_entry (hg : g.WellFormed) (hnames : (g.entries.map (·.1)).Nodup)
    (he : g.entries[i]? = some e) :
    ∃ c, g.split.groups[i]? = some c ∧ c.name = e.1 ∧ c.role = .entry ∧ c.root? = some e.2 := by
  have hi : i < g.entries.length := (List.getElem?_eq_some_iff.mp he).1
  have hsignature : (g.split.groups[i]?).map ChunkGroup.signature = some (.entry, some e.2) := by
    rw [← List.getElem?_map, signatures_split hg, List.append_assoc,
      List.getElem?_append_left (by simpa using hi), List.getElem?_map, he, Option.map_some]
  have hname : (g.split.groups[i]?).map (·.name) = some e.1 := by
    obtain ⟨later, hlater⟩ := names_isPrefix_split hnames
    rw [← List.getElem?_map, ← hlater, List.getElem?_append_left (by simpa using hi),
      List.getElem?_map, he, Option.map_some]
  obtain ⟨c, hc, hsame⟩ := Option.map_eq_some_iff.mp hsignature
  obtain ⟨hrole, hroot⟩ := Prod.mk.inj hsame
  rw [hc] at hname
  exact ⟨c, hc, Option.some.inj hname, hrole, hroot⟩

/-! ## §2. The modules of these groups. -/

/-- **No entry before this one has its module.** -/
def IsFirst (g : ModuleGraph) (i : Nat) (m : Identity) : Prop :=
  ∀ j < i, ∀ e, g.entries[j]? = some e → e.2 ≠ m

theorem getElem?_roots (hg : g.WellFormed) (he : g.entries[i]? = some e) :
    (roots g)[i]? = some e.2 := by
  have hi : i < g.entries.length := (List.getElem?_eq_some_iff.mp he).1
  rw [roots_eq hg, List.getElem?_append_left (by simpa using hi), List.getElem?_map, he,
    Option.map_some]

/-- **An entry that was given before has no modules**: whatever it reaches, the entry before reaches
too, and its module is in the group of that. -/
theorem modulesOf_eq_nil_of_repeated (hg : g.WellFormed) (he : g.entries[i]? = some e) (hlt : j < i)
    (he' : g.entries[j]? = some e') (hsame : e'.2 = e.2) : g.split.modulesOf i kind = [] := by
  refine List.eq_nil_iff_forall_not_mem.mpr fun m hm => ?_
  have hroot := getElem?_roots hg he
  have hroot' : (roots g)[j]? = some e.2 := hsame ▸ getElem?_roots hg he'
  have hi : i < (roots g).length := (List.getElem?_eq_some_iff.mp hroot).1
  cases (groupOf_eq_some_iff.mp (mem_modulesOf_split.mp hm).1).2 with
  | root hmem =>
      -- the place of a root is the first of its places
      have hm' : m = e.2 := Option.some.inj ((List.getElem?_idxOf hmem).symm.trans hroot)
      obtain ⟨hlength, hget⟩ := List.getElem?_eq_some_iff.mp hroot'
      have hother := List.not_of_lt_findIdx hlt
      rw [hget, hm'] at hother
      simp at hother
  | only _ hset =>
      have hreach : i ∈ rootSetOf g m := hset ▸ List.mem_singleton.mpr rfl
      obtain ⟨r, hr, hpath⟩ := (mem_rootSetOf hg).mp hreach
      obtain rfl := Option.some.inj (hr.symm.trans hroot)
      have hreach' : j ∈ rootSetOf g m := (mem_rootSetOf hg).mpr ⟨_, hroot', hpath⟩
      rw [hset, List.mem_singleton] at hreach'
      omega
  | shared => omega

/-! ## §3. The chunks of these groups. -/

/-- **The chunk is that of an entry**: it has the name of the entry and holds its module; if it is a
script, it runs this module. -/
structure IsOfEntry (chunk : Chunk) (e : String × Identity) : Prop where
  name : chunk.name = e.1
  role : chunk.role = .entry
  mem : e.2 ∈ chunk.modules
  entryModule? : chunk.kind = .script → chunk.entryModule? = some e.2

/-- The module of the first entry with it has no place before in the roots. -/
theorem idxOf_roots (hg : g.WellFormed) (he : g.entries[i]? = some e) (hfirst : IsFirst g i e.2) :
    (roots g).idxOf e.2 = i := by
  have hi : i < g.entries.length := (List.getElem?_eq_some_iff.mp he).1
  have hroot := getElem?_roots hg he
  refine Nat.le_antisymm (Nat.not_lt.mp fun hlt => ?_) (Nat.not_lt.mp fun hlt => ?_)
  · obtain ⟨hlength, hget⟩ := List.getElem?_eq_some_iff.mp hroot
    have hother := List.not_of_lt_findIdx hlt
    rw [hget] at hother
    simp at hother
  · have hj : (roots g).idxOf e.2 < g.entries.length := hlt.trans hi
    have hplace := getElem?_roots hg (List.getElem?_eq_getElem hj)
    rw [List.getElem?_idxOf (List.mem_of_getElem? hroot)] at hplace
    exact hfirst _ hlt _ (List.getElem?_eq_getElem hj) (Option.some.inj hplace).symm

/-- What a group has of a kind is in a chunk. -/
theorem exists_chunk_of_mem_modulesOf {m : Identity} (hm : m ∈ g.split.modulesOf i kind) :
    ∃ k chunk, g.split.chunks[k]? = some chunk ∧ IsChunkOf g.split k chunk i ∧ chunk.kind = kind
      ∧ m ∈ chunk.modules := by
  cases hfound : g.split.chunkOf? i kind with
  | none => simp [ChunkPlan.modulesOf, hfound] at hm
  | some chunk =>
      obtain ⟨k, hindex, hchunk⟩ := Option.bind_eq_some_iff.mp hfound
      rw [ChunkPlan.modulesOf, hfound] at hm
      obtain ⟨j, hj, _⟩ := exists_modulesOf hchunk
      obtain rfl := (filed_split g).unique _ _ _ _ _ hj.1 hindex
      obtain ⟨_, hchunk', hkind⟩ := (filed_split g).exists_chunk _ _ _ hindex
      obtain rfl := Option.some.inj (hchunk'.symm.trans hchunk)
      exact ⟨k, _, hchunk, hj, hkind, hm⟩

/-- **An entry that was not given before has a chunk.** -/
theorem exists_chunk_of_entry (hg : g.WellFormed) (hnames : (g.entries.map (·.1)).Nodup)
    (he : g.entries[i]? = some e) (hfirst : IsFirst g i e.2) :
    ∃ (k : Nat) (chunk : Chunk), g.split.chunks[k]? = some chunk ∧ IsOfEntry chunk e := by
  have hmem : e.2 ∈ roots g := List.mem_of_getElem? (getElem?_roots hg he)
  have horder := mem_order_of_mem_roots hg hmem
  have hgroup : groupOf g e.2 = some i :=
    groupOf_eq_some_iff.mpr ⟨horder, idxOf_roots hg he hfirst ▸ Member.root hmem⟩
  obtain ⟨r, hr, hidentity, _⟩ := ModuleGraph.exists_record_of_mem_order horder
  have hin : e.2 ∈ g.split.modulesOf i (chunkKindOf (scriptImported g) r) :=
    mem_modulesOf_split.mpr ⟨hgroup, r, hr, hidentity, rfl⟩
  obtain ⟨k, chunk, hchunk, ⟨hindex, ⟨c, hc, hname, hrole⟩, _⟩, hkind, hm⟩ :=
    exists_chunk_of_mem_modulesOf hin
  obtain ⟨c', hc', hcname, hcrole, _⟩ := exists_group_of_entry hg hnames he
  obtain rfl := Option.some.inj (hc'.symm.trans hc)
  refine ⟨k, chunk, hchunk, hname.trans hcname, hrole.trans hcrole, hm, fun hscript => ?_⟩
  have hstart : g.split.startOf? i = some e.2 :=
    (startOf?_eq_some hg).mpr ⟨by rw [he, Option.map_some], (hkind.symm.trans hscript) ▸ hin⟩
  rw [hscript] at hindex
  rw [ChunkPlan.startOf?, ChunkPlan.chunkOf?, hindex, Option.bind_some, hchunk] at hstart
  exact hstart

/-- **An entry has a chunk of its name just if no entry before it has its module.** -/
theorem exists_chunk_named_iff (hg : g.WellFormed) (hnames : (g.entries.map (·.1)).Nodup)
    (he : g.entries[i]? = some e) :
    (∃ chunk ∈ g.split.chunks, chunk.name = e.1) ↔ IsFirst g i e.2 := by
  constructor
  · rintro ⟨chunk, hchunk, hname⟩ j hlt e' he' hsame
    obtain ⟨k, hk⟩ := List.mem_iff_getElem?.mp hchunk
    obtain ⟨i', ⟨_, ⟨c, hc, hcname, _⟩, hmodules⟩, hown⟩ := exists_modulesOf hk
    obtain ⟨c', hc', hcname', _⟩ := exists_group_of_entry hg hnames he
    -- no other group has the name
    obtain rfl := index_eq_of_name_eq hc hc' (hcname.symm.trans (hname.trans hcname'.symm))
    rw [hown, modulesOf_eq_nil_of_repeated hg he hlt he' hsame] at hmodules
    exact hmodules rfl
  · intro hfirst
    obtain ⟨k, chunk, hchunk, hentry⟩ := exists_chunk_of_entry hg hnames he hfirst
    exact ⟨chunk, List.mem_of_getElem? hchunk, hentry.name⟩

end AssetBundler.Plan
