/-
  AssetBundler.Proofs.Plan.Names
  ────────────────────────────────
  **NO TWO CHUNKS OF A KIND HAVE ONE NAME.**

  A group takes the name that is meant for it if this is free, and otherwise
  the name with the first number that makes it free.  One of more numbers than
  there are groups does, so the names of all groups differ, whatever the
  entries and files are called:

    • `Plan.freeName_notMem` — there is always a free name,
    • `Plan.namesDiffer_split` — the names of groups,
    • `Plan.eq_of_name_eq` — the names of chunks.
-/
import AssetBundler.Proofs.Plan.Partition

namespace AssetBundler.Plan

variable {g : ModuleGraph} {base : String} {taken : List String} {groups : List ChunkGroup}

/-! ## §1. Free names. -/

/-- The base with a number. -/
def numberedName (base : String) (n : Nat) : String :=
  base ++ "~" ++ toString (n + 1)

theorem toList_numberedName (base : String) (n : Nat) :
    (numberedName base n).toList = base.toList ++ '~' :: Nat.toDigits 10 (n + 1) := by
  simp [numberedName]

theorem numberedName_injective (base : String) : Function.Injective (numberedName base) := by
  intro n n' h
  have hlist := congrArg String.toList h
  rw [toList_numberedName, toList_numberedName] at hlist
  have hdigits := (List.cons.inj (List.append_cancel_left hlist)).2
  have hnumber := congrArg (Nat.ofDigitChars 10 · 0) hdigits
  simpa only [Nat.ofDigitChars_ten_toDigits, Nat.add_right_cancel_iff] using hnumber

theorem numberedName_ne (base : String) (n : Nat) : numberedName base n ≠ base := by
  intro h
  have hlist := congrArg String.toList h
  rw [toList_numberedName] at hlist
  simpa using congrArg List.length hlist

/-- The names that are tried. -/
def candidates (taken : List String) (base : String) : List String :=
  base :: (List.range taken.length).map (numberedName base)

theorem nodup_candidates (taken : List String) (base : String) :
    (candidates taken base).Nodup := by
  refine List.nodup_cons.mpr ⟨fun hmem => ?_, ?_⟩
  · obtain ⟨n, _, hn⟩ := List.mem_map.mp hmem
    exact numberedName_ne base n hn
  · exact List.nodup_range.map (numberedName_injective base)

/-- **There is always a free name**: one name more is tried than there are names taken. -/
theorem freeName_notMem (taken : List String) (base : String) : freeName taken base ∉ taken := by
  show ((candidates taken base).find? fun name => !taken.contains name).getD base ∉ taken
  cases hfound : (candidates taken base).find? fun name => !taken.contains name with
  | some name => simpa using List.find?_some hfound
  | none =>
      have hall : candidates taken base ⊆ taken := by
        intro name hname
        simpa using List.find?_eq_none.mp hfound name hname
      have hle := ((nodup_candidates taken base).subperm hall).length_le
      simp only [candidates, List.length_cons, List.length_map, List.length_range] at hle
      omega

/-! ## §2. The names of groups. -/

/-- The names of some groups differ. -/
def NamesDiffer (groups : List ChunkGroup) : Prop :=
  (groups.map (·.name)).Nodup

theorem NamesDiffer.addGroup (h : NamesDiffer groups) (base : String) (role : ChunkRole)
    (root? : Option Identity) : NamesDiffer (addGroup groups base role root?) := by
  unfold NamesDiffer
  simp only [Plan.addGroup, List.map_append, List.map_cons, List.map_nil]
  exact nodup_append_singleton.mpr ⟨freeName_notMem _ base, h⟩

theorem namesDiffer_rootGroups (g : ModuleGraph) : NamesDiffer (rootGroups g) := by
  unfold rootGroups
  refine List.foldlRecOn (motive := NamesDiffer) _ _
    (List.foldlRecOn (motive := NamesDiffer) _ _ List.nodup_nil ?_) ?_
  · exact fun groups h e _ => h.addGroup e.1 .entry (some e.2)
  · intro groups h m _
    split
    · exact h
    · exact h.addGroup m.stem .async (some m)

theorem namesDiffer_grouping (g : ModuleGraph) : NamesDiffer (grouping g).1 :=
  List.foldlRecOn (motive := NamesDiffer) (sharedOf g) _ (namesDiffer_rootGroups g)
    fun _ h _ _ => h.addGroup "common" .shared none

/-- The chunks of a group do not change its name. -/
theorem names_assemble (index : GroupIndex) (count : Nat) :
    ∀ (groups : List ChunkGroup) (i : Nat) (plan : ChunkPlan),
      (assemble g index count i groups plan).groups.map (·.name)
        = plan.groups.map (·.name) ++ groups.map (·.name)
  | [], i, plan => by
      simp [assemble]
  | group :: groups, i, plan => by
      unfold assemble
      rw [names_assemble index count groups (i + 1)]
      simp [addChunks]

/-- **The names of the groups of a plan differ.** -/
theorem namesDiffer_split (g : ModuleGraph) : NamesDiffer g.split.groups := by
  show ((assemble g (grouping g).2 _ 0 (grouping g).1 ⟨[], []⟩).groups.map _).Nodup
  rw [names_assemble]
  exact namesDiffer_grouping g

/-! ## §3. The names of chunks. -/

/-- Two groups of one name are one group. -/
theorem index_eq_of_name_eq {i j : Nat} {c c' : ChunkGroup} (hc : g.split.groups[i]? = some c)
    (hc' : g.split.groups[j]? = some c') (hname : c.name = c'.name) : i = j := by
  have hget : (g.split.groups.map (·.name))[i]? = (g.split.groups.map (·.name))[j]? := by
    rw [List.getElem?_map, List.getElem?_map, hc, hc', Option.map_some, Option.map_some, hname]
  have hlt : i < (g.split.groups.map (·.name)).length := by
    rw [List.length_map]
    exact (List.getElem?_eq_some_iff.mp hc).1
  exact (List.getElem?_inj hlt (namesDiffer_split g)).mp hget

/-- **Two chunks of one kind have different names.** -/
theorem eq_of_name_eq {k k' : Nat} {chunk chunk' : Chunk} (h : g.split.chunks[k]? = some chunk)
    (h' : g.split.chunks[k']? = some chunk') (hkind : chunk.kind = chunk'.kind)
    (hname : chunk.name = chunk'.name) : k = k' := by
  obtain ⟨i, ⟨hi, ⟨c, hc, hcname, _⟩, _⟩, _⟩ := exists_modulesOf h
  obtain ⟨j, ⟨hj, ⟨c', hc', hcname', _⟩, _⟩, _⟩ := exists_modulesOf h'
  -- the chunks belong to groups of one name, hence to one group
  have hsame : c.name = c'.name := hcname.symm.trans (hname.trans hcname')
  obtain rfl := index_eq_of_name_eq hc hc' hsame
  rw [hkind] at hi
  exact Option.some.inj (hi.symm.trans hj)

end AssetBundler.Plan
