/-
  AssetBundler.Proofs.Config.TextMap
  ────────────────────────────────
  **WHAT IS FOUND IN A MAP.**

  A value put under a key is found there and changes nothing else, so a map
  made of a list gives for every key the last value of the list:

    • `TextMap.lookup_insert` — one value more,
    • `TextMap.lookup_ofList` — the map of a list,
    • `TextMap.lookup_ofList_eq_some` — a key that always has one value,
    • `TextMap.pairwise_ofList` — the keys ascend,
    • `TextMap.perm_ofList` — keys that differ all stay.
-/
import AssetBundler.Config.Basic
import Mathlib.Data.List.Induction
import Mathlib.Data.String.Basic

namespace AssetBundler.TextMap

variable {α : Type}

theorem lookup_cons (k key : String) (value : α) (map : TextMap α) :
    List.lookup k ((key, value) :: map) = if k = key then some value else map.lookup k := by
  rw [List.lookup_cons]
  by_cases h : k = key
  · rw [beq_iff_eq.mpr h, if_pos h]
  · rw [beq_false_of_ne h, if_neg h]

theorem lookup_insert (key k : String) (value : α) : ∀ map : TextMap α,
    (insert key value map).lookup k = if k = key then some value else map.lookup k
  | [] => lookup_cons k key value []
  | (key', value') :: rest => by
      unfold insert
      split
      next hkey =>
        -- the value takes the place of the one before
        subst hkey
        rw [lookup_cons, lookup_cons]
        split <;> rfl
      next hkey =>
        split
        next => rw [lookup_cons]
        next =>
          rw [lookup_cons, lookup_insert key k value rest, lookup_cons]
          by_cases hk : k = key'
          · rw [if_pos hk, if_pos hk, if_neg fun h => hkey (h.symm.trans hk)]
          · rw [if_neg hk, if_neg hk]

theorem lookup_foldl_insert (k : String) : ∀ (entries : List (String × α)) (map : TextMap α),
    (entries.foldl (fun map e => insert e.1 e.2 map) map).lookup k
      = (entries.reverse.lookup k).or (map.lookup k)
  | [], map => rfl
  | (key, value) :: rest, map => by
      rw [List.foldl_cons, lookup_foldl_insert k rest, lookup_insert, List.reverse_cons,
        List.lookup_append, lookup_cons, Option.or_assoc]
      congr 1
      split <;> rfl

/-- **The last value of a key counts.** -/
theorem lookup_ofList (k : String) (entries : List (String × α)) :
    (ofList entries).lookup k = entries.reverse.lookup k := by
  rw [ofList, lookup_foldl_insert]
  exact Option.or_none

theorem lookup_ofList_eq_none {k : String} {entries : List (String × α)}
    (h : ∀ e ∈ entries, e.1 ≠ k) : (ofList entries).lookup k = none := by
  rw [lookup_ofList, List.lookup_eq_none_iff]
  intro e he
  rw [bne_iff_ne]
  exact fun hk => h e (List.mem_reverse.mp he) hk.symm

theorem mem_of_lookup_eq_some {k : String} {value : α} {map : TextMap α}
    (h : map.lookup k = some value) : (k, value) ∈ map := by
  obtain ⟨before, after, hsplit, _⟩ := List.lookup_eq_some_iff.mp h
  rw [hsplit]
  exact List.mem_append_right _ List.mem_cons_self

/-- A key that has one value only, and has it, gives that value. -/
theorem lookup_eq_some_of_mem {k : String} {value : α} {entries : List (String × α)}
    (hmem : (k, value) ∈ entries) (hsame : ∀ e ∈ entries, e.1 = k → e.2 = value) :
    entries.lookup k = some value := by
  cases hlookup : entries.lookup k with
  | none =>
      have hne := List.lookup_eq_none_iff.mp hlookup (k, value) hmem
      simp at hne
  | some found =>
      exact congrArg some (hsame _ (mem_of_lookup_eq_some hlookup) rfl)

theorem lookup_ofList_eq_some {k : String} {value : α} {entries : List (String × α)}
    (hmem : (k, value) ∈ entries) (hsame : ∀ e ∈ entries, e.1 = k → e.2 = value) :
    (ofList entries).lookup k = some value := by
  rw [lookup_ofList]
  exact lookup_eq_some_of_mem (List.mem_reverse.mpr hmem) fun e he =>
    hsame e (List.mem_reverse.mp he)

/-! ## §2. The order of the keys. -/

theorem mem_of_mem_insert {key : String} {value : α} {e : String × α} : ∀ {map : TextMap α},
    e ∈ insert key value map → e = (key, value) ∨ e ∈ map
  | [], h => by
      simpa [insert] using h
  | (key', value') :: rest, h => by
      unfold insert at h
      split at h
      next => exact (List.mem_cons.mp h).imp_right (List.mem_cons_of_mem _)
      next =>
        split at h
        next => exact List.mem_cons.mp h
        next =>
          rcases List.mem_cons.mp h with rfl | h
          · exact Or.inr List.mem_cons_self
          · exact (mem_of_mem_insert h).imp_right (List.mem_cons_of_mem _)

theorem mem_keys_insert {key k : String} {value : α} {map : TextMap α}
    (h : k ∈ (insert key value map).map (·.1)) : k = key ∨ k ∈ map.map (·.1) := by
  obtain ⟨e, he, rfl⟩ := List.mem_map.mp h
  rcases mem_of_mem_insert he with rfl | he
  · exact Or.inl rfl
  · exact Or.inr (List.mem_map_of_mem he)

theorem mem_values_insert {key : String} {value v : α} {map : TextMap α}
    (h : v ∈ (insert key value map).map (·.2)) : v = value ∨ v ∈ map.map (·.2) := by
  obtain ⟨e, he, rfl⟩ := List.mem_map.mp h
  rcases mem_of_mem_insert he with rfl | he
  · exact Or.inl rfl
  · exact Or.inr (List.mem_map_of_mem he)

theorem pairwise_insert (key : String) (value : α) : ∀ {map : TextMap α},
    (map.map (·.1)).Pairwise (· < ·) → ((insert key value map).map (·.1)).Pairwise (· < ·)
  | [], _ => List.pairwise_singleton _ _
  | (key', value') :: rest, h => by
      rw [List.map_cons, List.pairwise_cons] at h
      obtain ⟨hfirst, hrest⟩ := h
      unfold insert
      split
      next hkey =>
        rw [List.map_cons, List.pairwise_cons]
        exact ⟨hkey ▸ hfirst, hrest⟩
      next hkey =>
        split
        next hlt =>
          refine List.pairwise_cons.mpr ⟨fun k hk => ?_, List.pairwise_cons.mpr ⟨hfirst, hrest⟩⟩
          rcases List.mem_cons.mp hk with rfl | hk
          · exact hlt
          · exact hlt.trans (hfirst k hk)
        next hlt =>
          refine List.pairwise_cons.mpr ⟨fun k hk => ?_, pairwise_insert key value hrest⟩
          rcases mem_keys_insert hk with rfl | hk
          · exact lt_of_le_of_ne (not_lt.mp hlt) (Ne.symm hkey)
          · exact hfirst k hk

/-- **The keys of a map ascend**, so none occurs twice. -/
theorem pairwise_ofList (entries : List (String × α)) :
    ((ofList entries).map (·.1)).Pairwise (· < ·) := by
  have hfold : ∀ (entries : List (String × α)) (map : TextMap α),
      (map.map (·.1)).Pairwise (· < ·) →
      ((entries.foldl (fun map e => insert e.1 e.2 map) map).map (·.1)).Pairwise (· < ·) := by
    intro entries
    induction entries with
    | nil => exact fun _ h => h
    | cons e rest ih => exact fun map h => ih _ (pairwise_insert e.1 e.2 h)
  exact hfold entries [] List.Pairwise.nil

/-! ## §3. The entries. -/

theorem perm_insert {key : String} (value : α) : ∀ {map : TextMap α}, key ∉ map.map (·.1) →
    (insert key value map).Perm ((key, value) :: map)
  | [], _ => List.Perm.refl _
  | (key', value') :: rest, h => by
      rw [List.map_cons, List.mem_cons, not_or] at h
      unfold insert
      rw [if_neg h.1]
      split
      next => exact List.Perm.refl _
      next => exact ((perm_insert value h.2).cons _).trans (List.Perm.swap _ _ _)

theorem ofList_concat (entries : List (String × α)) (e : String × α) :
    ofList (entries ++ [e]) = insert e.1 e.2 (ofList entries) := by
  simp [ofList]

/-- **No entry is lost** when the keys differ. -/
theorem perm_ofList {entries : List (String × α)} (h : (entries.map (·.1)).Nodup) :
    (ofList entries).Perm entries := by
  induction entries using List.reverseRecOn with
  | nil => exact List.Perm.refl _
  | append_singleton entries e ih =>
      rw [List.map_append, List.map_singleton, List.nodup_append] at h
      have hperm := ih h.1
      have hnew : e.1 ∉ (ofList entries).map (·.1) := fun hmem =>
        h.2.2 _ ((hperm.map (·.1)).mem_iff.mp hmem) _ List.mem_cons_self rfl
      rw [ofList_concat]
      exact (perm_insert e.2 hnew).trans ((hperm.cons e).trans (List.perm_append_singleton e _).symm)

/-- A map is the map of its entries. -/
theorem ofList_eq_self {map : TextMap α} (h : (map.map (·.1)).Pairwise (· < ·)) :
    ofList map = map := by
  have hperm := perm_ofList (h.imp fun hlt => ne_of_lt hlt)
  have hentries := List.pairwise_map.mp h
  exact hperm.eq_of_pairwise (fun _ _ _ _ hlt hgt => absurd hgt (lt_asymm hlt))
    (List.pairwise_map.mp (pairwise_ofList map)) hentries

theorem mem_of_mem_ofList {entries : List (String × α)} {e : String × α} :
    e ∈ ofList entries → e ∈ entries := by
  induction entries using List.reverseRecOn with
  | nil => exact id
  | append_singleton entries e' ih =>
      intro h
      rw [ofList_concat] at h
      rcases mem_of_mem_insert h with rfl | h
      · exact List.mem_append_right _ List.mem_cons_self
      · exact List.mem_append_left _ (ih h)

end AssetBundler.TextMap
