/-
  AssetBundler.Proofs.Plan.LoadOrder
  ────────────────────────────────
  **THE LOAD ORDER OF A GROUP.**

  The walk over the groups puts each behind those that it needs.  A group
  that has been met is either in the order or one of those being walked
  through, and the latter need whatever is met next; when no group needs
  itself, a group that is met again is therefore in the order already.

    • `Plan.loadStep_puts` — one group, given a way to walk further,
    • `Plan.loadAfter_puts` — a list of groups, by induction on the number
      of groups not met yet,
    • `Plan.mem_loadOrder`, `Plan.loadOrder_concat_needsFirst` — the order.
-/
import AssetBundler.Build.Plan
import AssetBundler.Proofs.Build.Order
import Mathlib.Data.List.Perm.Subperm
import Mathlib.Logic.Relation

namespace AssetBundler.Plan

open Relation

variable {direct : Nat → List Nat} {count fuel : Nat}

/-! ## §1. Groups met and groups in order. -/

/-- The group needs the other directly. -/
def Needs (direct : Nat → List Nat) (i j : Nat) : Prop :=
  j ∈ direct i

/-- What holds throughout a walk. -/
structure Walked (direct : Nat → List Nat) (count : Nat) (s : LoadState) : Prop where
  needsFirst : NeedsFirst id direct s.2
  nodup : s.2.Nodup
  met : ∀ n ∈ s.2, n ∈ s.1
  metNodup : s.1.Nodup
  met_lt : ∀ n ∈ s.1, n < count

theorem Walked.length_le {s : LoadState} (h : Walked direct count s) : s.1.length ≤ count := by
  have hsub : s.1 ⊆ List.range count := fun n hn => List.mem_range.mpr (h.met_lt n hn)
  simpa using (h.metNodup.subperm hsub).length_le

/-- What putting some groups into the order changes. -/
structure Puts (direct : Nat → List Nat) (groups : List Nat) (s s' : LoadState) : Prop where
  put : ∀ n ∈ groups, n ∈ s'.2
  kept : ∀ n ∈ s.2, n ∈ s'.2
  /-- All groups newly met are in the order. -/
  met : ∀ n, n ∈ s'.1 ↔ n ∈ s.1 ∨ n ∈ s'.2
  /-- Groups that are being walked through remain so. -/
  pending : ∀ n ∈ s.1, n ∈ s'.2 → n ∈ s.2
  needed : ∀ n ∈ s'.2, n ∈ s.2 ∨ ∃ d ∈ groups, ReflTransGen (Needs direct) d n

/-- The walk can put the groups into the order: there is room for those not met yet, and the groups
that are being walked through need them. -/
structure CanPut (direct : Nat → List Nat) (count fuel : Nat) (groups : List Nat) (s : LoadState) :
    Prop where
  room : count < fuel + s.1.length
  groups_lt : ∀ d ∈ groups, d < count
  pending : ∀ n ∈ s.1, n ∉ s.2 → ∀ d ∈ groups, TransGen (Needs direct) n d

theorem Puts.refl {s : LoadState} (h : Walked direct count s) : Puts direct [] s s := by
  refine ⟨by simp, fun _ hn => hn, fun n => ?_, fun _ _ hn => hn, fun _ hn => Or.inl hn⟩
  exact ⟨Or.inl, fun hn => hn.elim id (h.met n)⟩

theorem Puts.trans {ds ds' : List Nat} {s s' s'' : LoadState} (h : Puts direct ds s s')
    (h' : Puts direct ds' s' s'') : Puts direct (ds ++ ds') s s'' where
  put n hn := (List.mem_append.mp hn).elim (fun hn => h'.kept n (h.put n hn)) (h'.put n)
  kept n hn := h'.kept n (h.kept n hn)
  met n := by
    rw [h'.met, h.met]
    constructor
    · rintro ((hn | hn) | hn)
      · exact Or.inl hn
      · exact Or.inr (h'.kept n hn)
      · exact Or.inr hn
    · exact Or.imp_left Or.inl
  pending n hn hn'' := h.pending n hn (h'.pending n ((h.met n).mpr (Or.inl hn)) hn'')
  needed n hn := by
    rcases h'.needed n hn with hn | ⟨d, hd, hpath⟩
    · rcases h.needed n hn with hn | ⟨d, hd, hpath⟩
      · exact Or.inl hn
      · exact Or.inr ⟨d, List.mem_append_left _ hd, hpath⟩
    · exact Or.inr ⟨d, List.mem_append_right _ hd, hpath⟩

theorem Puts.length_le {ds : List Nat} {s s' : LoadState} (h : Puts direct ds s s')
    (hs : Walked direct count s) : s.1.length ≤ s'.1.length :=
  (hs.metNodup.subperm fun n hn => (h.met n).mpr (Or.inl hn)).length_le

theorem CanPut.first {d : Nat} {ds : List Nat} {s : LoadState}
    (h : CanPut direct count fuel (d :: ds) s) : CanPut direct count fuel [d] s where
  room := h.room
  groups_lt := List.forall_mem_singleton.mpr (h.groups_lt d List.mem_cons_self)
  pending n hn hout := List.forall_mem_singleton.mpr (h.pending n hn hout d List.mem_cons_self)

/-- After the first group the walk can put the others. -/
theorem CanPut.after {d : Nat} {ds : List Nat} {s s' : LoadState}
    (h : CanPut direct count fuel (d :: ds) s) (hs : Walked direct count s)
    (h' : Puts direct [d] s s') : CanPut direct count fuel ds s' where
  room := by
    have hroom := h.room
    have hle := h'.length_le hs
    omega
  groups_lt n hn := h.groups_lt n (List.mem_cons_of_mem _ hn)
  pending n hn hout n' hn' := by
    refine h.pending n ?_ (fun hmem => hout (h'.kept n hmem)) n' (List.mem_cons_of_mem _ hn')
    exact ((h'.met n).mp hn).resolve_right hout

/-! ## §2. The walk. -/

/-- Puts one group and what it needs into the order, unless it has been met. -/
def loadStep (direct : Nat → List Nat) (fuel : Nat) (s : LoadState) (d : Nat) : LoadState :=
  if s.1.contains d then s
  else
    let s := loadAfter direct fuel (direct d) (s.1 ++ [d], s.2)
    (s.1, s.2 ++ [d])

theorem loadAfter_succ (groups : List Nat) (s : LoadState) :
    loadAfter direct (fuel + 1) groups s = groups.foldl (loadStep direct fuel) s :=
  rfl

/-- The walk puts the groups that it can into the order. -/
def WalkPuts (direct : Nat → List Nat) (count fuel : Nat) : Prop :=
  ∀ groups s, Walked direct count s → CanPut direct count fuel groups s →
    Walked direct count (loadAfter direct fuel groups s)
      ∧ Puts direct groups s (loadAfter direct fuel groups s)

/-- A group that is not met yet comes behind what it needs. -/
theorem Puts.concat {d : Nat} {s s' : LoadState} (hs : Walked direct count s) (hd : d ∉ s.1)
    (hs' : Walked direct count s') (h : Puts direct (direct d) (s.1 ++ [d], s.2) s') :
    Walked direct count (s'.1, s'.2 ++ [d]) ∧ Puts direct [d] s (s'.1, s'.2 ++ [d]) := by
  -- the group was being walked through meanwhile, so nothing else put it into the order
  have hmet : d ∈ s'.1 := (h.met d).mpr (Or.inl (List.mem_append_right _ List.mem_cons_self))
  have hout : d ∉ s'.2 := fun hmem =>
    hd (hs.met d (h.pending d (List.mem_append_right _ List.mem_cons_self) hmem))
  refine ⟨⟨?_, ?_, ?_, hs'.metNodup, hs'.met_lt⟩, ⟨?_, ?_, ?_, ?_, ?_⟩⟩
  · refine hs'.needsFirst.concat fun n hn => ?_
    rw [List.map_id]
    exact h.put n hn
  · exact nodup_append_singleton.mpr ⟨hout, hs'.nodup⟩
  · exact forall_mem_append_singleton.mpr ⟨hs'.met, hmet⟩
  · intro n hn
    exact List.mem_append_right _ hn
  · intro n hn
    exact List.mem_append_left _ (h.kept n hn)
  · intro n
    show n ∈ s'.1 ↔ n ∈ s.1 ∨ n ∈ s'.2 ++ [d]
    rw [h.met n, List.mem_append, List.mem_append]
    tauto
  · intro n hn hmem
    rcases List.mem_append.mp hmem with hmem | hmem
    · exact h.pending n (List.mem_append_left _ hn) hmem
    · exact absurd (List.mem_singleton.mp hmem ▸ hn) hd
  · refine forall_mem_append_singleton.mpr ⟨fun n hn => ?_, ?_⟩
    · rcases h.needed n hn with hn | ⟨d', hd', hpath⟩
      · exact Or.inl hn
      · exact Or.inr ⟨d, List.mem_cons_self, ReflTransGen.head hd' hpath⟩
    · exact Or.inr ⟨d, List.mem_cons_self, ReflTransGen.refl⟩

section

variable (hacyclic : ∀ n, ¬ TransGen (Needs direct) n n) (hlt : ∀ i, ∀ j ∈ direct i, j < count)

include hacyclic hlt

theorem loadStep_puts (ih : WalkPuts direct count fuel) {d : Nat} {s : LoadState}
    (hs : Walked direct count s) (h : CanPut direct count (fuel + 1) [d] s) :
    Walked direct count (loadStep direct fuel s d)
      ∧ Puts direct [d] s (loadStep direct fuel s d) := by
  unfold loadStep
  split
  next hmet =>
    -- otherwise it would be walked through, and need itself
    have hmet : d ∈ s.1 := List.contains_iff_mem.mp hmet
    have hin : d ∈ s.2 := by
      by_contra hout
      exact hacyclic d (h.pending d hmet hout d List.mem_cons_self)
    exact ⟨hs, ⟨List.forall_mem_singleton.mpr hin, fun _ hn => hn, (Puts.refl hs).met,
      fun _ _ hn => hn, fun _ => Or.inl⟩⟩
  next hnew =>
    have hnew : d ∉ s.1 := fun hmem => hnew (List.contains_iff_mem.mpr hmem)
    have hnext : Walked direct count (s.1 ++ [d], s.2) := by
      refine ⟨hs.needsFirst, hs.nodup, fun n hn => List.mem_append_left _ (hs.met n hn),
        nodup_append_singleton.mpr ⟨hnew, hs.metNodup⟩,
        forall_mem_append_singleton.mpr ⟨hs.met_lt, h.groups_lt d List.mem_cons_self⟩⟩
    -- the group itself is now walked through, and needs what is put next
    have hcan : CanPut direct count fuel (direct d) (s.1 ++ [d], s.2) := by
      refine ⟨?_, hlt d, fun n hn hout e he => ?_⟩
      · have hroom := h.room
        rw [List.length_append, List.length_singleton]
        omega
      · rcases List.mem_append.mp hn with hn | hn
        · exact (h.pending n hn hout d List.mem_cons_self).tail he
        · exact List.mem_singleton.mp hn ▸ TransGen.single he
    obtain ⟨hs', hputs⟩ := ih (direct d) (s.1 ++ [d], s.2) hnext hcan
    exact hputs.concat hs hnew hs'

/-- **WHAT THE WALK DOES.** -/
theorem loadAfter_puts : ∀ fuel, WalkPuts direct count fuel
  | 0 => by
      -- all groups have been met, and there would be one more
      intro groups s hs h
      have hroom := h.room
      have hle := hs.length_le
      omega
  | fuel + 1 => by
      intro groups
      simp only [loadAfter_succ]
      induction groups with
      | nil => exact fun s hs _ => ⟨hs, Puts.refl hs⟩
      | cons d groups ih =>
          intro s hs h
          obtain ⟨hs', hstep⟩ := loadStep_puts hacyclic hlt (loadAfter_puts fuel) hs h.first
          obtain ⟨hs'', hrest⟩ := ih _ hs' (h.after hs hstep)
          exact ⟨hs'', hstep.trans hrest⟩

/-! ## §3. The order. -/

variable {start n : Nat}

/-- The walk from a group. -/
theorem walked_loadOrder (hstart : start < count) :
    ∃ met, Walked direct count (met, loadOrder direct count start)
      ∧ Puts direct (direct start) ([start], []) (met, loadOrder direct count start) := by
  have hbegin : Walked direct count ([start], []) :=
    ⟨NeedsFirst.nil, List.nodup_nil, by simp, List.nodup_singleton start, by simpa using hstart⟩
  refine ⟨_, loadAfter_puts hacyclic hlt (count + 1) (direct start) ([start], []) hbegin
    ⟨?_, hlt start, ?_⟩⟩
  · rw [List.length_singleton]
    omega
  · intro n hn _ d hd
    exact List.mem_singleton.mp hn ▸ TransGen.single hd

/-- **The order holds what a group needs**, directly or through others. -/
theorem mem_loadOrder (hstart : start < count) :
    n ∈ loadOrder direct count start ↔ TransGen (Needs direct) start n := by
  obtain ⟨met, hwalked, hputs⟩ := walked_loadOrder hacyclic hlt hstart
  constructor
  · intro hn
    rcases hputs.needed n hn with hn | ⟨d, hd, hpath⟩
    · cases hn
    · exact TransGen.head' hd hpath
  · intro hpath
    induction hpath with
    | single hneed => exact hputs.put _ hneed
    | tail _ hneed ih => simpa using hwalked.needsFirst.mem ih hneed

theorem mem_loadOrder_concat (hstart : start < count) :
    n ∈ loadOrder direct count start ++ [start] ↔ ReflTransGen (Needs direct) start n := by
  rw [List.mem_append, mem_loadOrder hacyclic hlt hstart, List.mem_singleton,
    Relation.reflTransGen_iff_eq_or_transGen, or_comm]

/-- **The order of a group, itself the last**, has every group once and behind those that it needs. -/
theorem loadOrder_concat_needsFirst (hstart : start < count) :
    (loadOrder direct count start ++ [start]).Nodup
      ∧ NeedsFirst id direct (loadOrder direct count start ++ [start]) := by
  obtain ⟨met, hwalked, hputs⟩ := walked_loadOrder hacyclic hlt hstart
  have hout : start ∉ loadOrder direct count start := fun hmem =>
    hacyclic start ((mem_loadOrder hacyclic hlt hstart).mp hmem)
  refine ⟨nodup_append_singleton.mpr ⟨hout, hwalked.nodup⟩, ?_⟩
  refine hwalked.needsFirst.concat fun d hd => ?_
  rw [List.map_id]
  exact hputs.put d hd

end

end AssetBundler.Plan
