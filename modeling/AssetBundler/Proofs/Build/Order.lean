/-
  AssetBundler.Proofs.Build.Order
  ────────────────────────────────
  **LISTS IN THE ORDER OF NEED.**

  The records of a graph and the groups to be loaded come in an order in
  which everything stands behind what it needs.  Both are made by adding one
  element at the end whose needs have been met:

    • `forall_mem_append_singleton`, `nodup_append_singleton` — one element
      at the end,
    • `NeedsFirst.concat` — it keeps the order,
    • `NeedsFirst.append`, `NeedsFirst.flatMap` — so do orders one behind the
      other,
    • `NeedsFirst.idxOf_lt`, `NeedsFirst.idxOf_lt_of_transGen` — the place of
      what is needed.
-/
import Mathlib.Data.List.Induction
import Mathlib.Data.List.Nodup
import Mathlib.Logic.Relation

namespace AssetBundler

open Relation

variable {α β : Type} {key : α → β} {needs : α → List β} {xs ys : List α} {x : α} {y : β}

/-! ## §1. One element at the end. -/

theorem forall_mem_append_singleton {p : α → Prop} :
    (∀ a ∈ xs ++ [x], p a) ↔ (∀ a ∈ xs, p a) ∧ p x := by
  rw [List.forall_mem_append, List.forall_mem_singleton]

theorem nodup_append_singleton : (xs ++ [x]).Nodup ↔ x ∉ xs ∧ xs.Nodup := by
  rw [← List.concat_eq_append, List.nodup_concat]

/-! ## §2. The order of need. -/

/-- Every element of a list stands behind those with the keys that it needs. -/
def NeedsFirst (key : α → β) (needs : α → List β) (xs : List α) : Prop :=
  ∀ before x after, xs = before ++ x :: after → ∀ y ∈ needs x, y ∈ before.map key

namespace NeedsFirst

theorem nil : NeedsFirst key needs [] := by
  intro before x after h
  simp at h

theorem concat (h : NeedsFirst key needs xs) (hx : ∀ y ∈ needs x, y ∈ xs.map key) :
    NeedsFirst key needs (xs ++ [x]) := by
  intro before x' after heq
  rcases List.eq_nil_or_concat after with rfl | ⟨after', last, rfl⟩
  · obtain ⟨rfl, hlast⟩ := List.append_inj' heq rfl
    obtain rfl : x = x' := by simpa using hlast
    exact hx
  · have hsplit : xs ++ [x] = (before ++ x' :: after') ++ [last] := by
      rw [heq]
      simp
    exact h before x' after' (List.append_inj' hsplit rfl).1

theorem of_concat (h : NeedsFirst key needs (xs ++ [x])) :
    NeedsFirst key needs xs ∧ ∀ y ∈ needs x, y ∈ xs.map key := by
  refine ⟨fun before x' after heq => ?_, h xs x [] rfl⟩
  exact h before x' (after ++ [x]) (by rw [heq, List.append_assoc, List.cons_append])

theorem append (h : NeedsFirst key needs xs) (h' : NeedsFirst key needs ys) :
    NeedsFirst key needs (xs ++ ys) := by
  induction ys using List.reverseRecOn with
  | nil => rwa [List.append_nil]
  | append_singleton ys y ih =>
      obtain ⟨hys, hy⟩ := h'.of_concat
      rw [← List.append_assoc]
      refine (ih hys).concat fun z hz => ?_
      rw [List.map_append]
      exact List.mem_append_right _ (hy z hz)

theorem flatMap {γ : Type} {f : γ → List α} {cs : List γ}
    (h : ∀ c ∈ cs, NeedsFirst key needs (f c)) : NeedsFirst key needs (cs.flatMap f) := by
  induction cs with
  | nil => exact nil
  | cons c cs ih =>
      rw [List.forall_mem_cons] at h
      rw [List.flatMap_cons]
      exact h.1.append (ih h.2)

theorem mem (h : NeedsFirst key needs xs) (hx : x ∈ xs) (hy : y ∈ needs x) : y ∈ xs.map key := by
  obtain ⟨before, after, rfl⟩ := List.append_of_mem hx
  rw [List.map_append]
  exact List.mem_append_left _ (h before x after rfl y hy)

/-- **What is needed has an earlier place** in a list without repetition. -/
theorem idxOf_lt [BEq β] [LawfulBEq β] (h : NeedsFirst key needs xs) (hnodup : (xs.map key).Nodup)
    (hx : x ∈ xs) (hy : y ∈ needs x) : (xs.map key).idxOf y < (xs.map key).idxOf (key x) := by
  obtain ⟨before, after, rfl⟩ := List.append_of_mem hx
  have hbefore : y ∈ before.map key := h before x after rfl y hy
  rw [List.map_append, List.map_cons] at hnodup ⊢
  have hx' : key x ∉ before.map key := fun hmem =>
    (List.nodup_append.mp hnodup).2.2 _ hmem _ List.mem_cons_self rfl
  rw [List.idxOf_append_of_mem hbefore, List.idxOf_append_of_notMem hx', List.idxOf_cons_self,
    Nat.add_zero]
  exact List.idxOf_lt_length_of_mem hbefore

/-- **What is needed through others** has an earlier place, too. -/
theorem idxOf_lt_of_transGen [BEq α] [LawfulBEq α] {needs : α → List α} {y : α}
    (h : NeedsFirst id needs xs) (hnodup : xs.Nodup) (hx : x ∈ xs)
    (hpath : TransGen (fun a b => b ∈ needs a) x y) :
    y ∈ xs ∧ xs.idxOf y < xs.idxOf x := by
  have hstep : ∀ a ∈ xs, ∀ b ∈ needs a, b ∈ xs ∧ xs.idxOf b < xs.idxOf a := by
    intro a ha b hb
    have hmem := h.mem ha hb
    have hlt := h.idxOf_lt (by rwa [List.map_id]) ha hb
    rw [List.map_id] at hmem hlt
    exact ⟨hmem, hlt⟩
  induction hpath with
  | single hy => exact hstep x hx _ hy
  | tail _ hz ih =>
      obtain ⟨hmem, hlt⟩ := hstep _ ih.1 _ hz
      exact ⟨hmem, Nat.lt_trans hlt ih.2⟩

end NeedsFirst

end AssetBundler
