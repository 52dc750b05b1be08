/-
  AssetBundler.Proofs.Digest.Sha256
  ────────────────────────────────
  **HOW LONG DIGESTS ARE.**

  The state keeps its eight words through all rounds and blocks, and each word
  is written with eight digits, so the digests of all contents have one length
  and what stands before one in a file name can be told from it:

    • `Sha256.length_compress`, `Sha256.length_absorb` — the words of a state,
    • `length_ofContent` — the digits of a digest.
-/
import AssetBundler.Digest.Sha256
import Mathlib.Algebra.BigOperators.Group.List.Basic

namespace AssetBundler.Digest

namespace Sha256

/-! ## §1. States. -/

theorem length_round (state : List UInt32) (x : UInt32 × UInt32) :
    (round state x).length = state.length := by
  unfold round
  split <;> rfl

theorem length_foldl_round : ∀ (xs : List (UInt32 × UInt32)) (state : List UInt32),
    (xs.foldl round state).length = state.length
  | [], _ => rfl
  | x :: xs, state => by
      rw [List.foldl_cons, length_foldl_round xs, length_round]

theorem length_compress (state block : List UInt32) :
    (compress state block).length = state.length := by
  simp [compress, length_foldl_round]

theorem length_absorb : ∀ (count : Nat) (state message : List UInt32),
    (absorb count state message).length = state.length
  | 0, _, _ => rfl
  | count + 1, state, message => by
      unfold absorb
      rw [length_absorb count, length_compress]

theorem length_digestWords (message : List UInt8) : (digestWords message).length = 8 :=
  length_absorb _ _ _

/-! ## §2. Digits. -/

theorem length_wordHex (w : UInt32) : (wordHex w).length = 8 := by
  simp [wordHex, bigEndian, Function.comp_def]

theorem length_hex (message : ByteArray) : (hex message).toList.length = 64 := by
  simp [hex, List.length_flatMap, length_wordHex, length_digestWords]

end Sha256

/-- **All digests of contents have sixteen digits.** -/
theorem length_ofContent (content : ByteArray) : (ofContent content).toList.length = 16 := by
  simp only [ofContent, short, String.toList_ofList, List.length_take, Sha256.length_hex]
  rfl

end AssetBundler.Digest
