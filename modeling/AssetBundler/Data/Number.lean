/-
  AssetBundler.Data.Number
  ────────────────────────────────
  **THE RANGE OF DECIMAL NUMBERS.**

  Whether a decimal number lies within the range of double precision.
-/
import AssetBundler.Text.CharClass

namespace AssetBundler.Data

open AssetBundler.Text

/-- The least magnitude that rounds beyond the greatest double: halfway between that and the power of
two above it. -/
def overflowBound : Nat := Nat.pow 2 1024 - Nat.pow 2 970

/-- A decimal number, given by the digits before and behind its point and its exponent, lies within the
range of double precision. -/
def inDoubleRange (whole fraction : List Char) (exponent : Int) : Bool :=
  let digits := (whole ++ fraction).dropWhile (· == '0')
  let scale := exponent - fraction.length
  let magnitude : Int := digits.length + scale
  if digits.isEmpty || magnitude < 308 then true
  else if 310 < magnitude then false
  else if 0 ≤ scale then decimalNumber digits * Nat.pow 10 scale.toNat < overflowBound
  else decimalNumber digits < overflowBound * Nat.pow 10 (-scale).toNat

end AssetBundler.Data
