/-
  AssetBundler.Text.Fixed
  ────────────────────────────────
  **DECIMAL TEXT WITH A FIXED NUMBER OF PLACES.**

  A binary floating-point number is a dyadic fraction, so it can be rounded
  exactly: the quotient nearest to its value is printed, and of two equally
  near ones the even one.
-/

namespace AssetBundler.Text.Fixed

/-- The natural number nearest to `num / den`; a tie goes to the even neighbour. -/
def roundDiv (num den : Nat) : Nat :=
  let q := num / den
  let twice := 2 * (num % den)
  if twice < den then q
  else if den < twice then q + 1
  else if q % 2 = 0 then q else q + 1

/-- `n / 10 ^ places` in positional notation. -/
def placeDigits (n places : Nat) : String :=
  if places = 0 then toString n
  else
    let fraction := toString (n % Nat.pow 10 places)
    toString (n / Nat.pow 10 places) ++ "."
      ++ String.ofList (List.replicate (places - fraction.length) '0') ++ fraction

/-- The magnitude of a finite number as an exact fraction. -/
def magnitude (x : Float) : Nat × Nat :=
  let bits := x.toBits.toNat
  let exponent := bits / Nat.pow 2 52 % Nat.pow 2 11
  let fraction := bits % Nat.pow 2 52
  let (m, e) := if exponent = 0 then (fraction, 1) else (fraction + Nat.pow 2 52, exponent)
  if 1075 ≤ e then (m * Nat.pow 2 (e - 1075), 1) else (m, Nat.pow 2 (1075 - e))

/-- A finite number with the given number of decimal places. -/
def format (x : Float) (places : Nat) : String :=
  let (num, den) := magnitude x
  let sign := if x.toBits.toNat / Nat.pow 2 63 = 1 then "-" else ""
  sign ++ placeDigits (roundDiv (num * Nat.pow 10 places) den) places

end AssetBundler.Text.Fixed
