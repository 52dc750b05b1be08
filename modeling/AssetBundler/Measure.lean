/-
  AssetBundler.Measure
  ────────────────────────────────
  **SIZES AND DURATIONS FOR READERS.**

  A size is given in the largest binary unit it reaches, a duration in
  minutes and seconds, seconds, or milliseconds.  Both are computed in binary
  floating point and printed exactly, a tie going to the even digit.
-/
import AssetBundler.Text.Fixed

namespace AssetBundler.Measure

/-- A number of bytes: whole bytes below one KB, two decimal places above. -/
def formatSize (bytes : UInt64) : String :=
  let scaled (unit : UInt64) (suffix : String) : String :=
    Text.Fixed.format (bytes.toFloat / unit.toFloat) 2 ++ suffix
  if 1073741824 ≤ bytes then scaled 1073741824 " GB"
  else if 1048576 ≤ bytes then scaled 1048576 " MB"
  else if 1024 ≤ bytes then scaled 1024 " KB"
  else toString bytes.toNat ++ " B"

/-- A duration of whole seconds and nanoseconds. -/
def formatDuration (seconds nanoseconds : UInt64) : String :=
  let total : Float := seconds.toFloat + nanoseconds.toFloat / 1000000000.0
  if 60.0 ≤ total then
    let minutes := (total / 60.0).floor.toUInt64
    let remaining := total - minutes.toFloat * 60.0
    toString minutes.toNat ++ "m " ++ Text.Fixed.format remaining 2 ++ "s"
  else if 1.0 ≤ total then Text.Fixed.format total 2 ++ "s"
  else Text.Fixed.format (total * 1000.0) 0 ++ "ms"

end AssetBundler.Measure
