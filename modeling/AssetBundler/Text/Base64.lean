/-
  AssetBundler.Text.Base64
  ────────────────────────────────
  **BASE64 WITH THE STANDARD ALPHABET AND PADDING.**

  Three bytes become four characters; a last group of one or two bytes is
  filled up with `=`.
-/

namespace AssetBundler.Text.Base64

/-- The character of a six-bit value. -/
def encodeSextet (n : Nat) : Char :=
  if n < 26 then Char.ofNat (n + 65)
  else if n < 52 then Char.ofNat (n - 26 + 97)
  else if n < 62 then Char.ofNat (n - 52 + 48)
  else if n = 62 then '+'
  else '/'

/-- The six-bit value of a character. -/
def decodeSextet? (c : Char) : Option Nat :=
  let n := c.toNat
  if 65 ≤ n && n ≤ 90 then some (n - 65)
  else if 97 ≤ n && n ≤ 122 then some (n - 97 + 26)
  else if 48 ≤ n && n ≤ 57 then some (n - 48 + 52)
  else if n = 43 then some 62
  else if n = 47 then some 63
  else none

/-- The characters of a list of bytes. -/
def encodeList : List UInt8 → List Char
  | [] => []
  | [a] =>
    let n := a.toNat * 16
    [encodeSextet (n / 64), encodeSextet (n % 64), '=', '=']
  | [a, b] =>
    let n := (a.toNat * 256 + b.toNat) * 4
    [encodeSextet (n / 4096), encodeSextet (n / 64 % 64), encodeSextet (n % 64), '=']
  | a :: b :: c :: rest =>
    let n := (a.toNat * 256 + b.toNat) * 256 + c.toNat
    encodeSextet (n / 262144) :: encodeSextet (n / 4096 % 64) :: encodeSextet (n / 64 % 64)
      :: encodeSextet (n % 64) :: encodeList rest

/-- The base64 text of some bytes. -/
def encode (bytes : ByteArray) : String :=
  String.ofList (encodeList bytes.toList)

/-- The bytes of a list of characters in groups of four. -/
def decodeList? : List Char → Option (List UInt8)
  | [] => some []
  | [a, b, '=', '='] => do
    let n := (← decodeSextet? a) * 64 + (← decodeSextet? b)
    return [UInt8.ofNat (n / 16)]
  | [a, b, c, '='] => do
    let n := ((← decodeSextet? a) * 64 + (← decodeSextet? b)) * 64 + (← decodeSextet? c)
    return [UInt8.ofNat (n / 1024), UInt8.ofNat (n / 4 % 256)]
  | a :: b :: c :: d :: rest => do
    let high := (← decodeSextet? a) * 64 + (← decodeSextet? b)
    let n := (high * 64 + (← decodeSextet? c)) * 64 + (← decodeSextet? d)
    let tail ← decodeList? rest
    return UInt8.ofNat (n / 65536) :: UInt8.ofNat (n / 256 % 256) :: UInt8.ofNat (n % 256) :: tail
  | _ => none

/-- The bytes that a base64 text stands for, when it is well formed. -/
def decode? (text : String) : Option ByteArray :=
  (decodeList? text.toList).map fun bytes => ByteArray.mk bytes.toArray

end AssetBundler.Text.Base64
