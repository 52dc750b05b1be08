/-
  AssetBundler.Digest.Sha256
  ────────────────────────────────
  **SHA-256 AND THE SHORT DIGESTS BUILT ON IT.**

  The message is padded to whole blocks of sixteen words; each block extends
  to a schedule of sixty-four words, and one round per word turns the state.
  Names and identities use a beginning of the digest's hexadecimal text.
-/
import AssetBundler.Text.CharClass

namespace AssetBundler.Digest.Sha256

/-! ## §1. Constants. -/

/-- The state before the first block. -/
def initialState : List UInt32 :=
  [0x6a09e667, 0xbb67ae85, 0x3c6ef372, 0xa54ff53a, 0x510e527f, 0x9b05688c, 0x1f83d9ab, 0x5be0cd19]

/-- One constant per round. -/
def roundConstants : List UInt32 :=
  [0x428a2f98, 0x71374491, 0xb5c0fbcf, 0xe9b5dba5, 0x3956c25b, 0x59f111f1, 0x923f82a4, 0xab1c5ed5,
   0xd807aa98, 0x12835b01, 0x243185be, 0x550c7dc3, 0x72be5d74, 0x80deb1fe, 0x9bdc06a7, 0xc19bf174,
   0xe49b69c1, 0xefbe4786, 0x0fc19dc6, 0x240ca1cc, 0x2de92c6f, 0x4a7484aa, 0x5cb0a9dc, 0x76f988da,
   0x983e5152, 0xa831c66d, 0xb00327c8, 0xbf597fc7, 0xc6e00bf3, 0xd5a79147, 0x06ca6351, 0x14292967,
   0x27b70a85, 0x2e1b2138, 0x4d2c6dfc, 0x53380d13, 0x650a7354, 0x766a0abb, 0x81c2c92e, 0x92722c85,
   0xa2bfe8a1, 0xa81a664b, 0xc24b8b70, 0xc76c51a3, 0xd192e819, 0xd6990624, 0xf40e3585, 0x106aa070,
   0x19a4c116, 0x1e376c08, 0x2748774c, 0x34b0bcb5, 0x391c0cb3, 0x4ed8aa4a, 0x5b9cca4f, 0x682e6ff3,
   0x748f82ee, 0x78a5636f, 0x84c87814, 0x8cc70208, 0x90befffa, 0xa4506ceb, 0xbef9a3f7, 0xc67178f2]

/-! ## §2. The message as blocks of words. -/

/-- The number in `count` bytes, most significant first. -/
def bigEndian (count n : Nat) : List UInt8 :=
  (List.range count).map fun i => UInt8.ofNat (n / Nat.pow 256 (count - 1 - i))

/-- The message, a one bit, zeros, and the bit length: a whole number of blocks. -/
def pad (message : List UInt8) : List UInt8 :=
  let zeros := (119 - message.length % 64) % 64
  message ++ 0x80 :: List.replicate zeros 0 ++ bigEndian 8 (8 * message.length)

/-- Four bytes make a word. -/
def words : List UInt8 → List UInt32
  | a :: b :: c :: d :: rest =>
    (a.toUInt32 <<< 24 ||| b.toUInt32 <<< 16 ||| c.toUInt32 <<< 8 ||| d.toUInt32) :: words rest
  | _ => []

/-! ## §3. Compression. -/

/-- Rotation to the right. -/
def rotateRight (x : UInt32) (n : UInt32) : UInt32 :=
  x >>> n ||| x <<< (32 - n)

/-- The word after the last sixteen words of the schedule, newest first. -/
def nextWord (recent : List UInt32) : UInt32 :=
  let word (i : Nat) := recent.getD (i - 1) 0
  let s0 := rotateRight (word 15) 7 ^^^ rotateRight (word 15) 18 ^^^ (word 15 >>> 3)
  let s1 := rotateRight (word 2) 17 ^^^ rotateRight (word 2) 19 ^^^ (word 2 >>> 10)
  word 16 + s0 + word 7 + s1

/-- The schedule of a block: its sixteen words and forty-eight more. -/
def schedule (block : List UInt32) : List UInt32 :=
  ((List.range 48).foldl (fun recent _ => nextWord recent :: recent) block.reverse).reverse

/-- One round. -/
def round (state : List UInt32) (constantAndWord : UInt32 × UInt32) : List UInt32 :=
  match state with
  | [a, b, c, d, e, f, g, h] =>
    let s1 := rotateRight e 6 ^^^ rotateRight e 11 ^^^ rotateRight e 25
    let choice := (e &&& f) ^^^ (~~~e &&& g)
    let t1 := h + s1 + choice + constantAndWord.1 + constantAndWord.2
    let s0 := rotateRight a 2 ^^^ rotateRight a 13 ^^^ rotateRight a 22
    let majority := (a &&& b) ^^^ (a &&& c) ^^^ (b &&& c)
    [t1 + s0 + majority, a, b, c, d + t1, e, f, g]
  | other => other

/-- The state after one more block. -/
def compress (state block : List UInt32) : List UInt32 :=
  let turned := (roundConstants.zip (schedule block)).foldl round state
  (state.zip turned).map fun (a, b) => a + b

/-- The state after `count` blocks of a word sequence. -/
def absorb : Nat → List UInt32 → List UInt32 → List UInt32
  | 0, state, _ => state
  | count + 1, state, message =>
    absorb count (compress state (message.take 16)) (message.drop 16)

/-! ## §4. Digests. -/

/-- The eight words of the digest. -/
def digestWords (message : List UInt8) : List UInt32 :=
  let padded := words (pad message)
  absorb (padded.length / 16) initialState padded

/-- Two hexadecimal digits per byte, most significant first. -/
def wordHex (w : UInt32) : List Char :=
  (bigEndian 4 w.toNat).flatMap fun b =>
    [Text.hexDigit (b.toNat / 16), Text.hexDigit (b.toNat % 16)]

/-- The sixty-four hexadecimal digits of the digest. -/
def hex (message : ByteArray) : String :=
  String.ofList ((digestWords message.toList).flatMap wordHex)

end AssetBundler.Digest.Sha256

namespace AssetBundler.Digest

/-- The first `length` hexadecimal digits of the digest of `content`. -/
def short (content : ByteArray) (length : Nat) : String :=
  String.ofList ((Sha256.hex content).toList.take length)

/-- The digest that identifies a content: sixteen hexadecimal digits. -/
def ofContent (content : ByteArray) : String :=
  short content 16

end AssetBundler.Digest
