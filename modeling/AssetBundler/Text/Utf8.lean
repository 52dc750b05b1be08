/-
  AssetBundler.Text.Utf8
  ────────────────────────────────
  **READING BYTES AS UTF-8 TEXT.**

  `decode` gives the text of well-formed bytes.  For ill-formed ones it says
  where the longest well-formed beginning ends and how many bytes after it
  form the offending sequence, or that the bytes stop in mid-sequence.
  `decodeLossy` puts a mark in the place of such sequences.
-/

namespace AssetBundler.Text.Utf8

/-- Why bytes are not UTF-8: `validUpTo` bytes are well formed; the next `length?` bytes can begin no
character, or the bytes end inside one (`none`). -/
structure DecodeError where
  validUpTo : Nat
  length? : Option Nat
  deriving Repr, DecidableEq

/-- The error in words. -/
def DecodeError.message (e : DecodeError) : String :=
  match e.length? with
  | some n =>
    "invalid utf-8 sequence of " ++ toString n ++ " bytes from index " ++ toString e.validUpTo
  | none => "incomplete utf-8 byte sequence from index " ++ toString e.validUpTo

/-- A byte that continues a sequence. -/
def isContinuation (b : UInt8) : Bool :=
  0x80 ≤ b && b ≤ 0xBF

/-- The second bytes that may follow a given lead byte: overlong forms, surrogates and values above
the last code point are kept out here. -/
def secondByteOk (lead b : UInt8) : Bool :=
  if lead == 0xE0 then 0xA0 ≤ b && b ≤ 0xBF
  else if lead == 0xED then 0x80 ≤ b && b ≤ 0x9F
  else if lead == 0xF0 then 0x90 ≤ b && b ≤ 0xBF
  else if lead == 0xF4 then 0x80 ≤ b && b ≤ 0x8F
  else isContinuation b

/-- How many bytes the sequence of a lead byte has; zero for a byte that leads none. -/
def sequenceLength (lead : UInt8) : Nat :=
  if lead < 0x80 then 1
  else if 0xC2 ≤ lead && lead ≤ 0xDF then 2
  else if 0xE0 ≤ lead && lead ≤ 0xEF then 3
  else if 0xF0 ≤ lead && lead ≤ 0xF4 then 4
  else 0

/-- The first offence in the bytes, counting from `index`. -/
def firstError (index : Nat) : List UInt8 → Option DecodeError
  | [] => none
  | lead :: rest =>
    match sequenceLength lead, rest with
    | 0, _ => some ⟨index, some 1⟩
    | 1, rest => firstError (index + 1) rest
    | _ + 2, [] => some ⟨index, none⟩
    | 2, b :: rest =>
      if secondByteOk lead b then firstError (index + 2) rest else some ⟨index, some 1⟩
    | _ + 3, [b] => if secondByteOk lead b then some ⟨index, none⟩ else some ⟨index, some 1⟩
    | 3, b :: c :: rest =>
      if !secondByteOk lead b then some ⟨index, some 1⟩
      else if !isContinuation c then some ⟨index, some 2⟩
      else firstError (index + 3) rest
    | _ + 4, [b, c] =>
      if !secondByteOk lead b then some ⟨index, some 1⟩
      else if !isContinuation c then some ⟨index, some 2⟩
      else some ⟨index, none⟩
    | _ + 4, b :: c :: d :: rest =>
      if !secondByteOk lead b then some ⟨index, some 1⟩
      else if !isContinuation c then some ⟨index, some 2⟩
      else if !isContinuation d then some ⟨index, some 3⟩
      else firstError (index + 4) rest

/-- The text that the bytes encode. -/
def decode (bytes : ByteArray) : Except DecodeError String :=
  match String.fromUTF8? bytes with
  | some text => .ok text
  | none => .error ((firstError 0 bytes.toList).getD ⟨0, none⟩)

/-- The characters that bytes encode, with U+FFFD for every sequence that encodes none; the first
argument exceeds the number of bytes. -/
def lossyChars : Nat → ByteArray → List Char
  | 0, _ => []
  | bound + 1, bytes =>
    match decode bytes with
    | .ok text => text.toList
    | .error e =>
      let start := (String.fromUTF8? (bytes.extract 0 e.validUpTo)).getD ""
      let rest := bytes.extract (e.validUpTo + e.length?.getD bytes.size) bytes.size
      start.toList ++ '\uFFFD' :: lossyChars bound rest

/-- The text that bytes encode, as far as they do. -/
def decodeLossy (bytes : ByteArray) : String :=
  String.ofList (lossyChars (bytes.size + 1) bytes)

end AssetBundler.Text.Utf8
