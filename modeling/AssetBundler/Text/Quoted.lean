/-
  AssetBundler.Text.Quoted
  ────────────────────────────────
  **TEXT IN DOUBLE QUOTES.**

  A quote, a backslash and every control character below the blank are
  escaped, the common ones by a letter and the others by four hexadecimal
  digits; all else stands for itself.
-/
import AssetBundler.Text.CharClass

namespace AssetBundler.Text

/-- How a character is written between double quotes. -/
def quotedChar (c : Char) : List Char :=
  if c == '"' then ['\\', '"']
  else if c == '\\' then ['\\', '\\']
  else if c == '\n' then ['\\', 'n']
  else if c == '\r' then ['\\', 'r']
  else if c == '\t' then ['\\', 't']
  else if c == '\x08' then ['\\', 'b']
  else if c == '\x0c' then ['\\', 'f']
  else if c.toNat < 0x20 then
    ['\\', 'u', '0', '0', hexDigit (c.toNat / 16), hexDigit (c.toNat % 16)]
  else [c]

/-- Characters in double quotes. -/
def quotedChars (cs : List Char) : List Char :=
  '"' :: cs.flatMap quotedChar ++ ['"']

/-- Text in double quotes. -/
def quote (s : String) : String :=
  String.ofList (quotedChars s.toList)

end AssetBundler.Text
