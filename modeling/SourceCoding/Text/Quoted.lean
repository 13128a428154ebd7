import SourceCoding.Text.Character
import SourceCoding.Text.Utf8

/-!
# Quoted text

Messages quote the values they complain about. A quoted text stands between double quotes;
backslash and double quote are preceded by a backslash, the common controls have a letter, and
every other character without a form of its own is written by its code point.

## Main definitions

* `Quoted.escape`: one character between the quotes
* `quote`: a text in quotes
* `quotePath`: a byte string in quotes, bytes that are not text by their hexadecimal value
-/

namespace SourceCoding

namespace Quoted

/-- A number in lower-case hexadecimal digits. -/
def lowerHex (n : Nat) : String := String.ofList (Nat.toDigits 16 n)

/-- Two upper-case hexadecimal digits. -/
def upperHexByte (b : UInt8) : String :=
  String.ofList [(Nat.digitChar (b.toNat / 16)).toUpper, (Nat.digitChar (b.toNat % 16)).toUpper]

/-- One character between the quotes. -/
def escape (c : Char) : String :=
  if c = '\x00' then "\\0"
  else if c = '\t' then "\\t"
  else if c = '\n' then "\\n"
  else if c = '\r' then "\\r"
  else if c = '"' then "\\\""
  else if c = '\\' then "\\\\"
  else if isInvisible c then "\\u\x7b" ++ lowerHex c.toNat ++ "\x7d"
  else c.toString

end Quoted

/-- **A text in double quotes.** -/
def quote (s : String) : String := "\"" ++ String.join (s.toList.map Quoted.escape) ++ "\""

/-- **A byte string in double quotes**; bytes that are not text stand by their value. -/
def quotePath (bs : Bytes) : String :=
  "\"" ++ String.join ((Utf8.pieces bs).map piece) ++ "\""
where
  /-- A character as in a text, broken bytes one by one. -/
  piece : Utf8.Piece → String
    | .char c => Quoted.escape c
    | .broken bytes => String.join (bytes.map fun b => "\\x" ++ Quoted.upperHexByte b)

end SourceCoding
