import BankTrace.Text.Numeral
import BankTrace.Text.Unseen
import BankTrace.Text.Utf8

/-!
# Quoted text

Names and texts inside messages stand in double quotes, with everything escaped that could be
mistaken for something else: quotes, backslashes, unseen characters and bytes that are no text.
-/

namespace BankTrace.Quoted

/-- How a character is written between quotes. -/
def character (c : Char) : String :=
  if c = '"' then "\\\""
  else if c = '\\' then "\\\\"
  else if c = '\n' then "\\n"
  else if c = '\r' then "\\r"
  else if c = '\t' then "\\t"
  else if c = '\x00' then "\\0"
  else if Unseen.isUnseen c then "\\u\x7b" ++ Numeral.write 16 c.toNat ++ "\x7d"
  else c.toString

/-- How a byte outside any character is written: in upper case hexadecimal. Such a byte is at least
`0x80`, so it has two digits. -/
def byte (b : UInt8) : String := "\\x" ++ (Numeral.write 16 b.toNat).toUpper

/-- A text between quotes. -/
def text (s : String) : String :=
  "\"" ++ String.join (s.toList.map character) ++ "\""

/-- A byte sequence between quotes. -/
def bytes (bs : List UInt8) : String :=
  let piece : Utf8.Piece → String
    | .char c => character c
    | .broken stretch => String.join (stretch.map byte)
  "\"" ++ String.join ((Utf8.pieces bs).map piece) ++ "\""

end BankTrace.Quoted
