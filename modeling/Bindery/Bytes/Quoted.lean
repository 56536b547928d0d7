/-
Quoted text as it stands in messages and in generated source: double quotes
around, a backslash form for quotes, backslashes and everything that is not
printable, all else verbatim.
-/
import Bindery.Bytes.Utf8
import Bindery.Bytes.Printable

namespace Bindery.Quoted

/-- The low `width` hexadecimal digits of a number, most significant first. -/
def hexDigits : Nat → Nat → Bytes
  | 0, _ => []
  | width + 1, n => hexDigits width (n / 16) ++ [Byte.hexDigit (n % 16)]

/-- The letter that names a character after a backslash. -/
def letter? (c : Char) : Option UInt8 :=
  match c.toNat with
  | 7 => some 97
  | 8 => some 98
  | 9 => some 116
  | 10 => some 110
  | 11 => some 118
  | 12 => some 102
  | 13 => some 114
  | 34 => some 34
  | 92 => some 92
  | _ => none

/-- One unit of the text between the quotes. -/
def encodeUnit : TextUnit → Bytes
  | .stray b => utf8 "\\x" ++ hexDigits 2 b.toNat
  | .char c =>
    match letter? c with
    | some l => [92, l]
    | none =>
      if Printable.isPrintable c then String.utf8EncodeChar c
      else if c.toNat < 32 || c.toNat == 127 then utf8 "\\x" ++ hexDigits 2 c.toNat
      else if c.toNat < 0x10000 then utf8 "\\u" ++ hexDigits 4 c.toNat
      else utf8 "\\U" ++ hexDigits 8 c.toNat

end Bindery.Quoted

namespace Bindery

/-- The text in double quotes, with escapes. -/
def Bytes.quote (s : Bytes) : Bytes := [34] ++ (Utf8.units s).flatMap Quoted.encodeUnit ++ [34]

end Bindery
