/-
Strings and lists of strings as TOML writes them: single quotes around a text that can
stand between them as it is, double quotes and escapes around any other.
-/
import Bindery.Bytes

namespace Bindery.Toml

/-- A control character other than a tab. -/
def isControl (b : UInt8) : Bool := (b < 32 && b != 9) || b == 127

/-- The text cannot stand between single quotes. -/
def needsEscapes (s : Bytes) : Bool := s.any fun b => b == 39 || isControl b

/-- A hexadecimal digit in upper case. -/
def upperHex (n : Nat) : UInt8 := Byte.upper (Byte.hexDigit n)

/-- An octet between double quotes. -/
def escape (b : UInt8) : Bytes :=
  match b.toNat with
  | 92 => utf8 "\\\\"
  | 34 => utf8 "\\\""
  | 8 => utf8 "\\b"
  | 9 => utf8 "\\t"
  | 10 => utf8 "\\n"
  | 12 => utf8 "\\f"
  | 13 => utf8 "\\r"
  | n => if isControl b then utf8 "\\u00" ++ [upperHex (n / 16), upperHex (n % 16)] else [b]

/-- A text in its quotes. -/
def literal (s : Bytes) : Bytes :=
  if needsEscapes s then [34] ++ s.flatMap escape ++ [34] else [39] ++ s ++ [39]

/-- A list of texts on one line. -/
def literals (ss : List Bytes) : Bytes :=
  utf8 "[" ++ Bytes.join (utf8 ", ") (ss.map literal) ++ utf8 "]"

end Bindery.Toml
