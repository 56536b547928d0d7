/-
White space, by the Unicode property of that name, and trimming it from the
ends of a text.
-/
import Bindery.Bytes.Utf8

namespace Bindery

namespace Blank

/-- The white-space characters, as closed ranges of code points, ascending and apart. -/
def ranges : List (Nat × Nat) :=
  [(0x09, 0x0D), (0x20, 0x20), (0x85, 0x85), (0xA0, 0xA0), (0x1680, 0x1680), (0x2000, 0x200A),
   (0x2028, 0x2029), (0x202F, 0x202F), (0x205F, 0x205F), (0x3000, 0x3000)]

def isBlank (c : Char) : Bool := ranges.any fun r => r.1 ≤ c.toNat && c.toNat ≤ r.2

/-- An encoded white-space character; stray octets are never blank. -/
def isBlankUnit : TextUnit → Bool
  | .char c => isBlank c
  | .stray _ => false

end Blank

/-- The text without the white space at its two ends. -/
def Bytes.trim (s : Bytes) : Bytes :=
  Utf8.bytesOf ((((Utf8.units s).dropWhile Blank.isBlankUnit).reverse.dropWhile
    Blank.isBlankUnit).reverse)

end Bindery
