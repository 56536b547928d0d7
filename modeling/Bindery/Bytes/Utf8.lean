/-
Reading octets as UTF-8. `units` splits any octets into the characters they
encode and the octets that belong to none, so that text which is only partly
well formed can still be trimmed, quoted or measured; `valid` says that no
octet is left over.
-/
import Bindery.Bytes

namespace Bindery

/-- One step of reading text: an encoded character, or an octet that is part
of no well-formed encoding. -/
inductive TextUnit where
  | char (c : Char)
  | stray (b : UInt8)
  deriving DecidableEq, Repr

namespace TextUnit

/-- The octets a unit was read from. -/
def bytes : TextUnit → Bytes
  | .char c => String.utf8EncodeChar c
  | .stray b => [b]

def isChar : TextUnit → Bool
  | .char _ => true
  | .stray _ => false

end TextUnit

namespace Utf8

/-- A continuation octet. -/
def isTail (b : UInt8) : Bool := 0x80 ≤ b && b ≤ 0xBF

/-- The six bits a continuation octet carries. -/
def tailBits (b : UInt8) : Nat := b.toNat % 64

/-- Two octets that encode one character in the shortest way. -/
def isTwo (a b : UInt8) : Bool := 0xC2 ≤ a && a ≤ 0xDF && isTail b

/-- Three octets that encode one character in the shortest way, and no surrogate. -/
def isThree (a b c : UInt8) : Bool :=
  0xE0 ≤ a && a ≤ 0xEF && isTail b && isTail c && (a != 0xE0 || 0xA0 ≤ b) && (a != 0xED || b ≤ 0x9F)

/-- Four octets that encode one character in the shortest way, within the code space. -/
def isFour (a b c d : UInt8) : Bool :=
  0xF0 ≤ a && a ≤ 0xF4 && isTail b && isTail c && isTail d && (a != 0xF0 || 0x90 ≤ b)
    && (a != 0xF4 || b ≤ 0x8F)

/-- The units of a text in order; their octets, one after the other, are the text. -/
def units : Bytes → List TextUnit
  | [] => []
  | a :: s =>
    if a < 0x80 then .char (Char.ofNat a.toNat) :: units s
    else match s with
      | [] => [.stray a]
      | b :: s1 =>
        if isTwo a b then .char (Char.ofNat (a.toNat % 32 * 64 + tailBits b)) :: units s1
        else match s1 with
          | [] => .stray a :: units [b]
          | c :: s2 =>
            if isThree a b c then
              .char (Char.ofNat (a.toNat % 16 * 4096 + tailBits b * 64 + tailBits c)) :: units s2
            else match s2 with
              | [] => .stray a :: units [b, c]
              | d :: s3 =>
                if isFour a b c d then
                  .char (Char.ofNat
                    (a.toNat % 8 * 262144 + tailBits b * 4096 + tailBits c * 64 + tailBits d)) :: units s3
                else .stray a :: units (b :: c :: d :: s3)

/-- The octets of a list of units. -/
def bytesOf (us : List TextUnit) : Bytes := us.flatMap TextUnit.bytes

/-- The text is well-formed UTF-8. -/
def valid (s : Bytes) : Bool := (units s).all TextUnit.isChar

end Utf8

end Bindery
