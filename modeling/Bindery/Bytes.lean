/-
Text, names and file contents are lists of octets. Nothing here assumes that
they are well-formed Unicode: a name read from a container may be any octets
at all, and every function below is total on them.

`cut`, `cutOn` and `split` take a text apart at a separator, `replaceAll`
exchanges every occurrence of a pattern, found from left to right without
overlap.
-/
namespace Bindery

/-- A text or a piece of data, octet by octet. -/
abbrev Bytes := List UInt8

/-- The octets of a text known in advance. -/
def utf8 (s : String) : Bytes := s.toList.flatMap String.utf8EncodeChar

namespace Byte

/-- The octet of an ASCII character. -/
def ofChar (c : Char) : UInt8 := c.toNat.toUInt8

def isUpper (b : UInt8) : Bool := 65 ≤ b && b ≤ 90

def isLower (b : UInt8) : Bool := 97 ≤ b && b ≤ 122

def isLetter (b : UInt8) : Bool := isLower b || isUpper b

def isDigit (b : UInt8) : Bool := 48 ≤ b && b ≤ 57

/-- ASCII letters are lowered, every other octet stays. -/
def lower (b : UInt8) : UInt8 := if isUpper b then b + 32 else b

/-- ASCII letters are raised, every other octet stays. -/
def upper (b : UInt8) : UInt8 := if isLower b then b - 32 else b

/-- A letter, a digit or an underscore. -/
def isWord (b : UInt8) : Bool := isLetter b || isDigit b || b == 95

/-- The hexadecimal digit of a number below sixteen, in lower case. -/
def hexDigit (n : Nat) : UInt8 := if n < 10 then (48 + n).toUInt8 else (87 + n).toUInt8

/-- The value of a hexadecimal digit of either case. -/
def hexValue? (b : UInt8) : Option Nat :=
  if isDigit b then some (b.toNat - 48)
  else if 97 ≤ b && b ≤ 102 then some (b.toNat - 87)
  else if 65 ≤ b && b ≤ 70 then some (b.toNat - 55)
  else none

end Byte

namespace Bytes

/-- The text before the first `sep` and the text after it; no `sep`, nothing. -/
def cut (sep : UInt8) : Bytes → Option (Bytes × Bytes)
  | [] => none
  | c :: s => if c == sep then some ([], s) else (cut sep s).map fun (a, b) => (c :: a, b)

/-- The text before the first occurrence of `sep` and the text after it. -/
def cutOn : Bytes → Bytes → Option (Bytes × Bytes)
  | [], sep => if sep.isEmpty then some ([], []) else none
  | c :: s, sep =>
    if sep.isPrefixOf (c :: s) then some ([], (c :: s).drop sep.length)
    else (cutOn s sep).map fun (a, b) => (c :: a, b)

/-- The pieces between the occurrences of `sep`: one more than there are. -/
def split (sep : UInt8) : Bytes → List Bytes
  | [] => [[]]
  | c :: s =>
    if c == sep then [] :: split sep s
    else match split sep s with
      | [] => [[c]]
      | p :: ps => (c :: p) :: ps

/-- The pieces, with `sep` between two of them. -/
def join (sep : Bytes) (ps : List Bytes) : Bytes := sep.intercalate ps

/-- `part` occurs somewhere in the text. -/
def holds : Bytes → Bytes → Bool
  | [], part => part.isEmpty
  | c :: s, part => part.isPrefixOf (c :: s) || holds s part

/-- Replaces while skipping the octets of the occurrence just replaced. -/
def replaceFrom (old new : Bytes) : Nat → Bytes → Bytes
  | _, [] => []
  | skip + 1, _ :: s => replaceFrom old new skip s
  | 0, c :: s =>
    if old.isPrefixOf (c :: s) then new ++ replaceFrom old new (old.length - 1) s
    else c :: replaceFrom old new 0 s

/-- Every occurrence of the non-empty `old`, from left to right and without
overlap, gives way to `new`. -/
def replaceAll (s old new : Bytes) : Bytes := replaceFrom old new 0 s

/-- The text without `tail` at its end, when it is there. -/
def dropEnd (s tail : Bytes) : Bytes :=
  if tail.isSuffixOf s then s.take (s.length - tail.length) else s

/-- The text without `head` at its start, when it is there. -/
def dropStart (s head : Bytes) : Bytes :=
  if head.isPrefixOf s then s.drop head.length else s

/-- The octets after the last `sep`, the whole text when there is none. -/
def afterLast (sep : UInt8) (s : Bytes) : Bytes :=
  (s.reverse.takeWhile (· != sep)).reverse

/-- The octets up to and with the last `sep`, nothing when there is none. -/
def uptoLast (sep : UInt8) (s : Bytes) : Bytes :=
  (s.reverse.dropWhile (· != sep)).reverse

/-- A natural number in decimal. -/
def decimal (n : Nat) : Bytes := (Nat.toDigits 10 n).map Byte.ofChar

/-- Two hexadecimal digits an octet, in lower case. -/
def hex (s : Bytes) : Bytes :=
  s.flatMap fun b => [Byte.hexDigit (b.toNat / 16), Byte.hexDigit (b.toNat % 16)]

/-- ASCII letters are lowered. -/
def lower (s : Bytes) : Bytes := s.map Byte.lower

/-- `n` copies of a text, one after the other. -/
def times (n : Nat) (s : Bytes) : Bytes := (List.replicate n s).flatten

/-- A text and a line feed after it. -/
def line (s : Bytes) : Bytes := s ++ [10]

end Bytes

end Bindery
