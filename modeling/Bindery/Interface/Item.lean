/-
Lists inside declarations: items divided by commas that stand outside every
bracket. Round and angle brackets count alike; items are trimmed and empty ones
are left out.
-/
import Bindery.Bytes.Blank

namespace Bindery.Interface

/-- The text with every octet that is no part of a character replaced by the
replacement character. -/
def scrub (s : Bytes) : Bytes :=
  Utf8.bytesOf ((Utf8.units s).map fun
    | .char c => .char c
    | .stray _ => .char (Char.ofNat 0xFFFD))

/-- How an octet changes the depth of brackets. -/
def bracketStep (b : UInt8) : Int :=
  if b = 40 || b = 60 then 1 else if b = 41 || b = 62 then -1 else 0

/-- The pieces between the commas at depth zero; `current` holds the octets of the
piece being read, last one first. -/
def pieces : Int → Bytes → Bytes → List Bytes
  | _, current, [] => [current.reverse]
  | depth, current, b :: s =>
    if b = 44 ∧ depth = 0 then current.reverse :: pieces depth [] s
    else pieces (depth + bracketStep b) (b :: current) s

/-- The items of a list. -/
def items (s : Bytes) : List Bytes :=
  ((pieces 0 [] (scrub s)).map Bytes.trim).filter fun p => !p.isEmpty

end Bindery.Interface
