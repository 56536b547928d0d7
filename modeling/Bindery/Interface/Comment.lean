/-
Comments of interface files: from `//` to the end of the line, and from `/*` to
the next `*/` or the end of the text. They are overwritten with spaces and keep
their line feeds, so every position of the stripped text is the same place of the
source.
-/
import Bindery.Bytes

namespace Bindery.Interface

/-- Where the reader of comments stands. -/
inductive Comment where
  | outside
  | line
  | block
  deriving DecidableEq, Repr

/-- A comment octet is blanked, a line feed stays. -/
def blanked (b : UInt8) : UInt8 := if b = 10 then 10 else 32

/-- The text with its comments blanked, reading from a given state. -/
def stripFrom : Comment → Bytes → Bytes
  | _, [] => []
  | .outside, [b] => [b]
  | .outside, a :: b :: s =>
    if a = 47 ∧ b = 47 then 32 :: 32 :: stripFrom .line s
    else if a = 47 ∧ b = 42 then 32 :: 32 :: stripFrom .block s
    else a :: stripFrom .outside (b :: s)
  | .line, b :: s => if b = 10 then 10 :: stripFrom .outside s else 32 :: stripFrom .line s
  | .block, [b] => [blanked b]
  | .block, a :: b :: s =>
    if a = 42 ∧ b = 47 then 32 :: 32 :: stripFrom .outside s
    else blanked a :: stripFrom .block (b :: s)

/-- The text with every comment blanked. -/
def stripComments (s : Bytes) : Bytes := stripFrom .outside s

end Bindery.Interface
