/-
Sizes for people to read: a number below a thousand and a unit, with one decimal when the
number is below ten.
-/
import Bindery.Bytes

namespace Bindery.ByteSize

/-- Units, each a thousand times the one before. -/
def units : List String := ["B", "kB", "MB", "GB", "TB", "PB", "EB"]

/-- Tenths to the nearest whole number, a half going to the even one. -/
def roundTenths (tenths : Nat) : Nat :=
  let whole := tenths / 10
  let rest := tenths % 10
  if rest < 5 ∨ (rest = 5 ∧ whole % 2 = 0) then whole else whole + 1

/-- A size in a unit of `scale` octets, to the nearest tenth with halves going up. -/
def tenths (scale n : Nat) : Nat := (20 * n + scale) / (2 * scale)

/-- A size in a unit of `scale` octets. -/
def inUnit (unit : String) (scale n : Nat) : Bytes :=
  let t := tenths scale n
  let number :=
    if t < 100 then Bytes.decimal (t / 10) ++ utf8 "." ++ Bytes.decimal (t % 10)
    else Bytes.decimal (roundTenths t)
  number ++ utf8 " " ++ utf8 unit

/-- The size in the largest of the units, ascending from `scale`, that it fills. -/
def withUnits (n scale : Nat) : List String → Bytes
  | [] => []
  | [u] => inUnit u scale n
  | u :: us => if n < 1000 * scale then inUnit u scale n else withUnits n (1000 * scale) us

/-- A number of octets as text. -/
def text (n : Nat) : Bytes :=
  if n < 10 then Bytes.decimal n ++ utf8 " B" else withUnits n 1 units

end Bindery.ByteSize
