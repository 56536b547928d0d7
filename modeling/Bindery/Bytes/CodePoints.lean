/-
Sets of characters given by ranges of code points, and looking a character up in one.
-/
namespace Bindery

/-- Closed ranges of code points, ascending and apart. -/
abbrev CodePoints := Array (Nat × Nat)

namespace CodePoints

/-- Whether `n` lies in one of the ranges with an index in `[lo, hi)`, by bisection. -/
def search (ranges : CodePoints) (n : Nat) : Nat → Nat → Nat → Bool
  | 0, _, _ => false
  | fuel + 1, lo, hi =>
    if lo < hi then
      let mid := (lo + hi) / 2
      match ranges[mid]? with
      | none => false
      | some (a, b) =>
        if n < a then search ranges n fuel lo mid
        else if b < n then search ranges n fuel (mid + 1) hi
        else true
    else false

/-- Whether a character is in the set; sixteen halvings reach every one of up to 65535 ranges. -/
def holds (ranges : CodePoints) (c : Char) : Bool := search ranges c.toNat 16 0 ranges.size

end CodePoints

end Bindery
