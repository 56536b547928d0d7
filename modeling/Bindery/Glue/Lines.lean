/-
Source text as a list of lines, put together from the inside out: a block is
indented as a whole when it is placed inside another. Empty lines stay empty.
-/
import Bindery.Bytes

namespace Bindery.Glue

/-- A line of source, with its indentation and without its line feed. -/
abbrev Line := Bytes

/-- Lines known in advance. -/
def fixed (ls : List String) : List Line := ls.map utf8

/-- A block moved in by one unit. -/
def indent (unit : Bytes) (ls : List Line) : List Line :=
  ls.map fun l => if l.isEmpty then l else unit ++ l

/-- The text of some lines. -/
def unlines (ls : List Line) : Bytes := ls.flatMap Bytes.line

theorem unlines_cons (l : Line) (ls : List Line) : unlines (l :: ls) = l ++ 10 :: unlines ls := by
  simp [unlines, Bytes.line]

end Bindery.Glue
