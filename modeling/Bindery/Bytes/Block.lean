/-
Text set as a block on a terminal: a tab is four blanks, a line ends in one way only, and
the lines of a block of several are equally wide.
-/
import Bindery.Bytes.Columns
import Bindery.Bytes.Utf8

namespace Bindery

namespace Columns

/-- The columns of octets; one that belongs to no character takes one column. -/
def ofBytes (s : Bytes) : Nat :=
  count ((Utf8.units s).map fun
    | .char c => c
    | .stray _ => '?')

end Columns

namespace Bytes

/-- The line with blanks behind it up to a width. -/
def padTo (width : Nat) (line : Bytes) : Bytes :=
  line ++ List.replicate (width - Columns.ofBytes line) 32

/-- The text as a block. -/
def block (s : Bytes) : Bytes :=
  let lines := ((s.replaceAll (utf8 "\t") (utf8 "    ")).replaceAll (utf8 "\r\n") (utf8 "\n")).split 10
  let width := lines.foldl (fun w l => max w (Columns.ofBytes l)) 0
  match lines with
  | [l] => l
  | ls => join (utf8 "\n") (ls.map (padTo width))

end Bytes

end Bindery
