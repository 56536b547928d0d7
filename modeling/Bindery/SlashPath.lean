/-
Slash-separated paths. `clean` gives the shortest path that names the same
place without looking at a file system: doubled slashes and `.` segments go,
a `..` takes the segment before it away, a `..` at the root goes, and the
empty path is `.`.
-/
import Bindery.Bytes

namespace Bindery.SlashPath

/-- The octet that divides segments. -/
def slash : UInt8 := 47

def dot : UInt8 := 46

/-- A path that starts at the root. -/
def isRooted (p : Bytes) : Bool := p.head? == some slash

/-- Reads the segments of a path from left to right; `stack` holds the segments
kept so far, the last one first. -/
def resolve (rooted : Bool) : List Bytes → List Bytes → List Bytes
  | stack, [] => stack.reverse
  | stack, seg :: segs =>
    if seg = [] ∨ seg = [dot] then resolve rooted stack segs
    else if seg = [dot, dot] then
      match stack with
      | [] => if rooted then resolve rooted [] segs else resolve rooted [seg] segs
      | top :: below =>
        if top = [dot, dot] then resolve rooted (seg :: top :: below) segs
        else resolve rooted below segs
    else resolve rooted (seg :: stack) segs

/-- The shortest equivalent path. -/
def clean (p : Bytes) : Bytes :=
  let rooted := isRooted p
  let body := Bytes.join [slash] (resolve rooted [] (p.split slash))
  if rooted then slash :: body else if body.isEmpty then [dot] else body

/-- The parts put together and cleaned; empty parts are left out, and nothing but
empty parts gives the empty path. -/
def join (parts : List Bytes) : Bytes :=
  let parts := parts.filter (fun p => !p.isEmpty)
  if parts.isEmpty then [] else clean (Bytes.join [slash] parts)

/-- The last segment, without slashes behind it: `.` of the empty path and `/` of
a path of slashes only. -/
def base (p : Bytes) : Bytes :=
  if p.isEmpty then [dot]
  else
    let b := ((p.reverse.dropWhile (· == slash)).takeWhile (· != slash)).reverse
    if b.isEmpty then [slash] else b

/-- The end of the last segment from its last dot on, empty when it has none. -/
def ext (p : Bytes) : Bytes :=
  let last := p.afterLast slash
  if last.contains dot then dot :: last.afterLast dot else []

/-- Everything before the last segment, cleaned. -/
def dir (p : Bytes) : Bytes := clean (p.uptoLast slash)

end Bindery.SlashPath
