/-
Patterns for paths: `*` stands for any run of characters of a segment, `?` for any one
character, `[a-z]` for one of a class and `[^a-z]` for one outside it; a backslash takes
the next character as it is. `Glob.expand` finds what a pattern matches in a file tree,
directories included, segment by segment in byte order.
-/
import Bindery.Bytes.Utf8
import Bindery.FileTree

namespace Bindery.Glob

/-- A part of a pattern. -/
inductive Part where
  | anyRun
  | anyOne
  | oneOf (negated : Bool) (ranges : List (Char × Char))
  | exactly (c : Char)
  deriving DecidableEq, Repr

/-- The characters of a text; a stray octet counts as the replacement character. -/
def chars (s : Bytes) : List Char :=
  (Utf8.units s).map fun
    | .char c => c
    | .stray _ => Char.ofNat 0xFFFD

/-- One character inside a class, which cannot end the pattern. -/
def classChar : List Char → Option (Char × List Char)
  | '-' :: _ => none
  | ']' :: _ => none
  | '\\' :: c :: d :: s => some (c, d :: s)
  | c :: d :: s => if c = '\\' then none else some (c, d :: s)
  | _ => none

/-- The ranges of a class up to its closing bracket; `more` says that there is one
already. -/
def classRanges : Nat → Bool → List Char → Option (List (Char × Char) × List Char)
  | 0, _, _ => none
  | fuel + 1, more, s =>
    match more, s with
    | true, ']' :: s => some ([], s)
    | _, s => do
      let (lo, s) ← classChar s
      match s with
      | '-' :: s => do
        let (hi, s) ← classChar s
        let (rs, s) ← classRanges fuel true s
        return ((lo, hi) :: rs, s)
      | s => do
        let (rs, s) ← classRanges fuel true s
        return ((lo, lo) :: rs, s)

/-- The parts of a pattern, nothing when a class is not closed or a backslash stands
last. -/
def parseWithin : Nat → List Char → Option (List Part)
  | _, [] => some []
  | 0, _ => none
  | fuel + 1, c :: s =>
    match c, s with
    | '*', s => (parseWithin fuel s).map (.anyRun :: ·)
    | '?', s => (parseWithin fuel s).map (.anyOne :: ·)
    | '\\', c :: s => (parseWithin fuel s).map (.exactly c :: ·)
    | '\\', [] => none
    | '[', s => do
      let (negated, s) := match s with
        | '^' :: s => (true, s)
        | s => (false, s)
      let (ranges, s) ← classRanges (s.length + 1) false s
      return .oneOf negated ranges :: (← parseWithin fuel s)
    | c, s => (parseWithin fuel s).map (.exactly c :: ·)

/-- The parts of a pattern. -/
def parse (pattern : Bytes) : Option (List Part) :=
  let cs := chars pattern
  parseWithin cs.length cs

/-- A text and all its ends, down to the empty one. -/
def ends : List Char → List (List Char)
  | [] => [[]]
  | c :: s => (c :: s) :: ends s

/-- A segment matches the parts of a pattern. -/
def fits : List Part → List Char → Bool
  | [], s => s.isEmpty
  | .anyRun :: ps, s => (ends s).any fun t => fits ps t
  | .anyOne :: ps, _ :: s => fits ps s
  | .oneOf negated ranges :: ps, c :: s =>
    (ranges.any fun r => r.1.val ≤ c.val && c.val ≤ r.2.val) != negated && fits ps s
  | .exactly p :: ps, c :: s => p == c && fits ps s
  | _ :: _, [] => false

/-- The names directly below a directory of a tree, ascending. -/
def children (t : FileTree) (dir : Bytes) : List Bytes :=
  let under := if dir.isEmpty then [] else dir ++ [SlashPath.slash]
  Table.distinct <| t.paths.filterMap fun p =>
    if under.isPrefixOf p && under.length < p.length then
      some ((p.drop under.length).takeWhile (· != SlashPath.slash))
    else none

/-- Follows the segments of a pattern down from some directories. -/
def descend (t : FileTree) : List (List Part) → List Bytes → List Bytes
  | [], found => found
  | seg :: segs, found =>
    descend t segs <| found.flatMap fun dir =>
      ((children t dir).filter fun n => fits seg (chars n)).map fun n =>
        if dir.isEmpty then n else dir ++ [SlashPath.slash] ++ n

/-- What a pattern matches, nothing for a malformed pattern. -/
def expand (t : FileTree) (pattern : Bytes) : Option (List Bytes) := do
  discard (parse pattern)
  return descend t (← (pattern.split SlashPath.slash).mapM parse) [[]]

end Bindery.Glob
