/-
Values as core numbers. Small values cross the boundary as a list of core numbers;
`flat` gives their types, and `Signature` applies the limits above which parameters
or results travel through memory instead.
-/
import Bindery.Canonical.Layout

namespace Bindery

/-- The type of a core number. -/
inductive CoreType where
  | i32
  | i64
  | f32
  | f64
  deriving DecidableEq, Repr, Inhabited

namespace CoreType

def word : CoreType → Bytes
  | .i32 => utf8 "i32"
  | .i64 => utf8 "i64"
  | .f32 => utf8 "f32"
  | .f64 => utf8 "f64"

/-- A type that can hold the bits of both: 32-bit types share a word, anything else
needs 64 bits. -/
def join (a b : CoreType) : CoreType :=
  if a = b then a
  else if (a = .i32 ∧ b = .f32) ∨ (a = .f32 ∧ b = .i32) then .i32
  else .i64

/-- Two payloads laid over each other, slot by slot. -/
def overlay : List CoreType → List CoreType → List CoreType
  | [], bs => bs
  | as, [] => as
  | a :: as, b :: bs => join a b :: overlay as bs

/-- All payloads of a variant laid over each other. -/
def overlayAll (payloads : List (List CoreType)) : List CoreType := payloads.foldl overlay []

def ofPrim : Prim → CoreType
  | .bool | .u8 | .s8 | .u16 | .s16 | .u32 | .s32 | .char => .i32
  | .u64 | .s64 => .i64
  | .f32 => .f32
  | .f64 => .f64

end CoreType

namespace Shape

mutual

/-- The core numbers of a value. -/
def flat : Shape → List CoreType
  | .blank => []
  | .prim p => [.ofPrim p]
  | .string => [.i32, .i32]
  | .errorContext => [.i32]
  | .alias _ t => t.flat
  | .record _ fs => (namedFlats fs).flatten
  | .enum _ _ => [.i32]
  | .flags _ fs => if fs.length > 32 then [.i64] else [.i32]
  | .variant _ cs => .i32 :: CoreType.overlayAll (namedFlats cs)
  | .list _ => [.i32, .i32]
  | .option t => .i32 :: t.flat
  | .result ok err => .i32 :: CoreType.overlayAll [ok.flat, err.flat]
  | .tuple ts => (flats ts).flatten

/-- The core numbers of each field or case payload. -/
def namedFlats : List (Bytes × Shape) → List (List CoreType)
  | [] => []
  | (_, t) :: fs => t.flat :: namedFlats fs

def flats : List Shape → List (List CoreType)
  | [] => []
  | t :: ts => t.flat :: flats ts

end

end Shape

/-- Which side of the boundary a function is implemented on. -/
inductive Direction where
  /-- by the module, called by the host -/
  | exported
  /-- by the host, called by the module -/
  | imported
  deriving DecidableEq, Repr

/-- The core signature of a function. -/
structure Signature where
  params : List CoreType
  results : List CoreType
  /-- parameters travel through memory -/
  indirectParams : Bool
  /-- results travel through memory: an exported function returns a pointer to them,
  an imported one is given a pointer as its last parameter -/
  indirectResults : Bool
  deriving DecidableEq, Repr, Inhabited

namespace Signature

/-- The most core parameters that are passed directly. -/
def maxParams : Nat := 16

/-- The most core results that are passed directly. -/
def maxResults : Nat := 1

end Signature

/-- The core signature of a function in a direction. -/
def ShapedFunc.signature (f : ShapedFunc) (dir : Direction) : Signature :=
  let params := (Shape.namedFlats f.params).flatten
  let results := (Shape.namedFlats f.results).flatten
  let indirectParams := params.length > Signature.maxParams
  let indirectResults := results.length > Signature.maxResults
  let params := if indirectParams then [.i32] else params
  if indirectResults then
    match dir with
    | .exported => { params, results := [.i32], indirectParams, indirectResults }
    | .imported => { params := params ++ [.i32], results := [], indirectParams, indirectResults }
  else { params, results, indirectParams, indirectResults }

end Bindery
