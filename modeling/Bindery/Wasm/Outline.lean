/-
The outline of a module: the core functions it exports and imports, with their
signatures. Only octets that are a module, with sections that can be read to their ends
and agree with one another, have an outline.
-/
import Bindery.Wasm.Validity

namespace Bindery.Wasm

/-- The functions on the outside of a module, ascending, each as `name(params) -> (results)`. -/
structure Outline where
  exports : List Bytes
  imports : List Bytes
  deriving DecidableEq, Repr

namespace Sections

/-- The name of a value type; vectors and function references have none. -/
def typeName (t : ValType) : Bytes := if t = .externref then utf8 "externref" else t.name

/-- The signature of the function of an index. -/
def signature (s : Sections) (typeIdx : Nat) : Bytes :=
  let names (ts : List ValType) := Bytes.join (utf8 ", ") (ts.map typeName)
  let t := s.types.getD typeIdx {}
  utf8 "(" ++ names t.params ++ utf8 ") -> (" ++ names t.results ++ utf8 ")"

def outline (s : Sections) : Outline where
  exports := Table.sorted <| (s.exports.filter (·.kind == 0)).map fun e =>
    e.name ++ s.signature (s.functions.getD e.idx.toNat 0)
  imports := Table.sorted <| s.imports.filterMap fun i =>
    match i.desc with
    | .func t => some (i.module ++ utf8 "." ++ i.name ++ s.signature t)
    | _ => none

end Sections

/-- The outline of a module, nothing when the octets are not one. -/
def outline? (data : Bytes) : Option Outline :=
  match (do Read.header; Read.allSections data.length {}) (Cursor.ofBytes data) with
  | .ok s _ => if s.agree then some s.outline else none
  | .error .. => none

end Bindery.Wasm
