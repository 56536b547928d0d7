/-
Modules with signatures, function imports, functions, one optional memory and
exports, and their binary form. Every function is given a body that returns
zeros, so that a module can stand in for a compiled one wherever only its outside
matters.
-/
import Bindery.Wasm.Imports

namespace Bindery.Wasm

/-- The type of a core value, by its code in the binary format. -/
structure ValType where
  code : UInt8
  deriving DecidableEq, Repr

namespace ValType

def i32 : ValType := ⟨0x7F⟩
def i64 : ValType := ⟨0x7E⟩
def f32 : ValType := ⟨0x7D⟩
def f64 : ValType := ⟨0x7C⟩

/-- The name of a number type; other types have none. -/
def name (t : ValType) : Bytes :=
  if t = i32 then utf8 "i32"
  else if t = i64 then utf8 "i64"
  else if t = f32 then utf8 "f32"
  else if t = f64 then utf8 "f64"
  else utf8 "unknown"

end ValType

/-- The signature of a function. -/
structure FuncType where
  params : List ValType := []
  results : List ValType := []
  deriving DecidableEq, Repr

/-- Something a module offers; the kind is that of `ExternKind.code`. -/
structure Export where
  name : Bytes
  kind : UInt8 := 0
  idx : UInt32 := 0
  deriving DecidableEq, Repr

structure Module where
  types : List FuncType := []
  imports : List Import := []
  /-- the signature of each function, as an index into `types` -/
  funcs : List UInt32 := []
  /-- least size of the memory in pages -/
  memory : Option UInt32 := none
  exports : List Export := []
  deriving DecidableEq, Repr

namespace Write

/-- At most `n` groups of seven bits, least significant first, all but the last
marked by their high bit. -/
def groups : Nat → Nat → Bytes
  | 0, _ => []
  | n + 1, v => if v < 128 then [v.toUInt8] else (v % 128 + 128).toUInt8 :: groups n (v / 128)

/-- An unsigned 32-bit number in as few groups as it takes. -/
def u32 (v : UInt32) : Bytes := groups 5 v.toNat

/-- A count, kept to 32 bits. -/
def count (n : Nat) : Bytes := u32 (UInt32.ofNat n)

/-- Octets with their number in front. -/
def sized (s : Bytes) : Bytes := count s.length ++ s

/-- A section: its id, its size and its body. -/
def section1 (id : UInt8) (body : Bytes) : Bytes := id :: sized body

/-- Elements with their number in front. -/
def vector {α : Type} (each : α → Bytes) (xs : List α) : Bytes :=
  count xs.length ++ xs.flatMap each

/-- A section of a list of elements, absent when there are none. -/
def listSection {α : Type} (id : UInt8) (each : α → Bytes) (xs : List α) : Bytes :=
  if xs.isEmpty then [] else section1 id (vector each xs)

def funcType (t : FuncType) : Bytes :=
  0x60 :: vector (fun v => [v.code]) t.params ++ vector (fun v => [v.code]) t.results

/-- Imports are written as functions. -/
def import1 (i : Import) : Bytes :=
  sized i.module ++ sized i.name ++ ExternKind.func.code :: u32 i.typeIdx

def export1 (e : Export) : Bytes := sized e.name ++ e.kind :: u32 e.idx

/-- The instruction that pushes a zero of a number type. -/
def zero (t : ValType) : Bytes :=
  if t = .i32 then [0x41, 0]
  else if t = .i64 then [0x42, 0]
  else if t = .f32 then [0x43, 0, 0, 0, 0]
  else if t = .f64 then [0x44, 0, 0, 0, 0, 0, 0, 0, 0]
  else []

/-- A function body without locals that pushes a zero for every result. -/
def zeroBody (results : List ValType) : Bytes := 0 :: results.flatMap zero ++ [0x0B]

end Write

namespace Module

/-- The results of a function of the module; a signature index out of range has none. -/
def resultsOf (m : Module) (typeIdx : UInt32) : List ValType :=
  match m.types[typeIdx.toNat]? with
  | some t => t.results
  | none => []

/-- The memory section: one memory without a maximum. -/
def memorySection : Option UInt32 → Bytes
  | none => []
  | some pages => Write.section1 5 (1 :: 0 :: Write.u32 pages)

/-- The magic number and the version of the format. -/
def header : Bytes := [0x00, 0x61, 0x73, 0x6D, 0x01, 0x00, 0x00, 0x00]

/-- The binary form: sections in increasing order of their ids. -/
def encode (m : Module) : Bytes :=
  header
    ++ Write.listSection 1 Write.funcType m.types
    ++ Write.listSection 2 Write.import1 m.imports
    ++ Write.listSection 3 Write.u32 m.funcs
    ++ memorySection m.memory
    ++ Write.listSection 7 Write.export1 m.exports
    ++ Write.listSection 10 (fun f => Write.sized (Write.zeroBody (m.resultsOf f))) m.funcs

end Module

end Bindery.Wasm
