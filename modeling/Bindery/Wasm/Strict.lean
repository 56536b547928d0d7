/-
Reading with the limits of the format enforced. An index has to fit into 32 bits, the
octets of a signed number may not say more than the number holds, a vector has no more
elements than there are octets left, and a value type is one of seven.
-/
import Bindery.Wasm.Module

namespace Bindery.Wasm

namespace ValType

def v128 : ValType := ⟨0x7B⟩
def funcref : ValType := ⟨0x70⟩
def externref : ValType := ⟨0x6F⟩

/-- The types of values: four of numbers, one of vectors, two of references. -/
def all : List ValType := [i32, i64, f32, f64, v128, funcref, externref]

def isReference (t : ValType) : Bool := t == funcref || t == externref

end ValType

/-- What stands at the front of a block: no type, the type of its one result, or the index
of a signature. -/
inductive BlockType where
  | empty
  | result (t : ValType)
  | signature (index : Nat)
  deriving DecidableEq, Repr

namespace Read

/-- Refuses a module that breaks a rule of the format. -/
def require (holds : Bool) : Read Unit := if holds then pure () else throw (.other (utf8 "invalid module"))

/-- What a reading step gives, and how many octets it took. -/
def measured {α : Type} (step : Read α) : Read (α × Nat) := do
  let before ← position
  let a ← step
  return (a, (← position) - before)

/-- An unsigned number that fits into 32 bits. -/
def index : Read Nat := do
  let n ← groups 5
  require (n < 0x100000000)
  return n

/-- An octet that can only be zero. -/
def zero : Read Unit := do require ((← byte) == 0)

/-- `n` elements one after the other. -/
def repeated {α : Type} (each : Read α) : Nat → Read (List α)
  | 0 => return []
  | n + 1 => do
    let a ← each
    return a :: (← repeated each n)

/-- Elements behind their number. There cannot be more of them than there are octets. -/
def vector {α : Type} (each : Read α) : Read (List α) := do
  let n ← index
  let c ← get
  require (n ≤ c.remaining)
  repeated each n

/-- The octets of a number: those marked by their high bit and one without the mark, but at
most `n` of them. -/
def octets : Nat → Read Bytes
  | 0 => return []
  | n + 1 => do
    let b ← byte
    if b < 128 then return [b]
    return b :: (← octets n)

/-- Steps over a signed number of at most `most` octets. In the last octet of a number that
takes all of them, the bits of `spare`, the sign and what lies above it, are all equal. -/
def signed (most : Nat) (spare : UInt8) : Read Unit := do
  let s ← octets most
  let last := s.getLastD 0
  require (last < 128)
  require (s.length < most || last &&& spare == 0 || last &&& spare == spare)

/-- Steps over a signed number of 32 bits. -/
def signed32 : Read Unit := signed 5 0x38

/-- Steps over a signed number of 64 bits. -/
def signed64 : Read Unit := signed 10 0x3F

/-- A signed number of 33 bits. A fifth octet ends it, marked or not. -/
def signed33 : Read Int := do
  let s ← octets 5
  let last := s.getLastD 0
  let n : Nat := s.foldr (fun b n => b.toNat % 128 + 128 * n) 0
  if s.length < 5 then
    let unit : Nat := 1 <<< (7 * s.length)
    return if last &&& 0x40 == 0 then (n : Int) else (n : Int) - (unit : Int)
  require (last &&& 0x30 == 0 || last &&& 0x30 == 0x30)
  let n := n % 0x200000000
  return if n < 0x100000000 then (n : Int) else (n : Int) - 0x200000000

/-- The type of a value. -/
def valType : Read ValType := do
  let t : ValType := ⟨← byte⟩
  require (ValType.all.contains t)
  return t

/-- The type of a reference. -/
def refType : Read ValType := do
  let t : ValType := ⟨← byte⟩
  require t.isReference
  return t

/-- Negative numbers are the codes of value types, read as signed octets of seven bits. -/
def blockType : Read BlockType := do
  let n ← signed33
  if n == -64 then return .empty
  if 0 ≤ n then return .signature n.toNat
  require (-64 ≤ n)
  let t : ValType := ⟨UInt8.ofNat (n + 128).toNat⟩
  require (ValType.all.contains t)
  return .result t

end Read

end Bindery.Wasm
