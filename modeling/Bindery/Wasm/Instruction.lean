/-
The instructions of a function, as far as it matters for whether the function fits
together: an instruction that only takes and leaves operands is its signature, any other
says what of the module it names.
-/
import Bindery.Wasm.Operator

namespace Bindery.Wasm

inductive Instruction where
  | unreachable
  | nop
  | block (t : BlockType)
  | loop (t : BlockType)
  | cond (t : BlockType)
  | otherwise
  | finish
  | branch (label : Nat)
  | branchIf (label : Nat)
  /-- the last label is the one taken when no other is -/
  | branchTable (labels : List Nat) (last : Nat)
  | giveBack
  | call (func : Nat)
  | callIndirect (signature table : Nat)
  | drop
  /-- the choice between two operands, of any type when it is annotated with one -/
  | select (annotated : Bool)
  | localGet (idx : Nat)
  | localSet (idx : Nat)
  | localTee (idx : Nat)
  | globalGet (idx : Nat)
  | globalSet (idx : Nat)
  | tableGet (idx : Nat)
  | tableSet (idx : Nat)
  | tableGrow (idx : Nat)
  | tableSize (idx : Nat)
  | tableFill (idx : Nat)
  | tableCopy (target source : Nat)
  | tableInit (segment table : Nat)
  | elementDrop (segment : Nat)
  | memoryInit (segment : Nat)
  | dataDrop (segment : Nat)
  /-- an operator that needs a memory -/
  | access (t : FuncType)
  /-- an operator that needs nothing but its operands -/
  | operator (t : FuncType)
  | refIsNull
  | refFunc (func : Nat)
  deriving DecidableEq, Repr

/-- An expression known before the module runs: a constant, a reference or a global. -/
inductive ConstExpr where
  | value (t : ValType)
  | null (t : ValType)
  | func (idx : Nat)
  | global (idx : Nat)
  deriving DecidableEq, Repr

namespace Read

/-- The alignment and the offset of an access. The alignment is an exponent of two; it is at most
the width, but one from `wrap` on leaves a word without a bit and passes for none. -/
def memoryArgument (width wrap : Nat) : Read Unit := do
  let exponent ← index
  require (wrap ≤ exponent || 1 <<< min exponent 5 ≤ width)
  discard index

/-- A lane of a vector whose lanes have the width. -/
def lane (width : Nat) : Read Unit := do require ((← byte).toNat * width < 16)

/-- The type of one operand, alone in its list. -/
def choiceType : Read Unit := do
  require ((← byte) == 1)
  discard valType

/-- What follows the octet in front of the operators on vectors. -/
def vectorInstruction : Read Instruction := do
  let code := (← byte).toNat
  if code == 0x0C then
    discard (repeated byte 16)
    return .operator ⟨[], [.v128]⟩
  if code == 0x0D then
    let chosen ← repeated byte 16
    require (chosen.all (· < 32))
    return .operator (Operator.binary .v128 .v128)
  if code == 0x0B then
    memoryArgument 16 63
    return .access ⟨[.i32, .v128], []⟩
  if let some a := Operator.Access.find? Operator.vectorLoads code then
    memoryArgument a.width 32
    return .access a.signature
  if let some a := Operator.Access.find? Operator.laneAccesses code then
    memoryArgument a.width 32
    lane a.width
    return .access a.signature
  if let some a := Operator.Access.find? Operator.lanes code then
    lane a.width
    return .operator a.signature
  match Operator.lookup Operator.vectors code with
  | some t => return .operator t
  | none => do
    require false
    return .nop

/-- What follows the octet in front of the operators on blocks of memory and tables. -/
def bulkInstruction : Read Instruction := do
  let code ← index
  let block : FuncType := ⟨[.i32, .i32, .i32], []⟩
  match code with
  | 8 => do let i ← index; zero; return .memoryInit i
  | 9 => return .dataDrop (← index)
  | 10 => do zero; zero; return .access block
  | 11 => do zero; return .access block
  | 12 => do let i ← index; return .tableInit i (← index)
  | 13 => return .elementDrop (← index)
  | 14 => do let i ← index; return .tableCopy i (← index)
  | 15 => return .tableGrow (← index)
  | 16 => return .tableSize (← index)
  | 17 => return .tableFill (← index)
  | _ =>
    match Operator.lookup Operator.saturating code with
    | some t => return .operator t
    | none => do
      require false
      return .nop

/-- An instruction that takes and leaves operands, by its code. -/
def plainInstruction (code : Nat) : Read Instruction := do
  if let some t := Operator.lookup Operator.numeric code then return .operator t
  match Operator.Access.find? Operator.memory code with
  | some a => do
    memoryArgument a.width 63
    return .access a.signature
  | none => do
    require false
    return .nop

/-- One instruction. -/
def instruction : Read Instruction := do
  let code := (← byte).toNat
  match code with
  | 0x00 => return .unreachable
  | 0x01 => return .nop
  | 0x02 => return .block (← blockType)
  | 0x03 => return .loop (← blockType)
  | 0x04 => return .cond (← blockType)
  | 0x05 => return .otherwise
  | 0x0B => return .finish
  | 0x0C => return .branch (← index)
  | 0x0D => return .branchIf (← index)
  | 0x0E => do let labels ← vector index; return .branchTable labels (← index)
  | 0x0F => return .giveBack
  | 0x10 => return .call (← index)
  | 0x11 => do let t ← index; return .callIndirect t (← index)
  | 0x1A => return .drop
  | 0x1B => return .select false
  | 0x1C => do choiceType; return .select true
  | 0x20 => return .localGet (← index)
  | 0x21 => return .localSet (← index)
  | 0x22 => return .localTee (← index)
  | 0x23 => return .globalGet (← index)
  | 0x24 => return .globalSet (← index)
  | 0x25 => return .tableGet (← index)
  | 0x26 => return .tableSet (← index)
  | 0x3F => do zero; return .access ⟨[], [.i32]⟩
  | 0x40 => do zero; return .access ⟨[.i32], [.i32]⟩
  | 0x41 => do signed32; return .operator ⟨[], [.i32]⟩
  | 0x42 => do signed64; return .operator ⟨[], [.i64]⟩
  | 0x43 => do discard (repeated byte 4); return .operator ⟨[], [.f32]⟩
  | 0x44 => do discard (repeated byte 8); return .operator ⟨[], [.f64]⟩
  | 0xD0 => do let t ← refType; return .operator ⟨[], [t]⟩
  | 0xD1 => return .refIsNull
  | 0xD2 => return .refFunc (← index)
  | 0xFC => bulkInstruction
  | 0xFD => vectorInstruction
  | _ => plainInstruction code

/-- Instructions up to the end of the input. Every instruction takes at least one octet, so the
number of octets ahead bounds the walk. -/
def instructions : Nat → Read (List Instruction)
  | 0 => return []
  | fuel + 1 => do
    let c ← get
    if c.rest.isEmpty then return []
    let i ← instruction
    return i :: (← instructions fuel)

/-- The one instruction of a constant expression. -/
def constant : Read ConstExpr := do
  match (← byte).toNat with
  | 0x23 => return .global (← index)
  | 0x41 => do signed32; return .value .i32
  | 0x42 => do signed64; return .value .i64
  | 0x43 => do discard (repeated byte 4); return .value .f32
  | 0x44 => do discard (repeated byte 8); return .value .f64
  | 0xD0 => return .null (← refType)
  | 0xD2 => return .func (← index)
  | 0xFD => do
    require ((← byte) == 0x0C)
    discard (repeated byte 16)
    return .value .v128
  | _ => do
    require false
    return .value .i32

/-- A constant expression with its end mark. -/
def constExpr : Read ConstExpr := do
  let e ← constant
  require ((← byte) == 0x0B)
  return e

end Read

end Bindery.Wasm
