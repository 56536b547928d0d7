/-
Whether the code of a function fits together: every instruction finds operands of the
right types on the stack, what it names is there, blocks are closed, and the function
leaves its results. Behind an instruction that never lets control through, operands are
taken for whatever they need to be.
-/
import Bindery.Wasm.Instruction

namespace Bindery.Wasm

/-- The type of a global and whether it can be set. -/
structure GlobalType where
  type : ValType
  mutable : Bool
  deriving DecidableEq, Repr

/-- What the code of a module can name. -/
structure Context where
  types : Array FuncType := #[]
  funcs : Array FuncType := #[]
  /-- the element type of each table -/
  tables : Array ValType := #[]
  memory : Bool := false
  globals : Array GlobalType := #[]
  /-- the element type of each element segment -/
  elements : Array ValType := #[]
  /-- the number of data segments, when it is announced ahead of the code -/
  dataSegments : Option Nat := none
  /-- functions that the module mentions outside its code -/
  mentioned : List Nat := []
  deriving Repr

/-- The type of an operand, nothing when it may be of any. -/
abbrev Operand := Option ValType

/-- What a block can still become. -/
inductive FrameKind where
  | block
  /-- a branch to a loop starts it again -/
  | loop
  /-- a condition whose other half has not begun -/
  | cond
  deriving DecidableEq, Repr

/-- An open block and the operands in it. -/
structure Frame where
  kind : FrameKind := .block
  type : FuncType := {}
  /-- the top of the stack first -/
  operands : List Operand := []
  /-- control does not reach this point: below the operands stand as many others as needed -/
  bottomless : Bool := false
  deriving DecidableEq, Repr

namespace Frame

/-- The operands that a branch to the frame takes. -/
def label (f : Frame) : List ValType :=
  match f.kind with
  | .loop => f.type.params
  | _ => f.type.results

def pop (f : Frame) : Option (Operand × Frame) :=
  match f.operands with
  | t :: ts => some (t, { f with operands := ts })
  | [] => if f.bottomless then some (none, f) else none

def push (f : Frame) (ts : List ValType) : Frame :=
  { f with operands := ts.reverse.map some ++ f.operands }

/-- An operand can be of a type. -/
def fits (o : Operand) (t : ValType) : Bool := o.all (· == t)

/-- Takes operands off, the one on top first. -/
def takeTop : List ValType → Frame → Option Frame
  | [], f => some f
  | t :: ts, f =>
    match f.pop with
    | some (o, f) => if fits o t then takeTop ts f else none
    | none => none

/-- Takes operands off; the last of the list is on top. -/
def take (f : Frame) (ts : List ValType) : Option Frame := f.takeTop ts.reverse

/-- Takes the parameters and leaves the results. -/
def apply (f : Frame) (t : FuncType) : Option Frame := (f.take t.params).map (·.push t.results)

/-- What an instruction leaves that lets no control through. -/
def stop (f : Frame) : Frame := { f with operands := [], bottomless := true }

/-- The frame can end: it holds its results and nothing else. -/
def done (f : Frame) : Bool := (f.take f.type.results).any (·.operands.isEmpty)

/-- Takes the operands of a label and tells which of them are known: an unknown operand goes
with every type. -/
def takeKnown : List ValType → Frame → Option (List Operand × Frame)
  | [], f => some ([], f)
  | t :: ts, f =>
    match f.pop with
    | some (o, f) =>
      if fits o t then (takeKnown ts f).map fun (os, f) => (o :: os, f) else none
    | none => none

/-- A choice between two operands: of one type, and of no reference type unless said. -/
def select (f : Frame) (references : Bool) : Option Frame := do
  let f ← f.take [.i32]
  let (a, f) ← f.pop
  let (b, f) ← f.pop
  if !references && (a.any ValType.isReference || b.any ValType.isReference) then none
  else if a.isSome && b.isSome && a != b then none
  else some { f with operands := a.or b :: f.operands }

end Frame

namespace Context

/-- The signature of a block. -/
def blockType? (ctx : Context) : BlockType → Option FuncType
  | .empty => some {}
  | .result t => some { results := [t] }
  | .signature i => ctx.types[i]?

/-- The type of a local variable; they come in runs of one type. -/
def localType? : List (Nat × ValType) → Nat → Option ValType
  | [], _ => none
  | (n, t) :: runs, i => if i < n then some t else localType? runs (i - n)

/-- A branch table: every label takes what the last one takes, as far as it is known. -/
def branchTable (frames : List Frame) (f : Frame) (labels : List Nat) (last : Nat) : Option Unit := do
  let f ← f.take [.i32]
  let target ← frames[last]?
  let (known, _) ← f.takeKnown target.label.reverse
  let suits (i : Nat) : Bool := frames[i]?.any fun target =>
    let ts := target.label.reverse
    ts.length == known.length && (known.zip ts).all fun (o, t) => Frame.fits o t
  if labels.all suits then some () else none

/-- What an instruction makes of the innermost frame, for one that opens and closes none. -/
def inner (ctx : Context) (runs : List (Nat × ValType)) (frames : List Frame) (f : Frame) :
    Instruction → Option Frame
  | .unreachable => some f.stop
  | .branch i => do
    let target ← frames[i]?
    discard (f.take target.label)
    return f.stop
  | .branchIf i => do
    let target ← frames[i]?
    (← f.take [.i32]).apply ⟨target.label, target.label⟩
  | .branchTable labels last => do
    branchTable frames f labels last
    return f.stop
  | .giveBack => do
    let outermost ← frames.getLast?
    discard (f.take outermost.type.results)
    return f.stop
  | .call i => do f.apply (← ctx.funcs[i]?)
  | .callIndirect i table => do
    let t ← ctx.types[i]?
    if ctx.tables[table]? == some .funcref then (← f.take [.i32]).apply t else none
  | .drop => f.pop.map (·.2)
  | .select annotated => f.select annotated
  | .localGet i => do return f.push [← localType? runs i]
  | .localSet i => do f.take [← localType? runs i]
  | .localTee i => do
    let t ← localType? runs i
    f.apply ⟨[t], [t]⟩
  | .globalGet i => do return f.push [(← ctx.globals[i]?).type]
  | .globalSet i => do
    let g ← ctx.globals[i]?
    if g.mutable then f.take [g.type] else none
  | .tableGet i => do f.apply ⟨[.i32], [← ctx.tables[i]?]⟩
  | .tableSet i => do f.take [.i32, ← ctx.tables[i]?]
  | .tableGrow i => do f.apply ⟨[← ctx.tables[i]?, .i32], [.i32]⟩
  | .tableSize i => do
    discard ctx.tables[i]?
    return f.push [.i32]
  | .tableFill i => do f.take [.i32, ← ctx.tables[i]?, .i32]
  | .tableCopy i j => do
    if (← ctx.tables[i]?) == (← ctx.tables[j]?) then f.take [.i32, .i32, .i32] else none
  | .tableInit s i => do
    if (← ctx.elements[s]?) == (← ctx.tables[i]?) then f.take [.i32, .i32, .i32] else none
  | .elementDrop s => if s < ctx.elements.size then some f else none
  | .memoryInit s =>
    if ctx.memory && ctx.dataSegments.any (s < ·) then f.take [.i32, .i32, .i32] else none
  | .dataDrop s => if ctx.dataSegments.any (s < ·) then some f else none
  | .access t => if ctx.memory then f.apply t else none
  | .operator t => f.apply t
  | .refIsNull => do
    let (o, f) ← f.pop
    if o.all ValType.isReference then some (f.push [.i32]) else none
  | .refFunc i => if ctx.mentioned.contains i then some (f.push [.funcref]) else none
  | _ => some f

/-- Opens a block: its parameters move into it. -/
def enter (kind : FrameKind) (t : FuncType) (f : Frame) (outer : List Frame) : Option (List Frame) :=
  (f.take t.params).map fun f => Frame.push { kind, type := t } t.params :: f :: outer

/-- What an instruction makes of the open frames, the innermost first. Behind the end of the
function no instruction is left. -/
def step (ctx : Context) (runs : List (Nat × ValType)) : List Frame → Instruction → Option (List Frame)
  | [], _ => none
  | f :: outer, i =>
    match i with
    | .block b => do enter .block (← ctx.blockType? b) f outer
    | .loop b => do enter .loop (← ctx.blockType? b) f outer
    | .cond b => do
      let t ← ctx.blockType? b
      enter .cond t (← f.take [.i32]) outer
    | .otherwise =>
      if f.kind = .cond ∧ f.done then some (Frame.push { type := f.type } f.type.params :: outer) else none
    | .finish =>
      if f.done && (f.kind != .cond || f.type.params == f.type.results) then
        match outer with
        | [] => some []
        | g :: outer => some (g.push f.type.results :: outer)
      else none
    | _ => (ctx.inner runs (f :: outer) f i).map (· :: outer)

/-- The code of a function with the signature and the local variables fits together. -/
def accepts (ctx : Context) (t : FuncType) (locals : List (Nat × ValType)) (code : List Instruction) : Bool :=
  let runs := t.params.map (fun p => (1, p)) ++ locals
  code.foldlM (ctx.step runs) [{ type := t }] == some []

end Context

end Bindery.Wasm
