/-
The sections of a module, read from front to back. A section says its size in front and
has to end there. Sections may come in any order, and of two with the same meaning the
later one counts; only the start and the names may not be said twice.
-/
import Bindery.Wasm.Typing

namespace Bindery.Wasm

/-- What a module asks its host for under a name. -/
inductive ImportDesc where
  | func (signature : Nat)
  | table (elements : ValType)
  | memory
  | global (t : GlobalType)
  deriving DecidableEq, Repr

structure HostItem where
  module : Bytes
  name : Bytes
  desc : ImportDesc
  deriving DecidableEq, Repr

structure Global where
  type : GlobalType
  init : ConstExpr
  deriving DecidableEq, Repr

/-- References for a table. -/
structure ElementSegment where
  type : ValType
  items : List ConstExpr
  /-- the table and the place in it that the references go to by themselves -/
  target : Option (Nat × ConstExpr) := none
  deriving DecidableEq, Repr

/-- The local variables of a function, in runs of one type, and its code. -/
structure Body where
  locals : List (Nat × ValType)
  code : Bytes
  deriving DecidableEq, Repr

/-- The sections of a module. -/
structure Sections where
  types : List FuncType := []
  imports : List HostItem := []
  /-- the signature of each function of the module's own -/
  funcs : List Nat := []
  /-- the element type of each table of the module's own -/
  tables : List ValType := []
  memories : Nat := 0
  globals : List Global := []
  exports : List Export := []
  start : Option Nat := none
  elements : List ElementSegment := []
  bodies : List Body := []
  /-- the place in memory of each data segment, for one that goes there by itself -/
  data : List (Option ConstExpr) := []
  /-- the number of data segments, announced ahead of the code -/
  dataCount : Option Nat := none
  /-- the module says names of its parts -/
  named : Bool := false
  deriving Repr

/-- The most pages a memory may have. -/
def maxPages : Nat := 65536

/-- The bound on the elements of a table and on the functions they refer to. -/
def maxElements : Nat := 0x8000000

namespace Read

def funcType : Read FuncType := do
  require ((← byte) == 0x60)
  return { params := ← vector valType, results := ← vector valType }

/-- A minimum and perhaps a maximum; nothing here can be shared between threads. -/
def bounds : Read (Nat × Option Nat) := do
  let flags ← byte
  require (flags ≤ 1)
  let least ← index
  if flags = 1 then return (least, some (← index))
  return (least, none)

/-- A table, known by the type of its elements. -/
def table : Read ValType := do
  let t : ValType := ⟨← byte⟩
  let (least, most) ← bounds
  require (least ≤ maxElements && most.all (least ≤ ·))
  return t

def memory : Read Unit := do
  let (least, most) ← bounds
  require (least ≤ maxPages && most.all fun m => m ≤ maxPages && least ≤ m)

def globalType : Read GlobalType := do
  let type ← valType
  let flag ← byte
  require (flag ≤ 1)
  return { type, mutable := flag == 1 }

def hostItem : Read HostItem := do
  let module ← name
  let name ← name
  match (← byte).toNat with
  | 0 => return { module, name, desc := .func (← index) }
  | 1 => return { module, name, desc := .table (← table) }
  | 2 => do memory; return { module, name, desc := .memory }
  | 3 => return { module, name, desc := .global (← globalType) }
  | _ => do
    require false
    return { module, name, desc := .memory }

def global : Read Global := do
  let type ← globalType
  return { type, init := ← constExpr }

def export1 : Read Export := do
  let name ← name
  let kind ← byte
  require (kind ≤ 3)
  return { name, kind, idx := UInt32.ofNat (← index) }

/-- A reference to a function, as an element. -/
def elementFunc : Read ConstExpr := do
  let i ← index
  require (i < maxElements)
  return .func i

/-- An element of a type, as an expression. -/
def elementExpr (type : ValType) : Read ConstExpr := do
  let e ← constExpr
  match e with
  | .func i => require (type == .funcref && i < maxElements)
  | .null t => require (t == type)
  | .global _ => pure ()
  | .value _ => require false
  return e

/-- An element segment. Of the three bits in front, the first says that the segment does not go
to a table by itself, or else the second that the table is told, and the third that the elements
are expressions. The kind of elements is told unless table and kind are left out together. -/
def elementSegment : Read ElementSegment := do
  let form ← index
  require (form ≤ 7)
  let target : Option (Nat × ConstExpr) ←
    if form % 2 == 0 then do
      let table ← if form / 2 % 2 == 1 then index else pure 0
      pure (some (table, ← constExpr))
    else pure none
  if form / 4 == 0 then
    if form % 4 != 0 then zero
    return { type := .funcref, items := ← vector elementFunc, target }
  let type ← if form % 4 != 0 then refType else pure .funcref
  return { type, items := ← vector (elementExpr type), target }

/-- A run of local variables of one type. -/
def localRun : Read (Nat × ValType) := do
  let n ← index
  return (n, ← valType)

/-- The body of a function; its code has the end mark last. -/
def body : Read Body := do
  let size ← index
  let block ← take size
  match vector localRun (Cursor.ofBytes block) with
  | .ok locals c => do
    require (locals.foldl (fun n run => n + run.1) 0 < 0x100000000)
    require (c.rest.getLast? == some 0x0B)
    return { locals, code := c.rest }
  | .error f _ => throw f

/-- A data segment, known by the place it goes to. -/
def dataSegment : Read (Option ConstExpr) := do
  let form ← index
  require (form ≤ 2)
  if form == 2 then require ((← index) == 0)
  let place : Option ConstExpr ← if form == 1 then pure none else do pure (some (← constExpr))
  discard (take (← index))
  return place

/-- The announced number of data segments; none is announced when the module ends before it. -/
def dataCount : Read Nat := fun c =>
  match index c with
  | .error .endOfInput c => .ok 0 c
  | r => r

/-- A number and a name. -/
def numbered : Read Unit := do
  discard index
  discard name

/-- The names of a module and its parts, in blocks that say their kinds and sizes. `left` is what
the sizes leave of the section, as a machine word; the end of the module ends the names too. -/
def names : Nat → UInt64 → Read Unit
  | 0, _ => pure ()
  | fuel + 1, left => do
    let c ← get
    if left == 0 || c.rest.isEmpty then return
    let kind ← byte
    let (size, taken) ← measured index
    match kind.toNat with
    | 0 => discard name
    | 1 => discard (vector numbered)
    | 2 => discard (vector do discard index; discard (vector numbered))
    | _ => skip size
    names fuel (left - 1 - UInt64.ofNat taken - UInt64.ofNat size)

/-- A section of no meaning to the machine: a name, and anything behind it. There has to be
something behind the name, if only the next section, unless the section says names. -/
def customSection (s : Sections) (size : Nat) : Read Sections := do
  let (title, taken) ← measured name
  require (taken ≤ size)
  let c ← get
  if title == utf8 "name" then
    require !s.named
    names (c.remaining + 1) (UInt64.ofNat (size - taken))
    return { s with named := true }
  require !c.rest.isEmpty
  skip (min (size - taken) c.remaining)
  return s

/-- The content of a section. -/
def section1 (s : Sections) (id : UInt8) (size : Nat) : Read Sections := do
  match id.toNat with
  | 0 => customSection s size
  | 1 => return { s with types := ← vector funcType }
  | 2 => return { s with imports := ← vector hostItem }
  | 3 => return { s with funcs := ← vector index }
  | 4 => return { s with tables := ← vector table }
  | 5 => do
    let memories := (← vector memory).length
    require (memories ≤ 1)
    return { s with memories }
  | 6 => return { s with globals := ← vector global }
  | 7 => do
    let exports ← vector export1
    require (exports.map (·.name)).Nodup
    return { s with exports }
  | 8 => do
    require s.start.isNone
    return { s with start := some (← index) }
  | 9 => return { s with elements := ← vector elementSegment }
  | 10 => return { s with bodies := ← vector body }
  | 11 => return { s with data := ← vector dataSegment }
  | 12 => return { s with dataCount := some (← dataCount) }
  | _ => do
    require false
    return s

/-- All sections. Every section takes at least two octets, so the number of octets ahead
bounds the walk. -/
def allSections : Nat → Sections → Read Sections
  | 0, s => return s
  | fuel + 1, s => do
    let c ← get
    if c.rest.isEmpty then return s
    let id ← byte
    let size ← index
    let (s, taken) ← measured (section1 s id size)
    require (taken == size)
    allSections fuel s

end Read

end Bindery.Wasm
