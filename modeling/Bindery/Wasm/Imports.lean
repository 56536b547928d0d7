/-
The imports of a module. `Module.imports` walks over the sections of a module, which
it steps across by their declared sizes, as far as the first import section; what
stands behind that section is never looked at.
-/
import Bindery.Table
import Bindery.Wasm.Cursor

namespace Bindery.Wasm

/-- What an import or an export is. -/
inductive ExternKind where
  | func
  | table
  | memory
  | global
  | tag
  deriving DecidableEq, Repr

namespace ExternKind

def code : ExternKind → UInt8
  | .func => 0
  | .table => 1
  | .memory => 2
  | .global => 3
  | .tag => 4

def ofCode? (b : UInt8) : Option ExternKind :=
  if b = 0 then some .func
  else if b = 1 then some .table
  else if b = 2 then some .memory
  else if b = 3 then some .global
  else if b = 4 then some .tag
  else none

end ExternKind

/-- Something a module asks its host for. -/
structure Import where
  /-- the host namespace -/
  module : Bytes
  name : Bytes
  kind : ExternKind := .func
  /-- the signature of a function, zero for anything else -/
  typeIdx : UInt32 := 0
  deriving DecidableEq, Repr

namespace Read

/-- The limits of a table or a memory: flags, a minimum and, when flag 1 is set, a
maximum; both are 64-bit numbers when flag 4 is set. -/
def limits : Read Unit := do
  let flags ← byte
  let bound : Read Unit := if flags &&& 4 != 0 then discard u64 else discard u32
  bound
  if flags &&& 1 != 0 then bound

/-- A value or reference type; the two reference forms 0x63 and 0x64 carry a heap type. -/
def valueType : Read Unit := do
  let b ← byte
  if b == 0x63 || b == 0x64 then discard u64

/-- What follows the names and the kind of an import: the signature index of a
function, and zero after stepping over any other description. -/
def description : ExternKind → Read UInt32
  | .func => u32
  | .table => do valueType; limits; return 0
  | .memory => do limits; return 0
  | .global => do valueType; discard byte; return 0
  | .tag => do discard byte; discard u32; return 0

/-- One import. -/
def import1 : Read Import := do
  let module ← name
  let name ← name
  let code ← byte
  match ExternKind.ofCode? code with
  | none => throw (.unknownImportKind code)
  | some kind => return { module, name, kind, typeIdx := ← description kind }

/-- As many imports as said. -/
def importList : Nat → Read (List Import)
  | 0 => return []
  | n + 1 => do
    let i ← import1
    return i :: (← importList n)

/-- The body of an import section; octets behind the last import are not looked at. -/
def importSection : Read (List Import) := do importList (← u32).toNat

/-- The imports of the first import section, reading section by section. Every
section takes at least two octets, so the number of octets ahead bounds the walk. -/
def sections : Nat → Read (List Import)
  | 0 => return []
  | fuel + 1 => fun c =>
    if c.rest.isEmpty then .ok [] c
    else (do
      let id ← byte
      let size ← part (utf8 "section size") u32
      if id = 2 then
        let body ← part (utf8 "section data") (take size.toNat)
        match importSection (Cursor.ofBytes body) with
        | .ok is _ => return is
        | .error f _ => throw (.inImportSection f)
      else
        part (utf8 "section data") (skip size.toNat)
        sections fuel : Read (List Import)) c

/-- The eight octets every module starts with. -/
def header : Read Unit := do
  if (← part (utf8 "header") word) != 0x6D736100 then throw .badMagic
  if (← part (utf8 "header") word) != 1 then throw .badVersion

end Read

/-- The imports of a module's first import section, none when it has no such section. -/
def imports (data : Bytes) : Except Fault (List Import) :=
  match (do Read.header; Read.sections data.length) (Cursor.ofBytes data) with
  | .ok is _ => .ok is
  | .error f _ => .error f

/-- The distinct host namespaces a module imports from, ascending. -/
def importModules (data : Bytes) : Except Fault (List Bytes) :=
  (imports data).map fun is => Table.distinct (is.map (·.module))

end Bindery.Wasm
