/-
Whether the sections of a module agree with one another: indices are in range, constant
expressions have the types they are used at, exports have names of their own, and the code
of every function fits its signature.
-/
import Bindery.Wasm.Sections

namespace Bindery.Wasm.Sections

/-- The signature index of every function, imported ones first. -/
def functions (s : Sections) : List Nat :=
  s.imports.filterMap (fun i => match i.desc with | .func t => some t | _ => none) ++ s.funcs

/-- The element type of every table, imported ones first. -/
def tableTypes (s : Sections) : List ValType :=
  s.imports.filterMap (fun i => match i.desc with | .table t => some t | _ => none) ++ s.tables

def importedMemories (s : Sections) : Nat := s.imports.countP (·.desc == .memory)

def importedGlobals (s : Sections) : List GlobalType :=
  s.imports.filterMap fun i => match i.desc with | .global t => some t | _ => none

def hasMemory (s : Sections) : Bool := 0 < s.importedMemories + s.memories

def globalCount (s : Sections) : Nat := s.importedGlobals.length + s.globals.length

/-- The type of a constant expression. It can use imported globals and the first `funcs`
functions. -/
def typeOf? (s : Sections) (funcs : Nat) : ConstExpr → Option ValType
  | .value t => some t
  | .null t => some t
  | .func i => if i < funcs then some .funcref else none
  | .global i => s.importedGlobals[i]?.map (·.type)

def importFits (s : Sections) (i : HostItem) : Bool :=
  !i.module.isEmpty &&
    match i.desc with
    | .func t => t < s.types.length
    | _ => true

def exportFits (s : Sections) (e : Export) : Bool :=
  let i := e.idx.toNat
  match e.kind.toNat with
  | 0 => i < s.functions.length
  | 1 => i < s.tableTypes.length
  | 2 => i == 0 && s.hasMemory
  | _ => i < s.globalCount

def globalFits (s : Sections) (g : Global) : Bool :=
  s.typeOf? s.functions.length g.init == some g.type.type

/-- The function that starts the module exists and has neither parameters nor results. -/
def startFits (s : Sections) : Bool :=
  s.start.all fun i => (s.functions[i]?.bind (s.types[·]?)) == some {}

/-- An element names a function or a global that is there. -/
def elementFits (s : Sections) : ConstExpr → Bool
  | .func i => i < s.functions.length
  | .global i => i < s.globalCount
  | _ => true

/-- The place of a segment in a table is a constant or an imported global. -/
def placeFits (s : Sections) : ConstExpr → Bool
  | .value t => t == .i32
  | .global i => s.importedGlobals[i]?.any (·.type == .i32)
  | _ => false

def segmentFits (s : Sections) (e : ElementSegment) : Bool :=
  e.items.all s.elementFits
    && e.target.all fun (i, place) => s.tableTypes[i]? == some e.type && s.placeFits place

def dataFits (s : Sections) (place : Option ConstExpr) : Bool :=
  place.all fun e => s.hasMemory && s.typeOf? 0 e == some .i32

/-- The functions that are mentioned outside the code: exported, kept in a global or in an element
segment. -/
def mentioned (s : Sections) : List Nat :=
  let funcOf : ConstExpr → Option Nat
    | .func i => some i
    | _ => none
  (s.exports.filter (·.kind == 0)).map (·.idx.toNat)
    ++ s.globals.filterMap (fun g => funcOf g.init)
    ++ s.elements.flatMap fun e => e.items.filterMap funcOf

/-- What the code of the module can name. -/
def context (s : Sections) : Context where
  types := s.types.toArray
  funcs := (s.functions.map (s.types.getD · {})).toArray
  tables := s.tableTypes.toArray
  memory := s.hasMemory
  globals := (s.importedGlobals ++ s.globals.map (·.type)).toArray
  elements := (s.elements.map (·.type)).toArray
  dataSegments := s.dataCount
  mentioned := s.mentioned

/-- The code of a function can be read to its end and fits the signature. -/
def bodyFits (ctx : Context) (t : FuncType) (b : Body) : Bool :=
  match Read.instructions b.code.length (Cursor.ofBytes b.code) with
  | .ok code _ => ctx.accepts t b.locals code
  | .error .. => false

/-- Every function has a signature and a body that fits it. -/
def bodiesFit (s : Sections) : Bool :=
  let ctx := s.context
  s.funcs.length == s.bodies.length && (s.funcs.zip s.bodies).all fun (f, b) =>
    s.types[f]?.any fun t => bodyFits ctx t b

/-- The sections agree with one another. -/
def agree (s : Sections) : Bool :=
  s.imports.all s.importFits
    && s.importedMemories + s.memories ≤ 1
    && s.exports.all s.exportFits
    && s.globals.all s.globalFits
    && s.startFits
    && s.elements.all s.segmentFits
    && s.data.all s.dataFits
    && s.dataCount.all (· == s.data.length)
    && s.bodiesFit

end Bindery.Wasm.Sections
