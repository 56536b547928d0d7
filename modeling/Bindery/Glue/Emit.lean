/-
Which code carries a value of a given type. Four recursions over the type: `lower`
turns a host value into core numbers, `lift` rebuilds it from them, `store` and
`load` do the same through memory.

A type that none of them can carry is reported, and the function that uses it is
generated as a stub.
-/
import Bindery.Glue.Code

namespace Bindery.Glue

/-- Why a function cannot be carried across the boundary. -/
inductive Unsupported where
  /-- a value of this type -/
  | value (type : Bytes)
  /-- a parameter of this type -/
  | parameter (type : Bytes)
  | manyFlags (name : Bytes)
  | emptyVariant (name : Bytes)
  /-- fewer core numbers are left than the type needs -/
  | coreValues (type : Bytes) (count : Nat)
  | manyParams
  /-- a type that contains itself -/
  | endless
  deriving DecidableEq, Repr

/-- The words for a reason. -/
def Unsupported.detail : Unsupported → Bytes
  | .value t => t ++ utf8 " value"
  | .parameter t => t ++ utf8 " parameter"
  | .manyFlags n => utf8 "flags " ++ n ++ utf8 " with more than 32 members"
  | .emptyVariant n => utf8 "empty variant " ++ n
  | .coreValues t n => t ++ utf8 " needs " ++ Bytes.decimal n ++ utf8 " core values"
  | .manyParams =>
    utf8 "more than " ++ Bytes.decimal Signature.maxParams ++ utf8 " flattened parameters"
  | .endless => utf8 "recursive type"

/-- What a stub says when it is called. -/
def Unsupported.message (func : Bytes) (u : Unsupported) : Bytes :=
  func ++ utf8 ": " ++ u.detail ++ utf8 " is not supported by these bindings"

/-- The state of generating one function. -/
structure EmitState where
  /-- the number of the next new name -/
  next : Nat := 0
  /-- the statements queued so far -/
  stmts : List Stmt := []
  deriving Repr

/-- A step of generating code. -/
abbrev Emit := StateT EmitState (Except Unsupported)

namespace Emit

/-- A new name. -/
def fresh (stem : String) : Emit Bytes := fun s =>
  .ok (utf8 stem ++ Bytes.decimal s.next, { s with next := s.next + 1 })

/-- Queues a statement. -/
def queue (stmt : Stmt) : Emit Unit := fun s => .ok ((), { s with stmts := s.stmts ++ [stmt] })

end Emit

open Emit

mutual

/-- Writes a host value into memory. -/
def store : Shape → Expr → Place → Emit Expr
  | .alias _ t, v, p => store t v p
  | .prim k, v, p => return .store (.ofPrim k) p (.lowerPrim k v)
  | .string, v, p => return .storeString p v
  | .record _ fs, v, p => return .steps (← storeFields fs (Layout.offsets (Shape.namedLayouts fs)) v p)
  | .tuple ts, v, p => return .steps (← storeItems ts (Layout.offsets (Shape.layouts ts)) 0 v p)
  | .enum n cs, v, p => return .store (.discriminant cs.length) p (.lowerEnum n cs v)
  | .flags n fs, v, p =>
    if fs.length > 32 then throw (.manyFlags n)
    else return .store (.ofSize (Layout.ofFlags fs.length).size) p (.lowerFlags n v)
  | .list t, v, p => do
    let item ← fresh "e"
    let base ← fresh "base"
    let elem ← store t (.var item) { base }
    return .storeList p v t.layout.size t.layout.align item base elem
  | t, _, _ => throw (.value t.text)

/-- Writes the fields of a record, each at its offset. -/
def storeFields : List (Bytes × Shape) → List UInt32 → Expr → Place → Emit (List Expr)
  | (n, t) :: fs, off :: offs, v, p => do
    let e ← store t (.field v n) (p.plus off)
    return e :: (← storeFields fs offs v p)
  | _, _, _, _ => return []

/-- Writes the items of a tuple from position `i` on, each at its offset. -/
def storeItems : List Shape → List UInt32 → Nat → Expr → Place → Emit (List Expr)
  | t :: ts, off :: offs, i, v, p => do
    let e ← store t (.nth v i) (p.plus off)
    return e :: (← storeItems ts offs (i + 1) v p)
  | _, _, _, _, _ => return []

end

/-- The value whose tag stands at a place, the tags counted from `i`; the last one is
taken without looking. -/
def choose (kind : MemKind) (p : Place) : Nat → List Expr → Expr
  | _, [] => .null
  | _, [e] => e
  | i, e :: es => .whenTag kind p i e (choose kind p (i + 1) es)

mutual

/-- Reads a value from memory. -/
def load : Shape → Place → Emit Expr
  | .alias _ t, p => load t p
  | .prim k, p => return .liftPrim k (.load (.ofPrim k) p)
  | .string, p => return .loadString p
  | .record n fs, p => return .record n (← loadFields fs (Layout.offsets (Shape.namedLayouts fs)) p)
  | .tuple ts, p => return .tuple (← loadItems ts (Layout.offsets (Shape.layouts ts)) p)
  | .enum n cs, p => return .liftEnum n cs (.load (.discriminant cs.length) p)
  | .flags n fs, p =>
    if fs.length > 32 then throw (.manyFlags n)
    else return .liftFlags n (.load (.ofSize (Layout.ofFlags fs.length).size) p)
  | .list t, p => do
    let base ← fresh "base"
    let elem ← load t { base }
    return .loadList p t.layout.size base elem
  | .option t, p => do
    let some ← load t (p.plus (Layout.payloadOffset [.ofBlank, t.layout]))
    return .whenTag (.discriminant 2) p 0 .null some
  | .result ok err, p => do
    let place := p.plus (Layout.payloadOffset [ok.layout, err.layout])
    let okValue ← if ok.isBlank then pure .null else load ok place
    let errValue ← if err.isBlank then pure .null else load err place
    return .whenTag (.discriminant 2) p 0 (.ok okValue) (.err errValue)
  | .variant n cs, p => do
    if cs.isEmpty then throw (.emptyVariant n)
    let values ← loadCases n cs (p.plus (Layout.payloadOffset (Shape.namedLayouts cs)))
    return choose (.discriminant cs.length) p 0 values
  | t, _ => throw (.value t.text)

/-- Reads the fields of a record, each at its offset. -/
def loadFields : List (Bytes × Shape) → List UInt32 → Place → Emit (List (Bytes × Expr))
  | (n, t) :: fs, off :: offs, p => do
    let e ← load t (p.plus off)
    return (n, e) :: (← loadFields fs offs p)
  | _, _, _ => return []

/-- Reads the items of a tuple, each at its offset. -/
def loadItems : List Shape → List UInt32 → Place → Emit (List Expr)
  | t :: ts, off :: offs, p => do
    let e ← load t (p.plus off)
    return e :: (← loadItems ts offs p)
  | _, _, _ => return []

/-- Reads every case of a variant with its payload at one place. -/
def loadCases (type : Bytes) : List (Bytes × Shape) → Place → Emit (List Expr)
  | [], _ => return []
  | (c, t) :: cs, p => do
    let e ← if t.isBlank then pure (.caseOnly type c) else Expr.caseOf type c <$> load t p
    return e :: (← loadCases type cs p)

end

mutual

/-- Turns a host value into core numbers. -/
def lower : Shape → Expr → Emit (List Expr)
  | .alias _ t, v => lower t v
  | .prim k, v => return [.lowerPrim k v]
  | .string, v => do
    let ptr ← fresh "ptr"
    let len ← fresh "len"
    queue (.encodeString ptr len v)
    return [.var ptr, .var len]
  | .record _ fs, v => lowerFields fs v
  | .tuple ts, v => lowerItems ts 0 v
  | .enum n cs, v => return [.lowerEnum n cs v]
  | .flags n fs, v => if fs.length > 32 then throw (.manyFlags n) else return [.lowerFlags n v]
  | .list t, v => do
    let item ← fresh "e"
    let base ← fresh "base"
    let elem ← store t (.var item) { base }
    let ptr ← fresh "ptr"
    let len ← fresh "len"
    queue (.lowerList ptr len v t.layout.size t.layout.align item base elem)
    return [.var ptr, .var len]
  | .blank, _ => throw (.value (Shape.text .blank))
  | .errorContext, _ => throw (.value (Shape.text .errorContext))
  | t, _ => throw (.parameter t.text)

def lowerFields : List (Bytes × Shape) → Expr → Emit (List Expr)
  | [], _ => return []
  | (n, t) :: fs, v => do
    let es ← lower t (.field v n)
    return es ++ (← lowerFields fs v)

def lowerItems : List Shape → Nat → Expr → Emit (List Expr)
  | [], _, _ => return []
  | t :: ts, i, v => do
    let es ← lower t (.nth v i)
    return es ++ (← lowerItems ts (i + 1) v)

end

/-- The first core number and the rest. -/
def take1 (t : Shape) : List Expr → Emit (Expr × List Expr)
  | v :: vs => return (v, vs)
  | _ => throw (.coreValues t.text 1)

/-- The first two core numbers and the rest. -/
def take2 (t : Shape) : List Expr → Emit (Expr × Expr × List Expr)
  | a :: b :: vs => return (a, b, vs)
  | _ => throw (.coreValues t.text 2)

mutual

/-- Rebuilds a host value from the core numbers at the front of a list; gives the
value and the numbers that are left. -/
def lift : Shape → List Expr → Emit (Expr × List Expr)
  | .alias _ t, vs => lift t vs
  | .prim k, vs => do
    let (v, vs) ← take1 (.prim k) vs
    return (.liftPrim k v, vs)
  | .string, vs => do
    let (ptr, len, vs) ← take2 .string vs
    return (.decodeString ptr len, vs)
  | .record n fs, vs => do
    let (es, vs) ← liftFields fs vs
    return (.record n es, vs)
  | .tuple ts, vs => do
    let (es, vs) ← liftItems ts vs
    return (.tuple es, vs)
  | .enum n cs, vs => do
    let (v, vs) ← take1 (.enum n cs) vs
    return (.liftEnum n cs v, vs)
  | .flags n fs, vs => do
    if fs.length > 32 then throw (.manyFlags n)
    let (v, vs) ← take1 (.flags n fs) vs
    return (.liftFlags n v, vs)
  | .list t, vs => do
    let (ptr, len, vs) ← take2 (.list t) vs
    let base ← fresh "base"
    let elem ← load t { base }
    return (.liftList ptr len t.layout.size base elem, vs)
  | t, _ => throw (.value t.text)

def liftFields : List (Bytes × Shape) → List Expr → Emit (List (Bytes × Expr) × List Expr)
  | [], vs => return ([], vs)
  | (n, t) :: fs, vs => do
    let (e, vs) ← lift t vs
    let (es, vs) ← liftFields fs vs
    return ((n, e) :: es, vs)

def liftItems : List Shape → List Expr → Emit (List Expr × List Expr)
  | [], vs => return ([], vs)
  | t :: ts, vs => do
    let (e, vs) ← lift t vs
    let (es, vs) ← liftItems ts vs
    return (e :: es, vs)

end

/-- The one type of a function's results: none, the type of a single result, or the
tuple of several. -/
def resultShape? (f : ShapedFunc) : Option Shape :=
  match f.results with
  | [] => none
  | [(_, .blank)] => none
  | [(_, t)] => some t
  | rs => some (.tuple (rs.map (·.2)))

/-- How the host calls a function of the module. -/
structure ExportCall where
  stmts : List Stmt
  /-- the core arguments -/
  args : List Expr
  /-- the host value made of the returned `ret` -/
  result : Option Expr
  /-- `ret` points at the results in the module's memory -/
  indirect : Bool
  deriving Repr

/-- Lowers arguments one after the other. -/
def lowerArgs : List Shape → List Expr → Emit (List Expr)
  | t :: ts, v :: vs => do
    let es ← lower t v
    return es ++ (← lowerArgs ts vs)
  | _, _ => return []

/-- The call of an exported function, given the host values of its parameters. -/
def exportCall (f : ShapedFunc) (params : List Expr) : Except Unsupported ExportCall := do
  let sig := f.signature .exported
  if sig.indirectParams then throw .manyParams
  let body : Emit (List Expr × Option Expr) := do
    let args ← lowerArgs (f.params.map (·.2)) params
    match resultShape? f with
    | none => return (args, none)
    | some t =>
      if sig.indirectResults then return (args, some (← load t { base := utf8 "ret" }))
      else
        let (e, _) ← lift t [.var (utf8 "ret")]
        return (args, some e)
  let ((args, result), st) ← body {}
  return { stmts := st.stmts, args, result, indirect := sig.indirectResults }

/-- How a host function is called by the module. -/
structure ImportCall where
  /-- the names of the core parameters -/
  params : List Bytes
  /-- the host arguments -/
  args : List Expr
  stmts : List Stmt
  /-- the core result made of the host's `result` -/
  lower : Option Expr
  /-- writes the host's `result` to the place the module gave -/
  store : Option Expr
  deriving Repr

/-- The name of a core parameter. -/
def paramName (i : Nat) : Bytes := utf8 "arg" ++ Bytes.decimal i

/-- The names of the core parameters of an imported function, the last one being
`retptr` when the results travel through memory. -/
def coreParams (sig : Signature) : List Bytes :=
  let names := (List.range sig.params.length).map paramName
  if sig.indirectResults then names.dropLast ++ [utf8 "retptr"] else names

/-- Lifts parameters one after the other. -/
def liftArgs : List Shape → List Expr → Emit (List Expr)
  | [], _ => return []
  | t :: ts, vs => do
    let (e, vs) ← lift t vs
    return e :: (← liftArgs ts vs)

/-- The wrapper of an imported function. -/
def importCall (f : ShapedFunc) : Except Unsupported ImportCall := do
  let sig := f.signature .imported
  if sig.indirectParams then throw .manyParams
  let params := coreParams sig
  let direct := if sig.indirectResults then params.dropLast else params
  let body : Emit (List Expr × Option Expr × Option Expr) := do
    let args ← liftArgs (f.params.map (·.2)) (direct.map .var)
    match resultShape? f with
    | none => return (args, none, none)
    | some t =>
      if sig.indirectResults then
        return (args, none, some (← store t (.var (utf8 "result")) { base := utf8 "retptr" }))
      else
        match ← lower t (.var (utf8 "result")) with
        | [e] => return (args, some e, none)
        | _ => return (args, none, none)
  let ((args, lower, store), st) ← body {}
  return { params, args, stmts := st.stmts, lower, store }

/-- The call of an exported function of an interface, given the host values of its
parameters. -/
def exportCallOf (i : Interface) (f : Func) (params : List Expr) : Except Unsupported ExportCall :=
  match i.shapedFunc? f with
  | none => .error .endless
  | some sf => exportCall sf params

/-- The wrapper of an imported function of an interface. -/
def importCallOf (i : Interface) (f : Func) : Except Unsupported ImportCall :=
  match i.shapedFunc? f with
  | none => .error .endless
  | some sf => importCall sf

/-- The bit of the flag at a position, as far as 64 bits go. -/
def flagValue (i : Nat) : Bytes := Bytes.decimal (if i < 64 then 1 <<< i else 0)

end Bindery.Glue
