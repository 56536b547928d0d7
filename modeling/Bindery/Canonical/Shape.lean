/-
Types with their declarations written out. An interface names its types; a shape
is the finite tree that remains when every name is replaced by what it stands for.
Declared names stay on the nodes, and an alias is a node of its own, so that it can
be shown to make no difference.

A type that contains itself has no shape.
-/
import Bindery.Interface.Text

namespace Bindery

/-- A type without references. -/
inductive Shape where
  | blank
  | prim (p : Prim)
  | string
  | errorContext
  /-- a declared name for another type; a resource is a name for its handle -/
  | alias (name : Bytes) (target : Shape)
  | record (name : Bytes) (fields : List (Bytes × Shape))
  | enum (name : Bytes) (cases : List Bytes)
  | flags (name : Bytes) (names : List Bytes)
  /-- cases without a payload have a blank one -/
  | variant (name : Bytes) (cases : List (Bytes × Shape))
  | list (elem : Shape)
  | option (some : Shape)
  | result (ok err : Shape)
  | tuple (items : List Shape)
  deriving Repr, Inhabited

namespace Shape

def isBlank : Shape → Bool
  | .blank => true
  | _ => false

/-- What an alias stands for, at the end of a chain of them. -/
def underlying : Shape → Shape
  | .alias _ t => t.underlying
  | t => t

mutual

/-- The type as it is written at a use. -/
def expr : Shape → TypeExpr
  | .blank => .blank
  | .prim p => .prim p
  | .string => .string
  | .errorContext => .errorContext
  | .alias n _ => .named n
  | .record n _ => .named n
  | .enum n _ => .named n
  | .flags n _ => .named n
  | .variant n _ => .named n
  | .list t => .list t.expr
  | .option t => .option t.expr
  | .result ok err => .result ok.expr err.expr
  | .tuple ts => .tuple (exprs ts)

def exprs : List Shape → List TypeExpr
  | [] => []
  | t :: ts => t.expr :: exprs ts

end

/-- The text of a type. -/
def text (t : Shape) : Bytes := t.expr.text

end Shape

mutual

/-- Writes a type out, given the shapes of declared names. -/
def TypeExpr.shape? (env : Bytes → Option Shape) : TypeExpr → Option Shape
  | .blank => some .blank
  | .prim p => some (.prim p)
  | .string => some .string
  | .errorContext => some .errorContext
  | .named n => env n
  | .list t => do return .list (← t.shape? env)
  | .option t => do return .option (← t.shape? env)
  | .result ok err => do return .result (← ok.shape? env) (← err.shape? env)
  | .tuple ts => do return .tuple (← TypeExpr.shapes? env ts)

def TypeExpr.shapes? (env : Bytes → Option Shape) : List TypeExpr → Option (List Shape)
  | [] => some []
  | t :: ts => do return (← t.shape? env) :: (← TypeExpr.shapes? env ts)

end

/-- Writes out types that have names. -/
def namedShapes? (env : Bytes → Option Shape) (fs : List (Bytes × TypeExpr)) :
    Option (List (Bytes × Shape)) :=
  fs.mapM fun (n, t) => do return (n, ← t.shape? env)

/-- Writes a declaration out. -/
def Decl.shape? (env : Bytes → Option Shape) (d : Decl) : Option Shape :=
  match d.body with
  | .record fs => do return .record d.name (← namedShapes? env fs)
  | .enum cs => some (.enum d.name cs)
  | .flags fs => some (.flags d.name fs)
  | .variant cs => do return .variant d.name (← namedShapes? env cs)
  | .union ts => do return .variant d.name (← namedShapes? env (unionCases ts))
  | .resource => some (.alias d.name (.prim .u32))
  | .alias t => do return .alias d.name (← t.shape? env)

namespace Interface

/-- The shapes of declared names, following names at most `depth` deep. -/
def shapesWithin (i : Interface) : Nat → Bytes → Option Shape
  | 0, _ => none
  | depth + 1, n => do (← i.decl? n).shape? (i.shapesWithin depth)

/-- The shape of a declared name. A chain of names longer than the list of
declarations runs in a circle. -/
def shapeOf? (i : Interface) (n : Bytes) : Option Shape := i.shapesWithin i.types.length n

/-- The shape of a type of the interface. -/
def shape? (i : Interface) (t : TypeExpr) : Option Shape := t.shape? i.shapeOf?

end Interface

/-- A function whose types are written out. -/
structure ShapedFunc where
  name : Bytes
  params : List (Bytes × Shape)
  results : List (Bytes × Shape)
  deriving Repr, Inhabited

/-- Writes out the types of a function. -/
def Interface.shapedFunc? (i : Interface) (f : Func) : Option ShapedFunc := do
  let shaped (ps : List Param) : Option (List (Bytes × Shape)) :=
    ps.mapM fun p => do return (p.name, ← i.shape? p.type)
  return { name := f.name, params := ← shaped f.params, results := ← shaped f.results }

end Bindery
