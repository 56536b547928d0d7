/-
Interfaces: named types and free functions over them, as an interface file
declares them. A use of a declared type is a name; the declaration it stands for
is looked up in the interface.
-/
import Bindery.SlashPath

namespace Bindery

/-- The types of a single number, truth value or character. -/
inductive Prim where
  | bool
  | u8
  | s8
  | u16
  | s16
  | u32
  | s32
  | u64
  | s64
  | f32
  | f64
  | char
  deriving DecidableEq, Repr

/-- The word for a primitive type. -/
def Prim.word : Prim → Bytes
  | .bool => utf8 "bool"
  | .u8 => utf8 "u8"
  | .s8 => utf8 "s8"
  | .u16 => utf8 "u16"
  | .s16 => utf8 "s16"
  | .u32 => utf8 "u32"
  | .s32 => utf8 "s32"
  | .u64 => utf8 "u64"
  | .s64 => utf8 "s64"
  | .f32 => utf8 "f32"
  | .f64 => utf8 "f64"
  | .char => utf8 "char"

/-- Every primitive type. -/
def Prim.all : List Prim :=
  [.bool, .u8, .s8, .u16, .s16, .u32, .s32, .u64, .s64, .f32, .f64, .char]

/-- A type as it is written at a use. -/
inductive TypeExpr where
  /-- no type, written `_` -/
  | blank
  | prim (p : Prim)
  | string
  | errorContext
  /-- a declared type -/
  | named (name : Bytes)
  | list (elem : TypeExpr)
  | option (some : TypeExpr)
  /-- either payload may be blank -/
  | result (ok err : TypeExpr)
  | tuple (items : List TypeExpr)
  deriving Repr, Inhabited

/-- What a declaration says about its type. -/
inductive DeclBody where
  | record (fields : List (Bytes × TypeExpr))
  | enum (cases : List Bytes)
  | flags (names : List Bytes)
  /-- cases without a payload have a blank one -/
  | variant (cases : List (Bytes × TypeExpr))
  /-- a variant whose cases have no names of their own -/
  | union (cases : List TypeExpr)
  /-- an opaque handle -/
  | resource
  | alias (target : TypeExpr)
  deriving Repr, Inhabited

/-- The form of a declaration. -/
inductive DeclKind where
  | record
  | enum
  | flags
  | variant
  | union
  | resource
  | alias
  deriving DecidableEq, Repr

/-- The keyword of a declaration. -/
def DeclKind.word : DeclKind → Bytes
  | .record => utf8 "record"
  | .enum => utf8 "enum"
  | .flags => utf8 "flags"
  | .variant => utf8 "variant"
  | .union => utf8 "union"
  | .resource => utf8 "resource"
  | .alias => utf8 "type"

def DeclBody.kind : DeclBody → DeclKind
  | .record _ => .record
  | .enum _ => .enum
  | .flags _ => .flags
  | .variant _ => .variant
  | .union _ => .union
  | .resource => .resource
  | .alias _ => .alias

/-- The name of the case of a union at a position. -/
def unionCase (i : Nat) : Bytes := utf8 "c" ++ Bytes.decimal i

/-- The named cases of a union. -/
def unionCases (cases : List TypeExpr) : List (Bytes × TypeExpr) :=
  cases.zipIdx.map fun (t, i) => (unionCase i, t)

/-- A named type. -/
structure Decl where
  name : Bytes
  body : DeclBody
  deriving Repr, Inhabited

/-- A parameter or a result; a result may be without a name. -/
structure Param where
  name : Bytes := []
  type : TypeExpr
  deriving Repr, Inhabited

/-- A free function. -/
structure Func where
  name : Bytes
  params : List Param := []
  results : List Param := []
  deriving Repr, Inhabited

/-- The types and functions of one interface file. -/
structure Interface where
  name : Bytes
  /-- where the text came from -/
  path : Bytes
  types : List Decl := []
  functions : List Func := []
  deriving Repr, Inhabited

namespace Interface

/-- The declaration of a type. -/
def decl? (i : Interface) (name : Bytes) : Option Decl := i.types.find? (·.name == name)

/-- The declared name of a type, when it is one of the interface's own. -/
def nameOf? (i : Interface) : TypeExpr → Option Bytes
  | .named n => (i.decl? n).map (·.name)
  | _ => none

/-- The function of a name. -/
def function? (i : Interface) (name : Bytes) : Option Func := i.functions.find? (·.name == name)

/-- The name of the interface in a file: the base name up to its first dot, a dot
at its start apart. Backslashes divide segments too. -/
def nameOfPath (path : Bytes) : Bytes :=
  let base := SlashPath.base (path.map fun b => if b == 92 then SlashPath.slash else b)
  match base.cut SlashPath.dot with
  | some (stem, _) => if stem.isEmpty then base else stem
  | none => base

end Interface

end Bindery
