/-
The code that carries values across the boundary, independent of the language it
is written in. Expressions say which helper is called on which place of the
module's memory; a dialect only spells them.
-/
import Bindery.Canonical.Flat
import Bindery.Bytes.Quoted

namespace Bindery.Glue

/-- The width of a memory access and how its octets are read. -/
inductive MemKind where
  | u8
  | s8
  | u16
  | s16
  | u32
  | s32
  | u64
  | s64
  | f32
  | f64
  deriving DecidableEq, Repr

namespace MemKind

def word : MemKind → Bytes
  | .u8 => utf8 "u8"
  | .s8 => utf8 "s8"
  | .u16 => utf8 "u16"
  | .s16 => utf8 "s16"
  | .u32 => utf8 "u32"
  | .s32 => utf8 "s32"
  | .u64 => utf8 "u64"
  | .s64 => utf8 "s64"
  | .f32 => utf8 "f32"
  | .f64 => utf8 "f64"

/-- The number of octets an access touches. -/
def width : MemKind → Nat
  | .u8 | .s8 => 1
  | .u16 | .s16 => 2
  | .u32 | .s32 | .f32 => 4
  | .u64 | .s64 | .f64 => 8

/-- How a primitive value is held in memory. -/
def ofPrim : Prim → MemKind
  | .bool | .u8 => .u8
  | .s8 => .s8
  | .u16 => .u16
  | .s16 => .s16
  | .u32 | .char => .u32
  | .s32 => .s32
  | .u64 => .u64
  | .s64 => .s64
  | .f32 => .f32
  | .f64 => .f64

/-- The unsigned number of a given size. -/
def ofSize (size : UInt32) : MemKind := if size = 1 then .u8 else if size = 2 then .u16 else .u32

/-- The number that says which of `n` cases a value is. -/
def discriminant (n : Nat) : MemKind := ofSize (Layout.discriminantSize n)

end MemKind

/-- A place in memory: a variable holding an address, and constant steps from it. -/
structure Place where
  base : Bytes
  steps : List UInt32 := []
  deriving DecidableEq, Repr

namespace Place

/-- The place `off` octets further on. -/
def plus (p : Place) (off : UInt32) : Place :=
  if off = 0 then p else { p with steps := p.steps ++ [off] }

def text (p : Place) : Bytes :=
  p.base ++ p.steps.flatMap fun s => utf8 " + " ++ Bytes.decimal s.toNat

end Place

/-- A helper that every generated module can call. -/
inductive Helper where
  | load
  | store
  | encodeString
  | decodeString
  | loadString
  | storeString
  | lowerList
  | liftList
  | loadList
  | storeList
  | liftEnum
  | lowerEnum
  | unsupported
  deriving DecidableEq, Repr

namespace Helper

def word : Helper → Bytes
  | .load => utf8 "load"
  | .store => utf8 "store"
  | .encodeString => utf8 "encodeString"
  | .decodeString => utf8 "decodeString"
  | .loadString => utf8 "loadString"
  | .storeString => utf8 "storeString"
  | .lowerList => utf8 "lowerList"
  | .liftList => utf8 "liftList"
  | .loadList => utf8 "loadList"
  | .storeList => utf8 "storeList"
  | .liftEnum => utf8 "liftEnum"
  | .lowerEnum => utf8 "lowerEnum"
  | .unsupported => utf8 "unsupported"

/-- The helpers in the order in which they are imported. -/
def all : List Helper :=
  [.load, .store, .encodeString, .decodeString, .loadString, .storeString, .lowerList, .liftList,
   .loadList, .storeList, .liftEnum, .lowerEnum, .unsupported]

end Helper

/-- An expression of the host language. -/
inductive Expr where
  | var (name : Bytes)
  | field (of : Expr) (name : Bytes)
  | nth (of : Expr) (index : Nat)
  | null
  /-- a host value as a core number -/
  | lowerPrim (p : Prim) (e : Expr)
  /-- a core number as a host value -/
  | liftPrim (p : Prim) (e : Expr)
  | lowerEnum (type : Bytes) (cases : List Bytes) (e : Expr)
  | liftEnum (type : Bytes) (cases : List Bytes) (e : Expr)
  | lowerFlags (type : Bytes) (e : Expr)
  | liftFlags (type : Bytes) (e : Expr)
  | load (kind : MemKind) (place : Place)
  | store (kind : MemKind) (place : Place) (value : Expr)
  | loadString (place : Place)
  | storeString (place : Place) (value : Expr)
  | decodeString (ptr len : Expr)
  /-- a list from a pointer and a length; `elem` reads an element at `base` -/
  | liftList (ptr len : Expr) (stride : UInt32) (base : Bytes) (elem : Expr)
  | loadList (place : Place) (stride : UInt32) (base : Bytes) (elem : Expr)
  /-- `elem` writes the element `item` at `base` -/
  | storeList (place : Place) (value : Expr) (stride align : UInt32) (item base : Bytes) (elem : Expr)
  | record (type : Bytes) (fields : List (Bytes × Expr))
  | tuple (items : List Expr)
  /-- one after the other -/
  | steps (es : List Expr)
  /-- `yes` when the number at a place is `tag`, else `no` -/
  | whenTag (kind : MemKind) (place : Place) (tag : Nat) (yes no : Expr)
  | ok (e : Expr)
  | err (e : Expr)
  | caseOnly (type case : Bytes)
  | caseOf (type case : Bytes) (payload : Expr)
  deriving Repr, Inhabited

/-- A statement that must run before the call: it puts a value into memory and binds
a pointer and a length. -/
inductive Stmt where
  | encodeString (ptr len : Bytes) (value : Expr)
  | lowerList (ptr len : Bytes) (value : Expr) (stride align : UInt32) (item base : Bytes) (elem : Expr)
  deriving Repr

/-- How a language spells the code. -/
structure Dialect where
  helper : Helper → Bytes
  fieldName : Bytes → Bytes
  lambda : List Bytes → Bytes → Bytes
  /-- condition, value if it holds, value if not -/
  cond : Bytes → Bytes → Bytes → Bytes
  equal : Bytes → Bytes → Bytes
  null : Bytes
  record : Bytes → List (Bytes × Bytes) → Bytes
  tuple : List Bytes → Bytes
  /-- binds names to a value of as many parts -/
  assign : List Bytes → Bytes → Bytes
  lowerPrim : Prim → Bytes → Bytes
  liftPrim : Prim → Bytes → Bytes
  lowerEnum : Bytes → List Bytes → Bytes → Bytes
  liftEnum : Bytes → List Bytes → Bytes → Bytes
  lowerFlags : Bytes → Bytes → Bytes
  liftFlags : Bytes → Bytes → Bytes
  ok : Bytes → Bytes
  err : Bytes → Bytes
  /-- a case of a variant; an empty payload is none -/
  variantCase : Bytes → Bytes → Bytes → Bytes

namespace Dialect

/-- The variable that holds the module's memory. -/
def memory : Bytes := utf8 "memory"

/-- The variable that holds the module's allocator. -/
def realloc : Bytes := utf8 "realloc"

/-- Arguments with commas between them. -/
def commas (es : List Bytes) : Bytes := Bytes.join (utf8 ", ") es

/-- A call of a helper. -/
def call (d : Dialect) (h : Helper) (args : List Bytes) : Bytes :=
  d.helper h ++ utf8 "(" ++ commas args ++ utf8 ")"

/-- The load of a number at a place. -/
def loadText (d : Dialect) (kind : MemKind) (place : Place) : Bytes :=
  d.call .load [memory, kind.word.quote, place.text]

/-- Expressions one after the other. -/
def sequence (d : Dialect) : List Bytes → Bytes
  | [] => d.null
  | [e] => e
  | es => utf8 "(" ++ commas es ++ utf8 ")"

end Dialect

/-- A number in decimal. -/
def digits (n : UInt32) : Bytes := Bytes.decimal n.toNat

namespace Expr

mutual

/-- An expression as a dialect spells it. -/
def print (d : Dialect) : Expr → Bytes
  | .var n => n
  | .field e n => e.print d ++ utf8 "." ++ d.fieldName n
  | .nth e i => e.print d ++ utf8 "[" ++ Bytes.decimal i ++ utf8 "]"
  | .null => d.null
  | .lowerPrim p e => d.lowerPrim p (e.print d)
  | .liftPrim p e => d.liftPrim p (e.print d)
  | .lowerEnum t cs e => d.lowerEnum t cs (e.print d)
  | .liftEnum t cs e => d.liftEnum t cs (e.print d)
  | .lowerFlags t e => d.lowerFlags t (e.print d)
  | .liftFlags t e => d.liftFlags t (e.print d)
  | .load k p => d.loadText k p
  | .store k p v => d.call .store [Dialect.memory, k.word.quote, p.text, v.print d]
  | .loadString p => d.call .loadString [Dialect.memory, p.text]
  | .storeString p v => d.call .storeString [Dialect.memory, Dialect.realloc, p.text, v.print d]
  | .decodeString ptr len => d.call .decodeString [Dialect.memory, ptr.print d, len.print d]
  | .liftList ptr len stride base elem =>
    d.call .liftList
      [Dialect.memory, ptr.print d, len.print d, digits stride, d.lambda [base] (elem.print d)]
  | .loadList p stride base elem =>
    d.call .loadList [Dialect.memory, p.text, digits stride, d.lambda [base] (elem.print d)]
  | .storeList p v stride align item base elem =>
    d.call .storeList
      [Dialect.memory, Dialect.realloc, p.text, v.print d, digits stride, digits align,
       d.lambda [item, base] (elem.print d)]
  | .record t fs => d.record t (printFields d fs)
  | .tuple es => d.tuple (printAll d es)
  | .steps es => d.sequence (printAll d es)
  | .whenTag k p tag yes no =>
    d.cond (d.equal (d.loadText k p) (Bytes.decimal tag)) (yes.print d) (no.print d)
  | .ok e => d.ok (e.print d)
  | .err e => d.err (e.print d)
  | .caseOnly t c => d.variantCase t c []
  | .caseOf t c e => d.variantCase t c (e.print d)

def printAll (d : Dialect) : List Expr → List Bytes
  | [] => []
  | e :: es => e.print d :: printAll d es

def printFields (d : Dialect) : List (Bytes × Expr) → List (Bytes × Bytes)
  | [] => []
  | (n, e) :: fs => (n, e.print d) :: printFields d fs

end

end Expr

/-- A statement as a dialect spells it. -/
def Stmt.print (d : Dialect) : Stmt → Bytes
  | .encodeString ptr len v =>
    d.assign [ptr, len] (d.call .encodeString [Dialect.memory, Dialect.realloc, v.print d])
  | .lowerList ptr len v stride align item base elem =>
    d.assign [ptr, len]
      (d.call .lowerList
        [Dialect.memory, Dialect.realloc, v.print d, digits stride, digits align,
         d.lambda [item, base] (elem.print d)])

end Bindery.Glue
