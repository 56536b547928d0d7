/-
Templates: text with actions between double braces. An action writes the value of a
pipeline, names a value, or opens and closes a block that is written on a condition or
once for every element of a list.
-/
import Bindery.Bytes

namespace Bindery.Template

/-- What a template is filled from. -/
inductive Value where
  | text (s : Bytes)
  | number (n : Nat)
  | list (items : List Bytes)
  | record (fields : List (Bytes × Value))
  deriving Repr, Inhabited

/-- The functions a pipeline may call. -/
inductive Function where
  | snake
  | camel
  | pascal
  | quote
  | join
  | format
  deriving DecidableEq, Repr

/-- The function of a name. -/
def Function.named? (name : Bytes) : Option Function :=
  if name = utf8 "snake" then some .snake
  else if name = utf8 "camel" then some .camel
  else if name = utf8 "pascal" then some .pascal
  else if name = utf8 "quote" then some .quote
  else if name = utf8 "join" then some .join
  else if name = utf8 "printf" then some .format
  else none

/-- An expression. A call takes its arguments in order, the piped one last. -/
inductive Expr where
  /-- fields of the current value -/
  | current (fields : List Bytes)
  /-- fields of a named value; the empty name stands for the whole context -/
  | variable (name : Bytes) (fields : List Bytes)
  | literal (v : Value)
  | call (f : Function) (args : List Expr)
  /-- a value given arguments, which none can take -/
  | misapplied
  deriving Repr, Inhabited

/-- A piece of a template. -/
inductive Piece where
  | text (s : Bytes)
  | write (e : Expr)
  /-- names a value for the rest of the block -/
  | define (name : Bytes) (e : Expr)
  | choose (condition : Expr) (yes no : List Piece)
  /-- for every element, under the names of its index and itself; `otherwise` when there
  is none -/
  | each (index element : Option Bytes) (source : Expr) (body otherwise : List Piece)
  deriving Repr, Inhabited

end Bindery.Template
