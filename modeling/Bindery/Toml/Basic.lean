/-
TOML values. Numbers, dates and times keep the text they were written as and are only
looked at where their value is asked for.
-/
import Bindery.Bytes

namespace Bindery.Toml

inductive Value where
  | string (s : Bytes)
  | integer (written : Bytes)
  | float (written : Bytes)
  | boolean (b : Bool)
  /-- a date, a time or both; the flags say which of date, time and offset are written -/
  | moment (date time offset : Bool) (written : Bytes)
  | array (items : List Value)
  /-- entries in the order they were written; each dotted key of an inline table is an entry -/
  | table (entries : List (Bytes × Value))
  deriving Repr, Inhabited

/-- The entry that a key makes. A dotted key leads through tables that hold nothing else. -/
def Value.under (v : Value) : List Bytes → List (Bytes × Value)
  | [] => []
  | [k] => [(k, v)]
  | k :: ks => [(k, .table (v.under ks))]

/-- A line of a document that is not blank. -/
inductive Expression where
  | keyValue (key : List Bytes) (value : Value)
  | table (key : List Bytes)
  | arrayTable (key : List Bytes)
  deriving Repr, Inhabited

end Bindery.Toml
