/-
From the lines of a document to its tables. A table may be opened once, a key may be set
once, and what an inline value or dotted keys have closed may not be reopened; a document
that breaks one of these rules has no value.
-/
import Bindery.Toml.Basic
import Bindery.Table

namespace Bindery.Toml

/-- A table while the document is being read. -/
inductive Node where
  /-- a value, which nothing can be added to -/
  | value (v : Value)
  /-- a table; `defined` when it cannot be opened again, `dotted` when dotted keys of the
  table being read made it -/
  | table (defined dotted : Bool) (entries : List (Bytes × Node))
  /-- the tables of an array, the last one first -/
  | tables (elements : List (List (Bytes × Node)))
  deriving Inhabited

abbrev Entries := List (Bytes × Node)

namespace Node

/-- Replaces the entry of a name. -/
def replace (k : Bytes) (n : Node) : Entries → Entries
  | [] => []
  | (k', n') :: es => if k' = k then (k, n) :: es else (k', n') :: replace k n es

/-- Puts an entry in place of one of its name, or at the end. -/
def put (es : Entries) (k : Bytes) (n : Node) : Entries :=
  if (Table.find? k es).isSome then replace k n es else es ++ [(k, n)]

mutual

/-- Closes a table and everything below it that dotted keys made. -/
def close : Node → Node
  | .value v => .value v
  | .table defined dotted es => .table (defined || dotted) false (closeAll es)
  | .tables els => .tables (closeElements els)

/-- Closes everything that dotted keys made below a table. -/
def closeAll : Entries → Entries
  | [] => []
  | (k, n) :: es => (k, n.close) :: closeAll es

def closeElements : List Entries → List Entries
  | [] => []
  | e :: es => closeAll e :: closeElements es

end

/-- Changes the table that a header leads to. Tables on the way come into being as
needed, an array stands for its last table, and a value is in the way. -/
def within (change : Entries → Option Entries) : List Bytes → Entries → Option Entries
  | [], es => change es
  | k :: ks, es =>
    match Table.find? k es with
    | none => do return put es k (.table false false (← within change ks []))
    | some (.value _) => none
    | some (.table defined dotted sub) => do
      return put es k (.table defined dotted (← within change ks sub))
    | some (.tables []) => none
    | some (.tables (e :: older)) => do return put es k (.tables ((← within change ks e) :: older))

/-- What a name leads to, an array standing for its last table. -/
def find? : List Bytes → Entries → Option Node
  | [], _ => none
  | [k], es => Table.find? k es
  | k :: ks, es =>
    match Table.find? k es with
    | some (.table _ _ sub) => find? ks sub
    | some (.tables (e :: _)) => find? ks e
    | _ => none

/-- Opens the table of a name. -/
def openTable (k : Bytes) (es : Entries) : Option Entries :=
  match Table.find? k es with
  | none => some (put es k (.table true false []))
  | some (.table false dotted sub) => some (put es k (.table true dotted sub))
  | some _ => none

/-- Opens a new table in the array of a name. -/
def openElement (k : Bytes) (es : Entries) : Option Entries :=
  match Table.find? k es with
  | none => some (put es k (.tables [[]]))
  | some (.tables els) => some (put es k (.tables ([] :: els)))
  | some _ => none

/-- Sets a key, which may be dotted. -/
def set (v : Value) : List Bytes → Entries → Option Entries
  | [], _ => none
  | [k], es => if (Table.find? k es).isSome then none else some (es ++ [(k, .value v)])
  | k :: ks, es =>
    match Table.find? k es with
    | none => do return es ++ [(k, .table false true (← set v ks []))]
    | some (.table false dotted sub) => do return put es k (.table false dotted (← set v ks sub))
    | some _ => none

mutual

/-- The value of what was read. -/
def toValue : Node → Value
  | .value v => v
  | .table _ _ es => .table (toEntries es)
  | .tables els => .array (toTables els).reverse

def toEntries : Entries → List (Bytes × Value)
  | [] => []
  | (k, n) :: es => (k, n.toValue) :: toEntries es

def toTables : List Entries → List Value
  | [] => []
  | e :: es => .table (toEntries e) :: toTables es

end

end Node

/-- An inline table, which keeps the same rules. -/
def inlineTable (kvs : List (List Bytes × Value)) : Option Value := do
  discard (kvs.foldlM (fun es kv => Node.set kv.2 kv.1 es) ([] : Entries))
  return .table (kvs.flatMap fun kv => kv.2.under kv.1)

/-- A document while it is being read. -/
structure Reading where
  root : Entries := []
  /-- the table that keys are set in -/
  current : List Bytes := []

namespace Reading

/-- Ends the current table and changes the one that holds the last name of a header. -/
def enter (r : Reading) (key : List Bytes) (change : Bytes → Entries → Option Entries) : Option Reading := do
  let closed ← Node.within (fun es => some (Node.closeAll es)) r.current r.root
  let last ← key.getLast?
  return { root := ← Node.within (change last) key.dropLast closed, current := key }

/-- Takes the next line. -/
def next (r : Reading) : Expression → Option Reading
  | .keyValue key v => do return { r with root := ← Node.within (Node.set v key) r.current r.root }
  | .table key => r.enter key Node.openTable
  | .arrayTable key => r.enter key Node.openElement

/-- The name of a header is not taken yet. -/
def isNew (r : Reading) (key : List Bytes) : Bool :=
  (Node.find? key r.root).isNone

end Reading

/-- The entries of a document. -/
def document (es : List Expression) : Option (List (Bytes × Value)) := do
  let r ← es.foldlM Reading.next {}
  return Node.toEntries r.root

end Bindery.Toml
