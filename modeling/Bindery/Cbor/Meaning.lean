/-
What an item means where a certain kind of value is expected: a text, a number, a
list, a table keyed by texts, a record of named fields, or any value at all, kept as
it came. Null and undefined stand for the empty value of every kind. A tag in front
of a value says nothing more about it, except that a few tags are refused on contents
they cannot stand on.
-/
import Bindery.Bytes.Utf8
import Bindery.Cbor.Item
import Bindery.Table

namespace Bindery.Cbor.Item

/-- Null or undefined. -/
def isNull : Item → Bool
  | .simple a => a.value == 22 || a.value == 23
  | _ => false

/-- A tag may stand on this content: a date asks for text, a time for a number and a
big number for octets; other tags stand on anything. -/
def carries (tag : Nat) (content : Item) : Bool :=
  match tag with
  | 0 => match content with
    | .text .. | .openText _ => true
    | _ => false
  | 1 => match content with
    | .uint _ | .nint _ | .float _ => true
    | _ => false
  | 2 | 3 => match content with
    | .bytes .. | .openBytes _ => true
    | _ => false
  | _ => true

/-- The item behind the tags in front of it, when every tag may stand where it does. -/
def bare? : Item → Option Item
  | .tag a i => if carries a.value i then i.bare? else none
  | i => some i

/-- The octets of the chunks, one after the other. -/
def glued (chunks : List (Arg × Bytes)) : Bytes := chunks.flatMap (·.2)

/-- A text: UTF-8, whole or chunk by chunk. -/
def plainText? : Item → Option Bytes
  | .text _ s => if Utf8.valid s then some s else none
  | .openText cs => if cs.all fun c => Utf8.valid c.2 then some (glued cs) else none
  | _ => none

/-- A text, the empty one for null. -/
def text? (i : Item) : Option Bytes := do
  let i ← i.bare?
  if i.isNull then some [] else i.plainText?

/-- An unsigned number of at most 64 bits: an integer, a big number, or a simple value
by its number; zero for null. -/
def nat? : Item → Option Nat
  | .uint a => some a.value
  | .simple a =>
    if a.value = 20 ∨ a.value = 21 then none
    else if a.value = 22 ∨ a.value = 23 then some 0
    else some a.value
  | .tag a i =>
    if !carries a.value i then none
    else if a.value = 2 then
      let n := Endian.ofBig <| match i with
        | .bytes _ s => s
        | .openBytes cs => glued cs
        | _ => []
      if n < 0x10000000000000000 then some n else none
    else i.nat?
  | _ => none

/-- The items of a list, none for null. -/
def items? (i : Item) : Option (List Item) := do
  match ← i.bare? with
  | .array _ is => some is
  | .openArray is => some is
  | i => if i.isNull then some [] else none

/-- A list of values of one kind. -/
def list? {α : Type} (value : Item → Option α) (i : Item) : Option (List α) := do
  (← i.items?).mapM value

/-- The pairs of a map, none for null. -/
def entries? (i : Item) : Option (List (Item × Item)) := do
  match ← i.bare? with
  | .map _ es => some es
  | .openMap es => some es
  | i => if i.isNull then some [] else none

/-- The key of an entry of a table; null repeats the key before it. -/
def key? (last : Bytes) (i : Item) : Option Bytes := do
  let i ← i.bare?
  if i.isNull then some last else i.plainText?

/-- Adds the entries to a table one by one. -/
def addEntries {α : Type} (value : Item → Option α) : Table α → Bytes → List (Item × Item) → Option (Table α)
  | t, _, [] => some t
  | t, last, (k, v) :: es => do
    let k ← k.key? last
    addEntries value (t.insert k (← value v)) k es

/-- A table keyed by texts; of two entries with one key the later counts. -/
def table? {α : Type} (value : Item → Option α) (i : Item) : Option (Table α) := do
  addEntries value [] [] (← i.entries?)

/-- The one of the named fields that a key means: the one so spelled, or else one that
differs in case only. -/
def fieldOf? (names : List Bytes) (key : Bytes) : Option Bytes :=
  (names.find? (· == key)).or (names.find? (·.lower == key.lower))

/-- The values of the fields still looked for. A field takes the first value it finds;
keys that name no field are passed over when they are texts or small integers. -/
def pick : List Bytes → List (Item × Item) → Option (List (Bytes × Item))
  | _, [] => some []
  | names, (k, v) :: es =>
    match k with
    | .uint _ => pick names es
    | .nint a => if a.value < 0x8000000000000000 then pick names es else none
    | _ => do
      match fieldOf? names (← k.plainText?) with
      | some n => return (n, v) :: (← pick (names.erase n) es)
      | none => pick names es

/-- The fields of a record that are there, by name. -/
def fields? (names : List Bytes) (i : Item) : Option (List (Bytes × Item)) := do
  pick names (← i.entries?)

/-- The value of a field, `absent` when it is not there. -/
def field {α : Type} (fields : List (Bytes × Item)) (name : Bytes) (absent : α)
    (value : Item → Option α) : Option α :=
  match Table.find? name fields with
  | none => some absent
  | some i => value i

/-- A value that may be missing; null says that it is. -/
def optional? {α : Type} (value : Item → Option α) (i : Item) : Option (Option α) :=
  if i.isNull then some none else (value i).map some

/-- The tag that only says that what follows is CBOR. -/
def selfDescribed : Nat := 55799

/-- Any value, as it came but for self-description in front. -/
def kept? : Item → Option Item
  | .tag a i =>
    if a.value = selfDescribed then i.kept?
    else if carries a.value i && i.bare?.isSome then some (.tag a i)
    else none
  | i => some i

end Bindery.Cbor.Item
