/-
Items in their one canonical form: every number in as few octets as it takes, every
length given, and the keys of a map in order of their length first and byte order
second.
-/
import Bindery.Cbor.Item
import Bindery.Table

namespace Bindery.Cbor

/-- Puts an entry before the first one whose key is at least as long. -/
def insertShort {α : Type} (e : Bytes × α) : List (Bytes × α) → List (Bytes × α)
  | [] => [e]
  | e' :: es => if e.1.length ≤ e'.1.length then e :: e' :: es else e' :: insertShort e es

/-- Shorter keys first; keys of one length keep their order. -/
def shortFirst {α : Type} (es : List (Bytes × α)) : List (Bytes × α) := es.foldr insertShort []

namespace Item

def null : Item := .simple ⟨.tiny, 22⟩

def ofNat (n : Nat) : Item := .uint (.ofNat n)

def ofText (s : Bytes) : Item := .text (.ofNat s.length) s

def ofList (is : List Item) : Item := .array (.ofNat is.length) is

/-- A map with the given keys in the given order. -/
def ofEntries (es : List (Bytes × Item)) : Item :=
  .map (.ofNat es.length) (es.map fun e => (ofText e.1, e.2))

/-- A map keyed by the names of a table. -/
def ofTable (t : Table Item) : Item := ofEntries (shortFirst t)

/-- A field that is written only when it is there to write. -/
def fieldIf (written : Bool) (name : String) (i : Item) : List (Bytes × Item) :=
  if written then [(utf8 name, i)] else []

end Item

end Bindery.Cbor
