/-
The nodes of a volume's index: named files and directories, the files with the place of
their contents. A node is stored as a map of its non-empty members.
-/
import Bindery.Cbor.Canonical
import Bindery.Cbor.Meaning

namespace Bindery

/-- A node of a volume's tree. Its kind is kept as written, since an index may hold
kinds that are neither files nor directories. -/
structure Node where
  name : Bytes := []
  kind : Bytes := []
  start : Nat := 0
  stop : Nat := 0
  children : List Node := []
  deriving Repr, Inhabited

namespace Node

def fileKind : Bytes := utf8 "file"

def dirKind : Bytes := utf8 "dir"

/-- A file whose contents lie in the given place. -/
def file (name : Bytes) (start stop : Nat) : Node := { name, kind := fileKind, start, stop }

/-! ## Growing a tree -/

/-- Changes the children of the first node of a name, which is a new directory at the
end when there is none. -/
def within (seg : Bytes) (change : List Node → List Node) : List Node → List Node
  | [] => [{ name := seg, kind := dirKind, children := change [] }]
  | n :: ns =>
    if n.name = seg then { n with children := change n.children } :: ns
    else n :: within seg change ns

/-- Puts a node at the end of the directory that the segments lead to. -/
def plant (node : Node) : List Bytes → List Node → List Node
  | [], level => level ++ [node]
  | seg :: segs, level => within seg (plant node segs) level

/-! ## The stored form -/

open Cbor

mutual

/-- The stored form of a node. -/
def toItem : Node → Item
  | ⟨name, kind, start, stop, children⟩ =>
    let below := items children
    .ofEntries <|
      Item.fieldIf (stop != 0) "end" (.ofNat stop)
        ++ [(utf8 "kind", .ofText kind), (utf8 "name", .ofText name)]
        ++ Item.fieldIf (start != 0) "start" (.ofNat start)
        ++ Item.fieldIf (!children.isEmpty) "children" (.ofList below)

def items : List Node → List Item
  | [] => []
  | n :: ns => n.toItem :: items ns

end

/-- The stored form of a level of nodes. -/
def listItem (ns : List Node) : Item := .ofList (items ns)

/-- The members of a stored node. -/
def memberNames : List Bytes :=
  [utf8 "name", utf8 "kind", utf8 "start", utf8 "end", utf8 "children"]

/-- Reads a node at most `fuel` levels deep. -/
def ofItemWithin? : Nat → Item → Option Node
  | 0, _ => none
  | fuel + 1, i => do
    let fs ← i.fields? memberNames
    return {
      name := ← Item.field fs (utf8 "name") [] Item.text?
      kind := ← Item.field fs (utf8 "kind") [] Item.text?
      start := ← Item.field fs (utf8 "start") 0 Item.nat?
      stop := ← Item.field fs (utf8 "end") 0 Item.nat?
      children := ← Item.field fs (utf8 "children") [] (Item.list? (ofItemWithin? fuel)) }

/-- Reads a level of nodes. A node is nested as deep as the items it is read from, and
those are never deeper than `maxDepth`. -/
def listOfItem? (i : Item) : Option (List Node) := i.list? (ofItemWithin? maxDepth)

end Node

end Bindery
