/-
A volume is a read-only file system inside a container: a tree of named nodes and one
run of octets that the file nodes point into. `Volume.file` follows a path one segment
a level; `Volume.entries` lists every node under its full path, whatever kind its
parent is of, so a file whose stored name has slashes in it is found there only.

`Volume.encode` writes a set of files, `Volume.decode` reads a volume and accepts it
only when every file node points into the volume's own octets.
-/
import Bindery.Container.Codec
import Bindery.Container.Frame

namespace Bindery

/-- A parsed volume. -/
structure Volume where
  root : List Node := []
  data : Bytes := []
  deriving Repr, Inhabited

/-- A node as it is listed under its full path. -/
structure Entry where
  kind : Bytes
  start : Nat
  stop : Nat
  deriving DecidableEq, Repr

namespace Volume

/-- The octets of the volume from one place up to another. -/
def slice (v : Volume) (start stop : Nat) : Bytes := (v.data.take stop).drop start

/-! ## Looking up -/

/-- Where the walk along a path ends. -/
inductive Found where
  | file (node : Node)
  | notFile
  | missing

/-- Follows the segments of a path, one a level. The first node of a name counts, and
only a directory is entered. -/
def walk : List Node → List Bytes → Found
  | _, [] => .missing
  | level, [seg] =>
    match level.find? (·.name == seg) with
    | none => .missing
    | some n => if n.kind = Node.fileKind then .file n else .notFile
  | level, seg :: segs =>
    match level.find? (·.name == seg) with
    | none => .missing
    | some n => if n.kind = Node.dirKind then walk n.children segs else .missing

/-- The segments of a path, without regard to slashes at its ends. -/
def segments (p : Bytes) : List Bytes :=
  let isSlash : UInt8 → Bool := (· == 47)
  Bytes.split 47 ((p.dropWhile isSlash).reverse.dropWhile isSlash).reverse

/-- The contents of the file at a path. -/
def file (v : Volume) (p : Bytes) : Except Report Bytes :=
  match walk v.root (segments p) with
  | .file n => .ok (v.slice n.start n.stop)
  | .notFile => .error <| .ofFailure
      { phase := .load
        kind := .invalidInput
        path := [p]
        detail := p.quote ++ utf8 " is a directory" }
  | .missing => .error (.notFound .load (utf8 "file") p)

mutual

/-- Lists a node and what is below it. -/
def entriesOf (dir : Bytes) (t : Table Entry) : Node → Table Entry
  | ⟨name, kind, start, stop, children⟩ =>
    let full := if dir.isEmpty then name else dir ++ utf8 "/" ++ name
    entriesUnder full (t.insert full ⟨kind, start, stop⟩) children

def entriesUnder (dir : Bytes) (t : Table Entry) : List Node → Table Entry
  | [] => t
  | n :: ns => entriesUnder dir (entriesOf dir t n) ns

end

/-- Every node under its full path; of two with one path the later counts. -/
def entries (v : Volume) : Table Entry := entriesUnder [] [] v.root

/-- The contents of the file listed under a path. -/
def listedFile (v : Volume) (p : Bytes) : Option Bytes :=
  match v.entries.find? p with
  | none => none
  | some e =>
    if e.kind = Node.fileKind ∧ e.start ≤ e.stop ∧ e.stop ≤ v.data.length then
      some (v.slice e.start e.stop)
    else none

/-- The contents of every file, by full path. -/
def files (v : Volume) : Table Bytes :=
  v.entries.filterMap fun (p, e) =>
    if e.kind = Node.fileKind then some (p, v.slice e.start e.stop) else none

/-! ## Reading -/

mutual

/-- The first file node, from the root down, that points outside a number of octets. -/
def outside? (size : Nat) : Node → Option Node
  | ⟨name, kind, start, stop, children⟩ =>
    if kind = Node.fileKind ∧ (start > stop ∨ stop > size) then some ⟨name, kind, start, stop, children⟩
    else anyOutside? size children

def anyOutside? (size : Nat) : List Node → Option Node
  | [] => none
  | n :: ns => (outside? size n).or (anyOutside? size ns)

end

/-- The nodes of an index; no octets at all are an empty index. -/
def readIndex (index : Bytes) (k : Codec := .standard) : Option (List Node) :=
  if index.isEmpty then some [] else k.nodes? index

/-- Reads a volume. -/
def decode (name raw : Bytes) (k : Codec := .standard) : Except Report Volume := do
  let label := utf8 "volume " ++ name
  let (index, rest) ← Frame.decode (label ++ utf8 " index") raw
  let (data, rest) ← Frame.decode (label ++ utf8 " data") rest
  if !rest.isEmpty then
    throw (Frame.invalid (utf8 "volume " ++ name.quote ++ utf8 " has " ++ Bytes.decimal rest.length
      ++ utf8 " trailing bytes"))
  match readIndex index k with
  | none => throw (.load (utf8 "decode " ++ label ++ utf8 " index") (some .external))
  | some root =>
    match anyOutside? data.length root with
    | some n =>
      throw (Frame.invalid (utf8 "entry " ++ n.name.quote ++ utf8 " points outside the volume data ["
        ++ Bytes.decimal n.start ++ utf8 ", " ++ Bytes.decimal n.stop ++ utf8 ")"))
    | none => return ⟨root, data⟩

/-! ## Writing -/

/-- Each file with the place of its contents, when they stand one after the other. -/
def spans : Nat → Table Bytes → List (Bytes × Nat × Nat)
  | _, [] => []
  | at0, (p, d) :: fs => (p, at0, at0 + d.length) :: spans (at0 + d.length) fs

/-- The nodes of a set of files: as a tree of directories, or all at the root under
their full names. -/
def indexOf (flat : Bool) (files : Table Bytes) : List Node :=
  (spans 0 files).foldl (fun root (p, start, stop) =>
    if flat then root ++ [Node.file p start stop]
    else Node.plant (Node.file (p.afterLast 47) start stop)
      ((Bytes.split 47 (p.uptoLast 47)).filter fun seg => !seg.isEmpty) root) []

/-- The volume that holds a set of files. -/
def ofFiles (flat : Bool) (files : Table Bytes) : Volume := ⟨indexOf flat files, files.flatMap (·.2)⟩

/-- A volume as octets: its index, then its data. -/
def encode (v : Volume) : Bytes :=
  Frame.encode (if v.root.isEmpty then Cbor.Item.null else Node.listItem v.root).encode
    ++ Frame.encode v.data

end Volume

end Bindery
