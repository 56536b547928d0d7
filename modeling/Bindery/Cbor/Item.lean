/-
CBOR data items, octet for octet. An item keeps how its numbers and lengths were
written, so that `encode` gives back exactly the octets an item was read from and
values can be kept as they came.
-/
import Bindery.Bytes.Endian

namespace Bindery.Cbor

/-- How the number in the head of an item is written. -/
inductive Width where
  /-- inside the first octet -/
  | tiny
  | one
  | two
  | four
  | eight
  deriving DecidableEq, Repr, Inhabited

namespace Width

/-- The octets a number takes behind the first octet. -/
def size : Width → Nat
  | .tiny => 0
  | .one => 1
  | .two => 2
  | .four => 4
  | .eight => 8

/-- The low bits of the first octet for a number written behind it. -/
def info : Width → Nat
  | .tiny => 0
  | .one => 24
  | .two => 25
  | .four => 26
  | .eight => 27

end Width

/-- The number in the head of an item. -/
structure Arg where
  width : Width
  value : Nat
  deriving DecidableEq, Repr, Inhabited

namespace Arg

/-- A number in as few octets as it takes. -/
def ofNat (n : Nat) : Arg :=
  if n < 24 then ⟨.tiny, n⟩
  else if n < 0x100 then ⟨.one, n⟩
  else if n < 0x10000 then ⟨.two, n⟩
  else if n < 0x100000000 then ⟨.four, n⟩
  else ⟨.eight, n⟩

/-- The head of an item of a major type. -/
def encode (major : Nat) (a : Arg) : Bytes :=
  match a.width with
  | .tiny => [(major * 32 + a.value).toUInt8]
  | w => (major * 32 + w.info).toUInt8 :: Endian.big w.size a.value

end Arg

/-- A data item. The open forms have no length of their own and end with a break. -/
inductive Item where
  | uint (arg : Arg)
  /-- the number below minus one by so much -/
  | nint (arg : Arg)
  | bytes (arg : Arg) (data : Bytes)
  | openBytes (chunks : List (Arg × Bytes))
  | text (arg : Arg) (data : Bytes)
  | openText (chunks : List (Arg × Bytes))
  | array (arg : Arg) (items : List Item)
  | openArray (items : List Item)
  | map (arg : Arg) (entries : List (Item × Item))
  | openMap (entries : List (Item × Item))
  | tag (arg : Arg) (content : Item)
  | simple (arg : Arg)
  | float (arg : Arg)
  deriving Repr, Inhabited

/-- The head of an open item. -/
def openHead (major : Nat) : UInt8 := (major * 32 + 31).toUInt8

/-- The end of an open item. -/
def breakMark : UInt8 := 0xFF

/-- Chunks of a string, each with its length. -/
def encodeChunks (major : Nat) (chunks : List (Arg × Bytes)) : Bytes :=
  chunks.flatMap fun (a, s) => a.encode major ++ s

namespace Item

mutual

/-- The octets of an item. -/
def encode : Item → Bytes
  | .uint a => a.encode 0
  | .nint a => a.encode 1
  | .bytes a s => a.encode 2 ++ s
  | .openBytes cs => openHead 2 :: encodeChunks 2 cs ++ [breakMark]
  | .text a s => a.encode 3 ++ s
  | .openText cs => openHead 3 :: encodeChunks 3 cs ++ [breakMark]
  | .array a is => a.encode 4 ++ encodeItems is
  | .openArray is => openHead 4 :: encodeItems is ++ [breakMark]
  | .map a es => a.encode 5 ++ encodeEntries es
  | .openMap es => openHead 5 :: encodeEntries es ++ [breakMark]
  | .tag a i => a.encode 6 ++ i.encode
  | .simple a => a.encode 7
  | .float a => a.encode 7

def encodeItems : List Item → Bytes
  | [] => []
  | i :: is => i.encode ++ encodeItems is

def encodeEntries : List (Item × Item) → Bytes
  | [] => []
  | (k, v) :: es => k.encode ++ v.encode ++ encodeEntries es

end

end Item

/-! ## Reading -/

/-- The deepest nesting of arrays, maps and tags inside tags. -/
def maxDepth : Nat := 32

/-- The most elements of an array and the most pairs of a map. -/
def maxCount : Nat := 131072

/-- A step of reading: a value and the octets that are left. -/
abbrev Parse (α : Type) := Bytes → Option (α × Bytes)

/-- The first octet of an item, taken apart. -/
inductive Head where
  | sized (major : Nat) (arg : Arg)
  | openEnded (major : Nat)

/-- Exactly `n` octets. -/
def takeN (n : Nat) : Parse Bytes := fun s => if s.length < n then none else some (s.take n, s.drop n)

/-- A number of a width behind the first octet. -/
def wide (major : Nat) (w : Width) : Parse Head := fun s => do
  let (d, s) ← takeN w.size s
  return (.sized major ⟨w, Endian.ofBig d⟩, s)

/-- The head of an item. A break is no item. -/
def head : Parse Head
  | [] => none
  | b :: s =>
    let major := b.toNat / 32
    let info := b.toNat % 32
    if info < 24 then some (.sized major ⟨.tiny, info⟩, s)
    else if info = 24 then wide major .one s
    else if info = 25 then wide major .two s
    else if info = 26 then wide major .four s
    else if info = 27 then wide major .eight s
    else if info = 31 ∧ 2 ≤ major ∧ major ≤ 5 then some (.openEnded major, s)
    else none

/-- `n` values one after the other. -/
def times {α : Type} (p : Parse α) : Nat → Parse (List α)
  | 0, s => some ([], s)
  | n + 1, s => do
    let (a, s) ← p s
    let (as, s) ← times p n s
    return (a :: as, s)

/-- Values up to a break, at most as many as `fuel`. -/
def untilBreak {α : Type} (p : Parse α) : Nat → Parse (List α)
  | 0, _ => none
  | _, [] => none
  | fuel + 1, b :: s =>
    if b = breakMark then some ([], s)
    else do
      let (a, s) ← p (b :: s)
      let (as, s) ← untilBreak p fuel s
      return (a :: as, s)

/-- A chunk of a string of a major type; its length is given. -/
def chunk (major : Nat) : Parse (Arg × Bytes) := fun s => do
  match ← head s with
  | (.sized m a, s) =>
    if m = major then
      let (d, s) ← takeN a.value s
      return ((a, d), s)
    else none
  | _ => none

/-- A key and its value. -/
def pair (p : Parse Item) : Parse (Item × Item) := fun s => do
  let (k, s) ← p s
  let (v, s) ← p s
  return ((k, v), s)

/-- Some values, no more than allowed. -/
def bounded {α : Type} (p : Parse (List α)) : Parse (List α) := fun s => do
  let (as, s) ← p s
  if as.length > maxCount then none else return (as, s)

/-- One item; `depth` is how deep it lies, and `fuel` bounds the nesting. -/
def item : Nat → Nat → Parse Item
  | 0, _, _ => none
  | fuel + 1, depth, s => do
    match ← head s with
    | (.sized major a, s) =>
      match major with
      | 0 => return (.uint a, s)
      | 1 => return (.nint a, s)
      | 2 => do
        let (d, s) ← takeN a.value s
        return (.bytes a d, s)
      | 3 => do
        let (d, s) ← takeN a.value s
        return (.text a d, s)
      | 4 =>
        if depth ≥ maxDepth ∨ a.value > maxCount then none
        else do
          let (is, s) ← times (item fuel (depth + 1)) a.value s
          return (.array a is, s)
      | 5 =>
        if depth ≥ maxDepth ∨ a.value > maxCount then none
        else do
          let (es, s) ← times (pair (item fuel (depth + 1))) a.value s
          return (.map a es, s)
      | 6 =>
        let nested := s.head?.any fun b => b.toNat / 32 == 6
        if nested ∧ depth ≥ maxDepth then none
        else do
          let (i, s) ← item fuel (if nested then depth + 1 else depth) s
          return (.tag a i, s)
      | _ =>
        match a.width with
        | .tiny => return (.simple a, s)
        | .one => if a.value < 32 then none else return (.simple a, s)
        | _ => return (.float a, s)
    | (.openEnded major, s) =>
      match major with
      | 2 => do
        let (cs, s) ← untilBreak (chunk 2) (s.length + 1) s
        return (.openBytes cs, s)
      | 3 => do
        let (cs, s) ← untilBreak (chunk 3) (s.length + 1) s
        return (.openText cs, s)
      | 4 =>
        if depth ≥ maxDepth then none
        else do
          let (is, s) ← bounded (untilBreak (item fuel (depth + 1)) (s.length + 1)) s
          return (.openArray is, s)
      | _ =>
        if depth ≥ maxDepth then none
        else do
          let (es, s) ← bounded (untilBreak (pair (item fuel (depth + 1))) (s.length + 1)) s
          return (.openMap es, s)

/-- The one item that some octets are, with nothing behind it. -/
def parse (s : Bytes) : Option Item :=
  match item (s.length + 1) 0 s with
  | some (i, []) => some i
  | _ => none

end Bindery.Cbor
