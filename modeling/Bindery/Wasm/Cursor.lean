/-
Reading the binary format from front to back. A cursor knows how many octets
are behind it and holds those ahead. A reading step either gives a value or a
fault, and in both cases the cursor it leaves: a fault in the middle of a number
or a name leaves the cursor where the fault was found.
-/
import Bindery.Bytes.Utf8
import Bindery.Wasm.Fault

namespace Bindery.Wasm

/-- A position in the octets of a module. -/
structure Cursor where
  /-- octets already read -/
  position : Nat
  /-- octets still ahead -/
  rest : Bytes
  deriving DecidableEq, Repr

namespace Cursor

def ofBytes (data : Bytes) : Cursor := ⟨0, data⟩

/-- The number of octets still ahead. -/
def remaining (c : Cursor) : Nat := c.rest.length

end Cursor

/-- A reading step. -/
abbrev Read := EStateM Fault Cursor

namespace Read

/-- The number of octets read so far. -/
def position : Read Nat := fun c => .ok c.position c

/-- One octet. -/
def byte : Read UInt8 := fun c =>
  match c.rest with
  | [] => .error .endOfInput c
  | b :: s => .ok b ⟨c.position + 1, s⟩

/-- Exactly `n` octets. -/
def take (n : Int) : Read Bytes := fun c =>
  if n < 0 || c.rest.length < n.toNat then .error .shortInput c
  else .ok (c.rest.take n.toNat) ⟨c.position + n.toNat, c.rest.drop n.toNat⟩

/-- Moves past exactly `n` octets. -/
def skip (n : Int) : Read Unit := fun c =>
  if n < 0 || c.rest.length < n.toNat then .error .shortInput c
  else .ok () ⟨c.position + n.toNat, c.rest.drop n.toNat⟩

/-- An unsigned number in groups of seven bits, least significant first, all but
the last marked by their high bit; at most `groups` of them. -/
def groups : Nat → Read Nat
  | 0 => do throw (.overflow (← position))
  | n + 1 => do
    let b ← byte
    if b < 128 then return b.toNat
    return (b.toNat - 128) + 128 * (← groups n)

/-- An unsigned number of at most five groups; bits past the 32nd are dropped. -/
def u32 : Read UInt32 := do return UInt32.ofNat (← groups 5)

/-- An unsigned number of at most ten groups; bits past the 64th are dropped. -/
def u64 : Read UInt64 := do return UInt64.ofNat (← groups 10)

/-- A name: its length, then that many octets of UTF-8. -/
def name : Read Bytes := do
  let data ← take (← u32).toNat
  if Utf8.valid data then return data
  throw (.badName (← position))

/-- Four octets, least significant first. -/
def word : Read UInt32 := do
  let data ← take 4
  return UInt32.ofNat (data.foldr (fun b n => b.toNat + 256 * n) 0)

/-- Says which part of the module was being read when a step fails. -/
def part {α : Type} (what : Bytes) (step : Read α) : Read α := fun c =>
  match step c with
  | .ok a c' => .ok a c'
  | .error f c' => .error (.reading what c'.position f) c'

end Read

end Bindery.Wasm
