/-
The layout of values in linear memory. Addresses are 32-bit words and sizes are
computed in them; the layout of a structure or a variant is computed from the
layouts of its parts alone.
-/
import Bindery.Canonical.Shape

namespace Bindery

/-- How many octets a value takes, and which addresses it may stand at. -/
structure Layout where
  size : UInt32
  align : UInt32
  deriving DecidableEq, Repr, Inhabited

namespace Layout

/-- The least multiple of `align` that is not below `off`. -/
def alignTo (off align : UInt32) : UInt32 := (off + align - 1) / align * align

/-- The size of the number that says which of `n` cases a value is. -/
def discriminantSize (n : Nat) : UInt32 := if n ≤ 256 then 1 else if n ≤ 65536 then 2 else 4

/-- The layout of a set of `n` flags. -/
def ofFlags (n : Nat) : Layout :=
  if n = 0 then ⟨0, 1⟩
  else if n ≤ 8 then ⟨1, 1⟩
  else if n ≤ 16 then ⟨2, 2⟩
  else ⟨4 * UInt32.ofNat ((n + 31) / 32), 4⟩

/-- The layout of an enumeration of `n` cases: its discriminant. -/
def ofEnum (n : Nat) : Layout := ⟨discriminantSize n, discriminantSize n⟩

/-- The end of members laid out one after the other from `off` on. -/
def endFrom (off : UInt32) : List Layout → UInt32
  | [] => off
  | m :: ms => endFrom (alignTo off m.align + m.size) ms

/-- The strictest alignment of some members. -/
def maxAlign (ms : List Layout) : UInt32 := ms.foldl (fun a m => max a m.align) 1

/-- The largest size of some members. -/
def maxSize (ms : List Layout) : UInt32 := ms.foldl (fun s m => max s m.size) 0

/-- Members one after the other, each at its alignment. -/
def ofStruct (ms : List Layout) : Layout := ⟨alignTo (endFrom 0 ms) (maxAlign ms), maxAlign ms⟩

/-- Where each member of a structure starts, from `off` on. -/
def offsetsFrom (off : UInt32) : List Layout → List UInt32
  | [] => []
  | m :: ms => alignTo off m.align :: offsetsFrom (alignTo off m.align + m.size) ms

/-- Where each member of a structure starts. -/
def offsets (ms : List Layout) : List UInt32 := offsetsFrom 0 ms

/-- Where the payload of a variant starts: behind the discriminant, aligned for every case. -/
def payloadOffset (cases : List Layout) : UInt32 :=
  alignTo (discriminantSize cases.length) (maxAlign cases)

/-- A discriminant and room for the largest payload. -/
def ofVariant (cases : List Layout) : Layout :=
  let align := max (discriminantSize cases.length) (maxAlign cases)
  ⟨alignTo (payloadOffset cases + maxSize cases) align, align⟩

/-- A pointer and a length. -/
def ofSlice : Layout := ⟨8, 4⟩

/-- Nothing. -/
def ofBlank : Layout := ⟨0, 1⟩

def ofPrim : Prim → Layout
  | .bool | .u8 | .s8 => ⟨1, 1⟩
  | .u16 | .s16 => ⟨2, 2⟩
  | .u32 | .s32 | .f32 | .char => ⟨4, 4⟩
  | .u64 | .s64 | .f64 => ⟨8, 8⟩

end Layout

namespace Shape

mutual

/-- The layout of a type. -/
def layout : Shape → Layout
  | .blank => .ofBlank
  | .prim p => .ofPrim p
  | .string => .ofSlice
  | .errorContext => ⟨4, 4⟩
  | .alias _ t => t.layout
  | .record _ fs => .ofStruct (namedLayouts fs)
  | .enum _ cs => .ofEnum cs.length
  | .flags _ fs => .ofFlags fs.length
  | .variant _ cs => .ofVariant (namedLayouts cs)
  | .list _ => .ofSlice
  | .option t => .ofVariant [.ofBlank, t.layout]
  | .result ok err => .ofVariant [ok.layout, err.layout]
  | .tuple ts => .ofStruct (layouts ts)

/-- The layouts of fields or case payloads. -/
def namedLayouts : List (Bytes × Shape) → List Layout
  | [] => []
  | (_, t) :: fs => t.layout :: namedLayouts fs

/-- The layouts of types. -/
def layouts : List Shape → List Layout
  | [] => []
  | t :: ts => t.layout :: layouts ts

end

end Shape

end Bindery
