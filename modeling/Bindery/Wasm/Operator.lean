/-
The operators of the instruction set, by their codes: what they take from the stack of
operands and what they leave there. An operator is here when its signature is all there is
to say about it; instructions that name something of the module are elsewhere.
-/
import Bindery.Wasm.Strict

namespace Bindery.Wasm.Operator

open ValType

/-- One operand of a type and a result of another. -/
def unary (t r : ValType) : FuncType := ⟨[t], [r]⟩

/-- Two operands of a type and a result of another. -/
def binary (t r : ValType) : FuncType := ⟨[t, t], [r]⟩

/-- The signature of the first row whose range of codes holds the code. -/
def lookup (rows : List (Nat × Nat × FuncType)) (code : Nat) : Option FuncType :=
  (rows.find? fun (first, last, _) => first ≤ code && code ≤ last).map fun (_, _, t) => t

/-- Comparisons, arithmetic and conversions of numbers. -/
def numeric : List (Nat × Nat × FuncType) :=
  [(0x45, 0x45, unary i32 i32), (0x46, 0x4F, binary i32 i32),
   (0x50, 0x50, unary i64 i32), (0x51, 0x5A, binary i64 i32),
   (0x5B, 0x60, binary f32 i32), (0x61, 0x66, binary f64 i32),
   (0x67, 0x69, unary i32 i32), (0x6A, 0x78, binary i32 i32),
   (0x79, 0x7B, unary i64 i64), (0x7C, 0x8A, binary i64 i64),
   (0x8B, 0x91, unary f32 f32), (0x92, 0x98, binary f32 f32),
   (0x99, 0x9F, unary f64 f64), (0xA0, 0xA6, binary f64 f64),
   (0xA7, 0xA7, unary i64 i32), (0xA8, 0xA9, unary f32 i32), (0xAA, 0xAB, unary f64 i32),
   (0xAC, 0xAD, unary i32 i64), (0xAE, 0xAF, unary f32 i64), (0xB0, 0xB1, unary f64 i64),
   (0xB2, 0xB3, unary i32 f32), (0xB4, 0xB5, unary i64 f32), (0xB6, 0xB6, unary f64 f32),
   (0xB7, 0xB8, unary i32 f64), (0xB9, 0xBA, unary i64 f64), (0xBB, 0xBB, unary f32 f64),
   (0xBC, 0xBC, unary f32 i32), (0xBD, 0xBD, unary f64 i64), (0xBE, 0xBE, unary i32 f32),
   (0xBF, 0xBF, unary i64 f64), (0xC0, 0xC1, unary i32 i32), (0xC2, 0xC4, unary i64 i64)]

/-- Conversions to integers that stop at the largest and the smallest, by their second code. -/
def saturating : List (Nat × Nat × FuncType) :=
  [(0, 1, unary f32 i32), (2, 3, unary f64 i32), (4, 5, unary f32 i64), (6, 7, unary f64 i64)]

/-- Operators on vectors, by their second code. -/
def vectors : List (Nat × Nat × FuncType) :=
  let one := unary v128 v128
  let two := binary v128 v128
  let test := unary v128 i32
  let shift : FuncType := ⟨[v128, i32], [v128]⟩
  [(0x0E, 0x0E, two), (0x0F, 0x11, unary i32 v128), (0x12, 0x12, unary i64 v128),
   (0x13, 0x13, unary f32 v128), (0x14, 0x14, unary f64 v128), (0x23, 0x4C, two),
   (0x4D, 0x4D, one), (0x4E, 0x51, two), (0x52, 0x52, ⟨[v128, v128, v128], [v128]⟩),
   (0x53, 0x53, test), (0x5E, 0x62, one), (0x63, 0x64, test), (0x65, 0x66, two),
   (0x67, 0x6A, one), (0x6B, 0x6D, shift), (0x6E, 0x73, two), (0x74, 0x75, one),
   (0x76, 0x79, two), (0x7A, 0x7A, one), (0x7B, 0x7B, two), (0x7C, 0x81, one),
   (0x82, 0x82, two), (0x83, 0x84, test), (0x85, 0x86, two), (0x87, 0x8A, one),
   (0x8B, 0x8D, shift), (0x8E, 0x93, two), (0x94, 0x94, one), (0x95, 0x99, two),
   (0x9B, 0x9F, two), (0xA0, 0xA1, one), (0xA3, 0xA4, test), (0xA7, 0xAA, one),
   (0xAB, 0xAD, shift), (0xAE, 0xAE, two), (0xB1, 0xB1, two), (0xB5, 0xBA, two),
   (0xBC, 0xBF, two), (0xC0, 0xC1, one), (0xC3, 0xC4, test), (0xC7, 0xCA, one),
   (0xCB, 0xCD, shift), (0xCE, 0xCE, two), (0xD1, 0xD1, two), (0xD5, 0xDF, two),
   (0xE0, 0xE1, one), (0xE3, 0xE3, one), (0xE4, 0xEB, two), (0xEC, 0xED, one),
   (0xEF, 0xEF, one), (0xF0, 0xF7, two), (0xF8, 0xFF, one)]

/-- A range of codes that all read or write so many octets, of memory or of a vector. -/
structure Access where
  first : Nat
  last : Nat
  width : Nat
  signature : FuncType
  deriving DecidableEq, Repr

namespace Access

def load (first last width : Nat) (t : ValType) : Access := ⟨first, last, width, ⟨[i32], [t]⟩⟩

def store (first last width : Nat) (t : ValType) : Access := ⟨first, last, width, ⟨[i32, t], []⟩⟩

/-- The first row whose range of codes holds the code. -/
def find? (rows : List Access) (code : Nat) : Option Access :=
  rows.find? fun a => a.first ≤ code && code ≤ a.last

end Access

/-- Loads and stores of numbers. -/
def memory : List Access :=
  [.load 0x28 0x28 4 i32, .load 0x29 0x29 8 i64, .load 0x2A 0x2A 4 f32, .load 0x2B 0x2B 8 f64,
   .load 0x2C 0x2D 1 i32, .load 0x2E 0x2F 2 i32, .load 0x30 0x31 1 i64, .load 0x32 0x33 2 i64,
   .load 0x34 0x35 4 i64, .store 0x36 0x36 4 i32, .store 0x37 0x37 8 i64, .store 0x38 0x38 4 f32,
   .store 0x39 0x39 8 f64, .store 0x3A 0x3A 1 i32, .store 0x3B 0x3B 2 i32, .store 0x3C 0x3C 1 i64,
   .store 0x3D 0x3D 2 i64, .store 0x3E 0x3E 4 i64]

/-- Loads of vectors, by their second code. -/
def vectorLoads : List Access :=
  [.load 0x00 0x00 16 v128, .load 0x01 0x06 8 v128, .load 0x07 0x07 1 v128, .load 0x08 0x08 2 v128,
   .load 0x09 0x09 4 v128, .load 0x0A 0x0A 8 v128, .load 0x5C 0x5C 4 v128, .load 0x5D 0x5D 8 v128]

/-- Loads and stores of one lane of a vector, by their second code. A vector of sixteen octets
has as many lanes as the width of one goes into it. -/
def laneAccesses : List Access :=
  let load (code width : Nat) : Access := ⟨code, code, width, ⟨[i32, v128], [v128]⟩⟩
  [load 0x54 1, load 0x55 2, load 0x56 4, load 0x57 8,
   .store 0x58 0x58 1 v128, .store 0x59 0x59 2 v128, .store 0x5A 0x5A 4 v128, .store 0x5B 0x5B 8 v128]

/-- Reading a lane of a vector and setting one, by the second code, with the width of a lane. -/
def lanes : List Access :=
  let read (first last width : Nat) (t : ValType) : Access := ⟨first, last, width, ⟨[v128], [t]⟩⟩
  let set (code width : Nat) (t : ValType) : Access := ⟨code, code, width, ⟨[v128, t], [v128]⟩⟩
  [read 0x15 0x16 1 i32, set 0x17 1 i32, read 0x18 0x19 2 i32, set 0x1A 2 i32,
   read 0x1B 0x1B 4 i32, set 0x1C 4 i32, read 0x1D 0x1D 8 i64, set 0x1E 8 i64,
   read 0x1F 0x1F 4 f32, set 0x20 4 f32, read 0x21 0x21 8 f64, set 0x22 8 f64]

end Bindery.Wasm.Operator
