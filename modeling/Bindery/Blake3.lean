/-
The BLAKE3 hash with its default output of 32 octets: the input is cut into chunks
of 1024 octets, every chunk is compressed block by block to a chaining value, and
the chunks are joined in pairs to a tree whose root gives the digest.
-/
import Bindery.Bytes.Endian

namespace Bindery.Blake3

/-- The words that start the chaining value. -/
def start : Array UInt32 :=
  #[0x6A09E667, 0xBB67AE85, 0x3C6EF372, 0xA54FF53A, 0x510E527F, 0x9B05688C, 0x1F83D9AB, 0x5BE0CD19]

/-- The order in which a round takes the message words of the round before. -/
def permutation : List Nat := [2, 6, 3, 10, 7, 0, 4, 13, 1, 11, 12, 5, 9, 14, 15, 8]

def chunkStart : UInt32 := 1
def chunkEnd : UInt32 := 2
def parent : UInt32 := 4
def root : UInt32 := 8

def rotateRight (w n : UInt32) : UInt32 := (w >>> n) ||| (w <<< (32 - n))

/-- Mixes two message words into four words of the state. -/
def mix (s : Array UInt32) (a b c d : Nat) (x y : UInt32) : Array UInt32 :=
  let va := s.getD a 0 + s.getD b 0 + x
  let vd := rotateRight (s.getD d 0 ^^^ va) 16
  let vc := s.getD c 0 + vd
  let vb := rotateRight (s.getD b 0 ^^^ vc) 12
  let va := va + vb + y
  let vd := rotateRight (vd ^^^ va) 8
  let vc := vc + vd
  let vb := rotateRight (vb ^^^ vc) 7
  (((s.setIfInBounds a va).setIfInBounds b vb).setIfInBounds c vc).setIfInBounds d vd

/-- One round: the columns of the state, then its diagonals. -/
def round (s m : Array UInt32) : Array UInt32 :=
  let w (i : Nat) := m.getD i 0
  let s := mix s 0 4 8 12 (w 0) (w 1)
  let s := mix s 1 5 9 13 (w 2) (w 3)
  let s := mix s 2 6 10 14 (w 4) (w 5)
  let s := mix s 3 7 11 15 (w 6) (w 7)
  let s := mix s 0 5 10 15 (w 8) (w 9)
  let s := mix s 1 6 11 12 (w 10) (w 11)
  let s := mix s 2 7 8 13 (w 12) (w 13)
  mix s 3 4 9 14 (w 14) (w 15)

/-- A number of rounds, the message words permuted between two. -/
def rounds : Nat → Array UInt32 → Array UInt32 → Array UInt32
  | 0, s, _ => s
  | n + 1, s, m => rounds n (round s m) (permutation.map (fun i => m.getD i 0)).toArray

/-- What is left to compress of a node of the tree: its chaining value, its last
block and what marks the node. -/
structure Node where
  cv : Array UInt32
  block : Array UInt32
  counter : Nat
  length : UInt32
  flags : UInt32

/-- The eight words that a node is compressed to. -/
def Node.compress (n : Node) (extra : UInt32) : Array UInt32 :=
  let s := n.cv ++ start.extract 0 4 ++
    #[UInt32.ofNat n.counter, UInt32.ofNat (n.counter / 0x100000000), n.length, n.flags ||| extra]
  let s := rounds 7 s n.block
  (Array.range 8).map fun i => s.getD i 0 ^^^ s.getD (i + 8) 0

/-- The words of a block of at most 64 octets, filled up with zeros. -/
def words : Nat → Bytes → List UInt32
  | 0, _ => []
  | n + 1, s => UInt32.ofNat (Endian.ofLittle (s.take 4)) :: words n (s.drop 4)

/-- Compresses the blocks of a chunk; the last one stays in the node. -/
def chunkFrom (counter : Nat) : Nat → Array UInt32 → UInt32 → Bytes → Node
  | 0, cv, flags, s => ⟨cv, (words 16 s).toArray, counter, UInt32.ofNat s.length, flags ||| chunkEnd⟩
  | fuel + 1, cv, flags, s =>
    if s.length ≤ 64 then
      ⟨cv, (words 16 s).toArray, counter, UInt32.ofNat s.length, flags ||| chunkEnd⟩
    else
      let n : Node := ⟨cv, (words 16 (s.take 64)).toArray, counter, 64, flags⟩
      chunkFrom counter fuel (n.compress 0) 0 (s.drop 64)

/-- The chunks of an input, counted from `counter`; an empty input is one empty chunk. -/
def chunks : Nat → Nat → Bytes → List Node
  | 0, counter, s => [chunkFrom counter 16 start chunkStart s]
  | fuel + 1, counter, s =>
    let rest := s.drop 1024
    let c := chunkFrom counter 16 start chunkStart (s.take 1024)
    if rest.isEmpty then [c] else c :: chunks fuel (counter + 1) rest

/-- Two nodes under a parent. -/
def join (a b : Node) : Node := ⟨start, a.compress 0 ++ b.compress 0, 0, 64, parent⟩

/-- Joins neighbours; a node without one moves up as it is. -/
def pairUp : List Node → List Node
  | a :: b :: ns => join a b :: pairUp ns
  | ns => ns

/-- Joins level by level until one node is left. -/
def tree : Nat → List Node → List Node
  | 0, ns => ns
  | fuel + 1, ns => if ns.length ≤ 1 then ns else tree fuel (pairUp ns)

/-- The digest of a root. -/
def Node.digest (n : Node) : Bytes :=
  (List.range 8).flatMap fun i => Endian.little 4 ((n.compress root).getD i 0).toNat

/-- The digest of an input: 32 octets. -/
def hash (s : Bytes) : Bytes :=
  let count := s.length / 1024 + 1
  match tree count (chunks count 0 s) with
  | n :: _ => n.digest
  | [] => Endian.little 32 0

end Bindery.Blake3
