/-
Numbers as a fixed count of octets, least or most significant octet first.
-/
import Bindery.Bytes

namespace Bindery.Endian

/-- The low `count` octets of a number, least significant first. -/
def little : Nat → Nat → Bytes
  | 0, _ => []
  | count + 1, n => n.toUInt8 :: little count (n / 256)

/-- The number whose octets, least significant first, are given. -/
def ofLittle (s : Bytes) : Nat := s.foldr (fun b n => b.toNat + 256 * n) 0

/-- The low `count` octets of a number, most significant first. -/
def big (count n : Nat) : Bytes := (little count n).reverse

/-- The number whose octets, most significant first, are given. -/
def ofBig (s : Bytes) : Nat := s.foldl (fun n b => 256 * n + b.toNat) 0

end Bindery.Endian
