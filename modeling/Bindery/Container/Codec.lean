/-
What the parts of a container are read with. A container's own format is frames and a
header; what its frames hold is read by a codec, which gives the nodes of an index, the
manifest and the note that names the package, and makes the checksum.
-/
import Bindery.Blake3
import Bindery.Container.Manifest
import Bindery.Container.Node

namespace Bindery

/-- Readings of what is stored in a container. Each may refuse what it is given. -/
structure Codec where
  /-- the nodes of an index that is not empty -/
  nodes? : Bytes → Option (List Node)
  manifest? : Bytes → Option Manifest
  /-- the annotation that names the package -/
  note? : Cbor.Item → Option PackageNote
  /-- the checksum of the octets behind the header -/
  digest : Bytes → Bytes

/-- Items of CBOR, and BLAKE3 for the checksum. -/
def Codec.standard : Codec where
  nodes? s := (Cbor.parse s).bind Node.listOfItem?
  manifest? s := (Cbor.parse s).bind Manifest.ofItem?
  note? := PackageNote.ofItem?
  digest := Blake3.hash

end Bindery
