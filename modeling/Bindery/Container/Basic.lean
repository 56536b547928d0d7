/-
A container: a header with a checksum, a manifest, the atoms (compiled modules) and
named volumes. `Container.parse` accepts nothing but a whole container, and
`Container.volume` and `Container.atom` answer only for the container's own package.
Containers are read with the standard codec unless another is given.
-/
import Bindery.Container.Volume

namespace Bindery

/-- A parsed container. -/
structure Container where
  /-- `name@version`, or nothing when the manifest does not name the package -/
  id : Bytes
  manifest : Manifest
  atoms : Volume
  volumes : Table Volume

namespace Container

/-! ## The header -/

def magic : Bytes := 0 :: utf8 "webc"

def version : Bytes := utf8 "001"

def tagSize : Nat := 16

def sumSize : Nat := 32

def headerSize : Nat := 56

/-- The name of a checksum, filled up with dashes. -/
def padTag (name : Bytes) : Bytes := name ++ List.replicate (tagSize - name.length) 45

def blake3Tag : Bytes := padTag (utf8 "blake3")

def noneTag : Bytes := padTag []

/-- Octets without the dashes at their end. -/
def withoutDashes (s : Bytes) : Bytes := (s.reverse.dropWhile (· == 45)).reverse

/-- Checks the header and gives the octets behind it. -/
def body (s : Bytes) (k : Codec := .standard) : Except Report Bytes :=
  if s.length < headerSize then
    .error (Frame.invalid (utf8 "container is " ++ Bytes.decimal s.length
      ++ utf8 " bytes, shorter than its " ++ Bytes.decimal headerSize ++ utf8 " byte header"))
  else if s.take magic.length ≠ magic then
    .error (Frame.invalid (utf8 "bad magic " ++ (Bytes.quote (s.take magic.length))))
  else
    let s := s.drop magic.length
    let v := s.take version.length
    if v ≠ version then
      .error <| .ofFailure
        { phase := .load
          kind := .unsupported
          detail := utf8 "unsupported container version " ++ Bytes.quote v
          value := some v }
    else
      let s := s.drop version.length
      let tag := s.take tagSize
      let sum := (s.drop tagSize).take sumSize
      let rest := s.drop (tagSize + sumSize)
      if tag = blake3Tag then
        let got := k.digest rest
        if got = sum then .ok rest
        else .error (.simple .load .checksum (utf8 "blake3 checksum mismatch: header " ++ Bytes.hex sum
          ++ utf8 ", computed " ++ Bytes.hex got))
      else if tag = noneTag then .ok rest
      else .error <| .ofFailure
        { phase := .load
          kind := .unsupported
          detail := utf8 "unsupported checksum " ++ Bytes.quote (withoutDashes tag)
          value := some tag }

/-! ## The parts behind the header -/

/-- A volume behind its name, and what follows it. -/
def namedVolume (s : Bytes) : Except Report ((Bytes × Bytes) × Bytes) := do
  let (name, s) ← Frame.decode (utf8 "volume name") s
  let (raw, s) ← Frame.decode (utf8 "volume " ++ name) s
  return ((name, raw), s)

/-- The volumes up to the end, added to those already read. A named volume takes at
least sixteen octets, so fewer than `fuel` of them fit into `fuel` octets. -/
def readVolumes (fuel : Nat) (vs : Table Volume) (s : Bytes) (k : Codec := .standard) :
    Except Report (Table Volume) :=
  match fuel, s with
  | _, [] => .ok vs
  | 0, _ => .ok vs
  | fuel + 1, s => do
    let ((name, raw), s) ← namedVolume s
    if vs.contains name then
      throw (Frame.invalid (utf8 "volume " ++ name.quote ++ utf8 " appears twice"))
    readVolumes fuel (vs.insert name (← Volume.decode name raw k)) s k

/-- The manifest in the first frame. -/
def readManifest (s : Bytes) (k : Codec := .standard) : Except Report Manifest :=
  match k.manifest? s with
  | some m => .ok m
  | none => .error (.load (utf8 "decode manifest") (some .external))

/-- The package that a manifest names. -/
def idOf (m : Manifest) (k : Codec := .standard) : Except Report Bytes := do
  match ← m.annotation PackageNote.key k.note? with
  | some n => return n.name ++ utf8 "@" ++ n.version
  | none => return []

/-- Reads a container. -/
def parse (data : Bytes) (k : Codec := .standard) : Except Report Container := do
  let s ← body data k
  let (raw, s) ← Frame.decode (utf8 "manifest") s
  let manifest ← readManifest raw k
  let (raw, s) ← Frame.decode (utf8 "atoms") s
  let atoms ← Volume.decode (utf8 "atoms") raw k
  let volumes ← readVolumes s.length [] s k
  return { id := ← idOf manifest k, manifest, atoms, volumes }

/-! ## Asking a container -/

/-- Only the container's own package is in it. -/
def checkPackage (c : Container) (package : Bytes) : Except Report Unit :=
  if package = c.id then .ok () else .error (.notFound .load (utf8 "package") package)

/-- A volume of a package. -/
def volume (c : Container) (package name : Bytes) : Except Report Volume := do
  c.checkPackage package
  match c.volumes.find? name with
  | some v => return v
  | none => throw (.notFound .load (utf8 "volume") name)

/-- The octets of an atom of a package. Atoms are the files at the root of their
volume. -/
def atom (c : Container) (package name : Bytes) : Except Report Bytes := do
  c.checkPackage package
  match c.atoms.root.find? fun n => n.name == name && n.kind == Node.fileKind with
  | some n => return c.atoms.slice n.start n.stop
  | none => throw (.notFound .load (utf8 "atom") name)

end Container

end Bindery
