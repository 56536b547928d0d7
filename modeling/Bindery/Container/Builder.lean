/-
Putting a container together. A builder collects atoms, files, commands and bindings in
tables, so the order of additions that do not concern one another leaves no trace in
the container. `Builder.encode` writes what `Container.parse` reads.
-/
import Bindery.Container.Basic

namespace Bindery

/-- What goes into a container. -/
structure Builder where
  note : PackageNote
  atoms : Table Bytes := []
  volumes : Table (Table Bytes) := []
  commands : Table CommandSpec := []
  bindings : List Binding := []
  /-- files stand at the root of their volume under their full names -/
  flat : Bool := false
  /-- the header carries a checksum -/
  checksum : Bool := true

namespace Builder

/-- The runner of commands. -/
def wasiRunner : Bytes := utf8 "https://webc.org/runner/wasi/command@unstable_"

/-- The kind of atoms. -/
def wasmKind : Bytes := utf8 "https://webc.org/kind/wasm"

/-- The volume that interface files are packed into. -/
def metadataVolume : Bytes := utf8 "metadata"

/-- The name that the bindings of a library are packed under. -/
def bindingName : Bytes := utf8 "library-bindings"

/-- Nothing but a package of a name and version. -/
def new (name version : Bytes) : Builder := { note := { name, version } }

instance : Inhabited Builder := ⟨new [] []⟩

def setDescription (b : Builder) (d : Bytes) : Builder :=
  { b with note := { b.note with description := d } }

def addAtom (b : Builder) (name wasm : Bytes) : Builder :=
  { b with atoms := b.atoms.insert name wasm }

/-- Adds a file to a volume, which is there from its first file on. -/
def addFile (b : Builder) (volume path data : Bytes) : Builder :=
  { b with volumes := b.volumes.insert volume (((b.volumes.find? volume).getD []).insert path data) }

/-- Adds a command that an atom implements. -/
def addCommand (b : Builder) (name atom : Bytes) : Builder :=
  let run : RunNote := { atom, package := b.note.name }
  let spec : CommandSpec := { runner := wasiRunner, annotations := [(RunNote.key, run.toItem)] }
  { b with commands := b.commands.insert name spec }

def addWai (b : Builder) (name version : Bytes) (wai : WaiBindings) : Builder :=
  { b with bindings := b.bindings ++ [{ name, kind := utf8 "wai@" ++ version, wai := some wai }] }

def addWit (b : Builder) (name version : Bytes) (wit : WitBindings) : Builder :=
  { b with bindings := b.bindings ++ [{ name, kind := utf8 "wit@" ++ version, wit := some wit }] }

/-- The signature of an atom's octets. -/
def signature (wasm : Bytes) : AtomSignature :=
  { kind := wasmKind, signature := utf8 "blake3:" ++ Bytes.hex (Blake3.hash wasm) }

/-- The manifest the container will carry. -/
def manifest (b : Builder) : Manifest where
  package := [(PackageNote.key, b.note.toItem)]
  atoms := b.atoms.map fun e => (e.1, signature e.2)
  commands := b.commands
  bindings := b.bindings

/-- Everything behind the header. Atoms always stand at the root of their volume. -/
def body (b : Builder) : Bytes :=
  Frame.encode b.manifest.toItem.encode
    ++ Frame.encode (Volume.ofFiles true b.atoms).encode
    ++ b.volumes.flatMap fun e => Frame.encode e.1 ++ Frame.encode (Volume.ofFiles b.flat e.2).encode

/-- The container as octets. -/
def encode (b : Builder) : Bytes :=
  let body := b.body
  Container.magic ++ Container.version
    ++ (if b.checksum then Container.blake3Tag ++ Blake3.hash body
      else Container.noneTag ++ List.replicate Container.sumSize 0)
    ++ body

/-- The container, written and read back. -/
def build (b : Builder) : Except Report Container := Container.parse b.encode

end Builder

end Bindery
