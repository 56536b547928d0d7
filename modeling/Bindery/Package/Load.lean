/-
The package that a container describes. A binding gives a library: its interfaces are
files of the container's volumes, its module is an atom. A command gives the atom that
its annotation names, or the one of the command's own name. The first failure ends the
loading.
-/
import Bindery.Container.Basic
import Bindery.Interface.Parser
import Bindery.Package.Basic

namespace Bindery

/-- Reads the interface in a text that came from a path. -/
abbrev InterfaceReader := Bytes → Bytes → Except Report Interface

namespace Package.Load

/-- Names a failure by what was being loaded. -/
def context {α : Type} (what : Bytes) : Except Report α → Except Report α
  | .ok a => .ok a
  | .error r => .error (.load what (some r))

/-- Takes a package id apart at its last `@`. -/
def splitId (id : Bytes) : Option (Bytes × Bytes) :=
  if id.contains 64 then some ((id.uptoLast 64).dropLast, id.afterLast 64) else none

def metadata (c : Container) : Except Report Metadata := do
  match splitId c.id with
  | none =>
    throw <| .ofFailure
      { phase := .load
        kind := .invalidData
        detail := utf8 "package id " ++ c.id.quote ++ utf8 " has no version"
        value := some c.id }
  | some (raw, version) =>
    let name ← context (utf8 "unable to parse the package name") (PackageName.parse raw)
    match ← c.manifest.annotation PackageNote.key with
    | some note => return { name, version, description := note.description }
    | none => return { name, version }

/-- The contents of a file of a volume, found by walking down its directories or else by
its full stored name. -/
def file (c : Container) (volume path : Bytes) : Except Report Bytes := do
  let v ← context (utf8 "the container doesn't have a " ++ volume.quote ++ utf8 " volume")
    (c.volume c.id volume)
  match v.file path with
  | .ok data => return data
  | .error r =>
    match v.listedFile path with
    | some data => return data
    | none =>
      throw (.load (utf8 "unable to find " ++ path.quote ++ utf8 " in the " ++ volume.quote
        ++ utf8 " volume") (some r))

/-- The interface that a reference `volume://path` leads to. -/
def interface (read : InterfaceReader) (c : Container) (ref : Bytes) : Except Report Interface := do
  match splitUri ref with
  | none =>
    throw <| .ofFailure
      { phase := .load
        kind := .invalidInput
        detail := utf8 "interface reference " ++ ref.quote ++ utf8 " is not of the form volume://path"
        value := some ref }
  | some (volume, path) =>
    let data ← file c volume path
    if !Utf8.valid data then throw (.invalidUtf8 .load [volume, path] data)
    context (utf8 "unable to parse " ++ path.quote) (read path data)

/-- The file name of an atom up to its first dot, a dot at its start apart. -/
def moduleStem (atom : Bytes) : Bytes :=
  let base := SlashPath.base atom
  match base.cut SlashPath.dot with
  | some (stem, _) => if stem.isEmpty then base else stem
  | none => base

def library (read : InterfaceReader) (c : Container) (b : Binding) : Except Report Library := do
  let exportsRef ← b.exports
  let exports ← context (utf8 "unable to load the exports interface") (interface read c exportsRef)
  let imports ← b.imports.mapM fun ref =>
    context (utf8 "unable to load the imported interface " ++ ref) (interface read c ref)
  let moduleRef ← b.module
  let atom := moduleRef.dropStart (utf8 "atoms://")
  let wasm ← context (utf8 "unable to get the " ++ moduleRef.quote ++ utf8 " atom") (c.atom c.id atom)
  return { module := { name := moduleStem atom, abi := Abi.detect wasm, wasm }
           exports := some exports
           imports }

/-- The atom behind a command. -/
def atomOf (name : Bytes) : Option RunNote → Bytes
  | some note => if note.atom.isEmpty then name else note.atom
  | none => name

def command (c : Container) (name : Bytes) (spec : CommandSpec) : Except Report Command := do
  let note ← context (utf8 "command " ++ name.quote) spec.runNote
  let wasm ← context (utf8 "unable to get the atom for command " ++ name.quote)
    (c.atom c.id (atomOf name note))
  return { name, wasm }

end Package.Load

/-- The package in a container; `read` reads its interface files. -/
def Package.load (read : InterfaceReader) (c : Container) : Except Report Package := do
  let metadata ← Load.metadata c
  let libraries ← c.manifest.bindings.mapM fun b =>
    Load.context (utf8 "load library from binding " ++ b.name.quote) (Load.library read c b)
  let commands ← c.manifest.commands.mapM fun e => Load.command c e.1 e.2
  Package.new metadata libraries commands

/-- The package in the octets of a container. -/
def Package.ofBytes (read : InterfaceReader) (data : Bytes) : Except Report Package := do
  Package.load read (← Load.context (utf8 "parse container") (Container.parse data))

end Bindery
