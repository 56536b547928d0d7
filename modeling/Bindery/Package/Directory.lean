/-
Packing a directory into a container. Every module that the package file names becomes an
atom, the interface files of its bindings go into the metadata volume under their clean
paths, and each command refers to one of the modules.
-/
import Bindery.Container.Builder
import Bindery.Disk
import Bindery.Package.File
import Bindery.Package.Load

namespace Bindery

namespace PackageFile

/-- The names a package file may have, the preferred one first. -/
def names : List Bytes := [utf8 "wasmer.toml", utf8 "wapm.toml"]

/-- The package file of a directory, under the first of the names that is there. -/
def findFrom (d : Disk) (dir : Bytes) : List Bytes → Except Report PackageFile
  | [] =>
    .error <| .ofFailure
      { phase := .load
        kind := .notFound
        path := [dir]
        detail := utf8 "no wasmer.toml or wapm.toml" }
  | name :: names =>
    match d.read (SlashPath.join [dir, name]) with
    | .error .missing => findFrom d dir names
    | .error .unusable => .error (.wrap .load .io (utf8 "read " ++ name) (some .external))
    | .ok data =>
      match parse? data with
      | some file => .ok file
      | none => .error (.parseFailed name (some .external))

/-- The package file of a directory. -/
def find (d : Disk) (dir : Bytes) : Except Report PackageFile := findFrom d dir names

/-- The files of the directory that a package file names. -/
def members (f : PackageFile) : List Bytes :=
  f.modules.flatMap fun m =>
    m.source :: match m.bindings with
      | some b => b.exports :: b.witExports :: b.imports
      | none => []

/-! ## Into a container -/

/-- The contents of a file that a package file names, by its path in the directory. -/
def readMember (d : Disk) (dir rel : Bytes) : Except Report Bytes :=
  match d.read (SlashPath.join [dir, rel]) with
  | .ok data => .ok data
  | .error _ =>
    .error <| .because
      { phase := .load, kind := .io, path := [rel], detail := utf8 "read package file" } .external

/-- Packs an interface file and gives the reference to it. -/
def packInterface (read : Bytes → Except Report Bytes) (b : Builder) (rel : Bytes) :
    Except Report (Builder × Bytes) := do
  let data ← read rel
  let p := SlashPath.clean rel
  return (b.addFile Builder.metadataVolume p data, Builder.metadataVolume ++ utf8 "://" ++ p)

/-- Packs several interface files; the references are in their order. -/
def packInterfaces (read : Bytes → Except Report Bytes) :
    Builder → List Bytes → Except Report (Builder × List Bytes)
  | b, [] => .ok (b, [])
  | b, rel :: rels => do
    let (b, ref) ← packInterface read b rel
    let (b, refs) ← packInterfaces read b rels
    return (b, ref :: refs)

/-- Packs the bindings of a module. -/
def packBindings (read : Bytes → Except Report Bytes) (b : Builder) (name : Bytes)
    (bs : BindingsEntry) : Except Report Builder := do
  let module := utf8 "atoms://" ++ name
  if !bs.waiVersion.isEmpty then
    let (b, exports) ← packInterface read b bs.exports
    let (b, imports) ← packInterfaces read b bs.imports
    return b.addWai Builder.bindingName bs.waiVersion { exports, module, imports }
  else if !bs.witBindgen.isEmpty then
    let (b, exports) ← packInterface read b bs.witExports
    return b.addWit Builder.bindingName bs.witBindgen { exports, module }
  else
    throw <| .ofFailure
      { phase := .load
        kind := .unsupported
        path := [utf8 "module", name, utf8 "bindings"]
        detail := utf8 "bindings need either wai-version or wit-bindgen" }

/-- Packs a module with its bindings. -/
def packModule (read : Bytes → Except Report Bytes) (b : Builder) (m : ModuleEntry) :
    Except Report Builder := do
  if m.name.isEmpty || m.source.isEmpty then
    throw (.invalidInput .load (utf8 "[[module]] needs a name and a source"))
  let b := b.addAtom m.name (← read m.source)
  match m.bindings with
  | none => return b
  | some bs => packBindings read b m.name bs

/-- Adds a command of one of the modules. -/
def packCommand (modules : List Bytes) (b : Builder) (c : CommandEntry) : Except Report Builder :=
  if modules.contains c.module then .ok (b.addCommand c.name c.module)
  else .error (.notFound .load (utf8 "module") c.module)

/-- A builder of everything that a package file names; `read` gives the files of its
directory. -/
def pack (read : Bytes → Except Report Bytes) (f : PackageFile) : Except Report Builder := do
  if f.name.isEmpty || f.version.isEmpty then
    throw (.invalidInput .load (utf8 "[package] needs a name and a version"))
  let b := (Builder.new f.name f.version).setDescription f.description
  let b ← f.modules.foldlM (packModule read) b
  f.commands.foldlM (packCommand (f.modules.map (·.name))) b

/-- A directory packed into the octets of a container. -/
def packDirectory (d : Disk) (dir : Bytes) : Except Report Bytes := do
  let b ← (← find d dir).pack (readMember d dir)
  return b.encode

end PackageFile

/-- The package in a container file, or the one that a directory packs into. -/
def Package.ofPath (read : InterfaceReader) (d : Disk) (p : Bytes) : Except Report Package := do
  let data ← match d.look p with
    | .error _ => throw (.wrap .load .io (utf8 "stat " ++ p) (some .external))
    | .ok (.file data) => pure data
    | .ok .directory => Load.context (utf8 "read package " ++ p) (PackageFile.packDirectory d p)
  Package.ofBytes read data

end Bindery
