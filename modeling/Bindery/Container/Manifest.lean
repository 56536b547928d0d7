/-
The manifest of a container: annotations of the package, signatures of the atoms, the
commands, and the bindings that say which interface a module implements. Annotations
are kept as the items they came as and are only read when asked for.
-/
import Bindery.Cbor.Canonical
import Bindery.Cbor.Meaning
import Bindery.Report

namespace Bindery

open Cbor

/-- What kind of module an atom is, and the checksum of its octets. -/
structure AtomSignature where
  kind : Bytes := []
  signature : Bytes := []
  deriving DecidableEq, Repr

/-- A runnable entry point. -/
structure CommandSpec where
  runner : Bytes := []
  annotations : Table Item := []
  deriving Repr

/-- Interface files by `volume://path` and the module by `atoms://name`. -/
structure WaiBindings where
  exports : Bytes := []
  module : Bytes := []
  imports : List Bytes := []
  deriving DecidableEq, Repr

/-- An exported interface and its module. -/
structure WitBindings where
  exports : Bytes := []
  module : Bytes := []
  deriving DecidableEq, Repr

/-- The interface that a library atom implements, in one of two dialects; when both are
given the first counts. -/
structure Binding where
  name : Bytes := []
  kind : Bytes := []
  wai : Option WaiBindings := none
  wit : Option WitBindings := none
  deriving DecidableEq, Repr

structure Manifest where
  package : Table Item := []
  atoms : Table AtomSignature := []
  commands : Table CommandSpec := []
  bindings : List Binding := []
  deriving Repr

/-- The annotation that names the package. -/
structure PackageNote where
  name : Bytes := []
  version : Bytes := []
  description : Bytes := []
  deriving DecidableEq, Repr

/-- The annotation that says how a command is run. -/
structure RunNote where
  atom : Bytes := []
  package : Bytes := []
  mainArgs : Bytes := []
  deriving DecidableEq, Repr

/-- `scheme://rest` taken apart. -/
def splitUri (uri : Bytes) : Option (Bytes × Bytes) := uri.cutOn (utf8 "://")

/-! ## Stored forms -/

namespace PackageNote

/-- The annotation's key in the manifest. -/
def key : Bytes := utf8 "wapm"

def toItem (n : PackageNote) : Item :=
  .ofEntries <| [(utf8 "name", .ofText n.name), (utf8 "version", .ofText n.version)]
    ++ Item.fieldIf (!n.description.isEmpty) "description" (.ofText n.description)

def ofItem? (i : Item) : Option PackageNote := do
  let fs ← i.fields? [utf8 "name", utf8 "version", utf8 "description"]
  return {
    name := ← Item.field fs (utf8 "name") [] Item.text?
    version := ← Item.field fs (utf8 "version") [] Item.text?
    description := ← Item.field fs (utf8 "description") [] Item.text? }

end PackageNote

namespace RunNote

/-- The annotation's key in a command. -/
def key : Bytes := utf8 "wasi"

def toItem (n : RunNote) : Item :=
  .ofEntries <| [(utf8 "atom", .ofText n.atom)]
    ++ Item.fieldIf (!n.package.isEmpty) "package" (.ofText n.package)
    ++ Item.fieldIf (!n.mainArgs.isEmpty) "main_args" (.ofText n.mainArgs)

def ofItem? (i : Item) : Option RunNote := do
  let fs ← i.fields? [utf8 "atom", utf8 "package", utf8 "main_args"]
  return {
    atom := ← Item.field fs (utf8 "atom") [] Item.text?
    package := ← Item.field fs (utf8 "package") [] Item.text?
    mainArgs := ← Item.field fs (utf8 "main_args") [] Item.text? }

end RunNote

namespace AtomSignature

def toItem (s : AtomSignature) : Item :=
  .ofEntries [(utf8 "kind", .ofText s.kind), (utf8 "signature", .ofText s.signature)]

def ofItem? (i : Item) : Option AtomSignature := do
  let fs ← i.fields? [utf8 "kind", utf8 "signature"]
  return {
    kind := ← Item.field fs (utf8 "kind") [] Item.text?
    signature := ← Item.field fs (utf8 "signature") [] Item.text? }

end AtomSignature

namespace CommandSpec

def toItem (c : CommandSpec) : Item :=
  .ofEntries <| [(utf8 "runner", .ofText c.runner)]
    ++ Item.fieldIf (!c.annotations.isEmpty) "annotations" (.ofTable c.annotations)

def ofItem? (i : Item) : Option CommandSpec := do
  let fs ← i.fields? [utf8 "runner", utf8 "annotations"]
  return {
    runner := ← Item.field fs (utf8 "runner") [] Item.text?
    annotations := ← Item.field fs (utf8 "annotations") [] (Item.table? Item.kept?) }

/-- The annotation that says how the command is run, when there is one. -/
def runNote (c : CommandSpec) : Except Report (Option RunNote) :=
  match c.annotations.find? RunNote.key with
  | none => .ok none
  | some i =>
    match RunNote.ofItem? i with
    | some n => .ok (some n)
    | none => .error (.load (utf8 "decode command annotation " ++ RunNote.key) (some .external))

end CommandSpec

namespace WaiBindings

def toItem (b : WaiBindings) : Item :=
  .ofEntries <| [(utf8 "module", .ofText b.module), (utf8 "exports", .ofText b.exports)]
    ++ Item.fieldIf (!b.imports.isEmpty) "imports" (.ofList (b.imports.map .ofText))

def ofItem? (i : Item) : Option WaiBindings := do
  let fs ← i.fields? [utf8 "exports", utf8 "module", utf8 "imports"]
  return {
    exports := ← Item.field fs (utf8 "exports") [] Item.text?
    module := ← Item.field fs (utf8 "module") [] Item.text?
    imports := ← Item.field fs (utf8 "imports") [] (Item.list? Item.text?) }

end WaiBindings

namespace WitBindings

def toItem (b : WitBindings) : Item :=
  .ofEntries [(utf8 "module", .ofText b.module), (utf8 "exports", .ofText b.exports)]

def ofItem? (i : Item) : Option WitBindings := do
  let fs ← i.fields? [utf8 "exports", utf8 "module"]
  return {
    exports := ← Item.field fs (utf8 "exports") [] Item.text?
    module := ← Item.field fs (utf8 "module") [] Item.text? }

end WitBindings

namespace Binding

/-- The dialects of a binding, each only when it is given. -/
def dialects (b : Binding) : List (Bytes × Item) :=
  (match b.wai with
    | some w => [(utf8 "wai", w.toItem)]
    | none => [])
  ++ (match b.wit with
    | some w => [(utf8 "wit", w.toItem)]
    | none => [])

def toItem (b : Binding) : Item :=
  .ofEntries [(utf8 "kind", .ofText b.kind), (utf8 "name", .ofText b.name),
    (utf8 "annotations", .ofEntries b.dialects)]

/-- The dialects as they are stored. -/
def dialectsOfItem? (i : Item) : Option (Option WaiBindings × Option WitBindings) := do
  let fs ← i.fields? [utf8 "wai", utf8 "wit"]
  let wai ← Item.field fs (utf8 "wai") none (Item.optional? WaiBindings.ofItem?)
  let wit ← Item.field fs (utf8 "wit") none (Item.optional? WitBindings.ofItem?)
  return (wai, wit)

def ofItem? (i : Item) : Option Binding := do
  let fs ← i.fields? [utf8 "name", utf8 "kind", utf8 "annotations"]
  let name ← Item.field fs (utf8 "name") [] Item.text?
  let kind ← Item.field fs (utf8 "kind") [] Item.text?
  let (wai, wit) ← Item.field fs (utf8 "annotations") (none, none) dialectsOfItem?
  return { name, kind, wai, wit }

/-- The failure of a binding without a dialect. -/
def noDialect (b : Binding) : Report :=
  .ofFailure
    { phase := .load
      kind := .invalidData
      path := [utf8 "bindings", b.name]
      detail := utf8 "binding " ++ b.name.quote ++ utf8 " has neither wai nor wit annotations" }

/-- The reference to the exported interface. -/
def exports (b : Binding) : Except Report Bytes :=
  match b.wai, b.wit with
  | some w, _ => .ok w.exports
  | none, some w => .ok w.exports
  | none, none => .error b.noDialect

/-- The reference to the module. -/
def module (b : Binding) : Except Report Bytes :=
  match b.wai, b.wit with
  | some w, _ => .ok w.module
  | none, some w => .ok w.module
  | none, none => .error b.noDialect

/-- The references to the imported interfaces; one dialect only has any. -/
def imports (b : Binding) : List Bytes := (b.wai.map (·.imports)).getD []

end Binding

namespace Manifest

def toItem (m : Manifest) : Item :=
  .ofEntries <|
    Item.fieldIf (!m.atoms.isEmpty) "atoms" (.ofTable (m.atoms.map fun e => (e.1, e.2.toItem)))
    ++ Item.fieldIf (!m.package.isEmpty) "package" (.ofTable m.package)
    ++ Item.fieldIf (!m.bindings.isEmpty) "bindings" (.ofList (m.bindings.map Binding.toItem))
    ++ Item.fieldIf (!m.commands.isEmpty) "commands"
      (.ofTable (m.commands.map fun e => (e.1, e.2.toItem)))

def ofItem? (i : Item) : Option Manifest := do
  let fs ← i.fields? [utf8 "package", utf8 "atoms", utf8 "commands", utf8 "bindings"]
  return {
    package := ← Item.field fs (utf8 "package") [] (Item.table? Item.kept?)
    atoms := ← Item.field fs (utf8 "atoms") [] (Item.table? AtomSignature.ofItem?)
    commands := ← Item.field fs (utf8 "commands") [] (Item.table? CommandSpec.ofItem?)
    bindings := ← Item.field fs (utf8 "bindings") [] (Item.list? Binding.ofItem?) }

/-- A package annotation read as the one that names the package. -/
def annotation (m : Manifest) (key : Bytes) (note? : Item → Option PackageNote := PackageNote.ofItem?) :
    Except Report (Option PackageNote) :=
  match m.package.find? key with
  | none => .ok none
  | some i =>
    match note? i with
    | some n => .ok (some n)
    | none => .error (.load (utf8 "decode package annotation " ++ key) (some .external))

end Manifest

end Bindery
