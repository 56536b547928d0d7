/-
A package: who it is, its libraries (a module with the interface it exports and those it
imports) and its commands. `Package.new` refuses two libraries with one interface name
and two commands with one name.
-/
import Bindery.CaseStyle
import Bindery.Interface.Basic
import Bindery.Package.Abi
import Bindery.Package.Name

namespace Bindery

/-- Who a package is. The version is passed on as it came. -/
structure Metadata where
  name : PackageName
  version : Bytes
  description : Bytes := []
  deriving DecidableEq, Repr

/-- A compiled module. -/
structure CompiledModule where
  name : Bytes
  abi : Abi := .none
  wasm : Bytes := []
  deriving DecidableEq, Repr

/-- A module with the interface it exports and the interfaces it imports. -/
structure Library where
  module : CompiledModule
  exports : Option Interface := none
  imports : List Interface := []
  deriving Repr

namespace Library

/-- The name of the exported interface. -/
def interfaceName (l : Library) : Bytes := (l.exports.map (·.name)).getD []

/-- The exported interface, one without a name or functions when there is none. -/
def interface (l : Library) : Interface := l.exports.getD { name := [], path := [] }

/-- The interface name in Pascal case. -/
def className (l : Library) : Bytes := CaseStyle.pascal l.interfaceName

/-- The module's file name with `.wasm` for its extension. -/
def filename (l : Library) : Bytes :=
  let base := SlashPath.base l.module.name
  base.dropEnd (SlashPath.ext base) ++ utf8 ".wasm"

def requiresWasi (l : Library) : Bool := l.module.abi == .wasi

end Library

/-- A module that runs on its own. -/
structure Command where
  name : Bytes
  wasm : Bytes := []
  deriving DecidableEq, Repr

structure Package where
  metadata : Metadata
  libraries : List Library
  commands : List Command
  deriving Repr

namespace Package

/-- The first name that also stands before itself, or among those already seen. -/
def firstRepeated : List Bytes → List Bytes → Option Bytes
  | _, [] => none
  | seen, n :: ns => if n ∈ seen then some n else firstRepeated (n :: seen) ns

/-- Refuses a name given twice. -/
def checkUnique (what : String) (names : List Bytes) : Except Report Unit :=
  match firstRepeated [] names with
  | some n => .error (.duplicateName (utf8 what) n)
  | none => .ok ()

/-- A package of the given parts. -/
def new (metadata : Metadata) (libraries : List Library) (commands : List Command) :
    Except Report Package := do
  checkUnique "library" (libraries.map Library.interfaceName)
  checkUnique "command" (commands.map (·.name))
  return { metadata, libraries, commands }

/-- Some part of the package needs a WASI host; commands always do. -/
def requiresWasi (p : Package) : Bool := !p.commands.isEmpty || p.libraries.any Library.requiresWasi

end Package

end Bindery
