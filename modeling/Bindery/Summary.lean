/-
What there is in a package, as a text to read or as JSON. On request every module is
looked into and the functions on its outside are listed.
-/
import Bindery.ByteSize
import Bindery.Interface.Text
import Bindery.JsonText
import Bindery.Package.Basic
import Bindery.Wasm.Outline

namespace Bindery

structure LibrarySummary where
  interface : Bytes
  module : Bytes
  abi : Abi
  size : Nat
  functions : List Bytes
  imports : List Bytes
  outline : Option Wasm.Outline
  deriving Repr

structure CommandSummary where
  name : Bytes
  size : Nat
  outline : Option Wasm.Outline
  deriving Repr

structure Summary where
  name : Bytes
  version : Bytes
  description : Bytes
  libraries : List LibrarySummary
  commands : List CommandSummary
  deriving Repr

namespace Summary

/-- The outline of a module. -/
def inspect (wasm : Bytes) : Except Report Wasm.Outline :=
  match Wasm.outline? wasm with
  | some o => .ok o
  | none => .error (.parseFailed (utf8 "module") (some .external))

/-- The outline of a module when it is asked for. -/
def inspectWhen (asked : Bool) (wasm : Bytes) : Except Report (Option Wasm.Outline) :=
  if asked then (inspect wasm).map some else .ok none

def library (asked : Bool) (l : Library) : Except Report LibrarySummary := do
  return { interface := l.interfaceName
           module := l.filename
           abi := l.module.abi
           size := l.module.wasm.length
           functions := l.interface.functions.map Func.signature
           imports := l.imports.map (·.name)
           outline := ← inspectWhen asked l.module.wasm }

def command (asked : Bool) (c : Command) : Except Report CommandSummary := do
  return { name := c.name, size := c.wasm.length, outline := ← inspectWhen asked c.wasm }

/-- The summary of a package, with the outlines of its modules when they are asked for. -/
def ofPackage (asked : Bool) (p : Package) : Except Report Summary := do
  return { name := p.metadata.name.toText
           version := p.metadata.version
           description := p.metadata.description
           libraries := ← p.libraries.mapM (library asked)
           commands := ← p.commands.mapM (command asked) }

/-! ## As text -/

def outlineLines : Option Wasm.Outline → Bytes
  | none => []
  | some o =>
    o.exports.flatMap (fun e => Bytes.line (utf8 "    export " ++ e))
      ++ o.imports.flatMap (fun i => Bytes.line (utf8 "    import " ++ i))

def libraryLines (l : LibrarySummary) : Bytes :=
  Bytes.line (utf8 "  " ++ l.interface ++ utf8 "  " ++ l.module ++ utf8 ", " ++ ByteSize.text l.size
      ++ utf8 ", " ++ l.abi.toText)
    ++ l.functions.flatMap (fun f => Bytes.line (utf8 "    " ++ f))
    ++ (if l.imports.isEmpty then []
      else Bytes.line (utf8 "    imports: " ++ Bytes.join (utf8 ", ") l.imports))
    ++ outlineLines l.outline

def commandLines (c : CommandSummary) : Bytes :=
  Bytes.line (utf8 "  " ++ c.name ++ utf8 "  " ++ ByteSize.text c.size) ++ outlineLines c.outline

/-- A heading with what stands below it, nothing when that is nothing. -/
def group (heading : String) (parts : List Bytes) : Bytes :=
  if parts.isEmpty then [] else utf8 "\n" ++ Bytes.line (utf8 heading) ++ parts.flatten

/-- The summary as text. -/
def text (s : Summary) : Bytes :=
  Bytes.line (s.name ++ utf8 " " ++ s.version)
    ++ (if s.description.isEmpty then [] else s.description.line)
    ++ group "Libraries" (s.libraries.map libraryLines)
    ++ group "Commands" (s.commands.map commandLines)

/-! ## As JSON -/

open JsonText

def outlineMember : Option Wasm.Outline → List (Bytes × Value)
  | none => []
  | some o =>
    [(utf8 "inspect", .object [(utf8 "exports", texts o.exports), (utf8 "imports", texts o.imports)])]

def libraryValue (l : LibrarySummary) : Value :=
  .object <|
    [(utf8 "interface", .text l.interface), (utf8 "module", .text l.module),
      (utf8 "abi", .text l.abi.toText), (utf8 "size", .number l.size),
      (utf8 "functions", if l.functions.isEmpty then .null else texts l.functions)]
    ++ (if l.imports.isEmpty then [] else [(utf8 "imports", texts l.imports)])
    ++ outlineMember l.outline

def commandValue (c : CommandSummary) : Value :=
  .object ([(utf8 "name", .text c.name), (utf8 "size", .number c.size)] ++ outlineMember c.outline)

/-- The summary as JSON. -/
def json (s : Summary) : Bytes :=
  render <| .object <|
    [(utf8 "name", .text s.name), (utf8 "version", .text s.version)]
    ++ textUnlessEmpty "description" s.description
    ++ [(utf8 "libraries", .list (s.libraries.map libraryValue)),
      (utf8 "commands", .list (s.commands.map commandValue))]

end Summary

end Bindery
