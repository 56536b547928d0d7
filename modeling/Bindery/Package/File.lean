/-
The package file of a directory: a TOML document that says which package the directory
holds, which of its files are modules and interfaces, and which commands there are. Names
of tables and keys may be written in any case; what the program does not know is passed
over.
-/
import Bindery.Bytes.LowerCase
import Bindery.Toml.Parser

namespace Bindery

/-- The interfaces of a module, in one of two generations of bindings. -/
structure BindingsEntry where
  waiVersion : Bytes := []
  exports : Bytes := []
  imports : List Bytes := []
  witBindgen : Bytes := []
  witExports : Bytes := []
  deriving DecidableEq, Repr

/-- A module of the package. -/
structure ModuleEntry where
  name : Bytes := []
  source : Bytes := []
  abi : Bytes := []
  bindings : Option BindingsEntry := none
  deriving DecidableEq, Repr

/-- A command of the package. -/
structure CommandEntry where
  name : Bytes := []
  module : Bytes := []
  runner : Bytes := []
  deriving DecidableEq, Repr

/-- What a package file says. -/
structure PackageFile where
  name : Bytes := []
  version : Bytes := []
  description : Bytes := []
  modules : List ModuleEntry := []
  commands : List CommandEntry := []
  deriving DecidableEq, Repr

namespace Toml.Value

def text? : Value → Option Bytes
  | .string s => some s
  | _ => none

def entries? : Value → Option (List (Bytes × Value))
  | .table es => some es
  | _ => none

/-- The elements of an array, each read by `f`. -/
def elements? {α : Type} (f : Value → Option α) : Value → Option (List α)
  | .array vs => vs.mapM f
  | _ => none

end Toml.Value

namespace BindingsEntry

/-- Takes one key of the table. -/
def set (b : BindingsEntry) (e : Bytes × Toml.Value) : Option BindingsEntry :=
  let key := e.1.toLower
  if key = utf8 "wai-version" then do return { b with waiVersion := ← e.2.text? }
  else if key = utf8 "exports" then do return { b with exports := ← e.2.text? }
  else if key = utf8 "imports" then do
    return { b with imports := ← e.2.elements? Toml.Value.text? }
  else if key = utf8 "wit-bindgen" then do return { b with witBindgen := ← e.2.text? }
  else if key = utf8 "wit-exports" then do return { b with witExports := ← e.2.text? }
  else some b

end BindingsEntry

namespace ModuleEntry

/-- Takes one key of the table. -/
def set (m : ModuleEntry) (e : Bytes × Toml.Value) : Option ModuleEntry :=
  let key := e.1.toLower
  if key = utf8 "name" then do return { m with name := ← e.2.text? }
  else if key = utf8 "source" then do return { m with source := ← e.2.text? }
  else if key = utf8 "abi" then do return { m with abi := ← e.2.text? }
  else if key = utf8 "bindings" then do
    let b ← (← e.2.entries?).foldlM BindingsEntry.set (m.bindings.getD {})
    return { m with bindings := some b }
  else some m

def ofValue? (v : Toml.Value) : Option ModuleEntry := do (← v.entries?).foldlM set {}

end ModuleEntry

namespace CommandEntry

/-- Takes one key of the table. -/
def set (c : CommandEntry) (e : Bytes × Toml.Value) : Option CommandEntry :=
  let key := e.1.toLower
  if key = utf8 "name" then do return { c with name := ← e.2.text? }
  else if key = utf8 "module" then do return { c with module := ← e.2.text? }
  else if key = utf8 "runner" then do return { c with runner := ← e.2.text? }
  else some c

def ofValue? (v : Toml.Value) : Option CommandEntry := do (← v.entries?).foldlM set {}

end CommandEntry

namespace PackageFile

/-- Takes one key of the table that names the package. -/
def setPackage (p : PackageFile) (e : Bytes × Toml.Value) : Option PackageFile :=
  let key := e.1.toLower
  if key = utf8 "name" then do return { p with name := ← e.2.text? }
  else if key = utf8 "version" then do return { p with version := ← e.2.text? }
  else if key = utf8 "description" then do return { p with description := ← e.2.text? }
  else some p

/-- Takes one key of the document. -/
def set (p : PackageFile) (e : Bytes × Toml.Value) : Option PackageFile :=
  let key := e.1.toLower
  if key = utf8 "package" then do (← e.2.entries?).foldlM setPackage p
  else if key = utf8 "module" then do
    return { p with modules := ← e.2.elements? ModuleEntry.ofValue? }
  else if key = utf8 "command" then do
    return { p with commands := ← e.2.elements? CommandEntry.ofValue? }
  else some p

/-! ## Tables -/

/-- Changes the last element of a list, which has one. -/
def changeLast {α : Type} (f : α → Option α) : List α → Option (List α)
  | [] => none
  | [a] => do return [← f a]
  | a :: b :: as => do return a :: (← changeLast f (b :: as))

/-- Changes the bindings of the last module, which come into being as needed. -/
def changeBindings (p : PackageFile) (f : BindingsEntry → Option BindingsEntry) : Option PackageFile := do
  let change (m : ModuleEntry) : Option ModuleEntry := do
    return { m with bindings := some (← f (m.bindings.getD {})) }
  return { p with modules := ← changeLast change p.modules }

/-- What the keys below a header belong to. -/
inductive Place where
  | document
  | package
  /-- the last module -/
  | module
  /-- the bindings of the last module -/
  | bindings
  /-- the last command -/
  | command
  /-- a text, which has no keys -/
  | text
  /-- something that the program does not know -/
  | unknown
  deriving DecidableEq, Repr

/-- The keys of the tables that hold texts. -/
def packageTexts : List Bytes := [utf8 "name", utf8 "version", utf8 "description"]

def moduleTexts : List Bytes := [utf8 "name", utf8 "source", utf8 "abi"]

def bindingsTexts : List Bytes :=
  [utf8 "wai-version", utf8 "exports", utf8 "wit-bindgen", utf8 "wit-exports"]

def commandTexts : List Bytes := [utf8 "name", utf8 "module", utf8 "runner"]

/-- Takes one key below a header. -/
def assign (p : PackageFile) (e : Bytes × Toml.Value) : Place → Option PackageFile
  | .document => p.set e
  | .package => p.setPackage e
  | .module => do return { p with modules := ← changeLast (·.set e) p.modules }
  | .bindings => p.changeBindings (·.set e)
  | .command => do return { p with commands := ← changeLast (·.set e) p.commands }
  | .text => none
  | .unknown => some p

/-- Where the rest of a header leads in a table of texts. Nothing lies below a text. -/
def below (texts : List Bytes) (here : Place) : List Bytes → Option Place
  | [] => some here
  | [k] => some (if texts.contains k then .text else .unknown)
  | k :: _ => if texts.contains k then none else some .unknown

/-- Where the rest of an array's header leads in a table of texts, none of which is an array. -/
def arrayBelow (texts : List Bytes) : List Bytes → Option Place
  | [] => none
  | k :: _ => if texts.contains k then none else some .unknown

/-- The place of the rest of a header in the bindings of a module. A header stands for the last
element of a list, so that the list of imports cannot be empty. -/
def belowBindings (b : BindingsEntry) : List Bytes → Option Place
  | [] => some .bindings
  | k :: ks =>
    if k = utf8 "imports" then if b.imports.isEmpty || !ks.isEmpty then none else some .text
    else below bindingsTexts .bindings (k :: ks)

/-- The bindings of the last module. -/
def lastBindings (p : PackageFile) : BindingsEntry := (p.modules.getLast?.bind (·.bindings)).getD {}

/-- Opens the table of a header, which is in lower case. Modules and commands are arrays, and a
header stands for their last elements. -/
def openTable (p : PackageFile) : List Bytes → Option (PackageFile × Place)
  | [] => none
  | k :: ks =>
    if k = utf8 "package" then (below packageTexts .package ks).map (p, ·)
    else if k = utf8 "module" then
      if p.modules.isEmpty then none
      else match ks with
        | k' :: ks' =>
          if k' = utf8 "bindings" then do
            let p ← p.changeBindings some
            return (p, ← belowBindings p.lastBindings ks')
          else (below moduleTexts .module ks).map (p, ·)
        | [] => some (p, .module)
    else if k = utf8 "command" then
      if p.commands.isEmpty then none else (below commandTexts .command ks).map (p, ·)
    else some (p, .unknown)

/-- A list with an empty element behind it. A new name of the list starts it again. -/
def extended {α : Type} (isNew : Bool) (xs : List α) (a : α) : List α :=
  (if isNew then [] else xs) ++ [a]

/-- Adds an element to the list of imports, or passes over what is not known of bindings. -/
def openBindingsElement (p : PackageFile) (isNew : Bool) : List Bytes → Option (PackageFile × Place)
  | [] => none
  | k :: ks => do
    let p ← p.changeBindings some
    if k = utf8 "imports" then
      if !ks.isEmpty then none
      else
        let p ← p.changeBindings fun b => some { b with imports := extended isNew b.imports [] }
        return (p, .text)
    else return (p, ← arrayBelow bindingsTexts (k :: ks))

/-- Opens a new table in the array of a header, which is in lower case; `isNew` when the name is
written for the first time. -/
def openElement (p : PackageFile) (isNew : Bool) : List Bytes → Option (PackageFile × Place)
  | [] => none
  | k :: ks =>
    if k = utf8 "package" then (arrayBelow packageTexts ks).map (p, ·)
    else if k = utf8 "module" then
      match ks with
      | [] => some ({ p with modules := extended isNew p.modules {} }, .module)
      | k' :: ks' =>
        if p.modules.isEmpty then none
        else if k' = utf8 "bindings" then p.openBindingsElement isNew ks'
        else (arrayBelow moduleTexts ks).map (p, ·)
    else if k = utf8 "command" then
      match ks with
      | [] => some ({ p with commands := extended isNew p.commands {} }, .command)
      | _ :: _ => if p.commands.isEmpty then none else (arrayBelow commandTexts ks).map (p, ·)
    else some (p, .unknown)

/-! ## Lines -/

/-- A package file while it is being read. -/
structure Filling where
  file : PackageFile := {}
  place : Place := .document
  /-- the names of the document so far -/
  reading : Toml.Reading := {}

/-- Takes the next line. A key counts as soon as it is read, so that of two spellings of a name the
later one wins; the keys below an unknown header are passed over unread. -/
def Filling.next (f : Filling) (e : Toml.Expression) : Option Filling :=
  match e with
  | .keyValue key v =>
    if f.place = .unknown then some f
    else do
      let reading ← f.reading.next e
      let file ← (v.under key).foldlM (fun p kv => p.assign kv f.place) f.file
      return { f with file, reading }
  | .table key => do
    let reading ← f.reading.next e
    let (file, place) ← f.file.openTable (key.map Bytes.toLower)
    return { file, place, reading }
  | .arrayTable key => do
    let reading ← f.reading.next e
    let (file, place) ← f.file.openElement (f.reading.isNew key) (key.map Bytes.toLower)
    return { file, place, reading }

/-- Reads a package file, nothing when it is not TOML or has a value of the wrong type. -/
def parse? (s : Bytes) : Option PackageFile := do
  let f ← (← Toml.parseLines s).foldlM Filling.next {}
  return f.file

end PackageFile

end Bindery
