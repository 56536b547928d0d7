/-
Small modules, interfaces and containers to show and try the library with.
-/
import Bindery.Container.Builder
import Bindery.Wasm.Module

namespace Bindery.Samples

/-- A minimal exported interface. -/
def greetInterface : Bytes := utf8 "// Say hello.
greet: func(name: string) -> string
"

/-- Numbers, an enum, a record and a list. -/
def calcInterface : Bytes := utf8 "enum op \x7b add, sub, mul \x7d

record pair \x7b
    a: s32,
    b: s32,
\x7d

apply: func(o: op, a: s32, b: s32) -> s32
sum: func(values: list<s32>) -> s64
swap: func(p: pair) -> pair
ratio: func(a: f64, b: f64) -> f64
"

/-- An interface for a host to offer. -/
def hostInterface : Bytes := utf8 "log: func(message: string)
"

open Wasm

/-- An import from WASI. -/
def wasiImport (name : String) : Import :=
  { module := utf8 "wasi_snapshot_preview1", name := utf8 name }

def exportedFunc (name : String) (idx : UInt32) : Export := { name := utf8 name, idx }

/-- The export of the memory. -/
def exportedMemory : Export := { name := utf8 "memory", kind := ExternKind.memory.code }

/-- The signature of the string allocator. -/
def allocator : FuncType := ⟨[.i32, .i32, .i32, .i32], [.i32]⟩

/-- A module that exports a greeting and the string allocator, with or without an import
from WASI. -/
def greetModule (wasi : Bool) : Bytes :=
  let imported : UInt32 := if wasi then 1 else 0
  Module.encode
    { types := [allocator, ⟨[.i32, .i32], [.i32]⟩]
      imports := if wasi then [wasiImport "fd_write"] else []
      funcs := [0, 1]
      memory := some 1
      exports := [exportedMemory, exportedFunc "cabi_realloc" imported,
        exportedFunc "greet" (imported + 1)] }

/-- A module for `calcInterface`. -/
def calcModule : Bytes :=
  Module.encode
    { types := [allocator, ⟨[.i32, .i32, .i32], [.i32]⟩, ⟨[.i32, .i32], [.i64]⟩,
        ⟨[.i32, .i32], [.i32]⟩, ⟨[.f64, .f64], [.f64]⟩]
      funcs := [0, 1, 2, 3, 4]
      memory := some 1
      exports := [exportedMemory, exportedFunc "cabi_realloc" 0, exportedFunc "apply" 1,
        exportedFunc "sum" 2, exportedFunc "swap" 3, exportedFunc "ratio" 4] }

/-- A WASI command. -/
def commandModule : Bytes :=
  Module.encode
    { types := [⟨[.i32], []⟩, ⟨[], []⟩]
      imports := [wasiImport "proc_exit"]
      funcs := [1]
      memory := some 1
      exports := [exportedMemory, exportedFunc "_start" 1] }

/-- A package of one library. -/
def greetContainer (wasi flat : Bool) : Bytes :=
  let path := utf8 "interfaces/greet.exports.wai"
  let b := Builder.new (utf8 "wasmer/greet") (utf8 "0.1.0")
    |>.setDescription (utf8 "Greets people")
    |>.addAtom (utf8 "greet") (greetModule wasi)
    |>.addFile Builder.metadataVolume path greetInterface
    |>.addWai Builder.bindingName (utf8 "0.2.0")
      { exports := utf8 "metadata://" ++ path, module := utf8 "atoms://greet" }
  Builder.encode { b with flat }

/-- A package of a WASI library that imports an interface, and two commands. -/
def wabtContainer : Bytes :=
  Builder.new (utf8 "wasmer/wabt") (utf8 "1.0.0")
    |>.addAtom (utf8 "wabt.wasm") (greetModule true)
    |>.addAtom (utf8 "wat2wasm") commandModule
    |>.addAtom (utf8 "wasm-strip-atom") commandModule
    |>.addFile Builder.metadataVolume (utf8 "wabt.exports.wai") greetInterface
    |>.addFile Builder.metadataVolume (utf8 "host.wai") hostInterface
    |>.addWai Builder.bindingName (utf8 "0.2.0")
      { exports := utf8 "metadata://wabt.exports.wai"
        module := utf8 "atoms://wabt.wasm"
        imports := [utf8 "metadata://host.wai"] }
    |>.addCommand (utf8 "wat2wasm") (utf8 "wat2wasm")
    |>.addCommand (utf8 "wasm-strip") (utf8 "wasm-strip-atom")
    |>.encode

/-- A sample by its name. -/
def named (name : Bytes) : Option Bytes :=
  Table.find? name
    [(utf8 "greet_module", greetModule false), (utf8 "greet_module_wasi", greetModule true),
      (utf8 "calc_module", calcModule), (utf8 "command_module", commandModule),
      (utf8 "greet_container", greetContainer false false),
      (utf8 "greet_container_wasi", greetContainer true false),
      (utf8 "greet_container_legacy", greetContainer false true),
      (utf8 "wabt_container", wabtContainer), (utf8 "greet_interface", greetInterface),
      (utf8 "calc_interface", calcInterface), (utf8 "host_interface", hostInterface)]

end Bindery.Samples
