/-
What can be wrong with the octets of a WebAssembly module, and the words for it.
-/
import Bindery.Bytes

namespace Bindery.Wasm

/-- A failure to read a module, with the position where one is known. -/
inductive Fault where
  /-- an octet was asked for and none is left -/
  | endOfInput
  /-- a block was asked for and fewer octets are left -/
  | shortInput
  /-- a variable-length number goes on past its last group -/
  | overflow (position : Nat)
  /-- a name is not UTF-8 -/
  | badName (position : Nat)
  | badMagic
  | badVersion
  | unknownImportKind (kind : UInt8)
  /-- a failure of other origin, known by its words -/
  | other (text : Bytes)
  /-- a failure inside the import section -/
  | inImportSection (cause : Fault)
  /-- a failure while reading the named part of a module -/
  | reading (part : Bytes) (position : Nat) (cause : Fault)
  deriving DecidableEq, Repr

/-- The words for a failure. -/
def Fault.message : Fault → Bytes
  | .endOfInput => utf8 "EOF"
  | .shortInput => utf8 "unexpected EOF"
  | .overflow p => utf8 "at position " ++ Bytes.decimal p ++ utf8 ": leb128: overflow"
  | .badName p => utf8 "at position " ++ Bytes.decimal p ++ utf8 ": invalid UTF-8 in name"
  | .badMagic => utf8 "invalid wasm magic number"
  | .badVersion => utf8 "invalid wasm version"
  | .unknownImportKind k => utf8 "unknown import kind: " ++ Bytes.decimal k.toNat
  | .other t => t
  | .inImportSection f => utf8 "import section: " ++ f.message
  | .reading part p f =>
    utf8 "wasm: " ++ (if part.isEmpty then [] else part ++ utf8 " ") ++ utf8 "at position "
      ++ Bytes.decimal p ++ utf8 ": " ++ f.message

end Bindery.Wasm
