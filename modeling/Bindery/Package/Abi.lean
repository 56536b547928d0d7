/-
The host contract a module expects: none, or WASI when it imports from one of
WASI's host namespaces.
-/
import Bindery.Report
import Bindery.Wasm.Imports

namespace Bindery

inductive Abi where
  | none
  | wasi
  deriving DecidableEq, Repr

namespace Abi

def toText : Abi → Bytes
  | .none => utf8 "none"
  | .wasi => utf8 "wasi"

def parse (s : Bytes) : Except Report Abi :=
  if s = utf8 "none" then .ok .none
  else if s = utf8 "wasi" then .ok .wasi
  else .error <| .ofFailure
    { phase := .parse
      kind := .invalidInput
      detail := utf8 "expected either \"none\" or \"wasi\", got " ++ s.quote
      value := some s }

/-- A host namespace of WASI. -/
def isWasiModule (name : Bytes) : Bool :=
  name == utf8 "wasi_unstable" || name == utf8 "wasi_snapshot_preview1"

/-- The contract a module's imports ask for; octets that cannot be read as a module
ask for none. -/
def detect (wasm : Bytes) : Abi :=
  match Wasm.importModules wasm with
  | .error _ => .none
  | .ok names => if names.any isWasiModule then .wasi else .none

end Abi

end Bindery
