/-
Settings of the command line. Each comes from the environment, else from a settings file,
else it has its default; an empty variable counts as none. Values of the wrong type are
converted where that is harmless.
-/
import Bindery.Bytes.LowerCase
import Bindery.Bytes.Truth
import Bindery.Disk
import Bindery.Distribution.Npm
import Bindery.Toml.Scalar

namespace Bindery

/-- How a package is described. -/
inductive Format where
  | text
  | json
  deriving DecidableEq, Repr

namespace Format

def word : Format → Bytes
  | .text => utf8 "text"
  | .json => utf8 "json"

def parse (s : Bytes) : Except Report Format :=
  if s = word .text then .ok .text
  else if s = word .json then .ok .json
  else .error <| .ofFailure
    { phase := .validate
      kind := .invalidInput
      detail := utf8 "format must be \"text\" or \"json\", got " ++ s.quote
      value := some s }

end Format

structure Settings where
  /-- where generated packages go, a directory named like the package when empty -/
  outDir : Bytes := []
  /-- say more about what is being done -/
  verbose : Bool := false
  format : Format := .text
  /-- the range of WASI versions that npm packages depend on -/
  wasiVersion : Bytes := Npm.Options.defaultWasiVersion
  deriving DecidableEq, Repr

namespace Settings

/-- The settings file that is looked for in the working directory. -/
def fileName : Bytes := utf8 "wasm-pack.toml"

/-- The variable that a setting is read from. -/
def variableName (name : String) : Bytes := utf8 "WASM_PACK_" ++ (utf8 name).map Byte.upper

/-- What a settings file says of a setting. Its key may be written in any case, and one that is not
in lower case goes before one that is. -/
def spelled (file : List (Bytes × Toml.Value)) (name : Bytes) : Option Toml.Value :=
  let found := file.filter (·.1.toLower == name)
  ((found.find? (·.1 != name)).or found.head?).map (·.2)

/-- What is given for a setting. -/
def given (env : List (Bytes × Bytes)) (file : List (Bytes × Toml.Value)) (name : String) :
    Option Toml.Value :=
  match (env.find? (·.1 == variableName name)).map (·.2) with
  | some (b :: s) => some (.string (b :: s))
  | _ => spelled file (utf8 name)

/-- An integer in decimal. -/
def integerText (n : Int) : Bytes := Toml.minus (n < 0) ++ Bytes.decimal n.natAbs

/-- A value as text: numbers in decimal, a truth value as `1` or `0`. -/
def text? : Toml.Value → Option Bytes
  | .string s => some s
  | .integer s => (Toml.integer? s).map integerText
  | .float s => (Toml.real? s).map Toml.Real.text
  | .boolean b => some (if b then utf8 "1" else utf8 "0")
  | _ => none

/-- A value as a truth value: a number is true unless it is zero, the empty text is false. -/
def truth? : Toml.Value → Option Bool
  | .boolean b => some b
  | .integer s => (Toml.integer? s).map (· != 0)
  | .float s => (Toml.real? s).map Toml.Real.isNonzero
  | .string s => if s.isEmpty then some false else s.truth?
  | _ => none

/-- What is given, converted, or the default. -/
def convert {α : Type} (f : Toml.Value → Option α) (default : α) : Option Toml.Value → Except Report α
  | none => .ok default
  | some v =>
    match f v with
    | some a => .ok a
    | none => .error (.wrap .load .invalidData (utf8 "decode config") (some .external))

/-- The settings that are given by variables and by the entries of a settings file. -/
def ofGiven (env : List (Bytes × Bytes)) (file : List (Bytes × Toml.Value)) : Except Report Settings := do
  let default : Settings := {}
  let outDir ← convert text? default.outDir (given env file "out_dir")
  let verbose ← convert truth? default.verbose (given env file "verbose")
  let format ← convert text? default.format.word (given env file "format")
  let wasiVersion ← convert text? default.wasiVersion (given env file "wasi_version")
  return { outDir, verbose, format := ← Format.parse format, wasiVersion }

/-- The settings file to read, empty when there is none. A file that is asked for has to be
there. -/
def locate (d : Disk) (file dir : Bytes) : Except Report Bytes :=
  if file.isEmpty then
    let candidate := SlashPath.join [if dir.isEmpty then [SlashPath.dot] else dir, fileName]
    .ok (if (d.look candidate).toBool then candidate else [])
  else if (d.look file).toBool then .ok file
  else .error <| .because
    { phase := .load, kind := .notFound, path := [file], detail := utf8 "config file not found" }
    .external

/-- The entries of a settings file, all of which have to make sense. -/
def entries? (d : Disk) (path : Bytes) : Option (List (Bytes × Toml.Value)) := do
  let data ← (d.read path).toOption
  let es ← Toml.parse data
  if Toml.entriesSound es then some es else none

/-- The entries of the settings file at a path, none at the empty path. -/
def readEntries (d : Disk) (path : Bytes) : Except Report (List (Bytes × Toml.Value)) :=
  if path.isEmpty then .ok []
  else match entries? d path with
    | some es => .ok es
    | none =>
      .error <| .because
        { phase := .load, kind := .invalidData, path := [path], detail := utf8 "read config file" }
        .external

/-- The settings in effect, and the settings file that was read or the empty path. `file` is
the one asked for; without one, `dir` or the working directory may have one. -/
def load (d : Disk) (env : List (Bytes × Bytes)) (file dir : Bytes) :
    Except Report (Settings × Bytes) := do
  let path ← locate d file dir
  return (← ofGiven env (← readEntries d path), path)

end Settings

end Bindery
