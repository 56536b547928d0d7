/-
The commands: generating an npm or a pip package, describing a package, and handing one
to the browser. Everything that a command reads or writes is on the disk it is run on.
-/
import Bindery.CommandLine.Invocation
import Bindery.Distribution.Npm
import Bindery.Distribution.Pip
import Bindery.FileTree.Save
import Bindery.Package.Directory
import Bindery.Settings
import Bindery.Summary

namespace Bindery

/-- What a command leads to. -/
inductive Outcome where
  | output (text : Bytes)
  | browse (package : Package)

namespace CommandLine

/-- The commands in short. -/
def usage : Bytes :=
  (["Generate npm and pip packages from WebAssembly containers", "",
    "  wasm-pack javascript <input> [-o DIR]", "  wasm-pack python <input> [-o DIR]",
    "  wasm-pack show <input> [-f text|json] [--inspect]", "  wasm-pack browse <input>", "",
    "Every command takes --config FILE and -v."].map fun l => (utf8 l).line).flatten

/-- The files of a package for a language. -/
def filesFor (l : Language) (s : Settings) (p : Package) : FileTree :=
  match l with
  | .javascript => Npm.generate { wasiVersion := s.wasiVersion } p
  | .python => Pip.generate [] p

/-- The number of octets of all files. -/
def totalSize (t : FileTree) : Nat := t.files.foldl (fun n f => n + f.2.length) 0

/-- Writes the package for a language. The directory comes from the flag, else from the
settings, and is else named like the package. -/
def generate (l : Language) (s : Settings) (outDir : Option Bytes) (p : Package) : DiskAction Bytes := do
  let tree := filesFor l s p
  let name := p.metadata.name.toText
  let asked := outDir.getD s.outDir
  let out := if asked.isEmpty then name else asked
  tree.save out
  return Bytes.line (utf8 "✓ Wrote " ++ Bytes.decimal tree.files.length ++ utf8 " files ("
    ++ ByteSize.text (totalSize tree) ++ utf8 ") for " ++ name ++ utf8 "@" ++ p.metadata.version
    ++ utf8 " to " ++ out)

/-- The description of a package in a format. -/
def describe (f : Format) (inspect : Bool) (p : Package) : Except Report Bytes := do
  let s ← Summary.ofPackage inspect p
  return match f with
    | .text => s.text
    | .json => s.json

/-- Runs one command. -/
def perform (s : Settings) (verb : Verb) (input : Bytes) (o : Options) : DiskAction Outcome := do
  let d ← get
  let package := Package.ofPath Interface.parse d input
  match verb with
  | .generate l => return .output (← generate l s o.outDir (← ofExcept package))
  | .describe =>
    let format ← ofExcept <| match o.format with
      | some f => Format.parse f
      | none => .ok s.format
    return .output (← ofExcept (describe format o.inspect (← ofExcept package)))
  | .browse => return .browse (← ofExcept package)

/-- Runs what the words of a command line ask for. -/
def run (env : List (Bytes × Bytes)) (args : List Bytes) : DiskAction Outcome := do
  match Invocation.parse? args with
  | none => throw .external
  | some .help => return .output usage
  | some (.run verb input o) =>
    let (s, _) ← ofExcept (Settings.load (← get) env o.config [])
    perform { s with verbose := o.verbose.getD s.verbose } verb input o

/-- The paths that the words of a command line lead to reading, as far as the disk can tell
already. -/
def wanted (d : Disk) (args : List Bytes) : List Bytes :=
  match Invocation.parse? args with
  | some (.run _ input o) =>
    let members := match PackageFile.find d input with
      | .ok f => f.members
      | .error _ => []
    [if o.config.isEmpty then Settings.fileName else o.config, input]
      ++ (PackageFile.names ++ members).map fun p => SlashPath.join [input, p]
  | _ => []

end CommandLine

end Bindery
