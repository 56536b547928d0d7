/-
The Python distribution of a package: `pyproject.toml` and `MANIFEST.in` beside the one
directory that is imported, which is named after the package in snake case and has its
libraries below `bindings` and its commands in `commands`.
-/
import Bindery.Glue.Python
import Bindery.Package.Basic
import Bindery.Release
import Bindery.Toml.Literal

namespace Bindery.Pip

open Glue

/-! ## Names in the generated code -/

/-- The module and the loading function of a library, and the parameter for an import. -/
def loader (interface : Bytes) : Bytes := CaseStyle.snake interface

/-- The function that runs a command. -/
def runner (command : Bytes) : Bytes := command.replaceAll (utf8 "-") (utf8 "_")

/-- The module file of a command. -/
def commandModule (command : Bytes) : Bytes := runner command ++ utf8 ".wasm"

/-- A text inside a docstring: backslashes and triple quotes are escaped. -/
def docstring (s : Bytes) : Bytes :=
  (s.replaceAll (utf8 "\\") (utf8 "\\\\")).replaceAll (utf8 "\"\"\"") (utf8 "\\\"\\\"\\\"")

/-- The mark that opens and closes a docstring. -/
def fence : Line := utf8 "\"\"\""

/-! ## Libraries -/

/-- The `__init__.py` of a library. -/
def libraryInit (l : Library) : Bytes :=
  let cls := Python.exportsClass l.interfaceName
  let params := l.imports.map fun i => loader i.name ++ utf8 ": " ++ Python.exportsClass i.name
  unlines <|
    [fence, utf8 "Bindings for the \"" ++ l.interfaceName ++ utf8 "\" library.", fence]
    ++ fixed
      ["",
       "from pathlib import Path",
       "",
       "import wasmer  # type: ignore",
       "from wasmer_compiler_cranelift import Compiler  # type: ignore",
       "",
       "from .bindings import *"]
    ++ [utf8 "from .bindings import " ++ cls ++ l.imports.flatMap fun i =>
      utf8 ", " ++ Python.exportsClass i.name ++ utf8 ", " ++ Python.importsFunction i.name]
    ++ [[], utf8 "_MODULE_FILENAME = " ++ l.filename.quote, [], [],
        utf8 "def load(" ++ Bytes.join (utf8 ", ") params ++ utf8 ") -> " ++ cls ++ utf8 ":",
        utf8 "    " ++ fence,
        utf8 "    Load the \"" ++ l.interfaceName ++ utf8 "\" library and instantiate it.",
        utf8 "    " ++ fence]
    ++ fixed
      ["    store = wasmer.Store(wasmer.engine.Universal(Compiler))",
       "    module = wasmer.Module(store, Path(__file__).parent.joinpath(_MODULE_FILENAME).read_bytes())"]
    ++ (if l.requiresWasi then
        [utf8 "    wasi_version = wasmer.wasi.get_version(module, strict=False)",
         utf8 "    env = wasmer.wasi.StateBuilder(" ++ l.interfaceName.quote ++ utf8 ").finalize()",
         utf8 "    imports = env.generate_import_object(store, wasi_version)"]
      else fixed ["    imports = wasmer.ImportObject()"])
    ++ (if l.imports.isEmpty then [] else
      fixed
        ["    wrapper = None",
         "",
         "    def get_export(name: str):",
         "        return getattr(wrapper.instance.exports, name)",
         ""]
      ++ l.imports.map fun i =>
        utf8 "    " ++ Python.importsFunction i.name ++ utf8 "(store, imports, " ++ loader i.name
          ++ utf8 ", get_export)")
    ++ [utf8 "    wrapper = " ++ cls ++ utf8 "(store, imports, module)", utf8 "    return wrapper"]

/-- The glue, the module and the `__init__.py` of a library. -/
def libraryFiles (l : Library) : FileTree :=
  ((Python.generate l.interface l.imports).insert l.filename l.module.wasm).insert
    (utf8 "__init__.py") (libraryInit l)

/-- The loading function of a library in `bindings`. -/
def loadLines (l : Library) : List Line :=
  let name := loader l.interfaceName
  let params := l.imports.map fun i =>
    loader i.name ++ utf8 ": \"_" ++ name ++ utf8 "." ++ Python.exportsClass i.name ++ utf8 "\""
  [utf8 "def " ++ name ++ utf8 "(" ++ Bytes.join (utf8 ", ") params ++ utf8 ") -> \"_" ++ name ++ utf8 "."
      ++ Python.exportsClass l.interfaceName ++ utf8 "\":",
    utf8 "    " ++ fence,
    utf8 "    Load the \"" ++ l.interfaceName ++ utf8 "\" library.",
    utf8 "    " ++ fence,
    utf8 "    return _" ++ name ++ utf8 ".load("
      ++ Bytes.join (utf8 ", ") (l.imports.map fun i => loader i.name) ++ utf8 ")"]

/-- The `__init__.py` of `bindings`. -/
def bindingsInit (ls : List Library) : Bytes :=
  unlines <|
    [fence, utf8 "WebAssembly libraries bundled with this package.", fence, []]
    ++ ls.map (fun l =>
      utf8 "from . import " ++ loader l.interfaceName ++ utf8 " as _" ++ loader l.interfaceName)
    ++ [[]]
    ++ ls.flatMap fun l => [] :: loadLines l

def bindingsFiles (ls : List Library) : FileTree :=
  let t := ls.foldl (fun t l => t.insertUnder (loader l.interfaceName) (libraryFiles l)) FileTree.empty
  t.insert (utf8 "__init__.py") (bindingsInit ls)

/-! ## Commands -/

/-- What all commands share. -/
def commandsHead : List Line :=
  [fence, utf8 "Executables bundled with this package.", fence]
  ++ fixed
    ["",
     "import re",
     "from dataclasses import dataclass",
     "from pathlib import Path",
     "",
     "import wasmer  # type: ignore",
     "from wasmer_compiler_cranelift import Compiler  # type: ignore",
     "",
     "",
     "@dataclass",
     "class ExitStatus:",
     "    code: int",
     "",
     "",
     "_EXIT_CODE = re.compile(r\"exit(?:ed)?\\D*(\\d+)\", re.IGNORECASE)",
     "",
     "",
     "def _run(filename: str, env: wasmer.wasi.Environment) -> ExitStatus:",
     "    store = wasmer.Store(wasmer.engine.Universal(Compiler))",
     "    module = wasmer.Module(store, Path(__file__).parent.joinpath(filename).read_bytes())",
     "    wasi_version = wasmer.wasi.get_version(module, strict=False)",
     "    imports = env.generate_import_object(store, wasi_version)",
     "    instance = wasmer.Instance(module, imports)",
     "    try:",
     "        instance.exports._start()",
     "    except RuntimeError as e:",
     "        match = _EXIT_CODE.search(str(e))",
     "        if match is None:",
     "            raise",
     "        return ExitStatus(int(match.group(1)))",
     "    return ExitStatus(0)"]

/-- The function of a command. -/
def commandLines (c : Command) : List Line :=
  [utf8 "def " ++ runner c.name ++ utf8 "(env: wasmer.wasi.Environment) -> ExitStatus:",
    utf8 "    " ++ fence,
    utf8 "    Run the \"" ++ c.name ++ utf8 "\" command.",
    utf8 "    " ++ fence,
    utf8 "    return _run(" ++ (commandModule c.name).quote ++ utf8 ", env)"]

def commandsFiles (cs : List Command) : FileTree :=
  let t := cs.foldl (fun t c => t.insert (commandModule c.name) c.wasm) FileTree.empty
  t.insert (utf8 "__init__.py")
    (unlines (commandsHead ++ [[]] ++ cs.flatMap fun c => [] :: commandLines c))

/-! ## The distribution -/

/-- The `__init__.py` of the import package. -/
def topLevelInit (generator : Bytes) (p : Package) : Bytes :=
  let m := p.metadata
  unlines <|
    [fence, m.name.toText ++ utf8 " " ++ m.version]
    ++ (if m.description.isEmpty then [] else [[], docstring m.description])
    ++ [[], utf8 "Generated by " ++ generator ++ utf8 ".", fence, []]
    ++ (if p.libraries.isEmpty then [] else fixed ["from . import bindings"])
    ++ (if p.commands.isEmpty then [] else fixed ["from . import commands"])

/-- The files of the import package. -/
def packageFiles (generator : Bytes) (p : Package) : FileTree :=
  let t := FileTree.empty
  let t := if p.libraries.isEmpty then t else t.insertUnder (utf8 "bindings") (bindingsFiles p.libraries)
  let t := if p.commands.isEmpty then t else t.insertUnder (utf8 "commands") (commandsFiles p.commands)
  (t.insert (utf8 "__init__.py") (topLevelInit generator p)).insert (utf8 "py.typed") []

/-- What a distribution needs at run time. -/
def dependencies : List Bytes := [utf8 "wasmer", utf8 "wasmer_compiler_cranelift"]

/-- `pyproject.toml`. -/
def project (m : Metadata) : Bytes :=
  unlines <|
    [utf8 "[project]",
      utf8 "name = " ++ Toml.literal m.name.python,
      utf8 "version = " ++ Toml.literal m.version]
    ++ (if m.description.isEmpty then [] else [utf8 "description = " ++ Toml.literal m.description])
    ++ [utf8 "keywords = " ++ Toml.literals [],
      utf8 "dependencies = " ++ Toml.literals dependencies,
      [],
      utf8 "[build-system]",
      utf8 "requires = " ++ Toml.literals [utf8 "setuptools", utf8 "setuptools-scm"],
      utf8 "build-backend = " ++ Toml.literal (utf8 "setuptools.build_meta")]

/-- `MANIFEST.in`: the files to ship beside the sources. -/
def shipped (p : Package) : Bytes :=
  let line (file : Bytes) : Line := utf8 "include " ++ p.metadata.name.python ++ utf8 "/" ++ file
  unlines <|
    [line (utf8 "py.typed")]
    ++ p.libraries.map (fun l =>
      line (utf8 "bindings/" ++ loader l.interfaceName ++ utf8 "/" ++ l.filename))
    ++ p.commands.map fun c => line (utf8 "commands/" ++ commandModule c.name)

/-- The distribution; an empty `generator` stands for the tool's own name. -/
def generate (generator : Bytes) (p : Package) : FileTree :=
  let generator := if generator.isEmpty then Release.generator else generator
  let t := FileTree.empty.insertUnder p.metadata.name.python (packageFiles generator p)
  (t.insert (utf8 "pyproject.toml") (project p.metadata)).insert (utf8 "MANIFEST.in") (shipped p)

end Bindery.Pip
