/-
The npm package of a package: everything under `package/`, as in a packed tarball. Each
library has a directory of glue below `src/bindings`, each command three files in
`src/commands`, and `src/index.js` offers both.
-/
import Bindery.Glue.JavaScript
import Bindery.JsonText
import Bindery.Package.Basic
import Bindery.Release

namespace Bindery.Npm

open Glue

structure Options where
  /-- how generated files name the tool, the tool's own name when empty -/
  generator : Bytes := []
  /-- the range of WASI versions to depend on, a default when empty -/
  wasiVersion : Bytes := []

namespace Options

def generatorText (o : Options) : Bytes := if o.generator.isEmpty then Release.generator else o.generator

/-- The range of WASI versions when none is asked for. -/
def defaultWasiVersion : Bytes := utf8 "^1.1.2"

def wasiRange (o : Options) : Bytes := if o.wasiVersion.isEmpty then defaultWasiVersion else o.wasiVersion

end Options

/-! ## Names in the generated code -/

/-- The function that loads a library, and the parameter for an import. -/
def loader (interface : Bytes) : Bytes := CaseStyle.snake interface

/-- The function that runs a command. -/
def runner (command : Bytes) : Bytes := command.replaceAll (utf8 "-") (utf8 "_")

/-- The module file of a command. -/
def commandModule (command : Bytes) : Bytes := command ++ utf8 ".wasm"

/-- An import of one name from a file. -/
def importLine (name file : Bytes) : Bytes :=
  utf8 "import \x7b " ++ name ++ utf8 " \x7d from \"./" ++ file ++ utf8 "\";"

/-- The glue file of an interface in the directory of a library. -/
def glueFile (l : Library) (interface : Bytes) : Bytes :=
  l.interfaceName ++ utf8 "/" ++ interface ++ utf8 ".js"

/-- The parameters of a loading function: the imports, each followed by a comma. -/
def importParams (l : Library) (param : Interface → Bytes) : Bytes :=
  l.imports.flatMap fun i => param i ++ utf8 ", "

/-- The comment above a loading function. -/
def loadComment (l : Library) : List Line :=
  [utf8 "/**", utf8 " * Load the \"" ++ l.interfaceName ++ utf8 "\" library.", utf8 " */"]

/-- The comment above the function of a command. -/
def runComment (c : Command) : List Line :=
  [utf8 "/**", utf8 " * Run the \"" ++ c.name ++ utf8 "\" command.", utf8 " */"]

/-! ## Libraries -/

/-- Opens a module by its URL, from the network or from the file system. -/
def compileLines : List Line :=
  fixed
    ["  if (url.protocol !== \"file:\" && typeof WebAssembly.compileStreaming === \"function\") \x7b",
     "    return await WebAssembly.compileStreaming(fetch(url));",
     "  \x7d",
     "  const \x7b readFile \x7d = await import(\"node:fs/promises\");",
     "  return await WebAssembly.compile(await readFile(url));",
     "\x7d"]

/-- The loading function of a library. -/
def loadLines (l : Library) : List Line :=
  let wasi (ls : List String) : List Line := if l.requiresWasi then fixed ls else []
  loadComment l
    ++ [utf8 "export async function " ++ loader l.interfaceName ++ utf8 "("
          ++ importParams l (fun i => loader i.name) ++ utf8 "options = \x7b\x7d) \x7b",
        utf8 "  const wrapper = new " ++ JavaScript.exportsClass l.interfaceName ++ utf8 "();",
        utf8 "  const module = await loadModule("
          ++ Bytes.quote (utf8 "./" ++ l.interfaceName ++ utf8 "/" ++ l.filename) ++ utf8 ");"]
    ++ wasi
      ["  await init();", "  const wasi = new WASI(options.wasi || \x7b\x7d);",
       "  const imports = wasi.getImports(module);"]
    ++ (if l.requiresWasi then [] else fixed ["  const imports = \x7b\x7d;"])
    ++ l.imports.map (fun i =>
      utf8 "  " ++ JavaScript.importsFunction i.name ++ utf8 "(imports, " ++ loader i.name
        ++ utf8 ", name => wrapper.instance.exports[name]);")
    ++ fixed ["  await wrapper.instantiate(module, imports);"]
    ++ wasi ["  wasi.instantiate(wrapper.instance, \x7b\x7d);"]
    ++ fixed ["  return wrapper;", "\x7d"]

/-- `bindings/index.js`. -/
def bindingsIndex (ls : List Library) : Bytes :=
  unlines <|
    fixed [""]
    ++ ls.flatMap (fun l =>
      importLine (JavaScript.exportsClass l.interfaceName) (glueFile l l.interfaceName)
        :: l.imports.map fun i => importLine (JavaScript.importsFunction i.name) (glueFile l i.name))
    ++ (if ls.any Library.requiresWasi then fixed ["import \x7b init, WASI \x7d from \"@wasmer/wasi\";"] else [])
    ++ fixed
      ["",
       "async function loadModule(filename) \x7b",
       "  const url = new URL(filename, import.meta.url);"]
    ++ compileLines
    ++ ls.flatMap fun l => fixed [""] ++ loadLines l

/-- The declaration of the loading function of a library. -/
def loadTypeLines (l : Library) : List Line :=
  loadComment l
    ++ [utf8 "export function " ++ loader l.interfaceName ++ utf8 "("
      ++ importParams l (fun i => loader i.name ++ utf8 ": " ++ JavaScript.exportsClass i.name)
      ++ utf8 "options?: LoadOptions): Promise<" ++ JavaScript.exportsClass l.interfaceName ++ utf8 ">;"]

/-- `bindings/index.d.ts`. -/
def bindingsTypes (ls : List Library) : Bytes :=
  unlines <|
    fixed [""]
    ++ ls.flatMap (fun l =>
      importLine (JavaScript.exportsClass l.interfaceName) (glueFile l l.interfaceName)
        :: l.imports.map fun i => importLine (JavaScript.exportsClass i.name) (glueFile l i.name))
    ++ fixed ["", "export type LoadOptions = \x7b", "  wasi?: any;", "\x7d;"]
    ++ ls.flatMap fun l => fixed [""] ++ loadTypeLines l

/-- The glue and the module of a library. -/
def libraryFiles (l : Library) : FileTree :=
  (JavaScript.generate l.interface l.imports).insert l.filename l.module.wasm

def bindingsFiles (ls : List Library) : FileTree :=
  let t := ls.foldl (fun t l => t.insertUnder l.interfaceName (libraryFiles l)) FileTree.empty
  (t.insert (utf8 "index.js") (bindingsIndex ls)).insert (utf8 "index.d.ts") (bindingsTypes ls)

/-! ## Commands -/

/-- The source of a command. -/
def commandSource (c : Command) : Bytes :=
  unlines <|
    fixed ["import \x7b init, WASI \x7d from \"@wasmer/wasi\";", "", "async function loadModule() \x7b"]
    ++ [utf8 "  const url = new URL(" ++ (commandModule c.name).quote ++ utf8 ", import.meta.url);"]
    ++ compileLines
    ++ fixed [""]
    ++ runComment c
    ++ [utf8 "export async function " ++ runner c.name ++ utf8 "(options = \x7b\x7d) \x7b"]
    ++ fixed
      ["  await init();",
       "  const module = await loadModule();",
       "  const wasi = new WASI(options.wasi || \x7b\x7d);",
       "  const instance = await wasi.instantiate(module, \x7b\x7d);",
       "  const code = wasi.start(instance);",
       "  return \x7b code, wasi \x7d;",
       "\x7d"]

/-- The types of a command. -/
def commandTypes (c : Command) : Bytes :=
  unlines <|
    fixed
      ["import \x7b WASI, WasiConfig \x7d from \"@wasmer/wasi\";",
       "",
       "export type RunOptions = \x7b",
       "  wasi?: WasiConfig;",
       "\x7d;",
       "",
       "export type RunResult = \x7b",
       "  code: number;",
       "  wasi: WASI;",
       "\x7d;",
       ""]
    ++ runComment c
    ++ [utf8 "export function " ++ runner c.name ++ utf8 "(options?: RunOptions): Promise<RunResult>;"]

def commandsFiles (cs : List Command) : FileTree :=
  cs.foldl (fun t c =>
    ((t.insert (c.name ++ utf8 ".js") (commandSource c)).insert (c.name ++ utf8 ".d.ts")
      (commandTypes c)).insert (commandModule c.name) c.wasm) FileTree.empty

/-! ## The package -/

/-- What both top-level files start with. -/
def topLevelHead (o : Options) (p : Package) : List Line :=
  [utf8 "// Generated by " ++ o.generatorText ++ utf8 "."]
    ++ (if p.libraries.isEmpty then [] else fixed ["export * as bindings from \"./bindings/index.js\";"])
    ++ p.commands.map (fun c => importLine (runner c.name) (utf8 "commands/" ++ c.name ++ utf8 ".js"))
    ++ fixed [""]

/-- `index.js`. -/
def topLevelIndex (o : Options) (p : Package) : Bytes :=
  unlines <| topLevelHead o p ++ fixed ["export const commands = \x7b"]
    ++ p.commands.map (fun c => utf8 "  " ++ runner c.name ++ utf8 ",") ++ fixed ["\x7d;"]

/-- `index.d.ts`. -/
def topLevelTypes (o : Options) (p : Package) : Bytes :=
  unlines <| topLevelHead o p ++ fixed ["export declare const commands: \x7b"]
    ++ p.commands.map (fun c => utf8 "  " ++ runner c.name ++ utf8 ": typeof " ++ runner c.name ++ utf8 ";")
    ++ fixed ["\x7d;"]

/-- `package.json`. -/
def manifest (o : Options) (p : Package) : Bytes :=
  JsonText.render <| .object <|
    [(utf8 "name", .text p.metadata.name.npm), (utf8 "version", .text p.metadata.version)]
    ++ JsonText.textUnlessEmpty "description" p.metadata.description
    ++ [(utf8 "main", .text (utf8 "src/index.js")),
        (utf8 "types", .text (utf8 "src/index.d.ts")),
        (utf8 "type", .text (utf8 "module")),
        (utf8 "dependencies", .object
          (if p.requiresWasi then [(utf8 "@wasmer/wasi", .text o.wasiRange)] else []))]

/-- The files below `src`. -/
def sourceFiles (o : Options) (p : Package) : FileTree :=
  let t := FileTree.empty
  let t := if p.libraries.isEmpty then t else t.insertUnder (utf8 "bindings") (bindingsFiles p.libraries)
  let t := if p.commands.isEmpty then t else t.insertUnder (utf8 "commands") (commandsFiles p.commands)
  (t.insert (utf8 "index.js") (topLevelIndex o p)).insert (utf8 "index.d.ts") (topLevelTypes o p)

/-- The npm package. -/
def generate (o : Options) (p : Package) : FileTree :=
  let out := FileTree.empty.insertUnder (utf8 "src") (sourceFiles o p)
  FileTree.empty.insertUnder (utf8 "package") (out.insert (utf8 "package.json") (manifest o p))

end Bindery.Npm
