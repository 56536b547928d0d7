/-
Python glue: a single module that opens with the helpers, then for every imported
interface its types, a protocol class and a function that registers a host
implementation, and last the types and the class of the exported interface.
-/
import Bindery.CaseStyle
import Bindery.FileTree
import Bindery.Glue.Emit
import Bindery.Glue.PythonHelpers

namespace Bindery.Glue.Python

/-- The words that cannot be used as identifiers: keywords, and the variables that
generated bodies use themselves. -/
def reserved : List String :=
  ["False", "None", "True", "and", "as", "assert", "async", "await", "break", "class", "continue",
   "def", "del", "elif", "else", "except", "finally", "for", "from", "global", "if", "import", "in",
   "is", "lambda", "nonlocal", "not", "or", "pass", "raise", "return", "try", "while", "with", "yield",
   "self", "memory", "realloc", "ret", "result"]

/-- An identifier that is no reserved word: such a word gets an underscore. -/
def ident (name : Bytes) : Bytes :=
  if reserved.any fun w => utf8 w == name then name ++ utf8 "_" else name

/-- The identifier of a function, parameter or field. -/
def snakeIdent (name : Bytes) : Bytes := ident (CaseStyle.snake name)

/-- The class around an exported interface. -/
def exportsClass (iface : Bytes) : Bytes := CaseStyle.pascal iface

/-- The function that registers a host implementation of an imported interface. -/
def importsFunction (iface : Bytes) : Bytes :=
  utf8 "add_" ++ CaseStyle.snake iface ++ utf8 "_to_imports"

/-- The module that holds all glue of a library. -/
def bindingsFile : Bytes := utf8 "bindings.py"

def lowerPrim : Prim → Bytes → Bytes
  | .bool, e => utf8 "int(" ++ e ++ utf8 ")"
  | .char, e => utf8 "ord(" ++ e ++ utf8 ")"
  | _, e => e

def liftPrim : Prim → Bytes → Bytes
  | .bool, e => utf8 "bool(" ++ e ++ utf8 ")"
  | .char, e => utf8 "chr(" ++ e ++ utf8 ")"
  | .u8, e => utf8 "(" ++ e ++ utf8 " & 0xff)"
  | .u16, e => utf8 "(" ++ e ++ utf8 " & 0xffff)"
  | .u32, e => utf8 "(" ++ e ++ utf8 " & 0xffffffff)"
  | .u64, e => utf8 "(" ++ e ++ utf8 " & 0xffffffffffffffff)"
  | .s8, e => utf8 "_signed(" ++ e ++ utf8 ", 8)"
  | .s16, e => utf8 "_signed(" ++ e ++ utf8 ", 16)"
  | _, e => e

/-- How Python spells the code. -/
def dialect : Dialect where
  helper h := utf8 "_" ++ CaseStyle.snake h.word
  fieldName := snakeIdent
  lambda ps body := utf8 "(lambda " ++ Dialect.commas ps ++ utf8 ": " ++ body ++ utf8 ")"
  cond test yes no := utf8 "(" ++ yes ++ utf8 " if " ++ test ++ utf8 " else " ++ no ++ utf8 ")"
  equal a b := a ++ utf8 " == " ++ b
  null := utf8 "None"
  record t fs :=
    CaseStyle.pascal t ++ utf8 "("
      ++ Dialect.commas (fs.map fun (n, e) => snakeIdent n ++ utf8 "=" ++ e) ++ utf8 ")"
  tuple
    | [e] => utf8 "(" ++ e ++ utf8 ",)"
    | es => utf8 "(" ++ Dialect.commas es ++ utf8 ")"
  assign ns e := Dialect.commas ns ++ utf8 " = " ++ e
  lowerPrim := lowerPrim
  liftPrim := liftPrim
  lowerEnum _ _ e := utf8 "int(" ++ e ++ utf8 ")"
  liftEnum t _ e := CaseStyle.pascal t ++ utf8 "(" ++ e ++ utf8 ")"
  lowerFlags _ e := utf8 "int(" ++ e ++ utf8 ")"
  liftFlags t e := CaseStyle.pascal t ++ utf8 "(" ++ e ++ utf8 ")"
  ok e := utf8 "Ok(" ++ e ++ utf8 ")"
  err e := utf8 "Err(" ++ e ++ utf8 ")"
  variantCase t c e := CaseStyle.pascal t ++ CaseStyle.pascal c ++ utf8 "(" ++ e ++ utf8 ")"

/-- The unit of indentation. -/
def unit : Bytes := utf8 "    "

/-! ## Types -/

mutual

/-- A type hint. -/
def typeText : TypeExpr → Bytes
  | .blank => utf8 "None"
  | .named n => CaseStyle.pascal n
  | .prim .bool => utf8 "bool"
  | .prim .f32 | .prim .f64 => utf8 "float"
  | .prim .char => utf8 "str"
  | .prim _ => utf8 "int"
  | .string => utf8 "str"
  | .errorContext => utf8 "Any"
  | .list t => utf8 "List[" ++ typeText t ++ utf8 "]"
  | .option t => utf8 "Optional[" ++ typeText t ++ utf8 "]"
  | .result ok err => utf8 "Result[" ++ typeText ok ++ utf8 ", " ++ typeText err ++ utf8 "]"
  | .tuple ts => utf8 "Tuple[" ++ Dialect.commas (typeTexts ts) ++ utf8 "]"

def typeTexts : List TypeExpr → List Bytes
  | [] => []
  | t :: ts => typeText t :: typeTexts ts

end

/-- The body of a class, `pass` when it is empty. -/
def classBody (ls : List Line) : List Line := indent unit (if ls.isEmpty then [utf8 "pass"] else ls)

/-- The class of a case of a variant. -/
def caseClass (type case : Bytes) : Bytes := CaseStyle.pascal type ++ CaseStyle.pascal case

def variantLines (name : Bytes) (cases : List (Bytes × TypeExpr)) : List Line :=
  cases.flatMap fun (c, t) =>
    [[], [], utf8 "@dataclass", utf8 "class " ++ caseClass name c ++ utf8 ":"]
      ++ classBody (match t with
        | .blank => []
        | t => [utf8 "value: " ++ typeText t])

/-- The classes of a declaration. -/
def declLines (d : Decl) : List Line :=
  let name := CaseStyle.pascal d.name
  match d.body with
  | .record fs =>
    [[], [], utf8 "@dataclass", utf8 "class " ++ name ++ utf8 ":"]
      ++ classBody (fs.map fun (n, t) => snakeIdent n ++ utf8 ": " ++ typeText t)
  | .enum cs =>
    [[], [], utf8 "class " ++ name ++ utf8 "(IntEnum):"]
      ++ indent unit (cs.zipIdx.map fun (c, i) => CaseStyle.screaming c ++ utf8 " = " ++ Bytes.decimal i)
  | .flags fs =>
    [[], [], utf8 "class " ++ name ++ utf8 "(IntFlag):"]
      ++ classBody (fs.zipIdx.map fun (f, i) => CaseStyle.screaming f ++ utf8 " = " ++ flagValue i)
  | .variant cs => variantLines d.name cs
  | .union ts => variantLines d.name (unionCases ts)
  | .resource => []
  | .alias _ => []

/-- The alias a declaration makes: a union of its case classes, or another name. -/
def aliasLine? (d : Decl) : Option Line :=
  let name := CaseStyle.pascal d.name
  let union (cases : List (Bytes × TypeExpr)) : Line :=
    name ++ utf8 " = Union[" ++ Dialect.commas (cases.map fun c => caseClass d.name c.1) ++ utf8 "]"
  match d.body with
  | .variant cs => some (union cs)
  | .union ts => some (union (unionCases ts))
  | .resource => some (name ++ utf8 " = int")
  | .alias t => some (name ++ utf8 " = " ++ typeText t)
  | _ => none

/-- The types of an interface: classes in order of declaration, then the aliases. -/
def typeDecls (i : Interface) : List Line :=
  let aliases := i.types.filterMap aliasLine?
  i.types.flatMap declLines ++ if aliases.isEmpty then [] else [[], []] ++ aliases

/-- The typed parameters of a method behind `self`. -/
def paramsText (f : Func) : Bytes :=
  f.params.flatMap fun p => utf8 ", " ++ snakeIdent p.name ++ utf8 ": " ++ typeText p.type

/-- The type of what a function returns. -/
def resultText (f : Func) : Bytes :=
  match f.results with
  | [] => utf8 "None"
  | [r] => typeText r.type
  | rs => typeText (.tuple (rs.map (·.type)))

/-- The first line of a method. -/
def methodHead (f : Func) : Line :=
  utf8 "def " ++ snakeIdent f.name ++ utf8 "(self" ++ paramsText f ++ utf8 ") -> " ++ resultText f
    ++ utf8 ":"

/-! ## The exported interface -/

/-- A call that only says why a function is not supported. -/
def stub (f : Func) (why : Unsupported) : Line :=
  utf8 "return _unsupported(" ++ (why.message f.name).quote ++ utf8 ")"

/-- The opening of the class around an exported interface. -/
def classHead : List Line := fixed
  ["instance: wasmer.Instance",
   "",
   "def __init__(self, store: wasmer.Store, imports: wasmer.ImportObject, module: wasmer.Module):",
   "    self.instance = wasmer.Instance(module, imports)",
   "",
   "def _export(self, name: str) -> Any:",
   "    return getattr(self.instance.exports, name)",
   "",
   "def _memory(self) -> wasmer.Memory:",
   "    return self._export(\"memory\")",
   "",
   "def _realloc(self) -> Callable:",
   "    try:",
   "        return self._export(\"cabi_realloc\")",
   "    except AttributeError:",
   "        return self._export(\"canonical_abi_realloc\")",
   "",
   "def _post_return(self, name: str, ret: int) -> None:",
   "    post = getattr(self.instance.exports, \"cabi_post_\" + name, None)",
   "    if post is not None:",
   "        post(ret)"]

/-- The body of a method that calls an exported function. -/
def exportBody (f : Func) (call : ExportCall) : List Line :=
  let invoke := utf8 "self._export(" ++ f.name.quote ++ utf8 ")("
    ++ Dialect.commas (call.args.map (Expr.print dialect)) ++ utf8 ")"
  fixed ["memory = self._memory()", "realloc = self._realloc()"]
    ++ call.stmts.map (Stmt.print dialect)
    ++ match call.result with
      | none => [invoke]
      | some r =>
        [utf8 "ret = " ++ invoke]
          ++ if call.indirect then
              [utf8 "result = " ++ r.print dialect,
               utf8 "self._post_return(" ++ f.name.quote ++ utf8 ", ret)",
               utf8 "return result"]
            else [utf8 "return " ++ r.print dialect]

/-- The parameters of a method behind `self`. -/
def methodParams (f : Func) : List Bytes := f.params.map fun p => snakeIdent p.name

/-- The method that calls an exported function. -/
def method (i : Interface) (f : Func) : List Line :=
  [[], methodHead f] ++ indent unit (match exportCallOf i f ((methodParams f).map .var) with
    | .error why => [stub f why]
    | .ok call => exportBody f call)

/-- The types and the class of the exported interface. -/
def exportsLines (i : Interface) : List Line :=
  typeDecls i ++ [[], [], utf8 "class " ++ exportsClass i.name ++ utf8 ":"]
    ++ indent unit (classHead ++ i.functions.flatMap (method i))

/-! ## Imported interfaces -/

/-- The host type of a core number. -/
def coreText : CoreType → Bytes
  | .f32 | .f64 => utf8 "float"
  | _ => utf8 "int"

/-- The runtime's description of a core signature. -/
def functionType (sig : Signature) : Bytes :=
  let types (ts : List CoreType) : Bytes :=
    utf8 "[" ++ Dialect.commas (ts.map fun t => utf8 "wasmer.Type." ++ t.word.map Byte.upper) ++ utf8 "]"
  utf8 "wasmer.FunctionType(" ++ types sig.params ++ utf8 ", " ++ types sig.results ++ utf8 ")"

/-- The body of a wrapper around a host function. -/
def importBody (f : Func) (call : ImportCall) : List Line :=
  let invoke := utf8 "host." ++ snakeIdent f.name ++ utf8 "("
    ++ Dialect.commas (call.args.map (Expr.print dialect)) ++ utf8 ")"
  let bound (last : Line) :=
    [utf8 "result = " ++ invoke] ++ call.stmts.map (Stmt.print dialect) ++ [last]
  fixed ["memory = get_export(\"memory\")", "realloc = get_export(\"cabi_realloc\")"]
    ++ match call.store, call.lower with
      | some s, _ => bound (s.print dialect)
      | none, some e => bound (utf8 "return " ++ e.print dialect)
      | none, none => [invoke]

/-- The core signature of an imported function; a type without a shape has none. -/
def importSignature (i : Interface) (f : Func) : Signature :=
  match i.shapedFunc? f with
  | none => { params := [], results := [], indirectParams := false, indirectResults := false }
  | some sf => sf.signature .imported

/-- The local function that wraps a host function, and its registration. -/
def wrapper (i : Interface) (f : Func) : List Line :=
  let name := utf8 "_" ++ snakeIdent f.name
  let sig := importSignature i f
  [[]] ++ (match importCallOf i f with
    | .error why =>
      [utf8 "def " ++ name ++ utf8 "("
          ++ Dialect.commas ((List.range sig.params.length).map paramName) ++ utf8 ") -> Any:"]
        ++ indent unit [stub f why]
    | .ok call =>
      let typed := (call.params.zip sig.params).map fun (p, t) => p ++ utf8 ": " ++ coreText t
      let result := match sig.results with
        | [] => utf8 "None"
        | t :: _ => coreText t
      [utf8 "def " ++ name ++ utf8 "(" ++ Dialect.commas typed ++ utf8 ") -> " ++ result ++ utf8 ":"]
        ++ indent unit (importBody f call))
    ++ [utf8 "functions[" ++ f.name.quote ++ utf8 "] = wasmer.Function(store, " ++ name ++ utf8 ", "
        ++ functionType sig ++ utf8 ")"]

/-- The abstract methods of a protocol, with an empty line between two. -/
def protocolMethods : List Func → List Line
  | [] => [utf8 "pass"]
  | f :: fs => one f ++ fs.flatMap fun f => [] :: one f
where
  /-- one abstract method -/
  one (f : Func) : List Line :=
    [utf8 "@abstractmethod", methodHead f, utf8 "    raise NotImplementedError"]

/-- The types, the protocol and the registration of an imported interface. -/
def importsLines (i : Interface) : List Line :=
  let iface := exportsClass i.name
  typeDecls i ++ [[], [], utf8 "class " ++ iface ++ utf8 "(Protocol):"]
    ++ indent unit (protocolMethods i.functions)
    ++ [[], [],
      utf8 "def " ++ importsFunction i.name
        ++ utf8 "(store: wasmer.Store, imports: wasmer.ImportObject, host: " ++ iface
        ++ utf8 ", get_export: Callable[[str], Any]) -> None:"]
    ++ indent unit ([utf8 "functions = \x7b\x7d"] ++ i.functions.flatMap (wrapper i)
      ++ [[], utf8 "imports.register(" ++ i.name.quote ++ utf8 ", functions)"])

/-- The glue of a library, all in one module. -/
def generate (exports : Interface) (imports : List Interface) : FileTree :=
  FileTree.empty.insert bindingsFile
    (unlines (helperLines ++ imports.flatMap importsLines ++ exportsLines exports))

end Bindery.Glue.Python
