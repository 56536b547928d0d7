/-
JavaScript glue: an ES module with a class around the exported interface, a module
with an `addXToImports` function for every imported interface, type declarations
beside each, and the helpers they share.
-/
import Bindery.CaseStyle
import Bindery.FileTree
import Bindery.Glue.Emit
import Bindery.Glue.JavaScriptHelpers

namespace Bindery.Glue.JavaScript

/-- The words that cannot be used as identifiers. -/
def reserved : List String :=
  ["break", "case", "catch", "class", "const", "continue", "debugger", "default", "delete", "do",
   "else", "export", "extends", "finally", "for", "function", "if", "import", "in", "instanceof",
   "new", "return", "super", "switch", "this", "throw", "try", "typeof", "var", "void", "while",
   "with", "yield", "let", "static", "enum", "await", "null", "true", "false"]

/-- An identifier that is no reserved word: such a word gets an underscore. -/
def ident (name : Bytes) : Bytes :=
  if reserved.any fun w => utf8 w == name then name ++ utf8 "_" else name

/-- The class around an exported interface. -/
def exportsClass (iface : Bytes) : Bytes := CaseStyle.pascal iface

/-- The function that registers a host implementation of an imported interface. -/
def importsFunction (iface : Bytes) : Bytes :=
  utf8 "add" ++ CaseStyle.pascal iface ++ utf8 "ToImports"

/-- The module with the shared helpers. -/
def helpersFile : Bytes := utf8 "intrinsics.js"

/-- Names in quotes, in brackets. -/
def quotedList (names : List Bytes) : Bytes :=
  utf8 "[" ++ Dialect.commas (names.map Bytes.quote) ++ utf8 "]"

def lowerPrim : Prim → Bytes → Bytes
  | .bool, e => utf8 "(" ++ e ++ utf8 " ? 1 : 0)"
  | .char, e => e ++ utf8 ".codePointAt(0)"
  | .u64, e | .s64, e => utf8 "BigInt(" ++ e ++ utf8 ")"
  | _, e => e

def liftPrim : Prim → Bytes → Bytes
  | .bool, e => utf8 "(" ++ e ++ utf8 " !== 0)"
  | .char, e => utf8 "String.fromCodePoint(" ++ e ++ utf8 ")"
  | .u8, e => utf8 "(" ++ e ++ utf8 " & 0xff)"
  | .u16, e => utf8 "(" ++ e ++ utf8 " & 0xffff)"
  | .u32, e => utf8 "(" ++ e ++ utf8 " >>> 0)"
  | .s8, e => utf8 "((" ++ e ++ utf8 " << 24) >> 24)"
  | .s16, e => utf8 "((" ++ e ++ utf8 " << 16) >> 16)"
  | .u64, e => utf8 "BigInt.asUintN(64, " ++ e ++ utf8 ")"
  | _, e => e

/-- An object with a tag and a value. -/
def tagged (tag value : Bytes) : Bytes :=
  utf8 "\x7b tag: " ++ tag.quote ++ utf8 ", val: " ++ value ++ utf8 " \x7d"

/-- How JavaScript spells the code. -/
def dialect : Dialect where
  helper h := h.word
  fieldName := CaseStyle.camel
  lambda ps body := utf8 "(" ++ Dialect.commas ps ++ utf8 ") => (" ++ body ++ utf8 ")"
  cond test yes no := utf8 "(" ++ test ++ utf8 " ? " ++ yes ++ utf8 " : " ++ no ++ utf8 ")"
  equal a b := a ++ utf8 " === " ++ b
  null := utf8 "null"
  record _ fs :=
    utf8 "\x7b " ++ Dialect.commas (fs.map fun (n, e) => CaseStyle.camel n ++ utf8 ": " ++ e) ++ utf8 " \x7d"
  tuple es := utf8 "[" ++ Dialect.commas es ++ utf8 "]"
  assign ns e := utf8 "const [" ++ Dialect.commas ns ++ utf8 "] = " ++ e ++ utf8 ";"
  lowerPrim := lowerPrim
  liftPrim := liftPrim
  lowerEnum _ cs e := utf8 "lowerEnum(" ++ quotedList cs ++ utf8 ", " ++ e ++ utf8 ")"
  liftEnum _ cs e := utf8 "liftEnum(" ++ quotedList cs ++ utf8 ", " ++ e ++ utf8 ")"
  lowerFlags _ e := e
  liftFlags _ e := e
  ok e := tagged (utf8 "ok") e
  err e := tagged (utf8 "err") e
  variantCase _ c e :=
    if e.isEmpty then utf8 "\x7b tag: " ++ c.quote ++ utf8 " \x7d" else tagged c e

/-- The unit of indentation. -/
def unit : Bytes := utf8 "  "

/-! ## Types -/

mutual

/-- A type in a type declaration. -/
def typeText : TypeExpr → Bytes
  | .blank => utf8 "null"
  | .named n => CaseStyle.pascal n
  | .prim .bool => utf8 "boolean"
  | .prim .u64 | .prim .s64 => utf8 "bigint"
  | .prim .char => utf8 "string"
  | .prim _ => utf8 "number"
  | .string => utf8 "string"
  | .errorContext => utf8 "unknown"
  | .list t => utf8 "Array<" ++ typeText t ++ utf8 ">"
  | .option t => typeText t ++ utf8 " | null"
  | .result ok err => utf8 "Result<" ++ typeText ok ++ utf8 ", " ++ typeText err ++ utf8 ">"
  | .tuple ts => utf8 "[" ++ Dialect.commas (typeTexts ts) ++ utf8 "]"

def typeTexts : List TypeExpr → List Bytes
  | [] => []
  | t :: ts => typeText t :: typeTexts ts

end

/-- The constant of a flag. -/
def flagName (type flag : Bytes) : Bytes := CaseStyle.screaming (type ++ utf8 "-" ++ flag)

/-- The constants of every set of flags. -/
def flagConstants (i : Interface) : List Line :=
  i.types.flatMap fun d =>
    match d.body with
    | .flags fs =>
      fs.zipIdx.map (fun (f, k) =>
        utf8 "export const " ++ flagName d.name f ++ utf8 " = " ++ flagValue k ++ utf8 ";") ++ [[]]
    | _ => []

/-- The cases of a variant as a union of tagged interfaces. -/
def variantLines (name : Bytes) (cases : List (Bytes × TypeExpr)) : List Line :=
  let member (c : Bytes) := name ++ CaseStyle.pascal c
  [utf8 "export type " ++ name ++ utf8 " = "
      ++ Bytes.join (utf8 " | ") (cases.map fun c => member c.1) ++ utf8 ";"]
    ++ cases.map fun (c, t) =>
      utf8 "export interface " ++ member c ++ utf8 " \x7b tag: " ++ c.quote
        ++ (match t with
          | .blank => []
          | t => utf8 ", val: " ++ typeText t)
        ++ utf8 " \x7d"

/-- The declaration of a type, and an empty line. -/
def declLines (d : Decl) : List Line :=
  let name := CaseStyle.pascal d.name
  (match d.body with
    | .record fs =>
      [utf8 "export interface " ++ name ++ utf8 " \x7b"]
        ++ fs.map (fun (n, t) => utf8 "  " ++ CaseStyle.camel n ++ utf8 ": " ++ typeText t ++ utf8 ",")
        ++ [utf8 "\x7d"]
    | .enum cs =>
      [utf8 "export type " ++ name ++ utf8 " = " ++ Bytes.join (utf8 " | ") (cs.map Bytes.quote)
        ++ utf8 ";"]
    | .flags fs =>
      [utf8 "export type " ++ name ++ utf8 " = number;"]
        ++ fs.map fun f => utf8 "export const " ++ flagName d.name f ++ utf8 ": number;"
    | .variant cs => variantLines name cs
    | .union ts => variantLines name (unionCases ts)
    | .resource => [utf8 "export type " ++ name ++ utf8 " = number;"]
    | .alias t => [utf8 "export type " ++ name ++ utf8 " = " ++ typeText t ++ utf8 ";"])
    ++ [[]]

/-- The declarations of all types of an interface. -/
def typeDecls (i : Interface) : List Line :=
  fixed ["export type Result<T, E> = \x7b tag: \"ok\", val: T \x7d | \x7b tag: \"err\", val: E \x7d;", ""]
    ++ i.types.flatMap declLines

/-- The type of what a function returns. -/
def resultText (f : Func) : Bytes :=
  match f.results with
  | [] => utf8 "void"
  | [r] => match r.type with
    | .blank => utf8 "void"
    | t => typeText t
  | rs => typeText (.tuple (rs.map (·.type)))

/-- The declaration of a function. -/
def methodDecl (f : Func) : Line :=
  CaseStyle.camel f.name ++ utf8 "("
    ++ Dialect.commas (f.params.map fun p =>
      ident (CaseStyle.camel p.name) ++ utf8 ": " ++ typeText p.type)
    ++ utf8 "): " ++ resultText f ++ utf8 ";"

/-! ## Modules -/

/-- A helper's name stands before an opening bracket, and no letter, digit or
underscore before the name; `inWord` says that the octet before is one of these. -/
def calls (name : Bytes) : Bool → Bytes → Bool
  | _, [] => false
  | inWord, b :: s =>
    (!inWord && (name ++ [40]).isPrefixOf (b :: s)) || calls name (Byte.isWord b) s

/-- The body with an import of the helpers it calls in front, if it calls any. -/
def withImports (body : Bytes) : Bytes :=
  let used := Helper.all.filter fun h => calls h.word false body
  if used.isEmpty then body
  else
    utf8 "import \x7b " ++ Dialect.commas (used.map Helper.word) ++ utf8 " \x7d from \"./" ++ helpersFile
      ++ utf8 "\";\n\n" ++ body

/-- A call that only says why a function is not supported. -/
def stub (f : Func) (why : Unsupported) : Line :=
  utf8 "unsupported(" ++ (why.message f.name).quote ++ utf8 ");"

/-- The opening of the class around an exported interface. -/
def classHead : List Line := fixed
  ["addToImports(imports) \x7b",
   "\x7d",
   "",
   "async instantiate(module, imports) \x7b",
   "  imports = imports || \x7b\x7d;",
   "  this.addToImports(imports);",
   "  if (module instanceof WebAssembly.Instance) \x7b",
   "    this.instance = module;",
   "  \x7d else if (module instanceof WebAssembly.Module) \x7b",
   "    this.instance = await WebAssembly.instantiate(module, imports);",
   "  \x7d else \x7b",
   "    const \x7b instance \x7d = await WebAssembly.instantiate(module, imports);",
   "    this.instance = instance;",
   "  \x7d",
   "  this._exports = this.instance.exports;",
   "\x7d",
   "",
   "_memory() \x7b",
   "  return this._exports.memory;",
   "\x7d",
   "",
   "_realloc() \x7b",
   "  return this._exports.cabi_realloc || this._exports.canonical_abi_realloc;",
   "\x7d",
   "",
   "_postReturn(name, ret) \x7b",
   "  const post = this._exports[`cabi_post_$\x7bname\x7d`];",
   "  if (post) \x7b",
   "    post(ret);",
   "  \x7d",
   "\x7d"]

/-- The body of a method that calls an exported function. -/
def exportBody (f : Func) (call : ExportCall) : List Line :=
  let invoke := utf8 "this._exports[" ++ f.name.quote ++ utf8 "]("
    ++ Dialect.commas (call.args.map (Expr.print dialect)) ++ utf8 ")"
  fixed ["const memory = this._memory();", "const realloc = this._realloc();"]
    ++ call.stmts.map (Stmt.print dialect)
    ++ match call.result with
      | none => [invoke ++ utf8 ";"]
      | some r =>
        [utf8 "const ret = " ++ invoke ++ utf8 ";"]
          ++ if call.indirect then
              [utf8 "const result = " ++ r.print dialect ++ utf8 ";",
               utf8 "this._postReturn(" ++ f.name.quote ++ utf8 ", ret);",
               utf8 "return result;"]
            else [utf8 "return " ++ r.print dialect ++ utf8 ";"]

/-- The parameters of a method, by position. -/
def methodParams (f : Func) : List Bytes := (List.range f.params.length).map paramName

/-- The method that calls an exported function. -/
def method (i : Interface) (f : Func) : List Line :=
  [[], CaseStyle.camel f.name ++ utf8 "("
      ++ Dialect.commas (methodParams f) ++ utf8 ") \x7b"]
    ++ indent unit (match exportCallOf i f ((methodParams f).map .var) with
      | .error why => [stub f why]
      | .ok call => exportBody f call)
    ++ [utf8 "\x7d"]

/-- The module around an exported interface. -/
def exportsModule (i : Interface) : Bytes :=
  withImports <| unlines <|
    flagConstants i ++ [utf8 "export class " ++ exportsClass i.name ++ utf8 " \x7b"]
      ++ indent unit (classHead ++ i.functions.flatMap (method i)) ++ [utf8 "\x7d"]

/-- The type declarations of the module around an exported interface. -/
def exportsTypes (i : Interface) : Bytes :=
  unlines <|
    typeDecls i ++ [utf8 "export class " ++ exportsClass i.name ++ utf8 " \x7b"]
      ++ indent unit (fixed
          ["addToImports(imports: any): void;",
           "instantiate(module: WebAssembly.Module | BufferSource | WebAssembly.Instance, imports?: any): Promise<void>;"]
        ++ i.functions.map methodDecl)
      ++ [utf8 "\x7d"]

/-- The body of a wrapper around a host function. -/
def importBody (f : Func) (call : ImportCall) : List Line :=
  let invoke := utf8 "obj." ++ CaseStyle.camel f.name ++ utf8 "("
    ++ Dialect.commas (call.args.map (Expr.print dialect)) ++ utf8 ")"
  let bound (last : Line) :=
    [utf8 "const result = " ++ invoke ++ utf8 ";"] ++ call.stmts.map (Stmt.print dialect) ++ [last]
  fixed ["const memory = getExport(\"memory\");", "const realloc = getExport(\"cabi_realloc\");"]
    ++ match call.store, call.lower with
      | some s, _ => bound (s.print dialect ++ utf8 ";")
      | none, some e => bound (utf8 "return " ++ e.print dialect ++ utf8 ";")
      | none, none => [invoke ++ utf8 ";"]

/-- The assignment that registers the wrapper of an imported function. -/
def wrapper (i : Interface) (f : Func) : List Line :=
  let target := utf8 "imports[" ++ i.name.quote ++ utf8 "][" ++ f.name.quote ++ utf8 "] = function "
  match importCallOf i f with
  | .error why => [target ++ utf8 "() \x7b"] ++ indent unit [stub f why] ++ [utf8 "\x7d;"]
  | .ok call =>
    [target ++ ident (CaseStyle.camel f.name) ++ utf8 "(" ++ Dialect.commas call.params ++ utf8 ") \x7b"]
      ++ indent unit (importBody f call) ++ [utf8 "\x7d;"]

/-- The module that registers an imported interface. -/
def importsModule (i : Interface) : Bytes :=
  withImports <| unlines <|
    flagConstants i
      ++ [utf8 "export function " ++ importsFunction i.name ++ utf8 "(imports, obj, getExport) \x7b"]
      ++ indent unit ([utf8 "if (!(" ++ i.name.quote ++ utf8 " in imports)) \x7b",
          utf8 "  imports[" ++ i.name.quote ++ utf8 "] = \x7b\x7d;", utf8 "\x7d"]
        ++ i.functions.flatMap (wrapper i))
      ++ [utf8 "\x7d"]

/-- The type declarations of the module that registers an imported interface. -/
def importsTypes (i : Interface) : Bytes :=
  unlines <|
    typeDecls i
      ++ [utf8 "export function " ++ importsFunction i.name ++ utf8 "(imports: any, obj: "
            ++ exportsClass i.name ++ utf8 ", getExport: (name: string) => any): void;",
          [],
          utf8 "export interface " ++ exportsClass i.name ++ utf8 " \x7b"]
      ++ indent unit (i.functions.map methodDecl) ++ [utf8 "\x7d"]

/-- The glue of a library: the helpers, the exported interface, then every imported
one. A file written later replaces one of the same name. -/
def generate (exports : Interface) (imports : List Interface) : FileTree :=
  let add (t : FileTree) (i : Interface) (js types : Bytes) : FileTree :=
    (t.insert (i.name ++ utf8 ".js") js).insert (i.name ++ utf8 ".d.ts") types
  let t := FileTree.empty.insert helpersFile (unlines helperLines)
  let t := add t exports (exportsModule exports) (exportsTypes exports)
  imports.foldl (fun t i => add t i (importsModule i) (importsTypes i)) t

end Bindery.Glue.JavaScript
