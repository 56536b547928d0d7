/-
Reading interface files. Comments are blanked, declarations, aliases and functions
are found line by line, every declared name is known before the first type is
read, and functions are looked for in the text that is left when the
declarations are blanked.

The first problem ends the reading: of the declarations in the order of the text,
then of the aliases, then of what they declare, then of the functions.
-/
import Bindery.Interface.Comment
import Bindery.Interface.Item
import Bindery.Interface.Line
import Bindery.Report

namespace Bindery.Interface

/-- What can be wrong with an interface file. -/
inductive Problem where
  | noBody (kind : DeclKind) (name : Bytes)
  | duplicateType (name : Bytes)
  | malformedCase (item : Bytes)
  | selfAlias (name : Bytes)
  | noTarget (name : Bytes)
  | duplicateFunction (name : Bytes)
  | notNamed (item : Bytes)
  | badIdent (name : Bytes)
  | needsType (name : Bytes)
  | unknownType (text : Bytes)
  | unknownResource (name : Bytes)
  | argumentCount (ctor : Bytes) (wanted got : Nat)
  | resultArguments (ctor : Bytes) (got : Nat)
  | unknownCtor (ctor : Bytes)
  deriving DecidableEq, Repr

/-- The words for a problem. -/
def Problem.message : Problem → Bytes
  | .noBody kind name => kind.word ++ utf8 " " ++ name.quote ++ utf8 " has no body"
  | .duplicateType name => utf8 "duplicate type " ++ name.quote
  | .malformedCase item => utf8 "malformed case " ++ item.quote
  | .selfAlias name => utf8 "type " ++ name.quote ++ utf8 " refers to itself"
  | .noTarget name => utf8 "type " ++ name.quote ++ utf8 " has no underlying type"
  | .duplicateFunction name => utf8 "duplicate function " ++ name.quote
  | .notNamed item => utf8 "expected \"name: type\", got " ++ item.quote
  | .badIdent name => utf8 "invalid identifier " ++ name.quote
  | .needsType name => name.quote ++ utf8 " needs a type"
  | .unknownType text => utf8 "unknown type " ++ text.quote
  | .unknownResource name => utf8 "unknown resource " ++ name.quote
  | .argumentCount ctor wanted got =>
    ctor ++ utf8 " takes " ++ Bytes.decimal wanted ++ utf8 " type argument(s), got "
      ++ Bytes.decimal got
  | .resultArguments ctor got =>
    ctor ++ utf8 " takes 1 or 2 type arguments, got " ++ Bytes.decimal got
  | .unknownCtor ctor => utf8 "unsupported type constructor " ++ ctor.quote

/-- The declared names with the forms of their declarations. -/
abbrev Names := List (Bytes × DeclKind)

def Names.kind? (names : Names) (n : Bytes) : Option DeclKind :=
  (names.find? (·.1 == n)).map (·.2)

/-- A name without white space around it and without a percent sign before it. -/
def bareName (s : Bytes) : Bytes := s.trim.dropStart [37]

/-- The types that have a word of their own. -/
def builtin? (s : Bytes) : Option TypeExpr :=
  if s = utf8 "result" ∨ s = utf8 "expected" then some (.result .blank .blank)
  else if s = utf8 "float32" then some (.prim .f32)
  else if s = utf8 "float64" then some (.prim .f64)
  else none

/-- The primitive types and the two other types known by name. -/
def basic? (s : Bytes) : Option TypeExpr :=
  if s = utf8 "string" then some .string
  else if s = utf8 "error-context" then some .errorContext
  else (Prim.all.find? fun p => p.word == s).map .prim

/-- A type constructor and the text of its arguments: `list<u8>` is `list` of `u8`. -/
def applied? (s : Bytes) : Option (Bytes × Bytes) :=
  match s.cut 60 with
  | some (ctor, args) =>
    if ctor.isEmpty then none
    else if args.getLast? = some 62 then some (ctor, args.dropLast) else none
  | none => none

/-- A handle of a declared resource. -/
def handle (names : Names) (text : Bytes) : Except Problem TypeExpr :=
  let name := bareName text
  if names.kind? name = some .resource then .ok (.named name)
  else .error (.unknownResource text)

/-- The type a constructor makes of its arguments. -/
def applyCtor (ctor : Bytes) (args : List TypeExpr) : Except Problem TypeExpr :=
  if ctor = utf8 "list" then
    match args with
    | [t] => .ok (.list t)
    | _ => .error (.argumentCount ctor 1 args.length)
  else if ctor = utf8 "option" then
    match args with
    | [t] => .ok (.option t)
    | _ => .error (.argumentCount ctor 1 args.length)
  else if ctor = utf8 "result" ∨ ctor = utf8 "expected" then
    match args with
    | [ok] => .ok (.result ok .blank)
    | [ok, err] => .ok (.result ok err)
    | _ => .error (.resultArguments ctor args.length)
  else if ctor = utf8 "tuple" then .ok (.tuple args)
  else .error (.unknownCtor ctor)

/-- Reads a type; `depth` bounds the nesting of constructors. -/
def typeWithin (names : Names) : Nat → Bytes → Except Problem TypeExpr
  | 0, s => .error (.unknownType s)
  | depth + 1, s =>
    let s := s.trim
    if s = utf8 "_" then .ok .blank
    else match applied? s with
      | some (ctor, text) =>
        let args := items text
        if ctor = utf8 "own" ∨ ctor = utf8 "borrow" then
          match args with
          | [a] => handle names a.trim
          | _ => .error (.argumentCount ctor 1 args.length)
        else do applyCtor ctor (← args.mapM (typeWithin names depth))
      | none =>
        match builtin? s with
        | some t => .ok t
        | none =>
          if (utf8 "handle ").isPrefixOf s then handle names (Bytes.trim (s.drop 7))
          else match basic? s with
            | some t => .ok t
            | none =>
              if (names.kind? (bareName s)).isSome then .ok (.named (bareName s))
              else .error (.unknownType s)

/-- Reads a type. No type nests deeper than it has octets. -/
def typeExpr (names : Names) (s : Bytes) : Except Problem TypeExpr :=
  typeWithin names (s.length + 1) s

/-- Reads `name: type`. -/
def namedType (names : Names) (item : Bytes) : Except Problem (Bytes × TypeExpr) :=
  match item.cut 58 with
  | none => .error (.notNamed item)
  | some (name, type) => do
    let name := bareName name
    if !isIdent name then throw (.badIdent name)
    match ← typeExpr names type with
    | .blank => throw (.needsType name)
    | t => return (name, t)

/-- Reads a case of a variant: a name, or a name with a payload in brackets. -/
def variantCase (names : Names) (item : Bytes) : Except Problem (Bytes × TypeExpr) :=
  match item.cut 40 with
  | none => .ok (bareName item, .blank)
  | some (name, payload) =>
    if payload.getLast? = some 41 then do
      return (bareName name, ← typeExpr names payload.dropLast)
    else .error (.malformedCase item)

/-- Reads what a declaration says; `name` is the declared name and `text` stands
between the braces, or behind the equals sign of an alias. -/
def declBody (names : Names) (name : Bytes) (text : Bytes) : DeclKind → Except Problem DeclBody :=
  let entries := items (text.map fun b => if b = 10 then 44 else b)
  fun
  | .record => do return .record (← entries.mapM (namedType names))
  | .enum => .ok (.enum (entries.map bareName))
  | .flags => .ok (.flags (entries.map bareName))
  | .variant => do return .variant (← entries.mapM (variantCase names))
  | .union => do return .union (← entries.mapM (typeExpr names))
  | .resource => .ok .resource
  | .alias => do
    match ← typeExpr names text with
    | .blank => throw (.noTarget name)
    | .named n => if n = name then throw (.selfAlias name) else return .alias (.named n)
    | t => return .alias t

/-- Reads a result in brackets, with or without a name. -/
def resultItem (names : Names) (item : Bytes) : Except Problem Param :=
  if item.contains 58 then do
    let (name, type) ← namedType names item
    return { name, type }
  else do return { type := ← typeExpr names item }

/-- Reads what stands behind an arrow. -/
def resultList (names : Names) (text : Bytes) : Except Problem (List Param) :=
  let s := text.trim
  if s = [] ∨ s = utf8 "()" then .ok []
  else if s.head? = some 40 ∧ s.getLast? = some 41 then
    (items (s.drop 1).dropLast).mapM (resultItem names)
  else do return [{ type := ← typeExpr names s }]

/-- Reads a function. -/
def func (names : Names) (f : FuncText) : Except Problem Func := do
  let params ← (items f.params).mapM (namedType names)
  let results ← match f.results with
    | none => pure []
    | some text => resultList names text
  return { name := bareName f.name, params := params.map fun (name, type) => { name, type }, results }

/-- A declaration or alias whose name is known and whose body is still text. -/
structure Site where
  start : Nat
  name : Bytes
  kind : DeclKind
  text : Bytes
  deriving Repr

/-- A problem and the offset of the declaration or function it is in. -/
abbrev Located := Nat × Problem

/-- A problem at a place. -/
def at? {α : Type} (start : Nat) (r : Except Problem α) : Except Located α :=
  r.mapError fun p => (start, p)

/-- The site of a declaration; only a resource may be without a body. -/
def declSite (d : Found DeclText) : Except Located Site :=
  let name := bareName d.value.name
  match d.value.body with
  | some text => .ok { start := d.start, name, kind := d.value.kind, text }
  | none =>
    if d.value.kind = .resource then .ok { start := d.start, name, kind := .resource, text := [] }
    else .error (d.start, .noBody d.value.kind name)

def aliasSite (a : Found (Bytes × Bytes)) : Site :=
  { start := a.start, name := bareName a.value.1, kind := .alias, text := a.value.2 }

/-- Adds a site whose name must be new. -/
def addSite (sites : List Site) (s : Site) : Except Located (List Site) :=
  if sites.any (·.name == s.name) then .error (s.start, .duplicateType s.name)
  else .ok (sites ++ [s])

/-- The sites of all declarations and aliases of a text, declarations first. -/
def sites (decls : List (Found DeclText)) (aliases : List (Found (Bytes × Bytes))) :
    Except Located (List Site) := do
  let ss ← decls.foldlM (fun ss d => do addSite ss (← declSite d)) []
  aliases.foldlM (fun ss a => addSite ss (aliasSite a)) ss

/-- Adds a function whose name must be new. -/
def addFunc (names : Names) (fs : List Func) (f : Found FuncText) : Except Located (List Func) := do
  let fn ← at? f.start (func names f.value)
  if fs.any (·.name == fn.name) then throw (f.start, .duplicateFunction fn.name)
  return fs ++ [fn]

/-- The text with all declarations and aliases blanked. -/
def withoutDecls (decls : List (Found DeclText)) (aliases : List (Found (Bytes × Bytes)))
    (text : Bytes) : Bytes :=
  let text := decls.foldl (fun t d => blankOut d.start d.length t) text
  aliases.foldl (fun t a => blankOut a.start a.length t) text

/-- The declarations and functions of a text without comments. -/
def contents (text : Bytes) : Except Located (List Decl × List Func) := do
  let decls := scan declText? text
  let aliases := scan aliasText? text
  let ss ← sites decls aliases
  let names : Names := ss.map fun s => (s.name, s.kind)
  let types ← ss.mapM fun s => do
    return { name := s.name, body := ← at? s.start (declBody names s.name s.text s.kind) }
  let functions ← (scan funcText? (withoutDecls decls aliases text)).foldlM (addFunc names) []
  return (types, functions)

/-- The number of the line an offset lies in, counted from one. -/
def lineOf (text : Bytes) (start : Nat) : Nat := (text.take start).count 10 + 1

/-- A problem of the file at a path, for the user. -/
def problemReport (path : Bytes) (line : Nat) (p : Problem) : Report :=
  .ofFailure
    { phase := .parse
      kind := .invalidData
      path := [path]
      detail := utf8 "line " ++ Bytes.decimal line ++ utf8 ": " ++ p.message
      value := some (Bytes.decimal line) }

/-- Reads the interface file at a path. -/
def parse (path source : Bytes) : Except Report Interface :=
  let text := stripComments source
  match contents text with
  | .ok (types, functions) => .ok { name := nameOfPath path, path, types, functions }
  | .error (start, p) => .error (problemReport path (lineOf text start) p)

end Bindery.Interface
