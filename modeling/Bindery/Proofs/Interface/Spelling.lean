/-
The canonical text of an interface: one declaration or function a line, in any order, with
members divided by a comma and a space. `Interface.Entry.spell` writes the text of a list of
entries, and `Interface.ofEntries` is the interface they make up. `Interface.Entry.WellFormed`
says which entries do make one.
-/
import Bindery.Interface.Line
import Bindery.Interface.Text

namespace Bindery

open Interface (isIdent)

/-! ## Well-formed types, declarations and functions -/

def TypeExpr.isBlank : TypeExpr → Bool
  | .blank => true
  | _ => false

mutual

/-- A type over declared names in which nothing is blank but an argument of a result. -/
def TypeExpr.isPlain (declared : List Bytes) : TypeExpr → Bool
  | .blank | .errorContext => false
  | .prim _ | .string => true
  | .named n => declared.contains n
  | .list t | .option t => t.isPlain declared
  | .result ok err => (ok.isBlank || ok.isPlain declared) && (err.isBlank || err.isPlain declared)
  | .tuple ts => TypeExpr.arePlain declared ts

def TypeExpr.arePlain (declared : List Bytes) : List TypeExpr → Bool
  | [] => true
  | t :: ts => t.isPlain declared && TypeExpr.arePlain declared ts

end

/-- The words that name a type already. -/
def TypeExpr.reserved : List Bytes :=
  Prim.all.map Prim.word
    ++ [utf8 "string", utf8 "float32", utf8 "float64", utf8 "error-context", utf8 "result", utf8 "expected"]

mutual

/-- A type whose text is read as the type itself: no name in it is a word for another type, and
every part of it has a text that is read. -/
def TypeExpr.isReadable : TypeExpr → Bool
  | .blank | .prim _ | .string => true
  | .errorContext => false
  | .named n => !TypeExpr.reserved.contains n
  | .list t | .option t => t.isReadable
  | .result ok err => ok.isReadable && err.isReadable
  | .tuple ts => TypeExpr.areReadable ts

def TypeExpr.areReadable : List TypeExpr → Bool
  | [] => true
  | t :: ts => t.isReadable && TypeExpr.areReadable ts

end

/-- Identifiers for members, and plain types; a case of a variant may be without a payload. -/
def DeclBody.isPlain (declared : List Bytes) : DeclBody → Bool
  | .record fs => fs.all fun f => isIdent f.1 && f.2.isPlain declared
  | .enum names | .flags names => names.all isIdent
  | .variant cs => cs.all fun c => isIdent c.1 && (c.2.isBlank || c.2.isPlain declared)
  | .union ts => ts.all (·.isPlain declared)
  | .resource => true
  | .alias t => t.isPlain declared

/-- The declaration of a new name, which is not an alias of itself. -/
def Decl.isPlain (declared : List Bytes) (d : Decl) : Bool :=
  isIdent d.name && !TypeExpr.reserved.contains d.name && d.body.isPlain declared
    && match d.body with
      | .alias (.named n) => n != d.name
      | _ => true

/-- Identifiers for the function and its parameters, and plain types; a result may be without
a name. -/
def Func.isPlain (declared : List Bytes) (f : Func) : Bool :=
  isIdent f.name && (f.params.all fun p => isIdent p.name && p.type.isPlain declared)
    && f.results.all fun r => (r.name.isEmpty || isIdent r.name) && r.type.isPlain declared

/-! ## Texts -/

/-- A case of a variant, with its payload in brackets if it has one. -/
def caseText (c : Bytes × TypeExpr) : Bytes :=
  match c.2 with
  | .blank => c.1
  | t => c.1 ++ utf8 "(" ++ t.text ++ utf8 ")"

/-- What stands between the braces of a declaration, member by member. -/
def DeclBody.members : DeclBody → List Bytes
  | .record fs => fs.map fun f => Param.text ⟨f.1, f.2⟩
  | .enum names | .flags names => names
  | .variant cs => cs.map caseText
  | .union ts => ts.map TypeExpr.text
  | .resource | .alias _ => []

/-- What follows the name in a declaration. -/
def DeclBody.text : DeclBody → Bytes
  | .resource => []
  | .alias t => utf8 " = " ++ t.text
  | b => utf8 " \x7b " ++ Bytes.join (utf8 ", ") b.members ++ utf8 " \x7d"

def Decl.text (d : Decl) : Bytes := d.body.kind.word ++ utf8 " " ++ d.name ++ d.body.text

/-- A result in a list of them. -/
def Param.resultText (r : Param) : Bytes := if r.name.isEmpty then r.type.text else r.text

/-- The results of a function: brackets are left out for a single one without a name. -/
def resultsText : List Param → Bytes
  | [] => []
  | [⟨[], t⟩] => utf8 " -> " ++ t.text
  | rs => utf8 " -> (" ++ Bytes.join (utf8 ", ") (rs.map Param.resultText) ++ utf8 ")"

def Func.text (f : Func) : Bytes :=
  f.name ++ utf8 ": func(" ++ Bytes.join (utf8 ", ") (f.params.map Param.text) ++ utf8 ")" ++ resultsText f.results

def DeclBody.isAlias (b : DeclBody) : Bool := b.kind == .alias

/-! ## Entries -/

namespace Interface

/-- What one line of an interface file says. -/
inductive Entry where
  | decl (d : Decl)
  | func (f : Func)
  deriving Repr, Inhabited

namespace Entry

def decl? : Entry → Option Decl
  | .decl d => some d
  | .func _ => none

def func? : Entry → Option Func
  | .decl _ => none
  | .func f => some f

def text : Entry → Bytes
  | .decl d => d.text
  | .func f => f.text

/-- The text of the entries, each on a line of its own. -/
def spell (es : List Entry) : Bytes := es.flatMap fun e => e.text.line

/-- The declared types in the order of the text. -/
def decls (es : List Entry) : List Decl := es.filterMap decl?

def funcs (es : List Entry) : List Func := es.filterMap func?

/-- The declared names. -/
def declared (es : List Entry) : List Bytes := (decls es).map (·.name)

/-- Entries that make up an interface. -/
structure WellFormed (es : List Entry) : Prop where
  typeNames : (declared es).Nodup
  funcNames : ((funcs es).map (·.name)).Nodup
  decls : ∀ d ∈ decls es, d.isPlain (declared es) = true
  funcs : ∀ f ∈ funcs es, f.isPlain (declared es) = true

instance (es : List Entry) : Decidable (WellFormed es) :=
  decidable_of_iff ((declared es).Nodup ∧ ((Entry.funcs es).map (·.name)).Nodup ∧
      (∀ d ∈ Entry.decls es, d.isPlain (declared es) = true) ∧ ∀ f ∈ Entry.funcs es, f.isPlain (declared es) = true)
    ⟨fun ⟨h₁, h₂, h₃, h₄⟩ => ⟨h₁, h₂, h₃, h₄⟩, fun ⟨h₁, h₂, h₃, h₄⟩ => ⟨h₁, h₂, h₃, h₄⟩⟩

end Entry

/-- The interface in a file with the given entries: aliases come after all other types. -/
def ofEntries (path : Bytes) (es : List Entry) : Interface :=
  { name := nameOfPath path
    path
    types := ((Entry.decls es).filter fun d => !d.body.isAlias) ++ (Entry.decls es).filter (·.body.isAlias)
    functions := Entry.funcs es }

end Interface

end Bindery
