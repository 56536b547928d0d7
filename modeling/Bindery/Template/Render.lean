/-
Filling templates. A field that is not there, a function given values it cannot take
and a loop over anything but a list or a record end the rendering. A `TemplateSet` holds
the templates that a path pattern found, each under its file name.
-/
import Bindery.CaseStyle
import Bindery.Glob
import Bindery.Report.Detail
import Bindery.Template.Parser

namespace Bindery

namespace Template

mutual

/-- A value as written text. -/
def Value.show : Value → Bytes
  | .text s => s
  | .number n => Bytes.decimal n
  | .list is => utf8 "[" ++ Bytes.join (utf8 " ") is ++ utf8 "]"
  | .record fs => utf8 "map[" ++ Bytes.join (utf8 " ") (showFields fs) ++ utf8 "]"

def showFields : List (Bytes × Value) → List Bytes
  | [] => []
  | (k, v) :: fs => (k ++ utf8 ":" ++ v.show) :: showFields fs

end

/-- A value counts as true when it is not empty or zero. -/
def Value.holds : Value → Bool
  | .text s => !s.isEmpty
  | .number n => n != 0
  | .list is => !is.isEmpty
  | .record fs => !fs.isEmpty

/-- A field of a field of a value. -/
def Value.follow : List Bytes → Value → Option Value
  | [], v => some v
  | f :: fs, .record ms => do (← Table.find? f ms).follow fs
  | _, _ => none

def Value.text? : Value → Option Bytes
  | .text s => some s
  | _ => none

/-- The elements of a list or a record, each under its index or name. -/
def Value.elements? : Value → Option (List (Value × Value))
  | .list is => some (is.zipIdx.map fun (s, i) => (.number i, .text s))
  | .record fs => some (fs.map fun (k, v) => (.text k, v))
  | _ => none

/-- The value of a call. -/
def Function.apply (f : Function) (args : List Value) : Option Value :=
  match f, args with
  | .snake, [.text s] => some (.text (CaseStyle.snake s))
  | .camel, [.text s] => some (.text (CaseStyle.camel s))
  | .pascal, [.text s] => some (.text (CaseStyle.pascal s))
  | .quote, [.text s] => some (.text s.quote)
  | .join, [.list is, .text sep] => some (.text (Bytes.join sep is))
  | .format, .text pattern :: args => some (.text (Detail.fillFrom pattern (args.map Value.show)))
  | _, _ => none

/-- What names stand for while rendering. -/
structure Scope where
  current : Value
  names : List (Bytes × Value)

mutual

/-- The value of an expression. -/
def eval (scope : Scope) : Expr → Option Value
  | .current fs => scope.current.follow fs
  | .variable n fs => do (← Table.find? n scope.names).follow fs
  | .literal v => some v
  | .call f args => do f.apply (← evalAll scope args)
  | .misapplied => none

def evalAll (scope : Scope) : List Expr → Option (List Value)
  | [] => some []
  | e :: es => do
    let v ← eval scope e
    return v :: (← evalAll scope es)

end

/-- A scope with one more name. -/
def Scope.bind (scope : Scope) (name : Option Bytes) (v : Value) : Scope :=
  match name with
  | some n => { scope with names := (n, v) :: scope.names }
  | none => scope

mutual

/-- Writes pieces one after the other. -/
def renderPieces (scope : Scope) : List Piece → Option Bytes
  | [] => some []
  | .define n e :: ps => do renderPieces (scope.bind (some n) (← eval scope e)) ps
  | p :: ps => do
    let s ← renderPiece scope p
    return s ++ (← renderPieces scope ps)

/-- Writes one piece. -/
def renderPiece (scope : Scope) : Piece → Option Bytes
  | .text s => some s
  | .write e => do return (← eval scope e).show
  | .define _ _ => some []
  | .choose e yes no => do
    if (← eval scope e).holds then renderPieces scope yes else renderPieces scope no
  | .each i x source body otherwise => do
    let es ← (← eval scope source).elements?
    if es.isEmpty then renderPieces scope otherwise
    else
      let parts ← es.mapM fun (k, v) =>
        renderPieces { (scope.bind i k).bind x v with current := v } body
      return parts.flatten

end

/-- Fills a template. -/
def render (context : Value) (ps : List Piece) : Option Bytes :=
  renderPieces ⟨context, [([], context)]⟩ ps

/-- A template that writes nothing but white space. -/
def isBlankTemplate (ps : List Piece) : Bool :=
  ps.all fun
    | .text s => s.all isSpace
    | _ => false

end Template

/-- Templates by name. -/
structure TemplateSet where
  templates : Table (List Template.Piece) := []

namespace TemplateSet

/-- The name of the template in a file: its base name without the ending. -/
def nameOf (path : Bytes) : Bytes := (path.afterLast SlashPath.slash).dropEnd (utf8 ".tmpl")

/-- Adds a template; a blank one does not replace another. -/
def add (s : TemplateSet) (name : Bytes) (ps : List Template.Piece) : TemplateSet :=
  if Template.isBlankTemplate ps && s.templates.contains name then s
  else ⟨s.templates.insert name ps⟩

/-- Adds the template in a file. -/
def addFile (t : FileTree) (s : TemplateSet) (path : Bytes) : Except Report TemplateSet :=
  match t.files.find? path with
  | none => .error (.renderTemplate path (some .external))
  | some source =>
    match Template.parse source with
    | none => .error (.renderTemplate (nameOf path) (some .external))
    | some ps => .ok (s.add (nameOf path) ps)

/-- The templates in the files that a pattern matches. -/
def ofFiles (t : FileTree) (pattern : Bytes) : Except Report TemplateSet :=
  match Glob.expand t pattern with
  | none => .error (.parseFailed (utf8 "template pattern " ++ pattern) (some .external))
  | some paths =>
    if paths.isEmpty then .error (.notFound .render (utf8 "template pattern") pattern)
    else paths.foldlM (addFile t) {}

/-- The names of the templates, ascending. -/
def names (s : TemplateSet) : List Bytes := s.templates.keys.filter (!·.isEmpty)

/-- Fills the template of a name. -/
def render (s : TemplateSet) (name : Bytes) (context : Template.Value) : Except Report Bytes :=
  match s.templates.find? name with
  | none => .error (.notFound .render (utf8 "template") name)
  | some ps =>
    match Template.render context ps with
    | none => .error (.renderTemplate name (some .external))
    | some text => .ok text

end TemplateSet

end Bindery
