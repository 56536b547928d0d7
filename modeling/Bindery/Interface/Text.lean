/-
Types and signatures spelled the way an interface file spells them.
-/
import Bindery.Interface.Basic

namespace Bindery

mutual

/-- The text of a type. -/
def TypeExpr.text : TypeExpr → Bytes
  | .blank => utf8 "_"
  | .prim p => p.word
  | .string => utf8 "string"
  | .errorContext => utf8 "wit.ErrorContext"
  | .named n => n
  | .list t => utf8 "list<" ++ t.text ++ utf8 ">"
  | .option t => utf8 "option<" ++ t.text ++ utf8 ">"
  | .result ok err => utf8 "result<" ++ ok.text ++ utf8 ", " ++ err.text ++ utf8 ">"
  | .tuple ts => utf8 "tuple<" ++ Bytes.join (utf8 ", ") (TypeExpr.texts ts) ++ utf8 ">"

/-- The texts of types. -/
def TypeExpr.texts : List TypeExpr → List Bytes
  | [] => []
  | t :: ts => t.text :: TypeExpr.texts ts

end

/-- A parameter with its type. -/
def Param.text (p : Param) : Bytes := p.name ++ utf8 ": " ++ p.type.text

/-- The signature shown to a user: a single result has its type only. -/
def Func.signature (f : Func) : Bytes :=
  let params := f.name ++ utf8 "(" ++ Bytes.join (utf8 ", ") (f.params.map Param.text) ++ utf8 ")"
  match f.results with
  | [] => params
  | [r] => params ++ utf8 " -> " ++ r.type.text
  | rs => params ++ utf8 " -> (" ++ Bytes.join (utf8 ", ") (rs.map Param.text) ++ utf8 ")"

end Bindery
