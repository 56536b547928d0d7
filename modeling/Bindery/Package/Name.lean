/-
Package names: `name`, `namespace/name` or `_/name`, the last being the global
namespace of old. An identifier is an ASCII letter followed by ASCII letters,
digits, hyphens and underscores.
-/
import Bindery.CaseStyle
import Bindery.Report

namespace Bindery

/-- The user or organisation a package belongs to. -/
inductive Namespace where
  /-- none is given; the bare name is an alias -/
  | absent
  | named (ident : Bytes)
  /-- the global namespace `_` -/
  | underscore
  deriving DecidableEq, Repr

/-- A registry package name. -/
structure PackageName where
  space : Namespace := .absent
  name : Bytes
  deriving DecidableEq, Repr

namespace PackageName

/-- An octet an identifier may go on with. -/
def isIdentByte (b : UInt8) : Bool := Byte.isLetter b || Byte.isDigit b || b == 45 || b == 95

/-- What is wrong with an identifier, nothing when it is well formed. -/
def identProblem : Bytes → Option String
  | [] => some "identifiers can't be empty"
  | b :: s =>
    if !Byte.isLetter b then some "identifiers must start with an ascii letter"
    else if !s.all isIdentByte then
      some "identifiers can only contain '-', '_', ascii numbers, and letters"
    else none

/-- Accepts an identifier, or says why the named part of a package name is not one. -/
def checkIdent (s : Bytes) (what : String) : Except Report Unit :=
  match identProblem s with
  | none => .ok ()
  | some problem =>
    .error <| .ofFailure
      { phase := .parse
        kind := .invalidInput
        detail := s.quote ++ utf8 " is not a valid " ++ utf8 what ++ utf8 ": " ++ utf8 problem
        value := some s }

/-- Reads a package name. -/
def parse (raw : Bytes) : Except Report PackageName :=
  match raw.cut 47 with
  | none => do
    checkIdent raw "package name"
    return { name := raw }
  | some (ns, name) => do
    let space ← if ns = utf8 "_" then pure .underscore else do
      checkIdent ns "namespace"
      pure (.named ns)
    checkIdent name "package name"
    return { space, name }

/-- The namespace as written; the global namespace shows as none. -/
def spaceText (n : PackageName) : Bytes :=
  match n.space with
  | .named ident => ident
  | _ => []

/-- `namespace/name`, or the bare name without an explicit namespace. -/
def toText (n : PackageName) : Bytes :=
  if n.spaceText.isEmpty then n.name else n.spaceText ++ utf8 "/" ++ n.name

/-- The npm name: `@namespace/name` or the bare name, in lower case. -/
def npm (n : PackageName) : Bytes :=
  if n.spaceText.isEmpty then n.name.lower
  else Bytes.lower (utf8 "@" ++ n.spaceText ++ utf8 "/" ++ n.name)

/-- The Python import package: the bare name in snake case. -/
def python (n : PackageName) : Bytes := CaseStyle.snake n.name

end PackageName

end Bindery
