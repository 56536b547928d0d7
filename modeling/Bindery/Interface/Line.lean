/-
Where declarations, aliases and functions start in an interface file: always at
the start of a line, after blanks. `scan` finds them from left to right; the next
one is looked for behind the end of the one before, and a line start that lies
inside a found stretch does not count.
-/
import Bindery.Interface.Basic

namespace Bindery.Interface

/-- A stretch of text that was recognised. -/
structure Found (α : Type) where
  start : Nat
  length : Nat
  value : α
  deriving Repr

/-- Looks for what `recognise` accepts at line starts. `skip` octets belong to the
stretch found last, `fresh` says that a line starts here. -/
def scanFrom {α : Type} (recognise : Bytes → Option (α × Bytes)) :
    Nat → Bool → Nat → Bytes → List (Found α)
  | _, _, _, [] => []
  | skip + 1, _, pos, b :: s => scanFrom recognise skip (b == 10) (pos + 1) s
  | 0, false, pos, b :: s => scanFrom recognise 0 (b == 10) (pos + 1) s
  | 0, true, pos, b :: s =>
    match recognise (b :: s) with
    | some (value, rest) =>
      let length := s.length + 1 - rest.length
      { start := pos, length, value } :: scanFrom recognise (length - 1) (b == 10) (pos + 1) s
    | none => scanFrom recognise 0 (b == 10) (pos + 1) s

/-- Everything that is recognised in a text, in order and without overlap. -/
def scan {α : Type} (recognise : Bytes → Option (α × Bytes)) (s : Bytes) : List (Found α) :=
  scanFrom recognise 0 true 0 s

/-- A space or a tab. -/
def isGap (b : UInt8) : Bool := b == 32 || b == 9

/-- White space of a single octet that ends lines too. -/
def isSpace (b : UInt8) : Bool := b == 32 || b == 9 || b == 10 || b == 12 || b == 13

def isIdentByte (b : UInt8) : Bool := Byte.isLetter b || Byte.isDigit b || b == 45 || b == 95

/-- An identifier: a letter, then letters, digits, hyphens and underscores. -/
def isIdent : Bytes → Bool
  | [] => false
  | b :: s => Byte.isLetter b && s.all isIdentByte

/-- Takes a word off the front. -/
def word? (w s : Bytes) : Option Bytes := if w.isPrefixOf s then some (s.drop w.length) else none

/-- At least one gap. -/
def gap? : Bytes → Option Bytes
  | [] => none
  | b :: s => if isGap b then some (s.dropWhile isGap) else none

/-- Takes an identifier off the front, with the percent sign before it if there is one. -/
def ident? (s : Bytes) : Option (Bytes × Bytes) :=
  let sign := s.takeWhile (· == 37) |>.take 1
  match s.drop sign.length with
  | [] => none
  | b :: t =>
    if Byte.isLetter b then some (sign ++ b :: t.takeWhile isIdentByte, t.dropWhile isIdentByte)
    else none

/-- The rest of a line up to a semicolon, without the gap before it; a line of gap
only gives the last octet of the gap, and an empty one nothing. -/
def lineRest? (s : Bytes) : Option (Bytes × Bytes) :=
  let t := s.dropWhile isGap
  let body := t.takeWhile fun b => b != 10 && b != 59
  if body.isEmpty then (s.takeWhile isGap).getLast?.map fun b => ([b], t)
  else some (body, t.dropWhile fun b => b != 10 && b != 59)

/-- Text between brackets, up to the first closing one. -/
def upTo? (close : UInt8) (s : Bytes) : Option (Bytes × Bytes) := s.cut close

/-- A declaration with a keyword, as found. -/
structure DeclText where
  kind : DeclKind
  name : Bytes
  /-- what stands between the braces -/
  body : Option Bytes
  deriving Repr

/-- The keywords that start a declaration at a line. -/
def declKinds : List DeclKind := [.record, .enum, .flags, .variant, .union, .resource]

/-- The body in braces after a declared name and any white space; an open brace that
is never closed starts no body. -/
def body? (s : Bytes) : Option Bytes × Bytes :=
  let t := s.dropWhile isSpace
  match t with
  | 123 :: u =>
    match upTo? 125 u with
    | some (body, rest) => (some body, rest)
    | none => (none, t)
  | _ => (none, t)

/-- A record, enum, flags, variant, union or resource declaration. -/
def declText? (s : Bytes) : Option (DeclText × Bytes) := do
  let s := s.dropWhile isGap
  let (kind, s) ← declKinds.findSome? fun k => (word? k.word s).map fun t => (k, t)
  let (name, s) ← ident? (← gap? s)
  let (body, rest) := body? s
  return ({ kind, name, body }, rest)

/-- A type alias, as found: its name and the text of its target. -/
def aliasText? (s : Bytes) : Option ((Bytes × Bytes) × Bytes) := do
  let s ← word? (utf8 "type") (s.dropWhile isGap)
  let (name, s) ← ident? (← gap? s)
  let s ← word? (utf8 "=") (s.dropWhile isGap)
  let (target, rest) ← lineRest? s
  return ((name, target), rest)

/-- A function, as found. -/
structure FuncText where
  name : Bytes
  params : Bytes
  /-- what stands behind the arrow -/
  results : Option Bytes
  deriving Repr

/-- The results behind an arrow. -/
def arrow? (s : Bytes) : Option (Bytes × Bytes) := do
  lineRest? (← word? (utf8 "->") (s.dropWhile isGap))

/-- A function from its name on. -/
def funcBody? (s : Bytes) : Option (FuncText × Bytes) := do
  let (name, s) ← ident? s
  let s ← word? (utf8 ":") (s.dropWhile isGap)
  let s ← word? (utf8 "func") (s.dropWhile isGap)
  let s ← word? (utf8 "(") (s.dropWhile isGap)
  let (params, s) ← upTo? 41 s
  match arrow? s with
  | some (results, rest) => return ({ name, params, results := some results }, rest)
  | none => return ({ name, params, results := none }, s)

/-- A function, with or without the word `export` before it. -/
def funcText? (s : Bytes) : Option (FuncText × Bytes) :=
  let s := s.dropWhile isGap
  let exported := do funcBody? (← gap? (← word? (utf8 "export") s))
  exported <|> funcBody? s

/-- Blanks a stretch of text, line feeds apart. -/
def blankOut (start length : Nat) (s : Bytes) : Bytes :=
  s.take start ++ ((s.drop start).take length).map (fun b => if b = 10 then 10 else 32)
    ++ s.drop (start + length)

end Bindery.Interface
