/-
Reading a template. First the text is divided into plain text and actions, where a dash
inside the braces takes the white space beside them away; then the words of an action
are read; then actions that open a block are matched with those that close it.
-/
import Bindery.Template.Basic

namespace Bindery.Template

/-! ## Actions -/

/-- A word inside an action. -/
inductive Word where
  | ident (name : Bytes)
  /-- a value with fields: `.a.b`, `$x.a`; no head is the current value -/
  | path (head : Option Bytes) (fields : List Bytes)
  | string (s : Bytes)
  | number (n : Nat)
  | pipe
  | comma
  | opening
  | closing
  | define
  deriving DecidableEq, Repr

/-- Plain text, or the words of an action. -/
inductive Token where
  | text (s : Bytes)
  | action (words : List Word)
  deriving Repr

def isSpace (b : UInt8) : Bool := b == 32 || b == 9 || b == 10 || b == 13

def trimLeft (s : Bytes) : Bytes := s.dropWhile isSpace

def trimRight (s : Bytes) : Bytes := (s.reverse.dropWhile isSpace).reverse

/-- The marks around an action. -/
def opener : Bytes := utf8 "\x7b\x7b"
def closer : Bytes := utf8 "\x7d\x7d"

/-- The end of an action and the text behind it, when the action ends here. -/
def atEnd? (s : Bytes) : Option Bytes :=
  if closer.isPrefixOf s then some (s.drop 2)
  else match s with
    | b :: 45 :: s' =>
      if isSpace b && closer.isPrefixOf s' then some (trimLeft (s'.drop 2)) else none
    | _ => none

/-- The rest of a quoted string. -/
def quotedRest : Bytes → Option (Bytes × Bytes)
  | [] => none
  | 34 :: s => some ([], s)
  | 92 :: c :: s => do
    let (a, s) ← quotedRest s
    match c.toNat with
    | 110 => return (10 :: a, s)
    | 116 => return (9 :: a, s)
    | 114 => return (13 :: a, s)
    | 92 | 34 => return (c :: a, s)
    | _ => none
  | c :: s => if c = 10 ∨ c = 92 then none else do
    let (a, s) ← quotedRest s
    return (c :: a, s)

/-- The fields behind a value. -/
def fieldsOf : Nat → Bytes → List Bytes × Bytes
  | 0, s => ([], s)
  | fuel + 1, s =>
    match s with
    | 46 :: s' =>
      let name := s'.takeWhile Byte.isWord
      if name.isEmpty then ([], s)
      else
        let (fs, s) := fieldsOf fuel (s'.dropWhile Byte.isWord)
        (name :: fs, s)
    | s => ([], s)

/-- One word and the rest. -/
def word? (s : Bytes) : Option (Word × Bytes) :=
  match s with
  | [] => none
  | b :: rest =>
    match b.toNat with
    | 124 => some (.pipe, rest)
    | 44 => some (.comma, rest)
    | 40 => some (.opening, rest)
    | 41 => some (.closing, rest)
    | 58 => match rest with
      | 61 :: rest => some (.define, rest)
      | _ => none
    | 34 => (quotedRest rest).map fun (a, r) => (.string a, r)
    | 96 => (Bytes.cut 96 rest).map fun (a, r) => (.string a, r)
    | 46 =>
      let (fs, r) := fieldsOf s.length s
      if fs.isEmpty then some (.path none [], rest) else some (.path none fs, r)
    | 36 =>
      let (fs, r) := fieldsOf s.length (rest.dropWhile Byte.isWord)
      some (.path (some (rest.takeWhile Byte.isWord)) fs, r)
    | _ =>
      let w := s.takeWhile Byte.isWord
      let r := s.dropWhile Byte.isWord
      if w.isEmpty then none
      else if w.all Byte.isDigit then
        some (.number (w.foldl (fun n d => 10 * n + (d.toNat - 48)) 0), r)
      else if Byte.isDigit b then none
      else some (.ident w, r)

/-- The words of an action up to its end, and the text behind it. -/
def words : Nat → Bytes → Option (List Word × Bytes)
  | 0, _ => none
  | fuel + 1, s =>
    match atEnd? s with
    | some rest => some ([], rest)
    | none =>
      match s with
      | [] => none
      | b :: rest =>
        if isSpace b then words fuel rest
        else do
          let (w, s) ← word? s
          let (ws, s) ← words fuel s
          return (w :: ws, s)

/-- A comment up to its end, and the text behind the action it fills. -/
def comment? (s : Bytes) : Option Bytes := do
  let (_, s) ← s.cutOn (utf8 "*/")
  atEnd? s

/-- The tokens of a template. -/
def tokens : Nat → Bytes → Option (List Token)
  | 0, _ => none
  | fuel + 1, s =>
    match s.cutOn opener with
    | none => some (if s.isEmpty then [] else [.text s])
    | some (before, s) => do
      let (before, s) := match s with
        | 45 :: b :: s' => if isSpace b then (trimRight before, b :: s') else (before, s)
        | s => (before, s)
      let front := if before.isEmpty then [] else [Token.text before]
      if (utf8 "/*").isPrefixOf (trimLeft s) then
        return front ++ (← tokens fuel (← comment? ((trimLeft s).drop 2)))
      else
        let (ws, s) ← words (s.length + 1) s
        return front ++ .action ws :: (← tokens fuel s)

/-! ## Pipelines -/

/-- A first expression with the arguments it is given. -/
inductive Head where
  | function (f : Function)
  | value (e : Expr)

/-- The expression of a head and its arguments. -/
def Head.apply (h : Head) (args : List Expr) : Expr :=
  match h with
  | .function f => .call f args
  | .value e => if args.isEmpty then e else .misapplied

/-- A later stage of a pipeline cannot start with a constant or the bare current value. -/
def Head.canFollow : Head → Bool
  | .function _ => true
  | .value (.literal _) => false
  | .value (.current []) => false
  | .value _ => true

mutual

/-- Operands up to a bar, a closing bracket or the end. -/
def operands (known : List Bytes) : Nat → List Word → Option (List Expr × List Word)
  | 0, _ => none
  | fuel + 1, ws =>
    match ws with
    | [] => some ([], [])
    | .pipe :: _ => some ([], ws)
    | .closing :: _ => some ([], ws)
    | w :: ws => do
      let (h, ws) ← operand known fuel w ws
      let (es, ws) ← operands known fuel ws
      return (h.apply [] :: es, ws)

/-- One operand. -/
def operand (known : List Bytes) : Nat → Word → List Word → Option (Head × List Word)
  | 0, _, _ => none
  | fuel + 1, w, ws =>
    match w with
    | .ident n => do return (.function (← Function.named? n), ws)
    | .path none fs => some (.value (.current fs), ws)
    | .path (some v) fs => if known.contains v then some (.value (.variable v fs), ws) else none
    | .string s => some (.value (.literal (.text s)), ws)
    | .number n => some (.value (.literal (.number n)), ws)
    | .opening => do
      match ← pipeline known fuel none ws with
      | (e, .closing :: ws) => return (.value e, ws)
      | _ => none
    | _ => none

/-- Commands with bars between them; each hands its value to the next as last argument. -/
def pipeline (known : List Bytes) : Nat → Option Expr → List Word → Option (Expr × List Word)
  | 0, _, _ => none
  | fuel + 1, piped, ws =>
    match ws with
    | [] => none
    | w :: ws => do
      let (h, ws) ← operand known fuel w ws
      if piped.isSome && !h.canFollow then none
      let (args, ws) ← operands known fuel ws
      let e := h.apply (args ++ piped.toList)
      match ws with
      | .pipe :: ws => pipeline known fuel (some e) ws
      | ws => return (e, ws)

end

/-- A whole action as one pipeline. -/
def wholePipeline (known : List Bytes) (ws : List Word) : Option Expr :=
  match pipeline known (2 * ws.length + 2) none ws with
  | some (e, []) => some e
  | _ => none

/-! ## Blocks -/

/-- How a run of pieces ended: with the template, with an `else` and what it says, or
with an `end`. -/
inductive Closing where
  | template
  | otherwise (words : List Word)
  | block

/-- The names and the pipeline of a loop. -/
def loopHead (known : List Bytes) (ws : List Word) :
    Option (Option Bytes × Option Bytes × Expr) :=
  match ws with
  | .path (some i) [] :: .comma :: .path (some e) [] :: .define :: ws => do
    return (some i, some e, ← wholePipeline known ws)
  | .path (some e) [] :: .define :: ws => do return (none, some e, ← wholePipeline known ws)
  | ws => do return (none, none, ← wholePipeline known ws)

mutual

/-- Pieces up to the end of a block or of the template. -/
def pieces (known : List Bytes) : Nat → List Token → Option (List Piece × Closing × List Token)
  | 0, _ => none
  | fuel + 1, ts =>
    match ts with
    | [] => some ([], .template, [])
    | .text s :: ts => do
      let (ps, c, ts) ← pieces known fuel ts
      return (.text s :: ps, c, ts)
    | .action ws :: ts =>
      match ws with
      | [] => none
      | .ident n :: ws' =>
        if n = utf8 "end" then (if ws'.isEmpty then some ([], .block, ts) else none)
        else if n = utf8 "else" then some ([], .otherwise ws', ts)
        else if n = utf8 "if" then do
          let (p, ts) ← condition known fuel ws' ts
          let (ps, c, ts) ← pieces known fuel ts
          return (p :: ps, c, ts)
        else if n = utf8 "range" then do
          let (i, e, source) ← loopHead known ws'
          let (body, c, ts) ← pieces (i.toList ++ e.toList ++ known) fuel ts
          let (none1, ts) ← remainder known fuel c ts
          let (ps, c, ts) ← pieces known fuel ts
          return (.each i e source body none1 :: ps, c, ts)
        else written known fuel ws ts
      | .path (some v) [] :: .define :: ws' => do
        let e ← wholePipeline known ws'
        let (ps, c, ts) ← pieces (v :: known) fuel ts
        return (.define v e :: ps, c, ts)
      | ws => written known fuel ws ts

/-- An action that writes a value, and the pieces behind it. -/
def written (known : List Bytes) :
    Nat → List Word → List Token → Option (List Piece × Closing × List Token)
  | 0, _, _ => none
  | fuel + 1, ws, ts => do
    let e ← wholePipeline known ws
    let (ps, c, ts) ← pieces known fuel ts
    return (.write e :: ps, c, ts)

/-- A condition with its two branches. -/
def condition (known : List Bytes) : Nat → List Word → List Token → Option (Piece × List Token)
  | 0, _, _ => none
  | fuel + 1, ws, ts => do
    let e ← wholePipeline known ws
    let (yes, c, ts) ← pieces known fuel ts
    match c with
    | .otherwise (.ident n :: ws') =>
      if n = utf8 "if" then
        let (p, ts) ← condition known fuel ws' ts
        return (.choose e yes [p], ts)
      else none
    | c => do
      let (no, ts) ← remainder known fuel c ts
      return (.choose e yes no, ts)

/-- What follows the first branch of a block. -/
def remainder (known : List Bytes) : Nat → Closing → List Token → Option (List Piece × List Token)
  | 0, _, _ => none
  | fuel + 1, c, ts =>
    match c with
    | .block => some ([], ts)
    | .otherwise [] => do
      match ← pieces known fuel ts with
      | (no, .block, ts) => return (no, ts)
      | _ => none
    | _ => none

end

/-- Reads a template, nothing when it is malformed. -/
def parse (source : Bytes) : Option (List Piece) := do
  let ts ← tokens (source.length + 1) source
  match ← pieces [[]] (3 * ts.length + 3) ts with
  | (ps, .template, []) => return ps
  | _ => none

end Bindery.Template
