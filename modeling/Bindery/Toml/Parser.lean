/-
Reading TOML line by line: headers of tables and of elements of arrays, and keys with
their values. Nothing but a line feed, or a carriage return with one, ends a line.
-/
import Bindery.Bytes.Utf8
import Bindery.Toml.Document
import Bindery.Toml.Literal

namespace Bindery.Toml

/-- A step of reading: a value and the octets that are left. -/
abbrev Parse (α : Type) := Bytes → Option (α × Bytes)

/-! ## Characters -/

def isBlank (b : UInt8) : Bool := b == 32 || b == 9

def skipBlanks (s : Bytes) : Bytes := s.dropWhile isBlank

/-- The number of octets of the character at the front, nothing for a stray octet or a
control character. Line breaks are left to those who ask. -/
def charSize? : Bytes → Option Nat
  | [] => none
  | a :: s =>
    if a < 0x80 then (if isControl a && a != 10 && a != 13 then none else some 1)
    else match s with
      | b :: s =>
        if Utf8.isTwo a b then some 2
        else match s with
          | c :: s =>
            if Utf8.isThree a b c then some 3
            else match s with
              | d :: _ => if Utf8.isFour a b c d then some 4 else none
              | [] => none
          | [] => none
      | [] => none

/-- One character. -/
def char : Parse Bytes := fun s => do
  let n ← charSize? s
  return (s.take n, s.drop n)

/-- A given octet. -/
def expect (b : UInt8) (s : Bytes) : Option Bytes :=
  match s with
  | c :: s => if c = b then some s else none
  | [] => none

/-- The end of a line. -/
def newline? : Bytes → Option Bytes
  | 10 :: s => some s
  | 13 :: 10 :: s => some s
  | _ => none

/-- What follows a comment, up to the end of its line. -/
def comment : Nat → Bytes → Option Bytes
  | 0, _ => none
  | _, [] => some []
  | fuel + 1, s =>
    if (newline? s).isSome then some s
    else if s.head? = some 13 then none
    else do comment fuel (← char s).2

/-! ## Strings -/

/-- A text in single quotes, behind the first. -/
def literalRest : Nat → Parse Bytes
  | 0, _ => none
  | fuel + 1, s =>
    match s with
    | 39 :: s => some ([], s)
    | 10 :: _ => none
    | 13 :: _ => none
    | s => do
      let (c, s) ← char s
      let (t, s) ← literalRest fuel s
      return (c ++ t, s)

/-- A run of at least three quotes closes a text over several lines; up to two more
belong to it. -/
def closing? (quote : UInt8) (s : Bytes) : Option (Option (Bytes × Bytes)) :=
  let run := (s.takeWhile (· == quote)).length
  if run < 3 then none
  else if run < 6 then some (some (List.replicate (run - 3) quote, s.drop run))
  else some none

/-- A text in three single quotes, behind the first three. -/
def longLiteralRest : Nat → Parse Bytes
  | 0, _ => none
  | fuel + 1, s =>
    match closing? 39 s with
    | some end1 => end1
    | none =>
      match s with
      | 13 :: s => do
        let s ← expect 10 s
        let (t, s) ← longLiteralRest fuel s
        return (13 :: 10 :: t, s)
      | s => do
        let (c, s) ← char s
        let (t, s) ← longLiteralRest fuel s
        return (c ++ t, s)

/-- A character by its number in so many hexadecimal digits. -/
def codePoint (digits : Nat) : Parse Bytes := fun s => do
  let ds := s.take digits
  if ds.length < digits then none
  let n ← ds.foldlM (fun n d => do return 16 * n + (← Byte.hexValue? d)) 0
  if n > 0x10FFFF ∨ (0xD800 ≤ n ∧ n < 0xE000) then none
  return (String.utf8EncodeChar (Char.ofNat n), s.drop digits)

/-- What a backslash stands for, with what follows it. -/
def escaped : Parse Bytes
  | [] => none
  | c :: s =>
    match c.toNat with
    | 34 | 92 => some ([c], s)
    | 98 => some ([8], s)
    | 102 => some ([12], s)
    | 110 => some ([10], s)
    | 114 => some ([13], s)
    | 116 => some ([9], s)
    | 101 => some ([27], s)
    | 117 => codePoint 4 s
    | 85 => codePoint 8 s
    | _ => none

/-- A text in double quotes, behind the first. -/
def basicRest : Nat → Parse Bytes
  | 0, _ => none
  | fuel + 1, s =>
    match s with
    | 34 :: s => some ([], s)
    | 10 :: _ => none
    | 13 :: _ => none
    | 92 :: s => do
      let (c, s) ← escaped s
      let (t, s) ← basicRest fuel s
      return (c ++ t, s)
    | s => do
      let (c, s) ← char s
      let (t, s) ← basicRest fuel s
      return (c ++ t, s)

/-- Skips blanks and line breaks. -/
def skipBreaks : Bytes → Bytes
  | [] => []
  | 13 :: 10 :: s => skipBreaks s
  | b :: s => if isBlank b || b == 10 then skipBreaks s else b :: s

/-- A backslash at the end of a line takes the line break and the white space behind it
away. -/
def joinLines? (s : Bytes) : Option Bytes := (newline? (skipBlanks s)).map skipBreaks

/-- A text in three double quotes, behind the first three. -/
def longBasicRest : Nat → Parse Bytes
  | 0, _ => none
  | fuel + 1, s =>
    match closing? 34 s with
    | some end1 => end1
    | none =>
      match s with
      | 92 :: s =>
        match joinLines? s with
        | some s => longBasicRest fuel s
        | none => do
          let (c, s) ← escaped s
          let (t, s) ← longBasicRest fuel s
          return (c ++ t, s)
      | 13 :: s => do
        let s ← expect 10 s
        let (t, s) ← longBasicRest fuel s
        return (13 :: 10 :: t, s)
      | s => do
        let (c, s) ← char s
        let (t, s) ← longBasicRest fuel s
        return (c ++ t, s)

/-- A line break right behind the opening quotes is not part of the text. -/
def dropFirstNewline (s : Bytes) : Bytes := (newline? s).getD s

def basic : Parse Bytes := fun s => do basicRest s.length (← expect 34 s)

def literalString : Parse Bytes := fun s => do literalRest s.length (← expect 39 s)

/-- A text in any of the four kinds of quotes. -/
def string : Parse Bytes := fun s =>
  if (utf8 "\"\"\"").isPrefixOf s then longBasicRest s.length (dropFirstNewline (s.drop 3))
  else if (utf8 "'''").isPrefixOf s then longLiteralRest s.length (dropFirstNewline (s.drop 3))
  else if s.head? = some 34 then basic s
  else literalString s

/-! ## Keys -/

def isKeyByte (b : UInt8) : Bool := Byte.isWord b || b == 45

/-- One part of a key. -/
def keyPart : Parse Bytes := fun s =>
  match s with
  | 39 :: _ => literalString s
  | 34 :: _ => basic s
  | s =>
    let k := s.takeWhile isKeyByte
    if k.isEmpty then none else some (k, s.drop k.length)

/-- The parts of a key, with dots between them. -/
def keyRest : Nat → Parse (List Bytes)
  | 0, _ => none
  | fuel + 1, s => do
    let (k, s) ← keyPart s
    match skipBlanks s with
    | 46 :: s => do
      let (ks, s) ← keyRest fuel (skipBlanks s)
      return (k :: ks, s)
    | s => return ([k], s)

def key : Parse (List Bytes) := fun s => keyRest (s.length + 1) s

/-! ## Numbers, dates and times -/

/-- Looks like a time or a date: two digits and a colon, or four digits and a dash. -/
def startsMoment (s : Bytes) : Bool :=
  let digits := ((s.take 5).takeWhile Byte.isDigit).length
  s.length ≥ 3 && ((digits == 2 && s[2]? == some 58) || (digits == 4 && s[4]? == some 45))

/-- The octets that a date or a time goes on with; one blank may stand before its time. -/
def momentRun : Nat → Bool → Bytes → Bytes
  | 0, _, _ => []
  | _, _, [] => []
  | fuel + 1, spaced, b :: s =>
    if Byte.isDigit b || b == 45 || b == 84 || b == 116 || b == 58 || b == 46 || b == 43 || b == 90
        || b == 122 then
      b :: momentRun fuel spaced s
    else if b == 32 && !spaced then
      match s with
      | d :: s' =>
        if Byte.isDigit d then
          match s' with
          | e :: s'' => 32 :: d :: e :: momentRun fuel true s''
          | [] => [32, d]
        else []
      | [] => []
    else []

/-- A date, a time or both. -/
def moment : Parse Value := fun s =>
  let run := momentRun s.length false s
  let date := run.contains 45
  let time := run.any fun b => b == 84 || b == 116 || b == 58 || b == 46 || b == 32
  let offset := run.any (fun b => b == 43 || b == 90 || b == 122) || (run.drop 8).contains 45
  some (.moment date time offset run, s.drop run.length)

/-- The digits of a number with a base, underscores among them. -/
def isBaseDigit (base : UInt8) (b : UInt8) : Bool :=
  b == 95 ||
    (if base == 120 then (Byte.hexValue? b).isSome
    else if base == 111 then 48 ≤ b && b ≤ 55
    else b == 48 || b == 49)

/-- A run of the octets of a decimal number, with an infinity or a number that is none
at its end. -/
def decimalRun : Bytes → Option (Bytes × Bool)
  | [] => some ([], false)
  | b :: s =>
    if Byte.isDigit b || b == 43 || b == 45 || b == 95 then do
      let (t, f) ← decimalRun s
      return (b :: t, f)
    else if b == 46 || b == 101 || b == 69 then do
      let (t, _) ← decimalRun s
      return (b :: t, true)
    else if b == 105 then (if (utf8 "inf").isPrefixOf (b :: s) then some (utf8 "inf", true) else none)
    else if b == 110 then (if (utf8 "nan").isPrefixOf (b :: s) then some (utf8 "nan", true) else none)
    else some ([], false)

/-- A number. -/
def number : Parse Value := fun s =>
  match s with
  | 48 :: b :: _ :: _ =>
    if b == 46 || b == 101 || b == 69 then decimal s
    else if b == 120 || b == 111 || b == 98 then
      let ds := (s.drop 2).takeWhile (isBaseDigit b)
      some (.integer (48 :: b :: ds), s.drop (2 + ds.length))
    else some (.integer [48], s.drop 1)
  | s => decimal s
where
  decimal (s : Bytes) : Option (Value × Bytes) := do
    let (run, isFloat) ← decimalRun s
    if run.isEmpty then none
    return (if isFloat then .float run else .integer run, s.drop run.length)

/-! ## Values -/

/-- White space, comments and line breaks inside an array. -/
def skipLines : Nat → Bytes → Option Bytes
  | 0, s => some s
  | fuel + 1, s => do
    let s := skipBlanks s
    let s ← match s with
      | 35 :: s => comment (s.length + 1) s
      | s => some s
    match s with
    | 10 :: _ => skipLines fuel (← newline? s)
    | 13 :: _ => skipLines fuel (← newline? s)
    | s => some s

mutual

/-- A value. -/
def value : Nat → Parse Value
  | 0, _ => none
  | fuel + 1, s =>
    match s with
    | [] => none
    | b :: rest =>
      match b.toNat with
      | 34 | 39 => (string s).map fun (t, s) => (.string t, s)
      | 116 => if (utf8 "true").isPrefixOf s then some (.boolean true, s.drop 4) else none
      | 102 => if (utf8 "false").isPrefixOf s then some (.boolean false, s.drop 5) else none
      | 91 => do
        let (vs, s) ← items fuel true rest
        return (.array vs, s)
      | 123 => do
        let (kvs, s) ← pairs fuel true rest
        return (← inlineTable kvs, s)
      | 105 => if (utf8 "inf").isPrefixOf s then some (.float (utf8 "inf"), s.drop 3) else none
      | 110 => if (utf8 "nan").isPrefixOf s then some (.float (utf8 "nan"), s.drop 3) else none
      | _ => if startsMoment s then moment s else number s

/-- The elements of an array up to its end, with commas between them and perhaps one
behind the last. -/
def items : Nat → Bool → Parse (List Value)
  | 0, _, _ => none
  | fuel + 1, first, s => do
    let s ← skipLines (s.length + 1) s
    match s with
    | [] => none
    | 93 :: s => return ([], s)
    | s => do
      let s ← if first then some s else (expect 44 s).bind (skipLines (s.length + 1))
      match s with
      | 93 :: s => if first then none else return ([], s)
      | s => do
        let (v, s) ← value fuel s
        let (vs, s) ← items fuel false s
        return (v :: vs, s)

/-- The pairs of an inline table up to its end, with commas between them. -/
def pairs : Nat → Bool → Parse (List (List Bytes × Value))
  | 0, _, _ => none
  | fuel + 1, first, s =>
    match skipBlanks s with
    | [] => none
    | 125 :: s => some ([], s)
    | s => do
      let s ← if first then some s else (expect 44 s).map skipBlanks
      let (kv, s) ← pair fuel s
      let (kvs, s) ← pairs fuel false s
      return (kv :: kvs, s)

/-- A key and its value. -/
def pair : Nat → Parse (List Bytes × Value)
  | 0, _ => none
  | fuel + 1, s => do
    let (k, s) ← key s
    let s ← expect 61 (skipBlanks s)
    let (v, s) ← value fuel (skipBlanks s)
    return ((k, v), s)

end

/-! ## Lines -/

/-- The key of a header between its brackets, `n` on each side. -/
def header (n : Nat) : Parse (List Bytes) := fun s => do
  let (k, s) ← key (skipBlanks (s.drop n))
  let s ← (List.replicate n 93).foldlM (fun s b => expect b s) (skipBlanks s)
  return (k, s)

/-- What a line says, nothing for a blank one. -/
def expression : Parse (Option Expression) := fun s =>
  match skipBlanks s with
  | [] => some (none, [])
  | 35 :: s => do return (none, ← comment (s.length + 1) s)
  | 10 :: s => some (none, 10 :: s)
  | 13 :: s => some (none, 13 :: s)
  | s => do
    let (e, s) ← match s with
      | 91 :: 91 :: _ => do
        let (k, s) ← header 2 s
        pure (Expression.arrayTable k, s)
      | 91 :: _ => do
        let (k, s) ← header 1 s
        pure (Expression.table k, s)
      | s => do
        let ((k, v), s) ← pair (2 * s.length + 2) s
        pure (Expression.keyValue k v, s)
    match skipBlanks s with
    | 35 :: s => do return (some e, ← comment (s.length + 1) s)
    | s => return (some e, s)

/-- The lines of a document. -/
def expressions : Nat → Bytes → Option (List Expression)
  | 0, _ => none
  | fuel + 1, s => do
    let (e, s) ← expression s
    match s with
    | [] => return e.toList
    | s => return e.toList ++ (← expressions fuel (← newline? s))

/-- What the lines of a text say, one after the other. -/
def parseLines (s : Bytes) : Option (List Expression) := expressions (s.length + 1) s

/-- The entries of a document. -/
def parse (s : Bytes) : Option (List (Bytes × Value)) := do document (← parseLines s)

end Bindery.Toml
