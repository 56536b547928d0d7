/-
A line of text being edited, with a cursor between two of its characters, on a screen of
limited width. The text is kept as what stands before the cursor and what stands behind it,
each with its nearest character first, so that an edit at the cursor is an edit at the front
of a list. Of a text too wide for the screen a part is shown that follows the cursor.
-/
import Bindery.Bytes.Blank
import Bindery.Bytes.Columns

namespace Bindery

/-- A line of text and a cursor in it. -/
structure TextField where
  /-- the characters before the cursor, the nearest first -/
  before : List Char := []
  /-- the characters behind the cursor, the nearest first -/
  after : List Char := []
  /-- how many characters stand to the left of the part that is shown -/
  first : Nat := 0
  /-- where the part that is shown ends, in characters from the front -/
  last : Nat := 0
  deriving DecidableEq, Repr

/-- What can be done to a text field. -/
inductive Edit where
  | insert (text : List Char)
  | left
  | right
  | wordLeft
  | wordRight
  | home
  | toEnd
  | eraseLeft
  | eraseRight
  | eraseWordLeft
  | eraseWordRight
  | eraseAllLeft
  | eraseAllRight
  /-- a key that the field knows and that does nothing to it -/
  | keep
  deriving DecidableEq, Repr

namespace TextField

/-- The columns of the screen, the cursor apart. -/
def width : Nat := 40

/-- The whole text. -/
def text (f : TextField) : List Char := f.before.reverse ++ f.after

/-- The place of the cursor, in characters from the front. -/
def place (f : TextField) : Nat := f.before.length

/-! ## The part that is shown -/

/-- How many characters to the right fill the screen and the column of the cursor, when `used`
columns are full. -/
def fillRight : Nat → List Char → Nat
  | _, [] => 0
  | used, c :: cs =>
    let next := used + Columns.ofChar c
    if used ≤ width ∧ next ≤ width + 1 then fillRight next cs + 1 else 0

/-- How many characters to the left, the nearest first, fill the screen, when `used` columns are
full. -/
def fillLeft : Nat → List Char → Nat
  | _, [] => 0
  | used, c :: cs =>
    let next := used + Columns.ofChar c
    if used < width ∧ next ≤ width then fillLeft next cs + 1 else 0

/-- Moves the part that is shown no further than the cursor asks for. A cursor left of it becomes
its first place, a cursor at its end or right of it becomes its end. The first character of the
text comes back only with a cursor before it. -/
def settle (f : TextField) : TextField :=
  let s := f.text
  let last := min f.last s.length
  if Columns.count s ≤ width then { f with first := 0, last := s.length }
  else if f.place < f.first then
    { f with first := f.place, last := f.place + fillRight 0 f.after }
  else if last ≤ f.place then
    { f with first := f.place - fillLeft 0 f.before.dropLast, last := f.place }
  else { f with last }

/-- The part of the text that is shown. -/
def shown (f : TextField) : List Char := (f.text.take f.last).drop f.first

/-- The blanks behind the part that is shown: up to the width of the screen, with one for the
cursor. A part that is too wide has none but a cursor behind it. -/
def blanks (f : TextField) : Nat :=
  let columns := Columns.count f.shown
  if columns ≤ width then width + 1 - columns
  else if f.place - f.first < f.shown.length then 0
  else 1

/-! ## Editing -/

/-- Typed characters as a field takes them: tabs and line breaks become blanks, other
control characters go. -/
def typeable (cs : List Char) : List Char :=
  cs.filterMap fun c =>
    if c = '\t' ∨ c = '\n' ∨ c = '\r' then some ' '
    else if c.toNat < 32 ∨ (127 ≤ c.toNat ∧ c.toNat < 160) ∨ c.toNat = 0xFFFD then none
    else some c

/-- The characters behind the blanks and the word that a text starts with. -/
def afterWord (s : List Char) : List Char :=
  (s.dropWhile Blank.isBlank).dropWhile fun c => !Blank.isBlank c

/-- How many characters the blanks and the word take that a text starts with. -/
def wordLength (s : List Char) : Nat := s.length - (afterWord s).length

/-- The field with the cursor moved left over `n` characters. -/
def moveLeft (f : TextField) (n : Nat) : TextField :=
  { f with before := f.before.drop n, after := (f.before.take n).reverse ++ f.after }

/-- The field with the cursor moved right over `n` characters. -/
def moveRight (f : TextField) (n : Nat) : TextField :=
  { f with before := (f.after.take n).reverse ++ f.before, after := f.after.drop n }

/-- Erases the word before the cursor and the blanks between. The blanks before the word stay,
but not a single blank at the very front. The cursor looks at the blank before the word and
steps back. -/
def eraseWordLeft (f : TextField) : TextField :=
  let n := wordLength f.before
  if n + 1 < f.before.length then
    let f := ((f.moveLeft (n + 1)).settle.moveRight 1).settle
    { f with after := f.after.drop n }
  else { (f.moveLeft f.before.length).settle with after := f.after }

/-- Erases the character behind the cursor and the blanks and the word behind that. The cursor goes
over them and comes back. -/
def eraseWordRight (f : TextField) : TextField :=
  let n := 1 + wordLength (f.after.drop 1)
  let f' := (f.moveRight n).settle
  { f with after := f.after.drop n, first := f'.first, last := f'.last }

def edit (f : TextField) (e : Edit) : TextField :=
  settle <|
    match e with
    | .insert cs => { f with before := (typeable cs).reverse ++ f.before }
    | .left => f.moveLeft 1
    | .right => f.moveRight 1
    | .wordLeft => f.moveLeft (wordLength f.before)
    | .wordRight => f.moveRight (wordLength f.after)
    | .home => f.moveLeft f.before.length
    | .toEnd => f.moveRight f.after.length
    | .eraseLeft => { f with before := f.before.drop 1 }
    | .eraseRight => { f with after := f.after.drop 1 }
    | .eraseWordLeft => f.eraseWordLeft
    | .eraseWordRight => f.eraseWordRight
    | .eraseAllLeft => { f with before := [], first := 0 }
    | .eraseAllRight => { f with after := [] }
    | .keep => f

end TextField

end Bindery
