/-
Browsing the functions of a package: a list that typing filters, and a page of detail
about the selected function. `Browser.update` takes a message, `Browser.press` a key,
and `Browser.view` shows the screen.
-/
import Bindery.Bytes.Block
import Bindery.Bytes.LowerCase
import Bindery.Canonical.Flat
import Bindery.CaseStyle
import Bindery.Interface.Text
import Bindery.Package.Basic
import Bindery.TextField

namespace Bindery

/-- A function on the list. -/
structure FuncEntry where
  interface : Interface
  func : Func
  /-- the function is asked of the host -/
  imported : Bool := false
  deriving Repr, Inhabited

namespace FuncEntry

/-- The line of a function on the list. -/
def label (e : FuncEntry) : Bytes :=
  e.interface.name ++ utf8 (if e.imported then " (import)." else ".") ++ e.func.signature

/-- The page of a function. -/
def detail (e : FuncEntry) : Bytes :=
  let side : Direction := if e.imported then .imported else .exported
  let sig := ((e.interface.shapedFunc? e.func).getD default).signature side
  let types (ts : List CoreType) := Bytes.join (utf8 ", ") (ts.map CoreType.word)
  e.func.signature.block ++ utf8 "\n\n"
    ++ utf8 "  core:       (" ++ types sig.params ++ utf8 ") -> (" ++ types sig.results ++ utf8 ")\n"
    ++ (if sig.indirectParams then utf8 "  parameters are passed through linear memory\n" else [])
    ++ (if sig.indirectResults then utf8 "  results are returned through linear memory\n" else [])
    ++ utf8 "  javascript: " ++ CaseStyle.camel e.func.name ++ utf8 "\n"
    ++ utf8 "  python:     " ++ CaseStyle.snake e.func.name ++ utf8 "\n"

end FuncEntry

/-- A pressed key; typed text comes with all its characters at once. -/
inductive Key where
  | up
  | down
  | enter
  | escape
  | interrupt
  /-- a key for the filter -/
  | edit (e : Edit)
  deriving DecidableEq, Repr

namespace Key

/-- Typed text. -/
def typed (text : List Char) : Key := .edit (.insert text)

/-- The key of a name, typed text that is no name of a key. -/
def ofText (s : String) : Key :=
  match s with
  | "up" => .up
  | "down" => .down
  | "enter" => .enter
  | "esc" => .escape
  | "ctrl+c" => .interrupt
  | "left" | "ctrl+b" => .edit .left
  | "right" | "ctrl+f" => .edit .right
  | "alt+left" | "ctrl+left" | "alt+b" => .edit .wordLeft
  | "alt+right" | "ctrl+right" | "alt+f" => .edit .wordRight
  | "home" | "ctrl+a" => .edit .home
  | "end" | "ctrl+e" => .edit .toEnd
  | "backspace" | "ctrl+h" => .edit .eraseLeft
  | "delete" | "ctrl+d" => .edit .eraseRight
  | "alt+backspace" | "ctrl+w" => .edit .eraseWordLeft
  | "alt+delete" | "alt+d" => .edit .eraseWordRight
  | "ctrl+u" => .edit .eraseAllLeft
  | "ctrl+k" => .edit .eraseAllRight
  | "ctrl+v" | "ctrl+n" | "ctrl+p" => .edit .keep
  | _ => typed s.toList

end Key

/-- What can reach a browser. -/
inductive Message where
  | key (k : Key)
  /-- anything but a key: a tick of the cursor, a new size of the screen -/
  | other
  deriving DecidableEq, Repr

structure Browser where
  title : Bytes
  all : List FuncEntry
  /-- the functions that the filter lets through -/
  visible : List FuncEntry
  field : TextField := {}
  selected : Nat := 0
  /-- the page of the selected function is shown -/
  detail : Bool := false

namespace Browser

/-- The functions of a library, its own before those it asks of the host. -/
def entriesOf (l : Library) : List FuncEntry :=
  l.interface.functions.map (fun f => { interface := l.interface, func := f })
    ++ l.imports.flatMap fun i => i.functions.map fun f => { interface := i, func := f, imported := true }

/-- The list of a package, nothing filtered out. -/
def start (p : Package) : Browser where
  title := p.metadata.name.toText ++ utf8 "@" ++ p.metadata.version
  all := p.libraries.flatMap entriesOf
  visible := p.libraries.flatMap entriesOf

/-- The text typed so far. -/
def filter (b : Browser) : List Char := b.field.text

/-- The text that the filter looks for. -/
def query (b : Browser) : Bytes := (Bytes.trim (b.filter.flatMap String.utf8EncodeChar)).toLower

/-- Takes a new filter. The functions whose line holds the text looked for become visible, without
regard to case, and the selection stays within them. -/
def refilter (b : Browser) (field : TextField) : Browser :=
  let b := { b with field }
  let visible :=
    if b.query.isEmpty then b.all else b.all.filter fun e => e.label.toLower.holds b.query
  { b with visible, selected := min b.selected (visible.length - 1) }

/-- What a message does, and whether it ends the browsing. A message that the list has no use for
goes to the filter, and `answer` is the filter after it. -/
def update (b : Browser) (m : Message) (answer : TextField) : Browser × Bool :=
  match m with
  | .key .interrupt => (b, true)
  | .key .up => (if b.detail then b else { b with selected := b.selected - 1 }, false)
  | .key .down =>
    (if b.detail ∨ b.visible.length ≤ b.selected + 1 then b else { b with selected := b.selected + 1 }, false)
  | .key .enter => ({ b with detail := !b.detail && !b.visible.isEmpty }, false)
  | .key .escape => if b.detail then ({ b with detail := false }, false) else (b, true)
  | .key (.edit e) => if b.detail then (b, e = .insert ['q']) else (b.refilter answer, false)
  | .other => (if b.detail then b else b.refilter answer, false)

/-- What a key does, and whether it ends the browsing. -/
def press (b : Browser) (k : Key) : Browser × Bool :=
  b.update (.key k) <|
    match k with
    | .edit e => b.field.edit e
    | _ => b.field

/-- The filter line: what is shown of the filter, or a hint when it is empty, and blanks up to the
width of the line. A cursor behind the text is one of the blanks, any other stands on a character. -/
def filterLine (b : Browser) : Bytes :=
  let (text, blanks) :=
    if b.filter.isEmpty then (utf8 "filter", TextField.width + 1 - 6)
    else (b.field.shown.flatMap String.utf8EncodeChar, b.field.blanks)
  utf8 "/ " ++ text ++ List.replicate blanks 32

/-- The list of functions with the selected one marked and set as a block. -/
def listLines (b : Browser) : Bytes :=
  let es := b.visible
  if es.isEmpty then utf8 "no matching functions\n"
  else es.zipIdx.flatMap fun (e, i) =>
    (if i = b.selected then (utf8 "> " ++ e.label).block else utf8 "  " ++ e.label) ++ utf8 "\n"

/-- What stands above the list and above a page. -/
def heading (b : Browser) : Bytes := utf8 " wasm-pack  " ++ b.title ++ utf8 "\n\n"

/-- The screen with the page of a function. -/
def page (b : Browser) (e : FuncEntry) : Bytes := b.heading ++ e.detail ++ utf8 "\nenter back • q quit"

/-- The screen. -/
def view (b : Browser) : Bytes :=
  if b.detail then b.page (b.visible.getD b.selected default)
  else
    b.heading ++ b.filterLine ++ utf8 "\n\n" ++ b.listLines
      ++ utf8 "\ntype to filter • ↑/↓ select • enter details • esc quit"

end Browser

end Bindery
