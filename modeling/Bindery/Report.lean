/-
What the program says when it fails. A `Report` is a chain of links from the
outermost failure down to its root: a link of the program's own kind names the
phase it happened in, the kind of failure, where, and in which words; a plain
link has a text only; a foreign link stands for a failure outside the program
whose words are not the program's to promise.

`render` gives the whole chain as one text, `chain` gives one text a link, and
`mentions` finds a phase and kind anywhere along the chain.
-/
import Bindery.Bytes.Quoted

namespace Bindery

/-- The stage of the work in which a failure happened. -/
structure Phase where
  name : Bytes
  deriving DecidableEq, Repr

namespace Phase

/-- Container envelope and manifest. -/
def load : Phase := ⟨utf8 "load"⟩

/-- Package names, interface text, module sections. -/
def parse : Phase := ⟨utf8 "parse"⟩

/-- Invariants of a package. -/
def validate : Phase := ⟨utf8 "validate"⟩

/-- Glue generation. -/
def generate : Phase := ⟨utf8 "generate"⟩

/-- Template rendering. -/
def render : Phase := ⟨utf8 "render"⟩

/-- Writing a file tree. -/
def write : Phase := ⟨utf8 "write"⟩

end Phase

/-- What sort of failure it is. -/
structure Kind where
  name : Bytes
  deriving DecidableEq, Repr

namespace Kind

def invalidData : Kind := ⟨utf8 "invalid_data"⟩
def invalidInput : Kind := ⟨utf8 "invalid_input"⟩
def invalidUtf8 : Kind := ⟨utf8 "invalid_utf8"⟩
def notFound : Kind := ⟨utf8 "not_found"⟩
def duplicateName : Kind := ⟨utf8 "duplicate_name"⟩
def unsupported : Kind := ⟨utf8 "unsupported"⟩
def checksum : Kind := ⟨utf8 "checksum"⟩
def io : Kind := ⟨utf8 "io"⟩

end Kind

/-- One failure of the program's own. -/
structure Failure where
  phase : Phase
  kind : Kind
  /-- where it happened, outermost place first -/
  path : List Bytes := []
  detail : Bytes := []
  /-- the offending value as text -/
  value : Option Bytes := none
  deriving DecidableEq, Repr

/-- The text of a failure without its cause: phase, kind, place and detail, the
last two only when there are any. -/
def Failure.text (f : Failure) : Bytes :=
  utf8 "[" ++ f.phase.name ++ utf8 "] " ++ f.kind.name
    ++ (if f.path.isEmpty then [] else utf8 " at " ++ Bytes.join (utf8 "/") f.path)
    ++ (if f.detail.isEmpty then [] else utf8 ": " ++ f.detail)

/-- A link of a report. -/
inductive Link where
  | own (failure : Failure)
  | plain (text : Bytes)
  | foreign
  deriving DecidableEq, Repr

/-- A failure with the chain of its causes, outermost first. -/
structure Report where
  outer : Link
  causes : List Link := []
  deriving DecidableEq, Repr

instance : Inhabited Report := ⟨{ outer := .foreign }⟩

namespace Report

/-- The text of a link together with that of the links below it. -/
def renderFrom : Link → List Link → Bytes
  | .own f, [] => f.text
  | .own f, l :: ls => f.text ++ utf8 " (caused by: " ++ renderFrom l ls ++ utf8 ")"
  | .plain t, [] => t
  | .plain t, l :: ls => t ++ utf8 ": " ++ renderFrom l ls
  | .foreign, _ => utf8 "a failure outside the program"

/-- The whole report as one text. -/
def render (r : Report) : Bytes := renderFrom r.outer r.causes

/-- One text a link. A link of the program's own shows without its cause. -/
def chainFrom : Link → List Link → List Bytes
  | .own f, ls => f.text :: (match ls with
    | [] => []
    | l :: ls => chainFrom l ls)
  | l, ls => renderFrom l ls :: (match ls with
    | [] => []
    | l :: ls => chainFrom l ls)

/-- The texts of the links, outermost first. -/
def chain (r : Report) : List Bytes := chainFrom r.outer r.causes

def links (r : Report) : List Link := r.outer :: r.causes

/-- Some link is the program's own and has this phase and kind. -/
def mentions (r : Report) (phase : Phase) (kind : Kind) : Bool :=
  r.links.any fun
    | .own f => f.phase == phase && f.kind == kind
    | _ => false

/-- A report of one failure. -/
def ofFailure (f : Failure) : Report := { outer := .own f }

/-- A failure with no cause, placed nowhere. -/
def simple (phase : Phase) (kind : Kind) (detail : Bytes) : Report :=
  ofFailure { phase, kind, detail }

/-- A failure caused by another. -/
def because (f : Failure) (cause : Report) : Report :=
  { outer := .own f, causes := cause.links }

/-- A failure caused by another, when there is one. -/
def becauseOf (f : Failure) : Option Report → Report
  | none => ofFailure f
  | some cause => because f cause

/-- A failure outside the program. -/
def external : Report := { outer := .foreign }

/-- Wraps a cause under a new phase, kind and detail. -/
def wrap (phase : Phase) (kind : Kind) (detail : Bytes) (cause : Option Report) : Report :=
  becauseOf { phase, kind, detail } cause

/-- Something named is not there. -/
def notFound (phase : Phase) (what name : Bytes) : Report :=
  simple phase .notFound (what ++ utf8 " " ++ name.quote ++ utf8 " not found")

def invalidInput (phase : Phase) (detail : Bytes) : Report := simple phase .invalidInput detail

def invalidData (phase : Phase) (path : List Bytes) (detail : Bytes) : Report :=
  ofFailure { phase, kind := .invalidData, path, detail }

/-- Text that is not UTF-8; the detail shows its first 32 octets. -/
def invalidUtf8 (phase : Phase) (path : List Bytes) (data : Bytes) : Report :=
  ofFailure
    { phase
      kind := .invalidUtf8
      path
      detail := utf8 "invalid UTF-8 sequence: " ++ Bytes.hex (data.take 32) }

/-- A name given twice where names must differ. -/
def duplicateName (what name : Bytes) : Report :=
  ofFailure
    { phase := .validate
      kind := .duplicateName
      detail := utf8 "duplicate " ++ what ++ utf8 " name: " ++ name
      value := some name }

def unsupported (phase : Phase) (what : Bytes) : Report := simple phase .unsupported what

/-- A container that cannot be loaded. -/
def load (detail : Bytes) (cause : Option Report) : Report := wrap .load .invalidData detail cause

def parseFailed (what : Bytes) (cause : Option Report) : Report :=
  wrap .parse .invalidData (utf8 "parse " ++ what) cause

/-- An artifact that cannot be generated; it is also the place of the failure. -/
def generate (artifact : Bytes) (cause : Option Report) : Report :=
  becauseOf
    { phase := .generate
      kind := .invalidData
      path := [artifact]
      detail := utf8 "generate " ++ artifact } cause

def renderTemplate (template : Bytes) (cause : Option Report) : Report :=
  wrap .render .invalidData (utf8 "render template " ++ template.quote) cause

/-- An output path that cannot be written. -/
def write (path action : Bytes) (cause : Option Report) : Report :=
  becauseOf { phase := .write, kind := .io, path := [path], detail := action } cause

end Report

end Bindery
