/-
From the words of a command line to what they ask for. Flags may stand before and behind
the command and its input: `--name value`, `--name=value`, `-n value`, `-nvalue`,
`-n=value`; flags without a value may share a dash, and `--` ends the flags.

Which word is the command is settled first, with only the flags known that every command
has: an unknown flag without a `=` counts as one with a value.
-/
import Bindery.Bytes.Truth
import Bindery.Report

namespace Bindery

/-- A language that packages are generated for. -/
inductive Language where
  | javascript
  | python
  deriving DecidableEq, Repr

/-- What can be done with a package. -/
inductive Verb where
  | generate (language : Language)
  | describe
  | browse
  deriving DecidableEq, Repr

/-- The verb of a command, by its name or its short name. -/
def Verb.ofName? (s : Bytes) : Option Verb :=
  if s = utf8 "javascript" ∨ s = utf8 "js" then some (.generate .javascript)
  else if s = utf8 "python" ∨ s = utf8 "py" then some (.generate .python)
  else if s = utf8 "show" then some .describe
  else if s = utf8 "browse" then some .browse
  else none

inductive Flag where
  | verbose
  | config
  | help
  | outDir
  | format
  | inspect
  deriving DecidableEq, Repr

namespace Flag

def name : Flag → Bytes
  | .verbose => utf8 "verbose"
  | .config => utf8 "config"
  | .help => utf8 "help"
  | .outDir => utf8 "out-dir"
  | .format => utf8 "format"
  | .inspect => utf8 "inspect"

/-- The letter of a flag that has one. -/
def letter? : Flag → Option UInt8
  | .verbose => some 118
  | .help => some 104
  | .outDir => some 111
  | .format => some 102
  | _ => none

/-- A flag that needs no value. -/
def isSwitch : Flag → Bool
  | .verbose | .help | .inspect => true
  | _ => false

/-- The flags that every command has. -/
def shared : List Flag := [.verbose, .config]

end Flag

/-- The flags of a command. -/
def Verb.flags : Verb → List Flag
  | .generate _ => Flag.shared ++ [.help, .outDir]
  | .describe => Flag.shared ++ [.help, .format, .inspect]
  | .browse => Flag.shared ++ [.help]

/-- What the flags of a command line say. -/
structure Options where
  verbose : Option Bool := none
  config : Bytes := []
  help : Bool := false
  outDir : Option Bytes := none
  format : Option Bytes := none
  inspect : Bool := false
  deriving DecidableEq, Repr

/-- Takes one flag with its value; a switch takes a truth value only. -/
def Options.set (o : Options) (f : Flag) (v : Bytes) : Option Options :=
  match f with
  | .verbose => v.truth?.map fun b => { o with verbose := some b }
  | .config => some { o with config := v }
  | .help => v.truth?.map fun b => { o with help := b }
  | .outDir => some { o with outDir := some v }
  | .format => some { o with format := some v }
  | .inspect => v.truth?.map fun b => { o with inspect := b }

/-- What a command line asks for. -/
inductive Invocation where
  | help
  | run (verb : Verb) (input : Bytes) (options : Options)
  deriving DecidableEq, Repr

namespace Invocation

/-- The word that ends the flags. -/
def endMark : Bytes := utf8 "--"

def startsWithDash (s : Bytes) : Bool := s.head? == some 45

/-! ## Finding the command -/

/-- The word is a flag whose value is the next word. -/
def takesNext (flags : List Flag) (s : Bytes) : Bool :=
  !s.contains 61 &&
    ((endMark.isPrefixOf s && !flags.any fun f => f.isSwitch && f.name == s.drop 2)
      || (startsWithDash s && s.length == 2 && !flags.any fun f => f.isSwitch && f.letter? == s[1]?))

/-- The first word that is neither a flag nor the value of one. A flag before the last word
takes no value here. -/
def firstWord (flags : List Flag) : List Bytes → Option Bytes
  | [] => none
  | s :: rest =>
    if s = endMark then none
    else if takesNext flags s then
      match rest with
      | _ :: next :: more => firstWord flags (next :: more)
      | _ => none
    else if !s.isEmpty && !startsWithDash s then some s
    else firstWord flags rest

/-- The words without the first one that is `x` and no flag's value. -/
def withoutWord (flags : List Flag) (x : Bytes) : List Bytes → List Bytes
  | [] => []
  | s :: rest =>
    if s = endMark then s :: rest
    else if takesNext flags s then
      match rest with
      | [] => [s]
      | v :: rest => s :: v :: withoutWord flags x rest
    else if s = x then rest
    else s :: withoutWord flags x rest

/-! ## Reading the flags -/

/-- Options after a flag, and whether the next word was its value. -/
abbrev Step := Option (Options × Bool)

/-- A flag by its name, behind its dashes. -/
def longFlag (flags : List Flag) (o : Options) (s : Bytes) (next : Option Bytes) : Step := do
  let (name, value) := match Bytes.cut 61 s with
    | some (name, value) => (name, some value)
    | none => (s, none)
  let f ← flags.find? (·.name == name)
  match value with
  | some v => return (← o.set f v, false)
  | none => if f.isSwitch then return (← o.set f (utf8 "true"), false) else return (← o.set f (← next), true)

/-- Flags by their letters, behind the dash. -/
def letterFlags (flags : List Flag) (next : Option Bytes) : Options → Bytes → Step
  | o, [] => some (o, false)
  | o, c :: s => do
    let f ← flags.find? (·.letter? == some c)
    match s with
    | 61 :: b :: v => return (← o.set f (b :: v), false)
    | s =>
      if f.isSwitch then letterFlags flags next (← o.set f (utf8 "true")) s
      else if s.isEmpty then return (← o.set f (← next), true)
      else return (← o.set f s, false)

/-- Reads the flags among the words, and keeps the other words. -/
def readWords (flags : List Flag) : Options → List Bytes → Option (Options × List Bytes)
  | o, [] => some (o, [])
  | o, s :: rest =>
    if s = endMark then some (o, rest)
    else if startsWithDash s && s.length != 1 then
      let step :=
        if endMark.isPrefixOf s then longFlag flags o (s.drop 2) rest.head?
        else letterFlags flags rest.head? o (s.drop 1)
      match step, rest with
      | none, _ => none
      | some (o, true), _ :: rest => readWords flags o rest
      | some (o, _), rest => readWords flags o rest
    else (readWords flags o rest).map fun (o, words) => (o, s :: words)

/-- What the words ask for, nothing when they cannot be understood. A command takes exactly
one input. -/
def parse? (args : List Bytes) : Option Invocation := do
  match firstWord Flag.shared args with
  | none => do
    discard (readWords (Flag.shared ++ [.help]) {} args)
    return .help
  | some word => do
    let verb ← Verb.ofName? word
    let (options, words) ← readWords verb.flags {} (withoutWord Flag.shared word args)
    if options.help then return .help
    match words with
    | [input] => return .run verb input options
    | _ => none

end Invocation

end Bindery
