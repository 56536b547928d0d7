/-
Whether the names that the files of a package declare can be used. The names of libraries and
commands are any texts, told apart when the package is made; they become names of functions in two
languages.

Main statement: all these names are identifiers, none is a reserved word and no file declares one twice
exactly when the names of libraries and commands are identifiers but for what becomes an underscore,
none is or becomes a reserved word or a name that a file declares itself, and no two become one. Nothing
of this is asked of a package when it is made.
-/
import Bindery.Proofs.Distribution.Declarations
import Bindery.Proofs.Identifier
import Mathlib.Data.List.Nodup

namespace Bindery

open Glue (fixed)

/-! ## The two languages -/

/-- The words that are reserved in modules of JavaScript. -/
def jsReserved : List Bytes :=
  fixed (Glue.JavaScript.reserved ++ ["implements", "interface", "package", "private", "protected", "public"])

/-- The keywords of Python. -/
def pyReserved : List Bytes := fixed
  ["False", "None", "True", "and", "as", "assert", "async", "await", "break", "class", "continue", "def", "del",
   "elif", "else", "except", "finally", "for", "from", "global", "if", "import", "in", "is", "lambda", "nonlocal",
   "not", "or", "pass", "raise", "return", "try", "while", "with", "yield"]

/-- JavaScript, whichever characters beyond ASCII it takes. -/
def javaScript (wideStart widePart : Bytes → Bool) : NameRules :=
  { signs := [36], wideStart, widePart, reserved := jsReserved }

/-- Python, whichever characters beyond ASCII it takes. -/
def python (wideStart widePart : Bytes → Bool) : NameRules :=
  { signs := [], wideStart, widePart, reserved := pyReserved }

namespace NameRules

/-- What the two languages have in common: no sign that conversions rewrite, and no reserved word with
a hyphen or an underscore. -/
structure IsHost (l : NameRules) : Prop where
  signs : l.signs = [36] ∨ l.signs = []
  reserved : ∀ w ∈ l.reserved, isUndivided w = true

theorem isHost_javaScript (wideStart widePart : Bytes → Bool) : (javaScript wideStart widePart).IsHost where
  signs := .inl rfl
  reserved := by
    change ∀ w ∈ jsReserved, isUndivided w = true
    rw [jsReserved, fixed, utf8_eq_toByteArray]
    decide +kernel

theorem isHost_python (wideStart widePart : Bytes → Bool) : (python wideStart widePart).IsHost where
  signs := .inr rfl
  reserved := by
    change ∀ w ∈ pyReserved, isUndivided w = true
    rw [pyReserved, fixed, utf8_eq_toByteArray]
    decide +kernel

/-- The name of a library that gives its loading function an identifier that is not reserved. -/
def Loads (l : NameRules) (library : Bytes) : Prop :=
  l.admits [32, 45, 46] library.trim = true ∧ CaseStyle.snake library ∉ l.reserved

/-- The name of a command that gives its function an identifier that is not reserved. -/
def Runs (l : NameRules) (command : Bytes) : Prop := l.admits [45] command = true ∧ command ∉ l.reserved

namespace IsHost

variable {l : NameRules}

theorem isIdentifier_snake (h : l.IsHost) (s : Bytes) :
    l.isIdentifier (CaseStyle.snake s) = l.admits [32, 45, 46] s.trim := by
  refine l.isIdentifier_of_spread (fun b => ?_) (CaseStyle.spread_snakeFrom s.trim false)
  rcases h.signs with h | h <;> rw [h] <;> exact Byte.forall_octets (by decide +kernel) b

theorem isIdentifier_underscored (h : l.IsHost) (s : Bytes) : l.isIdentifier (s.map underscored) = l.admits [45] s := by
  refine l.isIdentifier_of_spread (fun b => ?_) (spread_underscored s)
  rcases h.signs with h | h <;> rw [h] <;> exact Byte.forall_octets (by decide +kernel) b

theorem loads_iff (h : l.IsHost) (library : Bytes) : l.Loads library ↔
    l.isIdentifier (CaseStyle.snake library) = true ∧ CaseStyle.snake library ∉ l.reserved := by
  rw [Loads, h.isIdentifier_snake]

theorem runs_iff (h : l.IsHost) (command : Bytes) : l.Runs command ↔
    l.isIdentifier (command.map underscored) = true ∧ command.map underscored ∉ l.reserved := by
  rw [Runs, h.isIdentifier_underscored, underscored_mem_iff h.reserved]

end IsHost

/-- Names that a file declares beside its own: identifiers that are not reserved, no two of them the
same and none of them a name of the file's own. -/
structure Usable (l : NameRules) (own ns : List Bytes) : Prop where
  valid : ∀ n ∈ ns, l.isIdentifier n = true
  free : ∀ n ∈ ns, n ∉ l.reserved
  distinct : ns.Nodup
  apart : ∀ n ∈ ns, n ∉ own

theorem usable_map {α : Type} {l : NameRules} {own : List Bytes} {f : α → Bytes} {as : List α} :
    l.Usable own (as.map f) ↔ (∀ a ∈ as, l.isIdentifier (f a) = true ∧ f a ∉ l.reserved) ∧ (as.map f).Nodup ∧
      ∀ a ∈ as, f a ∉ own := by
  constructor
  · rintro ⟨hvalid, hfree, hdistinct, hapart⟩
    rw [List.forall_mem_map] at hvalid hfree hapart
    exact ⟨fun a ha => ⟨hvalid a ha, hfree a ha⟩, hdistinct, hapart⟩
  · rintro ⟨hnames, hdistinct, hapart⟩
    exact ⟨List.forall_mem_map.2 fun a ha => (hnames a ha).1, List.forall_mem_map.2 fun a ha => (hnames a ha).2, hdistinct,
      List.forall_mem_map.2 hapart⟩

end NameRules

/-! ## Names of libraries -/

/-- No name with a capital in it is in snake case. -/
theorem CaseStyle.snake_ne_of_isUpper (s : Bytes) {w : Bytes} {b : UInt8} (hb : b ∈ w) (hupper : Byte.isUpper b = true) :
    snake s ≠ w := by
  rintro rfl
  rw [not_isUpper_of_mem_snakeFrom hb] at hupper
  cases hupper

namespace Npm

theorem loader_mem_bindingsOwn (ls : List Library) (n : Bytes) : loader n ∈ bindingsOwn ls ↔
    (∃ l ∈ ls, loader n = CaseStyle.pascal l.interfaceName) ∨
      (ls.any Library.requiresWasi = true ∧ loader n = utf8 "init") := by
  have hload : loader n ≠ loadModule := CaseStyle.snake_ne_of_isUpper n (b := 77) (by decide) rfl
  have hwasi : loader n ≠ utf8 "WASI" := CaseStyle.snake_ne_of_isUpper n (b := 87) (by decide) rfl
  have himports (i : Interface) : Glue.JavaScript.importsFunction i.name ≠ loader n := by
    have hmem : 84 ∈ Glue.JavaScript.importsFunction i.name := List.mem_append_right _ (by decide)
    exact (CaseStyle.snake_ne_of_isUpper n hmem rfl).symm
  by_cases hany : ls.any Library.requiresWasi = true
  · simp [bindingsOwn, wasiNames, Glue.JavaScript.exportsClass, hany, hload, hwasi, himports]
  · simp [bindingsOwn, Glue.JavaScript.exportsClass, hany, hload, himports]

end Npm

/-- The names of libraries that make usable names of loading functions. -/
structure LibrariesFit (js py : NameRules) (ls : List Library) : Prop where
  load : ∀ l ∈ ls, js.Loads l.interfaceName ∧ py.Loads l.interfaceName
  distinct : (ls.map fun l => CaseStyle.snake l.interfaceName).Nodup
  /-- no loading function is named like a class, which takes a class without capitals -/
  classes : ∀ l ∈ ls, ∀ l' ∈ ls, CaseStyle.snake l.interfaceName ≠ CaseStyle.pascal l'.interfaceName
  /-- no loading function is named like the one that starts the WASI host -/
  host : ls.any Library.requiresWasi = true → ∀ l ∈ ls, CaseStyle.snake l.interfaceName ≠ utf8 "init"

theorem NameRules.IsHost.usable_loaders {lang : NameRules} (h : lang.IsHost) (own : List Bytes) (ls : List Library) :
    lang.Usable own (ls.map fun l => CaseStyle.snake l.interfaceName) ↔ (∀ l ∈ ls, lang.Loads l.interfaceName) ∧
      (ls.map fun l => CaseStyle.snake l.interfaceName).Nodup ∧ ∀ l ∈ ls, CaseStyle.snake l.interfaceName ∉ own := by
  simp only [usable_map, h.loads_iff]

theorem librariesFit_iff {js py : NameRules} (hjs : js.IsHost) (hpy : py.IsHost) (ls : List Library) :
    LibrariesFit js py ls ↔
      js.Usable (Npm.bindingsOwn ls) (ls.map fun l => Npm.loader l.interfaceName) ∧
      py.Usable [] (ls.map fun l => Pip.loader l.interfaceName) := by
  change _ ↔ js.Usable _ (ls.map fun l => CaseStyle.snake _) ∧ py.Usable [] (ls.map fun l => CaseStyle.snake _)
  rw [hjs.usable_loaders, hpy.usable_loaders]
  constructor
  · intro h
    refine ⟨⟨fun l hl => (h.load l hl).1, h.distinct, fun l hl hmem => ?_⟩, fun l hl => (h.load l hl).2, h.distinct, by simp⟩
    rcases (Npm.loader_mem_bindingsOwn _ _).1 hmem with ⟨l', hl', hsame⟩ | ⟨hany, hsame⟩
    · exact h.classes l hl l' hl' hsame
    · exact h.host hany l hl hsame
  · rintro ⟨⟨hload, hdistinct, hapart⟩, hpyLoad, -⟩
    exact
      { load := fun l hl => ⟨hload l hl, hpyLoad l hl⟩
        distinct := hdistinct
        classes := fun l hl l' hl' hsame => hapart l hl ((Npm.loader_mem_bindingsOwn _ _).2 (.inl ⟨l', hl', hsame⟩))
        host := fun hany l hl hsame => hapart l hl ((Npm.loader_mem_bindingsOwn _ _).2 (.inr ⟨hany, hsame⟩)) }

/-! ## Names of commands -/

theorem runner_eq (n : Bytes) : Npm.runner n = n.map underscored := replaceAll_hyphen n

theorem runner_mem_commandOwn (n : Bytes) : n.map underscored ∈ Npm.commandOwn ↔ n ∈ Npm.commandOwn :=
  underscored_mem_iff (by decide) n

theorem runner_eq_commandsName (n : Bytes) : n.map underscored ∈ [Npm.commandsName] ↔ n ∈ [Npm.commandsName] :=
  underscored_mem_iff (by decide) n

theorem runner_eq_runName (n : Bytes) : n.map underscored ∈ [Pip.runName] ↔ n ∈ [Pip.runName, utf8 "-run"] := by
  have hfirst (b : UInt8) : underscored b = 95 ↔ b = 95 ∨ b = 45 := by
    unfold underscored
    split <;> simp_all
  have hrest (s : Bytes) : s.map underscored = utf8 "run" ↔ s = utf8 "run" := map_underscored_eq_iff (by decide)
  change n.map underscored ∈ [95 :: utf8 "run"] ↔ n ∈ [95 :: utf8 "run", 45 :: utf8 "run"]
  cases n with
  | nil => simp
  | cons b s => simp [hfirst, hrest, or_and_right]

/-- The names of commands that make usable names of functions. -/
structure CommandsFit (js py : NameRules) (cs : List Command) : Prop where
  run : ∀ c ∈ cs, js.Runs c.name ∧ py.Runs c.name
  distinct : (cs.map fun c => c.name.map underscored).Nodup
  /-- no function is named like something else in a file that declares it -/
  own : ∀ c ∈ cs, c.name ∉ Npm.commandOwn ∧ c.name ∉ [Npm.commandsName] ∧ c.name ∉ [Pip.runName, utf8 "-run"]

theorem NameRules.IsHost.usable_runners {lang : NameRules} (h : lang.IsHost) {own taken : List Bytes}
    (hown : ∀ n : Bytes, n.map underscored ∈ own ↔ n ∈ taken) (cs : List Command) :
    lang.Usable own (cs.map fun c => c.name.map underscored) ↔ (∀ c ∈ cs, lang.Runs c.name) ∧
      (cs.map fun c => c.name.map underscored).Nodup ∧ ∀ c ∈ cs, c.name ∉ taken := by
  simp only [usable_map, h.runs_iff, hown]

theorem commandsFit_iff {js py : NameRules} (hjs : js.IsHost) (hpy : py.IsHost) (cs : List Command) :
    CommandsFit js py cs ↔
      (∀ c ∈ cs, js.Usable Npm.commandOwn [Npm.runner c.name]) ∧
      js.Usable [Npm.commandsName] (cs.map fun c => Npm.runner c.name) ∧
      py.Usable [Pip.runName] (cs.map fun c => Pip.runner c.name) := by
  -- both languages run commands under the same names
  change _ ↔ _ ∧ _ ∧ py.Usable _ (cs.map fun c => Npm.runner c.name)
  simp only [runner_eq]
  have hsource (c : Command) : js.Usable Npm.commandOwn [c.name.map underscored] ↔
      js.Runs c.name ∧ c.name ∉ Npm.commandOwn := by
    simpa using hjs.usable_runners runner_mem_commandOwn [c]
  simp only [hsource, hjs.usable_runners runner_eq_commandsName, hpy.usable_runners runner_eq_runName]
  constructor
  · intro h
    exact ⟨fun c hc => ⟨(h.run c hc).1, (h.own c hc).1⟩,
      ⟨fun c hc => (h.run c hc).1, h.distinct, fun c hc => (h.own c hc).2.1⟩,
      fun c hc => (h.run c hc).2, h.distinct, fun c hc => (h.own c hc).2.2⟩
  · rintro ⟨hsources, ⟨hrun, hdistinct, hcommands⟩, hpyRun, -, hpyOwn⟩
    exact
      { run := fun c hc => ⟨hrun c hc, hpyRun c hc⟩
        distinct := hdistinct
        own := fun c hc => ⟨(hsources c hc).2, hcommands c hc, hpyOwn c hc⟩ }

/-! ## All files -/

/-- What the files declare: names of their own, and the names of functions. -/
structure DeclaresFunctions (o : Npm.Options) (p : Package) : Prop where
  bindings : (Npm.bindingsFiles p.libraries).Declares (utf8 "index.js") jsForms
    (Npm.bindingsOwn p.libraries ++ p.libraries.map fun l => Npm.loader l.interfaceName)
  sources : ∀ c ∈ p.commands, DeclaredIn jsForms (Npm.commandSource c) (Npm.commandOwn ++ [Npm.runner c.name])
  index : (Npm.sourceFiles o p).Declares (utf8 "index.js") jsForms
    ((p.commands.map fun c => Npm.runner c.name) ++ [Npm.commandsName])
  loaders : (Pip.bindingsFiles p.libraries).Declares (utf8 "__init__.py") pyForms
    (p.libraries.map fun l => Pip.loader l.interfaceName)
  runners : (Pip.commandsFiles p.commands).Declares (utf8 "__init__.py") pyForms
    ([Pip.runName] ++ p.commands.map fun c => Pip.runner c.name)

theorem declaresFunctions (o : Npm.Options) (p : Package) : DeclaresFunctions o p where
  bindings := Npm.bindingsFiles_declares p.libraries
  sources c _ := Npm.declares_commandSource c
  index := Npm.sourceFiles_declares o p
  loaders := Pip.bindingsFiles_declares p.libraries
  runners := Pip.commandsFiles_declares p.commands

/-- The names of functions are usable in every file that declares them. -/
structure FunctionsUsable (js py : NameRules) (p : Package) : Prop where
  bindings : js.Usable (Npm.bindingsOwn p.libraries) (p.libraries.map fun l => Npm.loader l.interfaceName)
  sources : ∀ c ∈ p.commands, js.Usable Npm.commandOwn [Npm.runner c.name]
  index : js.Usable [Npm.commandsName] (p.commands.map fun c => Npm.runner c.name)
  loaders : py.Usable [] (p.libraries.map fun l => Pip.loader l.interfaceName)
  runners : py.Usable [Pip.runName] (p.commands.map fun c => Pip.runner c.name)

/-- The files declare names of their own and those of the functions, and the latter are identifiers
that are not reserved, each declared once, exactly when the names of libraries and commands fit. -/
theorem declared_names_usable_iff (jsStart jsPart pyStart pyPart : Bytes → Bool) (o : Npm.Options) (p : Package) :
    DeclaresFunctions o p ∧ (FunctionsUsable (javaScript jsStart jsPart) (python pyStart pyPart) p ↔
      LibrariesFit (javaScript jsStart jsPart) (python pyStart pyPart) p.libraries ∧
      CommandsFit (javaScript jsStart jsPart) (python pyStart pyPart) p.commands) := by
  have hjs := NameRules.isHost_javaScript jsStart jsPart
  have hpy := NameRules.isHost_python pyStart pyPart
  refine ⟨declaresFunctions o p, ?_⟩
  rw [librariesFit_iff hjs hpy, commandsFit_iff hjs hpy]
  constructor
  · intro h
    exact ⟨⟨h.bindings, h.loaders⟩, h.sources, h.index, h.runners⟩
  · rintro ⟨⟨hbindings, hloaders⟩, hsources, hindex, hrunners⟩
    exact ⟨hbindings, hsources, hindex, hloaders, hrunners⟩

/-- A package of commands with the given names. -/
def commandsNamed (names : List String) : Package :=
  { metadata := { name := { name := utf8 "demo" }, version := utf8 "1.0.0" }
    libraries := []
    commands := names.map fun n => { name := utf8 n } }

/-- A package is made of commands whose functions have a reserved word for a name, no identifier, one
name for two of them, or the name of what the file takes from the WASI host. -/
theorem accepted_names_not_usable :
    let js := javaScript (fun _ => true) fun _ => true
    let py := python (fun _ => true) fun _ => true
    let accepted (p : Package) := Package.new p.metadata p.libraries p.commands = .ok p
    let functions (p : Package) := p.commands.map fun c => Npm.runner c.name
    (accepted (commandsNamed ["class"]) ∧ ¬js.Usable Npm.commandOwn (functions (commandsNamed ["class"])) ∧
      ¬py.Usable [Pip.runName] (functions (commandsNamed ["class"]))) ∧
    (accepted (commandsNamed ["2fast"]) ∧ ¬js.Usable Npm.commandOwn (functions (commandsNamed ["2fast"])) ∧
      ¬py.Usable [Pip.runName] (functions (commandsNamed ["2fast"]))) ∧
    (accepted (commandsNamed ["run-all", "run_all"]) ∧
      ¬js.Usable [Npm.commandsName] (functions (commandsNamed ["run-all", "run_all"])) ∧
      ¬py.Usable [Pip.runName] (functions (commandsNamed ["run-all", "run_all"]))) ∧
    (accepted (commandsNamed ["init"]) ∧ ¬js.Usable Npm.commandOwn (functions (commandsNamed ["init"]))) := by
  refine ⟨⟨rfl, fun h => ?_, fun h => ?_⟩, ⟨rfl, fun h => ?_, fun h => ?_⟩, ⟨rfl, fun h => ?_, fun h => ?_⟩, rfl, fun h => ?_⟩
  · exact h.free (utf8 "class") (by decide) (by decide +kernel)
  · exact h.free (utf8 "class") (by decide) (by decide +kernel)
  · exact absurd (h.valid (utf8 "2fast") (by decide)) (by decide +kernel)
  · exact absurd (h.valid (utf8 "2fast") (by decide)) (by decide +kernel)
  · exact absurd h.distinct (by decide +kernel)
  · exact absurd h.distinct (by decide +kernel)
  · exact h.apart (utf8 "init") (by decide) (by decide +kernel)

end Bindery
