/-
What the files of a package declare. A loading function is named after its library in snake case,
and the function of a command after the command, with underscores for hyphens. Every file is taken
as the lines it is made of: a line that starts like a declaration is one, and declares the names
between its fixed parts (`Declares`).
-/
import Bindery.Distribution.Npm
import Bindery.Distribution.Pip
import Bindery.Proofs.Bytes.Octets
import Bindery.Proofs.FileTree

namespace Bindery

open Glue (Line unlines fixed)

/-- A form of declaration: what stands in front of the names at the start of a line, and right behind
them. -/
abbrev Form := Bytes × Bytes

/-- No declaration of the given forms. -/
def isOther (forms : List Form) (l : Line) : Bool := forms.all fun f => !f.1.isPrefixOf l

/-- The lines declare the names, in order: a line that starts like a declaration is one. -/
inductive Declares (forms : List Form) : List Line → List Bytes → Prop
  | nil : Declares forms [] []
  | other {l : Line} {ls : List Line} {ns : List Bytes} (h : isOther forms l = true) :
      Declares forms ls ns → Declares forms (l :: ls) ns
  | names {lead behind : Bytes} {ls : List Line} {ms : List Bytes} (h : (lead, behind) ∈ forms) (ns : List Bytes)
      (rest : Bytes) : Declares forms ls ms →
      Declares forms ((lead ++ Bytes.join (utf8 ", ") ns ++ (behind ++ rest)) :: ls) (ns ++ ms)

namespace Declares

variable {forms : List Form} {ls ls' : List Line} {ns ns' : List Bytes}

/-- A line declares the names that it starts with, behind the fixed text in front of them. -/
theorem names_first {l lead behind : Bytes} (h : (lead, behind) ∈ forms) (ns : List Bytes)
    (hl : lead ++ Bytes.join (utf8 ", ") ns ++ behind <+: l) (hrest : Declares forms ls ns') :
    Declares forms (l :: ls) (ns ++ ns') := by
  obtain ⟨rest, rfl⟩ := hl
  rw [List.append_assoc _ behind]
  exact names h ns rest hrest

theorem name {l n lead behind : Bytes} (h : (lead, behind) ∈ forms) (hl : lead ++ n ++ behind <+: l)
    (hrest : Declares forms ls ns) : Declares forms (l :: ls) (n :: ns) :=
  names_first h [n] (by simpa [Bytes.join] using hl) hrest

theorem append (h : Declares forms ls ns) (h' : Declares forms ls' ns') : Declares forms (ls ++ ls') (ns ++ ns') := by
  induction h with
  | nil => exact h'
  | other hl _ ih => exact .other hl ih
  | names hform ns rest _ ih =>
    rw [List.append_assoc ns]
    exact .names hform ns rest ih

theorem others (h : ∀ l ∈ ls, isOther forms l = true) : Declares forms ls [] := by
  induction ls with
  | nil => exact .nil
  | cons l ls ih => exact .other (h l (by simp)) (ih fun l' hl' => h l' (by simp [hl']))

/-- Fixed lines are looked at in the octets that they are stored in. -/
theorem others_fixed {ss : List String} (h : ∀ s ∈ ss, isOther forms s.toByteArray.data.toList = true) :
    Declares forms (fixed ss) [] := by
  refine others (List.forall_mem_map.2 fun s hs => ?_)
  rw [utf8_eq_toByteArray]
  exact h s hs

theorem flatMap {α : Type} {as : List α} {f : α → List Line} {g : α → List Bytes} (h : ∀ a ∈ as, Declares forms (f a) (g a)) :
    Declares forms (as.flatMap f) (as.flatMap g) := by
  induction as with
  | nil => exact .nil
  | cons a as ih => exact (h a (by simp)).append (ih fun a' ha' => h a' (by simp [ha']))

/-- One name for each item. -/
theorem flatMap_name {α : Type} {as : List α} {f : α → List Line} {g : α → Bytes} (h : ∀ a ∈ as, Declares forms (f a) [g a]) :
    Declares forms (as.flatMap f) (as.map g) := by
  rw [← List.flatMap_pure_eq_map]
  exact flatMap h

/-- One line with a name for each item. -/
theorem map_name {α : Type} {as : List α} {f : α → Line} {g : α → Bytes} (h : ∀ a ∈ as, Declares forms [f a] [g a]) :
    Declares forms (as.map f) (as.map g) := by
  rw [← List.flatMap_pure_eq_map f]
  exact flatMap_name h

end Declares

/-- The text is made of lines that declare the names. -/
def DeclaredIn (forms : List Form) (text : Bytes) (ns : List Bytes) : Prop :=
  ∃ ls, text = unlines ls ∧ Declares forms ls ns

/-! ## JavaScript -/

/-- Functions, names taken from another module, and constants. -/
def jsForms : List Form :=
  [(utf8 "async function ", utf8 "("), (utf8 "export async function ", utf8 "("),
   (utf8 "import \x7b ", utf8 " \x7d from "), (utf8 "export const ", utf8 " = ")]

namespace Npm

theorem function_mem : (utf8 "async function ", utf8 "(") ∈ jsForms := by simp [jsForms]

theorem export_mem : (utf8 "export async function ", utf8 "(") ∈ jsForms := by simp [jsForms]

theorem import_mem : (utf8 "import \x7b ", utf8 " \x7d from ") ∈ jsForms := by simp [jsForms]

theorem constant_mem : (utf8 "export const ", utf8 " = ") ∈ jsForms := by simp [jsForms]

/-- What a file takes from the WASI host. -/
def wasiNames : List Bytes := [utf8 "init", utf8 "WASI"]

/-- The function that opens a module. -/
def loadModule : Bytes := utf8 "loadModule"

/-- The table of all commands. -/
def commandsName : Bytes := utf8 "commands"

/-- What `bindings/index.js` declares beside the loading functions. -/
def bindingsOwn (ls : List Library) : List Bytes :=
  (ls.flatMap fun l =>
    Glue.JavaScript.exportsClass l.interfaceName :: l.imports.map fun i => Glue.JavaScript.importsFunction i.name)
    ++ (if ls.any Library.requiresWasi then wasiNames else []) ++ [loadModule]

/-- What the source of a command declares beside the function of the command. -/
def commandOwn : List Bytes := wasiNames ++ [loadModule]

theorem declares_importLine (name file : Bytes) : Declares jsForms [importLine name file] [name] := by
  have hname : utf8 "import \x7b " ++ name ++ utf8 " \x7d from " <+: utf8 "import \x7b " ++ name ++ utf8 " \x7d from \"./" :=
    (List.prefix_append_right_inj _).2 (by decide)
  exact .name import_mem ((hname.trans (List.prefix_append _ _)).trans (List.prefix_append _ _)) .nil

theorem declares_wasiLine : Declares jsForms (fixed ["import \x7b init, WASI \x7d from \"@wasmer/wasi\";"]) wasiNames :=
  .names_first import_mem wasiNames (by decide) .nil

theorem declares_compileLines : Declares jsForms compileLines [] := .others_fixed (by decide)

theorem declares_loadLines (l : Library) : Declares jsForms (loadLines l) [loader l.interfaceName] := by
  have hwasi (ls : List String) (h : Declares jsForms (fixed ls) []) :
      Declares jsForms (if l.requiresWasi then fixed ls else []) [] := by
    split
    · exact h
    · exact .nil
  have hplain : Declares jsForms (if l.requiresWasi then [] else fixed ["  const imports = \x7b\x7d;"]) [] := by
    split
    · exact .nil
    · exact .others_fixed (by decide)
  have hcomment : Declares jsForms (loadComment l) [] := .other rfl (.other rfl (.other rfl .nil))
  have hhead : Declares jsForms
      [utf8 "export async function " ++ loader l.interfaceName ++ utf8 "("
          ++ importParams l (fun i => loader i.name) ++ utf8 "options = \x7b\x7d) \x7b",
        utf8 "  const wrapper = new " ++ Glue.JavaScript.exportsClass l.interfaceName ++ utf8 "();",
        utf8 "  const module = await loadModule("
          ++ Bytes.quote (utf8 "./" ++ l.interfaceName ++ utf8 "/" ++ l.filename) ++ utf8 ");"]
      [loader l.interfaceName] := by
    exact .name export_mem ((List.prefix_append _ _).trans (List.prefix_append _ _)) (.other rfl (.other rfl .nil))
  have himports : Declares jsForms (l.imports.map fun i =>
      utf8 "  " ++ Glue.JavaScript.importsFunction i.name ++ utf8 "(imports, " ++ loader i.name
        ++ utf8 ", name => wrapper.instance.exports[name]);") [] := by
    refine .others fun line hline => ?_
    obtain ⟨i, -, rfl⟩ := List.mem_map.1 hline
    rfl
  have hend : Declares jsForms (fixed ["  return wrapper;", "\x7d"]) [] := .others_fixed (by decide)
  have hrun : Declares jsForms (fixed ["  await wrapper.instantiate(module, imports);"]) [] :=
    .others_fixed (by decide)
  refine (((((((hcomment.append hhead).append (hwasi _ ?_)).append hplain).append himports).append hrun).append
    (hwasi _ ?_)).append hend)
  all_goals exact .others_fixed (by decide)

theorem declares_bindingsIndex (ls : List Library) :
    DeclaredIn jsForms (bindingsIndex ls) (bindingsOwn ls ++ ls.map fun l => loader l.interfaceName) := by
  refine ⟨_, rfl, ?_⟩
  have himports : Declares jsForms
      (ls.flatMap fun l =>
        importLine (Glue.JavaScript.exportsClass l.interfaceName) (glueFile l l.interfaceName)
          :: l.imports.map fun i => importLine (Glue.JavaScript.importsFunction i.name) (glueFile l i.name))
      (ls.flatMap fun l =>
        Glue.JavaScript.exportsClass l.interfaceName :: l.imports.map fun i => Glue.JavaScript.importsFunction i.name) :=
    .flatMap fun l _ => (declares_importLine _ _).append (.map_name fun i _ => declares_importLine _ _)
  have hwasi : Declares jsForms
      (if ls.any Library.requiresWasi then fixed ["import \x7b init, WASI \x7d from \"@wasmer/wasi\";"] else [])
      (if ls.any Library.requiresWasi then wasiNames else []) := by
    split
    · exact declares_wasiLine
    · exact .nil
  have hload : Declares jsForms (fixed ["", "async function loadModule(filename) \x7b",
      "  const url = new URL(filename, import.meta.url);"]) [loadModule] :=
    .other rfl (.name function_mem (by decide) (.other rfl .nil))
  have hloaders : Declares jsForms (ls.flatMap fun l => fixed [""] ++ loadLines l)
      (ls.map fun l => loader l.interfaceName) :=
    .flatMap_name fun l _ => .other rfl (declares_loadLines l)
  have hstart : Declares jsForms (fixed [""]) [] := .other rfl .nil
  have hall := ((((hstart.append himports).append hwasi).append hload).append declares_compileLines).append hloaders
  rwa [List.nil_append, List.append_nil] at hall

theorem declares_commandSource (c : Command) : DeclaredIn jsForms (commandSource c) (commandOwn ++ [runner c.name]) := by
  refine ⟨_, rfl, ?_⟩
  have hload : Declares jsForms (fixed ["", "async function loadModule() \x7b"]) [loadModule] :=
    .other rfl (.name function_mem (by decide) .nil)
  have hurl : Declares jsForms
      [utf8 "  const url = new URL(" ++ (commandModule c.name).quote ++ utf8 ", import.meta.url);"] [] := .other rfl .nil
  have hgap : Declares jsForms (fixed [""]) [] := .other rfl .nil
  have hcomment : Declares jsForms (runComment c) [] := .other rfl (.other rfl (.other rfl .nil))
  have hrun : Declares jsForms [utf8 "export async function " ++ runner c.name ++ utf8 "(options = \x7b\x7d) \x7b"]
      [runner c.name] := .name export_mem ((List.prefix_append_right_inj _).2 (by decide)) .nil
  have hbody : Declares jsForms (fixed
      ["  await init();",
       "  const module = await loadModule();",
       "  const wasi = new WASI(options.wasi || \x7b\x7d);",
       "  const instance = await wasi.instantiate(module, \x7b\x7d);",
       "  const code = wasi.start(instance);",
       "  return \x7b code, wasi \x7d;",
       "\x7d"]) [] := .others_fixed (by decide)
  have hhead := declares_wasiLine.append hload
  exact (((((hhead.append hurl).append declares_compileLines).append hgap).append hcomment).append hrun).append hbody

theorem declares_topLevelIndex (o : Options) (p : Package) :
    DeclaredIn jsForms (topLevelIndex o p) ((p.commands.map fun c => runner c.name) ++ [commandsName]) := by
  refine ⟨_, rfl, ?_⟩
  have htool : Declares jsForms [utf8 "// Generated by " ++ o.generatorText ++ utf8 "."] [] := .other rfl .nil
  have hbindings : Declares jsForms
      (if p.libraries.isEmpty then [] else fixed ["export * as bindings from \"./bindings/index.js\";"]) [] := by
    split
    · exact .nil
    · exact .other rfl .nil
  have himports : Declares jsForms
      (p.commands.map fun c => importLine (runner c.name) (utf8 "commands/" ++ c.name ++ utf8 ".js"))
      (p.commands.map fun c => runner c.name) := .map_name fun c _ => declares_importLine _ _
  have hgap : Declares jsForms (fixed [""]) [] := .other rfl .nil
  have hcommands : Declares jsForms (fixed ["export const commands = \x7b"]) [commandsName] :=
    .name constant_mem (by decide) .nil
  have hmembers : Declares jsForms (p.commands.map fun c => utf8 "  " ++ runner c.name ++ utf8 ",") [] := by
    refine .others fun line hline => ?_
    obtain ⟨c, -, rfl⟩ := List.mem_map.1 hline
    rfl
  have hend : Declares jsForms (fixed ["\x7d;"]) [] := .other rfl .nil
  have hhead := ((htool.append hbindings).append himports).append hgap
  simpa [topLevelHead] using ((hhead.append hcommands).append hmembers).append hend

end Npm

/-! ## Python -/

/-- Functions. -/
def pyForms : List Form := [(utf8 "def ", utf8 "(")]

namespace Pip

theorem function_mem : (utf8 "def ", utf8 "(") ∈ pyForms := by simp [pyForms]

/-- The function that all commands share. -/
def runName : Bytes := utf8 "_run"

theorem declares_loadLines (l : Library) : Declares pyForms (loadLines l) [loader l.interfaceName] := by
  refine .name function_mem ?_ (.other rfl (.other rfl (.other rfl (.other rfl .nil))))
  simp only [List.append_assoc, List.prefix_append_right_inj, List.prefix_append]

theorem declares_bindingsInit (ls : List Library) :
    DeclaredIn pyForms (bindingsInit ls) (ls.map fun l => loader l.interfaceName) := by
  refine ⟨_, rfl, ?_⟩
  have hhead : Declares pyForms [fence, utf8 "WebAssembly libraries bundled with this package.", fence, []] [] :=
    .other rfl (.other rfl (.other rfl (.other rfl .nil)))
  have himports : Declares pyForms (ls.map fun l =>
      utf8 "from . import " ++ loader l.interfaceName ++ utf8 " as _" ++ loader l.interfaceName) [] := by
    refine .others fun line hline => ?_
    obtain ⟨l, -, rfl⟩ := List.mem_map.1 hline
    rfl
  have hgap : Declares pyForms [[]] [] := .other rfl .nil
  have hloaders : Declares pyForms (ls.flatMap fun l => [] :: loadLines l) (ls.map fun l => loader l.interfaceName) :=
    .flatMap_name fun l _ => .other rfl (declares_loadLines l)
  exact ((hhead.append himports).append hgap).append hloaders

theorem declares_commandsHead : Declares pyForms commandsHead [runName] := by
  -- the function stands behind twenty lines
  have hline : commandsHead[20]?.any (utf8 "def " ++ runName ++ utf8 "(").isPrefixOf = true := by
    rw [runName, commandsHead, fixed, utf8_eq_toByteArray]
    decide +kernel
  have hbefore : Declares pyForms (commandsHead.take 20) [] := by
    refine .others ?_
    rw [commandsHead, fixed, utf8_eq_toByteArray]
    decide +kernel
  have hafter : Declares pyForms (commandsHead.drop 21) [] := by
    refine .others ?_
    rw [commandsHead, fixed, utf8_eq_toByteArray]
    decide +kernel
  obtain ⟨line, hline, hname⟩ := (Option.any_eq_true _ _).1 hline
  obtain ⟨hlength, hget⟩ := List.getElem?_eq_some_iff.1 hline
  rw [← List.take_append_drop 20 commandsHead, List.drop_eq_getElem_cons hlength, hget]
  exact hbefore.append (.name function_mem (List.isPrefixOf_iff_prefix.1 hname) hafter)

theorem declares_commandsInit (cs : List Command) :
    DeclaredIn pyForms (unlines (commandsHead ++ [[]] ++ cs.flatMap fun c => [] :: commandLines c))
      ([runName] ++ cs.map fun c => runner c.name) := by
  refine ⟨_, rfl, ?_⟩
  have hgap : Declares pyForms [[]] [] := .other rfl .nil
  have hrunners : Declares pyForms (cs.flatMap fun c => [] :: commandLines c) (cs.map fun c => runner c.name) := by
    refine .flatMap_name fun c _ => .other rfl ?_
    exact .name function_mem ((List.prefix_append_right_inj _).2 (by decide))
      (.other rfl (.other rfl (.other rfl (.other rfl .nil))))
  have hhead := declares_commandsHead.append hgap
  rw [List.append_nil] at hhead
  exact hhead.append hrunners

end Pip

/-! ## The files -/

/-- A file of the tree declares the names. -/
def FileTree.Declares (t : FileTree) (file : Bytes) (forms : List Form) (ns : List Bytes) : Prop :=
  ∃ text, t.get? file = some text ∧ DeclaredIn forms text ns

namespace Npm

theorem bindingsFiles_declares (ls : List Library) : (bindingsFiles ls).Declares (utf8 "index.js") jsForms
    (bindingsOwn ls ++ ls.map fun l => loader l.interfaceName) := by
  refine ⟨_, ?_, declares_bindingsIndex ls⟩
  rw [bindingsFiles, FileTree.get?_insert_other (by decide), FileTree.get?_insert_self]

theorem sourceFiles_declares (o : Options) (p : Package) : (sourceFiles o p).Declares (utf8 "index.js") jsForms
    ((p.commands.map fun c => runner c.name) ++ [commandsName]) := by
  refine ⟨_, ?_, declares_topLevelIndex o p⟩
  rw [sourceFiles, FileTree.get?_insert_other (by decide), FileTree.get?_insert_self]

end Npm

namespace Pip

theorem bindingsFiles_declares (ls : List Library) : (bindingsFiles ls).Declares (utf8 "__init__.py") pyForms
    (ls.map fun l => loader l.interfaceName) := by
  refine ⟨_, ?_, declares_bindingsInit ls⟩
  rw [bindingsFiles, FileTree.get?_insert_self]

theorem commandsFiles_declares (cs : List Command) : (commandsFiles cs).Declares (utf8 "__init__.py") pyForms
    ([runName] ++ cs.map fun c => runner c.name) := by
  refine ⟨_, ?_, declares_commandsInit cs⟩
  rw [commandsFiles, FileTree.get?_insert_self]

end Pip

end Bindery
