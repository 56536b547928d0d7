/-
Where the files of a distribution lie. Names of commands and interfaces come from outside
and are put into paths as they are. A generated tree is filled under those names
(`Npm.filled_generate`, `Pip.filled_generate`), and each of them stays in the directory of
the package exactly as long as it climbs no further than the directories it is put under
(`SlashPath.within_under_iff`).
-/
import Bindery.Distribution.Npm
import Bindery.Distribution.Pip
import Bindery.Proofs.CaseStyle
import Bindery.Proofs.FileTree

namespace Bindery

open SlashPath (under up climb names IsName IsEnding EndsIn StaysIn Within slash dot)
open FileTree (Filled normalize)

/-! ## Names of files -/

theorem base_noSlash (p : Bytes) : slash ∉ SlashPath.base p ∨ SlashPath.base p = [slash] := by
  rw [SlashPath.base]
  split
  · exact .inl (by decide)
  · dsimp only
    split
    · exact .inr rfl
    · refine .inl fun h => ?_
      have hne := List.mem_takeWhile_imp (List.mem_reverse.1 h)
      simp at hne

theorem mem_of_mem_dropEnd {s tail : Bytes} {b : UInt8} (h : b ∈ s.dropEnd tail) : b ∈ s := by
  rw [Bytes.dropEnd] at h
  split at h
  · exact List.mem_of_mem_take h
  · exact h

theorem isEnding_wasm : IsEnding (utf8 ".wasm") := by decide

theorem filename_endsIn (l : Library) : ∃ n, EndsIn l.filename n := ⟨_, isEnding_wasm.endsIn _⟩

/-- The file of a module lies where it is put, whatever the module is called. -/
theorem climb_filename (l : Library) : climb l.filename = 0 := by
  rcases base_noSlash l.module.name with hbase | hbase
  · refine SlashPath.climb_name (isEnding_wasm.isName fun h => hbase ?_)
    exact mem_of_mem_dropEnd h
  · rw [Library.filename, hbase]
    decide

theorem mem_of_mem_replaceFrom {old new : Bytes} {b : UInt8} {skip : Nat} {s : Bytes} :
    b ∈ Bytes.replaceFrom old new skip s → b ∈ s ∨ b ∈ new := by
  fun_induction Bytes.replaceFrom old new skip s <;> grind

/-- No name of a command or of an interface has a slash in it. -/
structure Package.PlainNames (p : Package) : Prop where
  commands : ∀ c ∈ p.commands, slash ∉ c.name
  interfaces : ∀ l ∈ p.libraries, ∀ i ∈ l.interface :: l.imports, slash ∉ i.name

theorem interface_name (l : Library) : l.interface.name = l.interfaceName := by
  rw [Library.interface, Library.interfaceName]
  cases l.exports <;> rfl

theorem forall_mem_unless {α : Type} {xs : List α} {ns : List Bytes} {P : Bytes → Prop} :
    (∀ n ∈ (if xs.isEmpty then [] else ns), P n) ↔ (xs ≠ [] → ∀ n ∈ ns, P n) := by
  cases xs <;> simp

/-! ## The npm package -/

namespace Npm

/-- The files of a command, as they are named. -/
def commandNames (c : Command) : List Bytes :=
  [commandModule c.name, c.name ++ utf8 ".d.ts", c.name ++ utf8 ".js"]

/-- The files of a library in its directory, as they are named. -/
def libraryNames (l : Library) : List Bytes :=
  l.filename :: Glue.JavaScript.helpersFile
    :: (l.interface :: l.imports).flatMap fun i => [i.name ++ utf8 ".d.ts", i.name ++ utf8 ".js"]

/-- The files of a library in the directory it is named after. -/
def libraryPaths (l : Library) : List Bytes := (libraryNames l).map (under [l.interfaceName])

/-- The names of the files below `src/bindings`. -/
def bindingsNames (ls : List Library) : List Bytes :=
  utf8 "index.d.ts" :: utf8 "index.js" :: ls.flatMap libraryPaths

/-- The names of the files below `src`. -/
def sourceNames (p : Package) : List Bytes :=
  let commands := if p.commands.isEmpty then [] else (p.commands.flatMap commandNames).map (under [utf8 "commands"])
  let bindings := if p.libraries.isEmpty then [] else (bindingsNames p.libraries).map (under [utf8 "bindings"])
  utf8 "index.d.ts" :: utf8 "index.js" :: (commands ++ bindings)

/-- The names of all files. -/
def fileNames (p : Package) : List Bytes :=
  (utf8 "package.json" :: (sourceNames p).map (under [utf8 "src"])).map (under [utf8 "package"])

theorem filled_libraryFiles (l : Library) : (libraryFiles l).Filled (libraryNames l) := by
  have hadd : ∀ (t : FileTree) (ns : List Bytes) (i : Interface) (js types : Bytes), t.Filled ns →
      ((t.insert (i.name ++ utf8 ".js") js).insert (i.name ++ utf8 ".d.ts") types).Filled
        ([i.name ++ utf8 ".d.ts", i.name ++ utf8 ".js"] ++ ns) :=
    fun t ns i js types h => (h.insert _ js).insert _ types
  have hglue : (Glue.JavaScript.generate l.interface l.imports).Filled _ :=
    Filled.foldl _ (fun t ns i => hadd t ns i _ _) l.imports
      (hadd _ _ l.interface _ _ (FileTree.filled_empty.insert _ _))
  refine (hglue.insert l.filename l.module.wasm).congr fun n => ?_
  simp only [libraryNames, List.flatMap_cons, List.mem_cons, List.mem_append, List.not_mem_nil, or_false]
  simp only [or_assoc, or_comm, or_left_comm]

theorem filled_commandsFiles (cs : List Command) : (commandsFiles cs).Filled (cs.flatMap commandNames) := by
  have h := Filled.foldl commandNames (fun t ns c ht =>
    ((ht.insert (c.name ++ utf8 ".js") (commandSource c)).insert (c.name ++ utf8 ".d.ts") (commandTypes c)).insert
      (commandModule c.name) c.wasm) cs FileTree.filled_empty
  rwa [List.append_nil] at h

theorem filled_bindingsFiles (ls : List Library) :
    (bindingsFiles ls).Filled (bindingsNames ls) := by
  have h := Filled.foldl libraryPaths (fun t ns l ht =>
    ht.insertUnder (filled_libraryFiles l) l.interfaceName) ls FileTree.filled_empty
  rw [List.append_nil] at h
  exact (h.insert _ _).insert _ _

theorem filled_sourceFiles (o : Options) (p : Package) : (sourceFiles o p).Filled (sourceNames p) := by
  have hbindings := FileTree.filled_empty.insertUnderUnless (filled_bindingsFiles p.libraries) p.libraries.isEmpty
    (utf8 "bindings")
  have hcommands := hbindings.insertUnderUnless (filled_commandsFiles p.commands) p.commands.isEmpty (utf8 "commands")
  rw [List.append_nil] at hcommands
  exact (hcommands.insert _ _).insert _ _

theorem filled_generate (o : Options) (p : Package) : (generate o p).Filled (fileNames p) := by
  have hsrc := FileTree.filled_empty.insertUnder (filled_sourceFiles o p) (utf8 "src")
  have h := FileTree.filled_empty.insertUnder (hsrc.insert (utf8 "package.json") (manifest o p)) (utf8 "package")
  rwa [List.append_nil, List.append_nil] at h

/-- No name of a command or of an interface leads out of the package: the files of commands and
libraries, which are put two directories below it, climb at most those two or come back. -/
structure StaysInside (p : Package) : Prop where
  commands : ∀ c ∈ p.commands, ∀ f ∈ commandNames c, StaysIn (utf8 "package") 2 f
  libraries : ∀ l ∈ p.libraries, ∀ f ∈ libraryPaths l, StaysIn (utf8 "package") 2 f

theorem endsIn_commandNames {c : Command} {f : Bytes} (h : f ∈ commandNames c) : ∃ n, EndsIn f n := by
  simp only [commandNames, List.mem_cons, List.not_mem_nil, or_false] at h
  rcases h with rfl | rfl | rfl
  · exact ⟨_, isEnding_wasm.endsIn c.name⟩
  · exact ⟨_, IsEnding.endsIn (by decide) c.name⟩
  · exact ⟨_, IsEnding.endsIn (by decide) c.name⟩

theorem endsIn_libraryPaths {l : Library} {f : Bytes} (h : f ∈ libraryPaths l) : ∃ n, EndsIn f n := by
  obtain ⟨f, hf, rfl⟩ := List.mem_map.1 h
  have hname : ∃ n, EndsIn f n := by
    simp only [libraryNames, List.mem_cons, List.mem_flatMap, List.not_mem_nil, or_false] at hf
    rcases hf with rfl | rfl | ⟨i, -, rfl | rfl⟩
    · exact filename_endsIn l
    · exact ⟨_, IsEnding.endsIn (by decide) []⟩
    · exact ⟨_, IsEnding.endsIn (by decide) i.name⟩
    · exact ⟨_, IsEnding.endsIn (by decide) i.name⟩
  obtain ⟨n, hn⟩ := hname
  exact ⟨n, hn.under l.interfaceName⟩

theorem within_generate_iff (o : Options) (p : Package) :
    (∀ path ∈ (generate o p).paths, Within (utf8 "package") path) ↔ StaysInside p := by
  have hdirs : ∀ d, IsName d → ∀ x ∈ [utf8 "package", utf8 "src", d], IsName x := by
    intro d hd
    simp only [List.forall_mem_cons]
    exact ⟨by decide, by decide, hd, by simp⟩
  have hcommand : ∀ c ∈ p.commands, ∀ f ∈ commandNames c,
      (Within (utf8 "package") (normalize (under [utf8 "package", utf8 "src", utf8 "commands"] f)) ↔
        StaysIn (utf8 "package") 2 f) := fun c _ f hf =>
    let ⟨_, hn⟩ := endsIn_commandNames hf
    SlashPath.within_under_iff (hdirs _ (by decide)) hn.names_ne_nil
  have hlibrary : ∀ l ∈ p.libraries, ∀ f ∈ libraryPaths l,
      (Within (utf8 "package") (normalize (under [utf8 "package", utf8 "src", utf8 "bindings"] f)) ↔
        StaysIn (utf8 "package") 2 f) := fun l _ f hf =>
    let ⟨_, hn⟩ := endsIn_libraryPaths hf
    SlashPath.within_under_iff (hdirs _ (by decide)) hn.names_ne_nil
  rw [(filled_generate o p).forall_paths]
  simp only [fileNames, sourceNames, bindingsNames, List.forall_mem_map, List.forall_mem_cons, List.forall_mem_append,
    forall_mem_unless, List.forall_mem_flatMap]
  constructor
  · rintro ⟨-, -, -, hcommands, hlibraries⟩
    refine ⟨fun c hc f hf => ?_, fun l hl f hf => ?_⟩
    · exact (hcommand c hc f hf).1 (hcommands (List.ne_nil_of_mem hc) c hc f hf)
    · exact (hlibrary l hl f hf).1 ((hlibraries (List.ne_nil_of_mem hl)).2.2 l hl f hf)
  · rintro ⟨hcommands, hlibraries⟩
    refine ⟨by decide, by decide, by decide, fun _ c hc f hf => ?_, fun _ => ⟨by decide, by decide, fun l hl f hf => ?_⟩⟩
    · exact (hcommand c hc f hf).2 (hcommands c hc f hf)
    · exact (hlibrary l hl f hf).2 (hlibraries l hl f hf)

/-- Names without a slash lead nowhere else. -/
theorem staysInside_of_plain {p : Package} (h : p.PlainNames) : StaysInside p := by
  refine ⟨fun c hc f hf => .inl ?_, fun l hl f hf => .inl ?_⟩
  · have hname : IsName f := by
      simp only [commandNames, List.mem_cons, List.not_mem_nil, or_false] at hf
      rcases hf with rfl | rfl | rfl
      · exact isEnding_wasm.isName (h.commands c hc)
      · exact IsEnding.isName (by decide) (h.commands c hc)
      · exact IsEnding.isName (by decide) (h.commands c hc)
    rw [SlashPath.climb_name hname]
    exact Nat.zero_le 2
  · obtain ⟨n, hn, rfl⟩ := List.mem_map.1 hf
    have hfile : climb n = 0 := by
      simp only [libraryNames, List.mem_cons, List.mem_flatMap, List.not_mem_nil, or_false] at hn
      rcases hn with rfl | rfl | ⟨i, hi, rfl | rfl⟩
      · exact climb_filename l
      · decide
      · exact SlashPath.climb_name (IsEnding.isName (by decide) (h.interfaces l hl i (List.mem_cons.2 hi)))
      · exact SlashPath.climb_name (IsEnding.isName (by decide) (h.interfaces l hl i (List.mem_cons.2 hi)))
    have hdir : slash ∉ l.interfaceName := interface_name l ▸ h.interfaces l hl l.interface (by simp)
    have hclimb : climb (under [l.interfaceName] n) = climb l.interfaceName := SlashPath.climb_under_path _ hfile
    have hseg := SlashPath.climb_segment hdir
    omega

end Npm

/-! ## The Python distribution -/

namespace Pip

/-- The files of a library in the directory it is named after. -/
def libraryPaths (l : Library) : List Bytes :=
  [utf8 "__init__.py", l.filename, Glue.Python.bindingsFile].map (under [loader l.interfaceName])

/-- The names of the files of the import package. -/
def packageNames (p : Package) : List Bytes :=
  let commands := if p.commands.isEmpty then [] else
    (utf8 "__init__.py" :: p.commands.map fun c => commandModule c.name).map (under [utf8 "commands"])
  let bindings := if p.libraries.isEmpty then [] else
    (utf8 "__init__.py" :: p.libraries.flatMap libraryPaths).map (under [utf8 "bindings"])
  utf8 "py.typed" :: utf8 "__init__.py" :: (commands ++ bindings)

/-- The names of all files. -/
def fileNames (p : Package) : List Bytes :=
  utf8 "MANIFEST.in" :: utf8 "pyproject.toml" :: (packageNames p).map (under [p.metadata.name.python])

theorem filled_libraryFiles (l : Library) :
    (libraryFiles l).Filled [utf8 "__init__.py", l.filename, Glue.Python.bindingsFile] :=
  ((FileTree.filled_empty.insert _ _).insert _ _).insert _ _

theorem filled_bindingsFiles (ls : List Library) :
    (bindingsFiles ls).Filled (utf8 "__init__.py" :: ls.flatMap libraryPaths) := by
  have h := Filled.foldl libraryPaths (fun t ns l ht =>
    ht.insertUnder (filled_libraryFiles l) (loader l.interfaceName)) ls FileTree.filled_empty
  rw [List.append_nil] at h
  exact h.insert _ _

theorem filled_commandsFiles (cs : List Command) :
    (commandsFiles cs).Filled (utf8 "__init__.py" :: cs.map fun c => commandModule c.name) := by
  have h := Filled.foldl (fun c => [commandModule c.name]) (fun t ns c ht =>
    ht.insert (commandModule c.name) c.wasm) cs FileTree.filled_empty
  rw [List.append_nil, ← List.map_eq_flatMap] at h
  exact h.insert _ _

theorem filled_packageFiles (generator : Bytes) (p : Package) : (packageFiles generator p).Filled (packageNames p) := by
  have hbindings := FileTree.filled_empty.insertUnderUnless (filled_bindingsFiles p.libraries) p.libraries.isEmpty
    (utf8 "bindings")
  have hcommands := hbindings.insertUnderUnless (filled_commandsFiles p.commands) p.commands.isEmpty (utf8 "commands")
  rw [List.append_nil] at hcommands
  exact (hcommands.insert _ _).insert _ _

theorem filled_generate (generator : Bytes) (p : Package) : (generate generator p).Filled (fileNames p) := by
  have h := FileTree.filled_empty.insertUnder
    (filled_packageFiles (if generator.isEmpty then Release.generator else generator) p) p.metadata.name.python
  rw [List.append_nil] at h
  exact (h.insert _ _).insert _ _

/-- No name of a command leads out of the import package: the modules of commands, which are put
one directory below it, climb at most that one or come back. Libraries need no condition: their
directory is named in snake case, which leaves no dot. -/
def StaysInside (p : Package) : Prop :=
  ∀ c ∈ p.commands, StaysIn p.metadata.name.python 1 (commandModule c.name)

instance (p : Package) : Decidable (StaysInside p) :=
  inferInstanceAs (Decidable (∀ c ∈ p.commands, StaysIn p.metadata.name.python 1 (commandModule c.name)))

/-- A file of the distribution stands where the distribution says: beside the import package
are `pyproject.toml` and `MANIFEST.in` only. -/
def Belongs (p : Package) (path : Bytes) : Prop :=
  path = utf8 "pyproject.toml" ∨ path = utf8 "MANIFEST.in" ∨ Within p.metadata.name.python path

theorem endsIn_libraryPaths {l : Library} {f : Bytes} (h : f ∈ libraryPaths l) :
    climb f = 0 ∧ ∃ n, EndsIn f n := by
  obtain ⟨f, hf, rfl⟩ := List.mem_map.1 h
  have hname : climb f = 0 ∧ ∃ n, EndsIn f n := by
    simp only [List.mem_cons, List.not_mem_nil, or_false] at hf
    rcases hf with rfl | rfl | rfl
    · exact ⟨by decide, _, IsEnding.endsIn (by decide) []⟩
    · exact ⟨climb_filename l, filename_endsIn l⟩
    · exact ⟨by decide, _, IsEnding.endsIn (by decide) []⟩
  obtain ⟨hclimb, n, hn⟩ := hname
  refine ⟨?_, n, hn.under _⟩
  rw [under, under, SlashPath.climb_under_path _ hclimb]
  exact SlashPath.climb_of_dotless (CaseStyle.dot_not_mem_snake _)

/-- The module of a command is never one of the two files beside the import package. -/
theorem module_belongs_iff {p : Package} {f : Bytes} {n : Bytes} (h : EndsIn f (n ++ utf8 ".wasm")) :
    Belongs p (normalize f) ↔ Within p.metadata.name.python (normalize f) := by
  have hother : ∀ file, IsName file → ¬ utf8 ".wasm" <:+ file → normalize f ≠ file := by
    intro file hfile hsuffix heq
    obtain ⟨front, hlast⟩ := h.last
    have hparts := SlashPath.parts_normalize f
    rw [heq, (SlashPath.parts_name hfile).2, hlast] at hparts
    have hsame : file = n ++ utf8 ".wasm" := by
      have hrev := congrArg List.getLast? hparts
      simpa using hrev
    exact hsuffix ⟨n, hsame.symm⟩
  constructor
  · rintro (heq | heq | hin)
    · exact absurd heq (hother _ (by decide) (by decide))
    · exact absurd heq (hother _ (by decide) (by decide))
    · exact hin
  · exact fun hin => .inr (.inr hin)

theorem belongs_generate_iff (generator : Bytes) {p : Package} (hpy : IsName p.metadata.name.python) :
    (∀ path ∈ (generate generator p).paths, Belongs p path) ↔ StaysInside p := by
  have hdirs : ∀ d, IsName d → ∀ x ∈ [p.metadata.name.python, d], IsName x := by
    intro d hd
    simpa using ⟨hpy, hd⟩
  have hcommand : ∀ c ∈ p.commands,
      (Belongs p (normalize (under [p.metadata.name.python, utf8 "commands"] (commandModule c.name))) ↔
        StaysIn p.metadata.name.python 1 (commandModule c.name)) := by
    intro c _
    have hmodule := isEnding_wasm.endsIn (runner c.name)
    have hbelongs := module_belongs_iff (p := p)
      ((hmodule.under (utf8 "commands")).under p.metadata.name.python)
    exact hbelongs.trans (SlashPath.within_under_iff (hdirs _ (by decide)) hmodule.names_ne_nil)
  have hfixed : ∀ f n, IsName f → EndsIn f n → Belongs p (normalize (under [p.metadata.name.python] f)) := by
    intro f n hf hn
    refine .inr (.inr ((SlashPath.within_under_iff (by simpa using hpy) hn.names_ne_nil).2 (.inl ?_)))
    rw [SlashPath.climb_name hf]
    exact Nat.zero_le _
  have hfile : ∀ d f n, IsName d → EndsIn f n → climb f = 0 →
      Belongs p (normalize (under [p.metadata.name.python, d] f)) := by
    intro d f n hd hn hclimb
    refine .inr (.inr ((SlashPath.within_under_iff (hdirs d hd) hn.names_ne_nil).2 (.inl ?_)))
    rw [hclimb]
    exact Nat.zero_le _
  rw [(filled_generate generator p).forall_paths]
  simp only [fileNames, packageNames, List.forall_mem_map, List.forall_mem_cons, List.forall_mem_append,
    forall_mem_unless, List.forall_mem_flatMap]
  constructor
  · rintro ⟨-, -, -, -, hcommands, -⟩ c hc
    exact (hcommand c hc).1 ((hcommands (List.ne_nil_of_mem hc)).2 c hc)
  · intro hcommands
    refine ⟨.inr (.inl (by decide)), .inl (by decide), hfixed _ _ (by decide) (IsEnding.endsIn (by decide) []),
      hfixed _ _ (by decide) (IsEnding.endsIn (by decide) []), fun _ => ⟨?_, fun c hc => ?_⟩,
      fun _ => ⟨?_, fun l hl f hf => ?_⟩⟩
    · exact hfile _ _ _ (by decide) (IsEnding.endsIn (by decide) []) (by decide)
    · exact (hcommand c hc).2 (hcommands c hc)
    · exact hfile _ _ _ (by decide) (IsEnding.endsIn (by decide) []) (by decide)
    · obtain ⟨hclimb, n, hn⟩ := endsIn_libraryPaths hf
      exact hfile _ f n (by decide) hn hclimb

/-- Names without a slash lead nowhere else. -/
theorem staysInside_of_plain {p : Package} (h : p.PlainNames) : StaysInside p := by
  intro c hc
  refine .inl ?_
  have hname : IsName (commandModule c.name) := by
    refine isEnding_wasm.isName fun hslash => ?_
    rcases mem_of_mem_replaceFrom hslash with hslash | hslash
    · exact h.commands c hc hslash
    · exact absurd hslash (by decide)
  rw [SlashPath.climb_name hname]
  exact Nat.zero_le 1

end Pip

/-! ## Both -/

/-- **Generated files stay inside.** The files of the npm package lie below `package` exactly when
no name leads out of it, and those of the Python distribution where they belong exactly when no
command leads out of the import package. They are then saved strictly below any root. Names
without a slash never lead out. -/
theorem generated_files_stay_inside {raw : Bytes} (o : Npm.Options) (generator : Bytes) (p : Package)
    (hname : PackageName.parse raw = .ok p.metadata.name) :
    ((∀ path ∈ (Npm.generate o p).paths, Within (utf8 "package") path) ↔ Npm.StaysInside p) ∧
    ((∀ path ∈ (Pip.generate generator p).paths, Pip.Belongs p path) ↔ Pip.StaysInside p) ∧
    (Npm.StaysInside p → (Npm.generate o p).SavesBelow) ∧
    (Pip.StaysInside p → (Pip.generate generator p).SavesBelow) ∧
    (p.PlainNames → Npm.StaysInside p ∧ Pip.StaysInside p) := by
  have hnpm := Npm.within_generate_iff o p
  have hpip := Pip.belongs_generate_iff generator (PackageName.isName_python hname)
  refine ⟨hnpm, hpip, fun h => ?_, fun h => ?_, fun h => ⟨Npm.staysInside_of_plain h, Pip.staysInside_of_plain h⟩⟩
  · exact (Npm.filled_generate o p).savesBelow fun path hpath => (hnpm.2 h path hpath).descends
  · refine (Pip.filled_generate generator p).savesBelow fun path hpath => ?_
    rcases hpip.2 h path hpath with rfl | rfl | hin
    · decide
    · decide
    · exact hin.descends

/-- A package with one command. -/
def commandPackage (command : Bytes) : Package :=
  { metadata := { name := { name := utf8 "demo" }, version := utf8 "1.0.0" }
    libraries := []
    commands := [{ name := command }] }

theorem generated_files_stay_inside_demo :
    PackageName.parse (utf8 "demo") = .ok (commandPackage (utf8 "../../run")).metadata.name ∧
    (∀ path ∈ (Npm.generate {} (commandPackage (utf8 "../../run"))).paths, Within (utf8 "package") path) ∧
    (Npm.generate {} (commandPackage (utf8 "../../run"))).SavesBelow ∧
    ¬ ∀ path ∈ (Pip.generate [] (commandPackage (utf8 "../../run"))).paths,
      Pip.Belongs (commandPackage (utf8 "../../run")) path := by
  have hname : PackageName.parse (utf8 "demo") = .ok (commandPackage (utf8 "../../run")).metadata.name := rfl
  obtain ⟨hnpm, hpip, hbelow, -⟩ := generated_files_stay_inside {} [] _ hname
  have hstays : Npm.StaysInside (commandPackage (utf8 "../../run")) := ⟨by decide, by simp [commandPackage]⟩
  exact ⟨hname, hnpm.2 hstays, hbelow hstays, fun h => absurd (hpip.1 h) (by decide)⟩

/-- A command may be called so that its files leave the package, and the root they are saved to. -/
theorem climbing_command_leaves_package :
    let p := commandPackage (utf8 "../../../../run")
    Package.new p.metadata p.libraries p.commands = .ok p ∧
    utf8 "../run.js" ∈ (Npm.generate {} p).paths ∧
    utf8 "../../run.wasm" ∈ (Pip.generate [] p).paths ∧
    (FileTree.diskAfter ((Npm.generate {} p).save (utf8 "out")) {}).entries.find? (utf8 "run.wasm") = some (.file []) := by
  refine ⟨rfl, ?_, ?_, ?_⟩
  · exact (Npm.filled_generate {} _ _).2 (by decide)
  · exact (Pip.filled_generate [] _ _).2 (by decide)
  · rw [commandPackage, utf8_eq_toByteArray]
    decide +kernel

end Bindery
