/-
The modules that `MANIFEST.in` ships. Its lines put paths together on their own, from the names of
the package, of its libraries and of its commands; where each of these is one segment on one line,
they are the paths at which the modules are (`shipped_eq`), also when names become one.
-/
import Bindery.Proofs.Distribution.PipFiles
import Bindery.Proofs.Identifier

namespace Bindery

open SlashPath (parts climb IsName slash)
open FileTree (ofSegments normalize)
open Glue (Line unlines)

/-- A name that is one segment of a path and fits on one line. -/
structure IsLineName (n : Bytes) : Prop extends IsName n where
  oneLine : (10 : UInt8) ∉ n

instance (n : Bytes) : Decidable (IsLineName n) :=
  decidable_of_iff (IsName n ∧ (10 : UInt8) ∉ n) ⟨fun ⟨h₁, h₂⟩ => ⟨h₁, h₂⟩, fun h => ⟨h.toIsName, h.oneLine⟩⟩

/-- **The import package** is the name of a directory on one line. -/
theorem PackageName.isLineName_python {raw : Bytes} {n : PackageName} (h : parse raw = .ok n) :
    IsLineName n.python := by
  refine ⟨isName_python h, fun hfeed => ?_⟩
  rcases CaseStyle.of_mem_snakeFrom hfeed with hfeed | ⟨b, hb, hfeed⟩
  · exact absurd hfeed (by decide)
  · have hident := (isIdentByte_of_mem (written_of_parse h).identProblem_name).2 b (Bytes.mem_of_mem_trim hb)
    exact Byte.forall_octets (P := fun b => isIdentByte b = true → 10 ≠ CaseStyle.snakePlain b) (by decide +kernel)
      b hident hfeed

/-- Lines without a line feed are read back, with an empty one behind the last feed. -/
theorem split_unlines : ∀ {ls : List Line}, (∀ l ∈ ls, (10 : UInt8) ∉ l) → (unlines ls).split 10 = ls ++ [[]]
  | [], _ => rfl
  | l :: ls, h => by
    rw [Glue.unlines_cons, Bytes.split_append_sep, Bytes.split_of_not_mem (h l (by simp)),
      split_unlines fun l' hl' => h l' (List.mem_cons_of_mem l hl'), List.singleton_append, List.cons_append]

namespace Pip

/-- The line that ships a file. -/
def includeLine (path : Bytes) : Line := utf8 "include " ++ path

/-- The file that marks the import package as typed. -/
def marker (p : Package) : Bytes := p.metadata.name.python ++ utf8 "/py.typed"

/-- The files of a package are called after names of one segment on one line. -/
structure LineNames (p : Package) : Prop where
  loaders : ∀ l ∈ p.libraries, IsLineName (loader l.interfaceName)
  filenames : ∀ l ∈ p.libraries, IsLineName l.filename
  commands : ∀ c ∈ p.commands, IsLineName c.name

/-- The lines ship what there is to ship: first the empty `marker`, and behind it the modules, all of
them and nothing else. -/
structure ShipsModules (t : FileTree) (marker : Bytes) (ls : List Line) : Prop where
  first : ls.head? = some (includeLine marker)
  empty : t.get? marker = some []
  all : ∀ q ∈ t.paths, utf8 ".wasm" <:+ q → includeLine q ∈ ls
  only : ∀ l ∈ ls.tail, utf8 "include " <+: l → ∃ q ∈ t.paths, utf8 ".wasm" <:+ q ∧ l = includeLine q

variable {p : Package}

/-! ## The places of modules -/

theorem normalize_libraryPlace (hpy : IsName p.metadata.name.python) {l : Library}
    (hloader : IsName (loader l.interfaceName)) (hfile : IsName l.filename) :
    normalize (libraryPlace p l l.filename)
      = p.metadata.name.python ++ utf8 "/" ++ (utf8 "bindings/" ++ loader l.interfaceName ++ utf8 "/" ++ l.filename) := by
  rw [SlashPath.normalize_eq, parts_libraryPlace hpy l (climb_filename l), (SlashPath.parts_name hloader).2,
    (SlashPath.parts_name hfile).2]
  have hslash : utf8 "/" = [slash] := by decide
  have hbindings : utf8 "bindings/" = utf8 "bindings" ++ [slash] := by decide
  simp [hslash, hbindings, Bytes.join, List.intercalate]

theorem normalize_commandPlace (hpy : IsName p.metadata.name.python) {c : Command} (hc : slash ∉ c.name) :
    normalize (commandPlace p c)
      = p.metadata.name.python ++ utf8 "/" ++ (utf8 "commands/" ++ commandModule c.name) := by
  have hslash : utf8 "/" = [slash] := by decide
  have hcommands : utf8 "commands/" = utf8 "commands" ++ [slash] := by decide
  rw [SlashPath.normalize_eq, parts_commandPlace hpy hc]
  simp [hslash, hcommands, Bytes.join, List.intercalate]

/-- **The manifest** has a line for the marker and then one for each place of a module. -/
theorem shipped_eq (hpy : IsName p.metadata.name.python) (h : LineNames p) :
    shipped p = unlines (includeLine (marker p) :: (modulePlaces p).map includeLine) := by
  have hlibraries : p.libraries.map (fun l => normalize (libraryPlace p l l.filename)) = _ :=
    List.map_congr_left fun l hl =>
      normalize_libraryPlace hpy (h.loaders l hl).toIsName (h.filenames l hl).toIsName
  have hcommands : p.commands.map (fun c => normalize (commandPlace p c)) = _ :=
    List.map_congr_left fun c hc => normalize_commandPlace hpy (h.commands c hc).noSlash
  have hmarker : marker p = p.metadata.name.python ++ utf8 "/" ++ utf8 "py.typed" := by
    rw [marker, List.append_assoc]
    rfl
  rw [shipped, modulePlaces, hlibraries, hcommands, hmarker, List.map_append, List.map_map, List.map_map]
  simp only [includeLine, Function.comp_def, List.append_assoc, List.cons_append, List.nil_append]

theorem oneLine_modulePlaces (hpy : IsLineName p.metadata.name.python) (h : LineNames p) {q : Bytes}
    (hq : q ∈ modulePlaces p) : (10 : UInt8) ∉ q := by
  rcases List.mem_append.1 hq with hq | hq
  · obtain ⟨l, hl, rfl⟩ := List.mem_map.1 hq
    rw [normalize_libraryPlace hpy.toIsName (h.loaders l hl).toIsName (h.filenames l hl).toIsName]
    have hfixed : (10 : UInt8) ∉ utf8 "/" ∧ (10 : UInt8) ∉ utf8 "bindings/" := by decide
    simp only [List.mem_append, not_or]
    exact ⟨⟨hpy.oneLine, hfixed.1⟩, ⟨⟨hfixed.2, (h.loaders l hl).oneLine⟩, hfixed.1⟩, (h.filenames l hl).oneLine⟩
  · obtain ⟨c, hc, rfl⟩ := List.mem_map.1 hq
    have hrunner : (10 : UInt8) ∉ runner c.name := fun hfeed =>
      (mem_of_mem_replaceFrom hfeed).elim (h.commands c hc).oneLine (by decide)
    rw [normalize_commandPlace hpy.toIsName (h.commands c hc).noSlash]
    have hfixed : (10 : UInt8) ∉ utf8 "/" ∧ (10 : UInt8) ∉ utf8 "commands/" ∧ (10 : UInt8) ∉ utf8 ".wasm" := by decide
    simp only [commandModule, List.mem_append, not_or]
    exact ⟨⟨hpy.oneLine, hfixed.1⟩, hfixed.2.1, hrunner, hfixed.2.2⟩

/-! ## The manifest -/

theorem get?_marker (generator : Bytes) (hpy : IsName p.metadata.name.python) (hplain : ∀ c ∈ p.commands, slash ∉ c.name) :
    (ofSegments (entries generator p)).get? (marker p) = some [] := by
  have htyped : utf8 "/py.typed" = slash :: utf8 "py.typed" := by decide
  have hparts : parts (marker p) = [p.metadata.name.python] ++ [utf8 "py.typed"] := by
    rw [marker, htyped]
    exact SlashPath.parts_file hpy (by decide)
  rw [FileTree.get?_ofSegments (descend_entries generator hpy hplain), hparts, entries, Table.lastOf_append,
    Table.lastOf_of_not_mem (by simp), Option.none_or, FileTree.lastOf_below, packageEntries]
  change Table.lastOf _ (sectionEntries _ _ _ ([_] ++ [_])) = _
  rw [← sectionEntries_append]
  exact Table.lastOf_of_last _ (by simp)

/-- **The manifest covers exactly the shipped modules.** It is a file of the distribution, its first
line ships the empty file that marks the package as typed, every module of the tree has a line, and
every further line that ships something ships a module of the tree. -/
theorem manifest_ships_modules {raw : Bytes} (generator : Bytes) (hname : PackageName.parse raw = .ok p.metadata.name)
    (h : LineNames p) :
    ∃ text, (generate generator p).get? (utf8 "MANIFEST.in") = some text ∧
      ShipsModules (generate generator p) (marker p) (text.split 10) := by
  have hpy := PackageName.isLineName_python hname
  have hplain : ∀ c ∈ p.commands, slash ∉ c.name := fun c hc => (h.commands c hc).noSlash
  have hmarker : (10 : UInt8) ∉ marker p := by
    simp only [marker, List.mem_append, not_or]
    exact ⟨hpy.oneLine, by decide⟩
  have hline {q : Bytes} (hq : (10 : UInt8) ∉ q) : (10 : UInt8) ∉ includeLine q := by
    simp only [includeLine, List.mem_append, not_or]
    exact ⟨by decide, hq⟩
  have hlines : (shipped p).split 10 = includeLine (marker p) :: ((modulePlaces p).map includeLine ++ [[]]) := by
    rw [shipped_eq hpy.toIsName h, split_unlines]
    · rfl
    · rw [List.forall_mem_cons, List.forall_mem_map]
      exact ⟨hline hmarker, fun q hq => hline (oneLine_modulePlaces hpy h hq)⟩
  have hmodules {q : Bytes} : q ∈ (generate generator p).paths ∧ utf8 ".wasm" <:+ q ↔ q ∈ modulePlaces p := by
    rw [generate_eq generator hpy.toIsName hplain, ← mem_modulePlaces generator hpy.toIsName hplain, List.mem_filter,
      List.isSuffixOf_iff_suffix]
  refine ⟨shipped p, FileTree.get?_insert_self _ _ _, ?_⟩
  rw [hlines]
  refine ⟨rfl, ?_, fun q hq hwasm => ?_, fun l hl hinclude => ?_⟩
  · rw [generate_eq generator hpy.toIsName hplain]
    exact get?_marker generator hpy.toIsName hplain
  · refine List.mem_cons_of_mem _ (List.mem_append_left _ ?_)
    exact List.mem_map_of_mem (hmodules.1 ⟨hq, hwasm⟩)
  · rcases List.mem_append.1 hl with hl | hl
    · obtain ⟨q, hq, rfl⟩ := List.mem_map.1 hl
      exact ⟨q, (hmodules.2 hq).1, (hmodules.2 hq).2, rfl⟩
    · rw [List.mem_singleton.1 hl] at hinclude
      exact absurd hinclude (by decide)

/-- Two libraries share a directory here and two commands a module: the line of each of the two modules
that are left stands there twice. -/
theorem manifest_ships_modules_demo :
    let p := fourModules "user-api" "userApi" "run-all" "run_all"
    ∃ text, (generate [] p).get? (utf8 "MANIFEST.in") = some text ∧
      ShipsModules (generate [] p) (utf8 "demo/py.typed") (text.split 10) := by
  have hname : PackageName.parse (utf8 "demo")
      = .ok (fourModules "user-api" "userApi" "run-all" "run_all").metadata.name := rfl
  have hmarker : marker (fourModules "user-api" "userApi" "run-all" "run_all") = utf8 "demo/py.typed" := by
    decide +kernel
  have hships := manifest_ships_modules [] hname ⟨by decide +kernel, by decide +kernel, by decide +kernel⟩
  rwa [hmarker] at hships

end Pip

end Bindery
