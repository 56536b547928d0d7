/-
The files of the Python distribution as one list. Libraries have a directory named in snake
case and commands a module with underscores for hyphens, so names that are different can
become one. No module is lost exactly when that does not happen (`modules_kept_iff`).
-/
import Bindery.Proofs.Distribution.GlueFiles

namespace Bindery

open SlashPath (parts climb under IsName IsEnding slash dot)
open FileTree (ofSegments Descend below normalize)

namespace Glue.Python

/-- The text of the glue of a library. -/
def glueText (exports : Interface) (imports : List Interface) : Bytes :=
  unlines (helperLines ++ imports.flatMap importsLines ++ exportsLines exports)

theorem generate_eq (exports : Interface) (imports : List Interface) :
    generate exports imports = ofSegments [([bindingsFile], glueText exports imports)] := by
  have hparts : parts bindingsFile = [bindingsFile] := by decide
  rw [generate, show FileTree.empty = ofSegments [] from rfl, FileTree.insert_ofSegments, hparts]
  rfl

end Glue.Python

namespace Pip

open Glue (unlines)

/-! ## The distribution as a list of files -/

/-- The name of the file that makes a directory a package. -/
def initFile : Bytes := utf8 "__init__.py"

/-- The files of a library in its directory. -/
def libraryEntries (l : Library) : List (List Bytes × Bytes) :=
  [([Glue.Python.bindingsFile], Glue.Python.glueText l.interface l.imports), (parts l.filename, l.module.wasm),
    ([initFile], libraryInit l)]

/-- The files below `bindings`. -/
def bindingsEntries (ls : List Library) : List (List Bytes × Bytes) :=
  ls.flatMap (fun l => below (parts (loader l.interfaceName)) (libraryEntries l)) ++ [([initFile], bindingsInit ls)]

/-- The files below `commands`. -/
def commandsEntries (cs : List Command) : List (List Bytes × Bytes) :=
  cs.map (fun c => (parts (commandModule c.name), c.wasm))
    ++ [([initFile], unlines (commandsHead ++ [[]] ++ cs.flatMap fun c => [] :: commandLines c))]

/-- The files of the import package. -/
def packageEntries (generator : Bytes) (p : Package) : List (List Bytes × Bytes) :=
  sectionEntries p (bindingsEntries p.libraries) (commandsEntries p.commands)
    [([initFile], topLevelInit generator p), ([utf8 "py.typed"], [])]

/-- All files. -/
def entries (generator : Bytes) (p : Package) : List (List Bytes × Bytes) :=
  below [p.metadata.name.python] (packageEntries (if generator.isEmpty then Release.generator else generator) p)
    ++ [([utf8 "pyproject.toml"], project p.metadata), ([utf8 "MANIFEST.in"], shipped p)]

/-- No name of a library or a command has a slash in it. -/
structure PlainNames (p : Package) : Prop where
  libraries : ∀ l ∈ p.libraries, slash ∉ l.interfaceName
  commands : ∀ c ∈ p.commands, slash ∉ c.name

/-- The directory of a library is one segment, unless nothing is left of the name. -/
theorem parts_loader {n : Bytes} (h : slash ∉ n) :
    parts (loader n) = if loader n = [] then [] else [loader n] := by
  split
  · rename_i hnil
    rw [hnil]
    rfl
  · rename_i hne
    have hdot : dot ∉ loader n := CaseStyle.dot_not_mem_snake n
    refine (SlashPath.parts_name ⟨hne, ?_, ?_, CaseStyle.noSlash_snake h⟩).2
    · intro heq
      exact hdot (by simp [heq])
    · intro heq
      exact hdot (by simp [heq, SlashPath.up])

theorem isName_commandModule {n : Bytes} (h : slash ∉ n) : IsName (commandModule n) :=
  isEnding_wasm.isName (noSlash_replaceAll h (by decide))

theorem isName_initFile : IsName initFile := by decide

theorem parts_initFile : parts initFile = [initFile] := (SlashPath.parts_name isName_initFile).2

theorem descend_libraryEntries (l : Library) : Descend (libraryEntries l) := by
  obtain ⟨stem, hstem, hparts⟩ := parts_filename l
  simp only [libraryEntries, Descend, List.forall_mem_cons, hparts]
  exact ⟨⟨by decide, by simp⟩, ⟨isEnding_wasm.isName hstem, by simp⟩, ⟨isName_initFile, by simp⟩, by simp⟩

theorem libraryFiles_eq (l : Library) : libraryFiles l = ofSegments (libraryEntries l) := by
  rw [libraryFiles, Glue.Python.generate_eq, FileTree.insert_ofSegments, FileTree.insert_name _ (by decide)]
  rfl

theorem isName_of_mem_parts_loader {n s : Bytes} (h : s ∈ parts (loader n)) : IsName s := by
  have hclimb : climb (loader n) = 0 := SlashPath.climb_of_dotless (CaseStyle.dot_not_mem_snake n)
  rw [SlashPath.parts_split, hclimb] at h
  exact SlashPath.isName_of_mem_names h

theorem descend_bindingsEntries (ls : List Library) : Descend (bindingsEntries ls) := by
  rw [bindingsEntries, FileTree.descend_append, FileTree.descend_flatMap]
  refine ⟨fun l _ => (descend_libraryEntries l).below fun s => isName_of_mem_parts_loader, ?_⟩
  simpa [Descend] using isName_initFile

theorem bindingsFiles_eq (ls : List Library) : bindingsFiles ls = ofSegments (bindingsEntries ls) := by
  have hfold : ls.foldl (fun t l => t.insertUnder (loader l.interfaceName) (libraryFiles l)) FileTree.empty = _ :=
    FileTree.foldl_ofSegments (fun l _ es => by
      rw [libraryFiles_eq, FileTree.insertUnder_ofSegments es (descend_libraryEntries l)]) []
  rw [bindingsFiles, hfold, FileTree.insert_name _ (by decide)]
  rfl

theorem descend_commandsEntries {cs : List Command} (h : ∀ c ∈ cs, slash ∉ c.name) : Descend (commandsEntries cs) := by
  rw [commandsEntries, FileTree.descend_append]
  refine ⟨List.forall_mem_map.2 fun c hc => ?_, ?_⟩
  · have hname := isName_commandModule (h c hc)
    simpa [(SlashPath.parts_name hname).2] using hname
  · simpa [Descend] using isName_initFile

theorem commandsFiles_eq (cs : List Command) : commandsFiles cs = ofSegments (commandsEntries cs) := by
  have hfold : cs.foldl (fun t c => t.insert (commandModule c.name) c.wasm) FileTree.empty = _ :=
    FileTree.foldl_ofSegments (fun c _ es => FileTree.insert_ofSegments es (commandModule c.name) c.wasm) []
  rw [commandsFiles, hfold, ← List.map_eq_flatMap, FileTree.insert_name _ (by decide)]
  rfl

theorem descend_packageEntries (generator : Bytes) {p : Package} (h : ∀ c ∈ p.commands, slash ∉ c.name) :
    Descend (packageEntries generator p) := by
  refine descend_sectionEntries p (descend_bindingsEntries p.libraries) (descend_commandsEntries h) ?_
  simp only [Descend, List.forall_mem_cons]
  exact ⟨⟨isName_initFile, by simp⟩, ⟨by decide, by simp⟩, by simp⟩

theorem packageFiles_eq (generator : Bytes) {p : Package} (h : ∀ c ∈ p.commands, slash ∉ c.name) :
    packageFiles generator p = ofSegments (packageEntries generator p) := by
  have hsections := sectionEntries_eq p (descend_bindingsEntries p.libraries) (descend_commandsEntries h)
  rw [packageFiles, bindingsFiles_eq, commandsFiles_eq, hsections, FileTree.insert_name _ (by decide),
    FileTree.insert_name _ (by decide), sectionEntries_append, sectionEntries_append]
  rfl

theorem descend_entries (generator : Bytes) {p : Package} (hpy : IsName p.metadata.name.python)
    (h : ∀ c ∈ p.commands, slash ∉ c.name) : Descend (entries generator p) := by
  rw [entries, FileTree.descend_append]
  refine ⟨(descend_packageEntries _ h).below (by simpa using hpy), ?_⟩
  simp only [Descend, List.forall_mem_cons]
  exact ⟨⟨by decide, by simp⟩, ⟨by decide, by simp⟩, by simp⟩

/-- **The distribution is the tree of its list of files.** -/
theorem generate_eq (generator : Bytes) {p : Package} (hpy : IsName p.metadata.name.python)
    (h : ∀ c ∈ p.commands, slash ∉ c.name) : generate generator p = ofSegments (entries generator p) := by
  rw [generate, packageFiles_eq _ h, show FileTree.empty = ofSegments [] from rfl,
    FileTree.insertUnder_ofSegments [] (descend_packageEntries _ h), FileTree.insert_name _ (by decide),
    FileTree.insert_name _ (by decide), (SlashPath.parts_name hpy).2, List.nil_append, List.append_assoc]
  rfl

/-! ## Names that become one -/

theorem nodup_libraryEntries (l : Library) : ((libraryEntries l).map (·.1)).Nodup := by
  obtain ⟨stem, -, hparts⟩ := parts_filename l
  have hbindings : stem ++ utf8 ".wasm" ≠ Glue.Python.bindingsFile := ne_module (by decide) stem
  have hinit : stem ++ utf8 ".wasm" ≠ initFile := ne_module (by decide) stem
  have hother : Glue.Python.bindingsFile ≠ initFile := by decide
  simp [libraryEntries, hparts, hbindings.symm, hinit, hother]

/-- The files of a library stand in its directory. -/
theorem place_of_library {l : Library} {dir place : List Bytes}
    (h : place ∈ (below dir (libraryEntries l)).map (·.1)) : ∃ file, place = dir ++ [file] := by
  obtain ⟨stem, -, hparts⟩ := parts_filename l
  simp only [libraryEntries, below, hparts, List.map_cons, List.map_nil, List.mem_cons, List.not_mem_nil, or_false] at h
  rcases h with rfl | rfl | rfl <;> exact ⟨_, rfl⟩

/-- The libraries have directories of their own. -/
structure LoadersApart (ls : List Library) : Prop where
  nodup : (ls.map fun l => loader l.interfaceName).Nodup
  ne_nil : ∀ l ∈ ls, loader l.interfaceName ≠ []

theorem nodup_bindingsEntries {ls : List Library} (hplain : ∀ l ∈ ls, slash ∉ l.interfaceName) (h : LoadersApart ls) :
    ((bindingsEntries ls).map (·.1)).Nodup := by
  have hdir : ∀ l ∈ ls, ∀ place ∈ (below (parts (loader l.interfaceName)) (libraryEntries l)).map (·.1),
      ∃ file, place = [loader l.interfaceName, file] := by
    intro l hl place hin
    rw [parts_loader (hplain l hl), if_neg (h.ne_nil l hl)] at hin
    exact place_of_library hin
  rw [bindingsEntries, List.map_append, List.map_flatMap, List.nodup_append]
  refine ⟨List.nodup_flatMap.2 ⟨fun l _ => ?_, ?_⟩, by simp, ?_⟩
  · exact FileTree.nodup_below (nodup_libraryEntries l)
  · refine (List.pairwise_map.1 h.nodup).imp_of_mem fun {l l'} hl hl' hne place hin hin' => hne ?_
    obtain ⟨file, rfl⟩ := hdir l hl place hin
    obtain ⟨file', heq⟩ := hdir l' hl' _ hin'
    exact (List.cons.inj heq).1
  · intro place hin place' hin'
    obtain ⟨l, hl, hin⟩ := List.mem_flatMap.1 hin
    obtain ⟨file, rfl⟩ := hdir l hl place hin
    rw [List.mem_singleton.1 hin']
    simp

theorem nodup_commandsEntries {cs : List Command} (hplain : ∀ c ∈ cs, slash ∉ c.name)
    (h : (cs.map fun c => runner c.name).Nodup) : ((commandsEntries cs).map (·.1)).Nodup := by
  have hplaces : cs.map (fun c => parts (commandModule c.name))
      = (cs.map fun c => runner c.name).map fun n => [n ++ utf8 ".wasm"] := by
    rw [List.map_map]
    exact List.map_congr_left fun c hc => (SlashPath.parts_name (isName_commandModule (hplain c hc))).2
  have hinj : Function.Injective fun n : Bytes => [n ++ utf8 ".wasm"] := by
    intro m n heq
    exact List.append_cancel_right (List.singleton_inj.1 heq)
  rw [commandsEntries, List.map_append, List.map_map, List.nodup_append]
  refine ⟨?_, by simp, ?_⟩
  · exact hplaces ▸ h.map hinj
  · intro place hin place' hin'
    obtain ⟨n, -, rfl⟩ := List.mem_map.1 (hplaces ▸ hin)
    rw [List.mem_singleton.1 hin']
    simpa using ne_module (by decide) n

theorem nodup_packageEntries (generator : Bytes) {p : Package} (hplain : PlainNames p) (hls : LoadersApart p.libraries)
    (hcs : (p.commands.map fun c => runner c.name).Nodup) :
    ((packageEntries generator p).map (·.1)).Nodup := by
  have hbeside : ([[initFile], [utf8 "py.typed"]] : List (List Bytes)).Nodup ∧
      ∀ place ∈ [[initFile], [utf8 "py.typed"]],
        place.head? ≠ some (utf8 "bindings") ∧ place.head? ≠ some (utf8 "commands") := by decide
  exact nodup_sectionEntries (nodup_bindingsEntries hplain.libraries hls) (nodup_commandsEntries hplain.commands hcs)
    hbeside.1 hbeside.2

/-- **Every file has a place of its own** when the names of libraries stay apart in snake case and
those of commands with underscores for hyphens. -/
theorem nodup_entries (generator : Bytes) {p : Package} (hplain : PlainNames p) (hls : LoadersApart p.libraries)
    (hcs : (p.commands.map fun c => runner c.name).Nodup) :
    ((entries generator p).map (·.1)).Nodup := by
  have hfixed : ([[utf8 "pyproject.toml"], [utf8 "MANIFEST.in"]] : List (List Bytes)).Nodup := by decide
  have hdot : dot ∉ p.metadata.name.python := CaseStyle.dot_not_mem_snake _
  rw [entries, List.map_append, List.nodup_append]
  refine ⟨FileTree.nodup_below (nodup_packageEntries _ hplain hls hcs), hfixed, ?_⟩
  rintro place hin place' hin' rfl
  have hhead : place.head? = some p.metadata.name.python := FileTree.head_below hin
  simp only [List.map_cons, List.map_nil, List.mem_cons, List.not_mem_nil, or_false] at hin'
  rcases hin' with rfl | rfl
  · rw [← Option.some.inj hhead] at hdot
    exact hdot (by decide)
  · rw [← Option.some.inj hhead] at hdot
    exact hdot (by decide)

/-! ## Modules -/

/-- Where a file of a library is put. -/
def libraryPlace (p : Package) (l : Library) (file : Bytes) : Bytes :=
  under [p.metadata.name.python, utf8 "bindings", loader l.interfaceName] file

/-- Where the module of a command is put. -/
def commandPlace (p : Package) (c : Command) : Bytes :=
  under [p.metadata.name.python, utf8 "commands"] (commandModule c.name)

theorem parts_libraryPlace {p : Package} (hpy : IsName p.metadata.name.python) (l : Library) {file : Bytes}
    (hfile : climb file = 0) : parts (libraryPlace p l file)
      = [p.metadata.name.python, utf8 "bindings"] ++ (parts (loader l.interfaceName) ++ parts file) := by
  have hloader : climb (loader l.interfaceName) = 0 := SlashPath.climb_of_dotless (CaseStyle.dot_not_mem_snake _)
  have hdirs : ∀ d ∈ [p.metadata.name.python, utf8 "bindings", loader l.interfaceName], climb d = 0 := by
    simp only [List.forall_mem_cons]
    exact ⟨SlashPath.climb_name hpy, by decide, hloader, by simp⟩
  have hbindings : parts (utf8 "bindings") = [utf8 "bindings"] := by decide
  rw [libraryPlace, (SlashPath.parts_under_dirs hdirs hfile).2]
  simp [(SlashPath.parts_name hpy).2, hbindings]

theorem parts_commandPlace {p : Package} (hpy : IsName p.metadata.name.python) {c : Command} (hc : slash ∉ c.name) :
    parts (commandPlace p c) = [p.metadata.name.python, utf8 "commands", commandModule c.name] := by
  have hname := isName_commandModule hc
  have hdirs : ∀ d ∈ [p.metadata.name.python, utf8 "commands"], climb d = 0 := by
    simp only [List.forall_mem_cons]
    exact ⟨SlashPath.climb_name hpy, by decide, by simp⟩
  have hcommands : parts (utf8 "commands") = [utf8 "commands"] := by decide
  rw [commandPlace, (SlashPath.parts_under_dirs hdirs (SlashPath.climb_name hname)).2]
  simp [(SlashPath.parts_name hpy).2, (SlashPath.parts_name hname).2, hcommands]

theorem library_mem_entries (generator : Bytes) {p : Package} (hpy : IsName p.metadata.name.python) {l : Library}
    (hl : l ∈ p.libraries) {file data : Bytes} (hfile : climb file = 0) (h : (parts file, data) ∈ libraryEntries l) :
    (parts (libraryPlace p l file), data) ∈ entries generator p := by
  have hbindings : (parts (loader l.interfaceName) ++ parts file, data) ∈ bindingsEntries p.libraries :=
    List.mem_append_left _ (List.mem_flatMap.2 ⟨l, hl, FileTree.mem_below.2 ⟨_, rfl, h⟩⟩)
  rw [parts_libraryPlace hpy l hfile]
  refine List.mem_append_left _ (FileTree.mem_below.2 ⟨_, rfl, ?_⟩)
  exact mem_sectionEntries.2 (.inl ⟨List.ne_nil_of_mem hl, _, rfl, hbindings⟩)

theorem command_mem_entries (generator : Bytes) {p : Package} (hpy : IsName p.metadata.name.python) {c : Command}
    (hc : c ∈ p.commands) (hplain : slash ∉ c.name) : (parts (commandPlace p c), c.wasm) ∈ entries generator p := by
  have hcommands : ([commandModule c.name], c.wasm) ∈ commandsEntries p.commands := by
    refine List.mem_append_left _ (List.mem_map.2 ⟨c, hc, ?_⟩)
    rw [(SlashPath.parts_name (isName_commandModule hplain)).2]
  rw [parts_commandPlace hpy hplain]
  refine List.mem_append_left _ (FileTree.mem_below.2 ⟨_, rfl, ?_⟩)
  exact mem_sectionEntries.2 (.inr (.inl ⟨List.ne_nil_of_mem hc, _, rfl, hcommands⟩))

theorem bindings_cases {ls : List Library} {place : List Bytes} {data : Bytes}
    (h : (place, data) ∈ bindingsEntries ls) :
    (∃ l ∈ ls, place = parts (loader l.interfaceName) ++ parts l.filename) ∨ IsSource place := by
  rcases List.mem_append.1 h with h | h
  · obtain ⟨l, hl, h⟩ := List.mem_flatMap.1 h
    obtain ⟨rest, hplace, h⟩ := FileTree.mem_below.1 h
    simp only [libraryEntries, List.mem_cons, List.not_mem_nil, or_false, Prod.mk.injEq] at h
    rcases h with ⟨rfl, -⟩ | ⟨rfl, -⟩ | ⟨rfl, -⟩
    · exact .inr (hplace ▸ isSource_of_name (by decide) _)
    · exact .inl ⟨l, hl, hplace⟩
    · exact .inr (hplace ▸ isSource_of_name (by decide) _)
  · obtain ⟨rfl, -⟩ := Prod.mk.inj (List.mem_singleton.1 h)
    exact .inr (isSource_of_name (by decide) [])

theorem commands_cases {cs : List Command} {place : List Bytes} {data : Bytes}
    (h : (place, data) ∈ commandsEntries cs) :
    (∃ c ∈ cs, place = parts (commandModule c.name)) ∨ IsSource place := by
  rcases List.mem_append.1 h with h | h
  · obtain ⟨c, hc, heq⟩ := List.mem_map.1 h
    exact .inl ⟨c, hc, (Prod.mk.inj heq).1.symm⟩
  · obtain ⟨rfl, -⟩ := Prod.mk.inj (List.mem_singleton.1 h)
    exact .inr (isSource_of_name (by decide) [])

/-- **Every file is the module of a library or of a command, or a source.** -/
theorem entry_cases {generator : Bytes} {p : Package} (hpy : IsName p.metadata.name.python)
    (hplain : ∀ c ∈ p.commands, slash ∉ c.name) {place : List Bytes} {data : Bytes}
    (h : (place, data) ∈ entries generator p) :
    (∃ l ∈ p.libraries, place = parts (libraryPlace p l l.filename)) ∨
    (∃ c ∈ p.commands, place = parts (commandPlace p c)) ∨ IsSource place := by
  rcases List.mem_append.1 h with h | h
  · obtain ⟨rest, rfl, hin⟩ := FileTree.mem_below.1 h
    rcases mem_sectionEntries.1 hin with ⟨-, rest, rfl, hfile⟩ | ⟨-, rest, rfl, hfile⟩ | hfile
    · rcases bindings_cases hfile with ⟨l, hl, rfl⟩ | hsource
      · exact .inl ⟨l, hl, (parts_libraryPlace hpy l (climb_filename l)).symm⟩
      · exact .inr (.inr ((hsource.below _).below _))
    · rcases commands_cases hfile with ⟨c, hc, rfl⟩ | hsource
      · refine .inr (.inl ⟨c, hc, ?_⟩)
        rw [parts_commandPlace hpy (hplain c hc), (SlashPath.parts_name (isName_commandModule (hplain c hc))).2]
        rfl
      · exact .inr (.inr ((hsource.below _).below _))
    · simp only [List.mem_cons, List.not_mem_nil, or_false, Prod.mk.injEq] at hfile
      rcases hfile with ⟨rfl, -⟩ | ⟨rfl, -⟩ <;> exact .inr (.inr (isSource_of_name (by decide) _))
  · simp only [List.mem_cons, List.not_mem_nil, or_false, Prod.mk.injEq] at h
    rcases h with ⟨rfl, -⟩ | ⟨rfl, -⟩ <;> exact .inr (.inr (isSource_of_name (by decide) []))

/-- Where the modules are put. -/
def modulePlaces (p : Package) : List Bytes :=
  p.libraries.map (fun l => normalize (libraryPlace p l l.filename))
    ++ p.commands.map fun c => normalize (commandPlace p c)

theorem mem_modulePlaces (generator : Bytes) {p : Package} (hpy : IsName p.metadata.name.python)
    (hplain : ∀ c ∈ p.commands, slash ∉ c.name) {q : Bytes} :
    q ∈ (ofSegments (entries generator p)).paths.filter (utf8 ".wasm").isSuffixOf ↔ q ∈ modulePlaces p := by
  rw [List.mem_filter, FileTree.mem_paths_ofSegments, List.isSuffixOf_iff_suffix, modulePlaces, List.mem_append,
    List.mem_map, List.mem_map]
  constructor
  · rintro ⟨⟨⟨place, data⟩, he, rfl⟩, hsuffix⟩
    rcases entry_cases hpy hplain he with ⟨l, hl, rfl⟩ | ⟨c, hc, rfl⟩ | hsource
    · exact .inl ⟨l, hl, SlashPath.normalize_eq _⟩
    · exact .inr ⟨c, hc, SlashPath.normalize_eq _⟩
    · exact absurd hsuffix hsource.not_module
  · rintro (⟨l, hl, rfl⟩ | ⟨c, hc, rfl⟩)
    · have hin : (parts l.filename, l.module.wasm) ∈ libraryEntries l := by simp [libraryEntries]
      have hmem := library_mem_entries generator hpy hl (climb_filename l) hin
      obtain ⟨stem, -, hfile⟩ := parts_filename l
      refine ⟨⟨_, hmem, (SlashPath.normalize_eq _).symm⟩, ?_⟩
      rw [SlashPath.normalize_eq, parts_libraryPlace hpy l (climb_filename l), hfile, ← List.append_assoc]
      exact module_suffix _ stem
    · have hmem := command_mem_entries generator hpy hc (hplain c hc)
      refine ⟨⟨_, hmem, (SlashPath.normalize_eq _).symm⟩, ?_⟩
      rw [SlashPath.normalize_eq, parts_commandPlace hpy (hplain c hc)]
      exact module_suffix [_, _] (runner c.name)

/-- **There are as many modules as libraries and commands** exactly when no two share a place. -/
theorem length_modules (generator : Bytes) {p : Package} (hpy : IsName p.metadata.name.python)
    (hplain : ∀ c ∈ p.commands, slash ∉ c.name) :
    ((ofSegments (entries generator p)).paths.filter (utf8 ".wasm").isSuffixOf).length
      = p.libraries.length + p.commands.length ↔ (modulePlaces p).Nodup := by
  have hpaths : (ofSegments (entries generator p)).paths.Nodup := (Table.ordered_ofEntries _).nodup
  have hperm : ((ofSegments (entries generator p)).paths.filter (utf8 ".wasm").isSuffixOf).Perm
      (modulePlaces p).dedup := by
    refine (List.perm_ext_iff_of_nodup (hpaths.filter _) (List.nodup_dedup _)).2 fun q => ?_
    rw [mem_modulePlaces generator hpy hplain, List.mem_dedup]
  have hlength : (modulePlaces p).length = p.libraries.length + p.commands.length := by simp [modulePlaces]
  rw [hperm.length_eq, ← hlength, ← List.dedup_eq_self]
  constructor
  · exact (List.dedup_sublist _).eq_of_length
  · exact congrArg List.length

/-! ## Lost modules -/

/-- No module is lost: there are as many as libraries and commands, each is found at its place, and
every library has a directory of its own with its glue and its `__init__.py`. -/
structure KeepsModules (t : FileTree) (p : Package) : Prop where
  count : (t.paths.filter (utf8 ".wasm").isSuffixOf).length = p.libraries.length + p.commands.length
  libraries : ∀ l ∈ p.libraries, t.get? (libraryPlace p l l.filename) = some l.module.wasm
  commands : ∀ c ∈ p.commands, t.get? (commandPlace p c) = some c.wasm
  directories : (p.libraries.map fun l => normalize (libraryPlace p l [])).Nodup
  glue : ∀ l ∈ p.libraries, t.get? (libraryPlace p l Glue.Python.bindingsFile)
    = some (Glue.Python.glueText l.interface l.imports)
  inits : ∀ l ∈ p.libraries, t.get? (libraryPlace p l initFile) = some (libraryInit l)

theorem parts_libraryPlace_apart {p : Package} (hpy : IsName p.metadata.name.python) (hplain : PlainNames p)
    (hls : LoadersApart p.libraries) {l : Library} (hl : l ∈ p.libraries) {file : Bytes} (hfile : climb file = 0) :
    parts (libraryPlace p l file)
      = p.metadata.name.python :: utf8 "bindings" :: loader l.interfaceName :: parts file := by
  rw [parts_libraryPlace hpy l hfile, parts_loader (hplain.libraries l hl), if_neg (hls.ne_nil l hl)]
  rfl

theorem nodup_modulePlaces {p : Package} (hpy : IsName p.metadata.name.python) (hplain : PlainNames p)
    (hls : LoadersApart p.libraries) (hcs : (p.commands.map fun c => runner c.name).Nodup) :
    (modulePlaces p).Nodup := by
  have hlibrary := fun l hl => parts_libraryPlace_apart hpy hplain hls (l := l) hl (climb_filename l)
  have hcommand : ∀ c ∈ p.commands, parts (commandPlace p c)
      = [p.metadata.name.python, utf8 "commands", runner c.name ++ utf8 ".wasm"] :=
    fun c hc => parts_commandPlace hpy (hplain.commands c hc)
  rw [modulePlaces, List.nodup_append]
  refine ⟨?_, ?_, ?_⟩
  · refine List.pairwise_map.2 ((List.pairwise_map.1 hls.nodup).imp_of_mem fun {l l'} hl hl' hne heq => hne ?_)
    have hsame := (hlibrary l hl).symm.trans ((parts_eq_of_normalize heq).trans (hlibrary l' hl'))
    simp only [List.cons.injEq] at hsame
    exact hsame.2.2.1
  · refine List.pairwise_map.2 ((List.pairwise_map.1 hcs).imp_of_mem fun {c c'} hc hc' hne heq => hne ?_)
    have hsame := (hcommand c hc).symm.trans ((parts_eq_of_normalize heq).trans (hcommand c' hc'))
    simp only [List.cons.injEq] at hsame
    exact List.append_cancel_right hsame.2.2.1
  · intro q hq q' hq' heq
    obtain ⟨l, hl, rfl⟩ := List.mem_map.1 hq
    obtain ⟨c, hc, rfl⟩ := List.mem_map.1 hq'
    have hsame := (hlibrary l hl).symm.trans ((parts_eq_of_normalize heq).trans (hcommand c hc))
    simp only [List.cons.injEq] at hsame
    exact absurd hsame.2.1 (by decide)

/-- A library without a directory loses its `__init__.py` to that of all libraries. -/
theorem init_replaced (generator : Bytes) {p : Package} (hpy : IsName p.metadata.name.python)
    (hplain : ∀ c ∈ p.commands, slash ∉ c.name) {l : Library} (hl : l ∈ p.libraries)
    (hnil : loader l.interfaceName = []) :
    (ofSegments (entries generator p)).get? (libraryPlace p l initFile) = some (bindingsInit p.libraries) := by
  have hne : p.libraries.isEmpty = false := by
    rw [List.isEmpty_eq_false_iff]
    exact List.ne_nil_of_mem hl
  have hplace : parts (libraryPlace p l initFile)
      = [p.metadata.name.python] ++ ([utf8 "bindings"] ++ [initFile]) := by
    rw [parts_libraryPlace hpy l (SlashPath.climb_name isName_initFile), hnil, parts_initFile]
    rfl
  -- from the outside in: no file that is written later has this place
  rw [FileTree.get?_ofSegments (descend_entries generator hpy hplain), hplace, entries, Table.lastOf_append,
    Table.lastOf_of_not_mem (by simp), Option.none_or, FileTree.lastOf_below, packageEntries, sectionEntries,
    Table.lastOf_append, Table.lastOf_of_not_mem (by simp), Option.none_or, Table.lastOf_append, Table.lastOf_of_not_mem fun hin => ?_,
    Option.none_or, hne]
  · rw [if_neg Bool.false_ne_true, FileTree.lastOf_below, bindingsEntries]
    exact Table.lastOf_of_last _ (by simp)
  · exact absurd (FileTree.head_unless hin) (by decide)

theorem bindingsInit_ne (ls : List Library) (l : Library) : bindingsInit ls ≠ libraryInit l := by
  intro heq
  have hbindings : (bindingsInit ls)[4]? = some 87 := rfl
  have hlibrary : (libraryInit l)[4]? = some 66 := rfl
  rw [heq, hlibrary] at hbindings
  cases hbindings

/-- **No module is lost** exactly when the names of libraries stay apart in snake case, where something
is left of each of them, and those of commands with underscores for hyphens. -/
theorem modules_kept_iff {raw : Bytes} (generator : Bytes) {p : Package}
    (hname : PackageName.parse raw = .ok p.metadata.name) (hplain : PlainNames p) :
    KeepsModules (generate generator p) p ↔
      LoadersApart p.libraries ∧ (p.commands.map fun c => runner c.name).Nodup := by
  have hpy := PackageName.isName_python hname
  have hdescend := descend_entries generator hpy hplain.commands
  rw [generate_eq generator hpy hplain.commands]
  constructor
  · intro h
    have hcommands : (p.commands.map fun c => normalize (commandPlace p c)).Nodup :=
      (List.nodup_append.1 ((length_modules generator hpy hplain.commands).1 h.count)).2.1
    refine ⟨⟨?_, fun l hl hnil => ?_⟩, ?_⟩
    · refine List.Nodup.of_map (fun n => normalize (under [p.metadata.name.python, utf8 "bindings", n] [])) ?_
      rw [List.map_map]
      exact h.directories
    · have hinit := h.inits l hl
      rw [init_replaced generator hpy hplain.commands hl hnil] at hinit
      exact bindingsInit_ne _ _ (Option.some.inj hinit)
    · refine List.Nodup.of_map
        (fun n => normalize (under [p.metadata.name.python, utf8 "commands"] (n ++ utf8 ".wasm"))) ?_
      rw [List.map_map]
      exact hcommands
  · rintro ⟨hls, hcs⟩
    have hnodup := nodup_entries generator hplain hls hcs
    have hfile : ∀ l ∈ p.libraries, ∀ {file data}, climb file = 0 → (parts file, data) ∈ libraryEntries l →
        (ofSegments (entries generator p)).get? (libraryPlace p l file) = some data :=
      fun l hl file data hclimb hin =>
        FileTree.get?_ofSegments_of_nodup hdescend hnodup (library_mem_entries generator hpy hl hclimb hin)
    refine ⟨(length_modules generator hpy hplain.commands).2 (nodup_modulePlaces hpy hplain hls hcs),
      fun l hl => hfile l hl (climb_filename l) (by simp [libraryEntries]), fun c hc => ?_, ?_,
      fun l hl => hfile l hl (by decide) ?_, fun l hl => hfile l hl (by decide) ?_⟩
    · exact FileTree.get?_ofSegments_of_nodup hdescend hnodup
        (command_mem_entries generator hpy hc (hplain.commands c hc))
    · refine List.pairwise_map.2 ((List.pairwise_map.1 hls.nodup).imp_of_mem fun {l l'} hl hl' hne heq => hne ?_)
      have hplace := parts_eq_of_normalize heq
      rw [parts_libraryPlace_apart hpy hplain hls hl (by decide),
        parts_libraryPlace_apart hpy hplain hls hl' (by decide)] at hplace
      simpa using hplace
    · rw [show parts Glue.Python.bindingsFile = [Glue.Python.bindingsFile] by decide]
      exact List.mem_cons_self
    · rw [parts_initFile]
      simp [libraryEntries]

/-- A library of a module that exports an interface without functions. -/
def bareLibrary (interface : String) (wasm : Bytes) : Library :=
  { module := { name := utf8 "lib.wasm", wasm }, exports := some { name := utf8 interface, path := [] } }

/-- A package of two libraries and two commands, with a module of one octet each. -/
def fourModules (l l' c c' : String) : Package :=
  { metadata := { name := { name := utf8 "demo" }, version := utf8 "1.0.0" }
    libraries := [bareLibrary l [1], bareLibrary l' [2]]
    commands := [{ name := utf8 c, wasm := [3] }, { name := utf8 c', wasm := [4] }] }

theorem modules_kept_iff_demo :
    KeepsModules (generate [] (fourModules "user-api" "log" "run" "run-all"))
      (fourModules "user-api" "log" "run" "run-all") := by
  have hname : PackageName.parse (utf8 "demo") = .ok (fourModules "user-api" "log" "run" "run-all").metadata.name := rfl
  refine (modules_kept_iff [] hname ⟨?_, ?_⟩).2 ⟨⟨?_, ?_⟩, ?_⟩
  · decide
  · decide
  · decide +kernel
  · decide +kernel
  · decide

/-- Names that a package accepts as different may become one, and then the later module is the only
one that is left. -/
theorem modules_with_one_name_lost :
    let p := fourModules "user-api" "userApi" "run-all" "run_all"
    Package.new p.metadata p.libraries p.commands = .ok p ∧
    (generate [] p).paths.filter (utf8 ".wasm").isSuffixOf
      = [utf8 "demo/bindings/user_api/lib.wasm", utf8 "demo/commands/run_all.wasm"] ∧
    (generate [] p).get? (utf8 "demo/bindings/user_api/lib.wasm") = some [2] ∧
    (generate [] p).get? (utf8 "demo/commands/run_all.wasm") = some [4] := by
  refine ⟨rfl, ?_⟩
  rw [fourModules, utf8_eq_toByteArray]
  decide +kernel

end Pip

end Bindery
