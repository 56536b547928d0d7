/-
The files of the npm package as one list (`generate_eq`), file by file (`mem_entries`). A
library has a directory of its own, because a package has no two libraries with one interface,
and a command has file names of its own. So the paths are those that the package describes
(`mem_paths`) and what stands there is what was written for it.
-/
import Bindery.Proofs.Distribution.GlueFiles
import Bindery.Proofs.Package.Faithful

namespace Bindery

open SlashPath (parts IsName IsEnding slash dot)
open FileTree (ofSegments Descend below)

theorem base_of_noSlash {p : Bytes} (hp : slash ∉ p) (hne : p ≠ []) : SlashPath.base p = p := by
  have hother : ∀ b ∈ p.reverse, b ≠ slash := by
    rintro b hb rfl
    exact hp (List.mem_reverse.1 hb)
  have hdrop : p.reverse.dropWhile (· == slash) = p.reverse := by
    cases hrev : p.reverse with
    | nil => rfl
    | cons b t => simp [hother b (by simp [hrev])]
  have htake : p.reverse.takeWhile (· != slash) = p.reverse :=
    List.takeWhile_eq_self_iff.2 fun b hb => by simpa using hother b hb
  rw [SlashPath.base, if_neg (by simpa using hne), hdrop, htake, List.reverse_reverse]
  simp [hne]

/-- The file of a module whose name is one segment. -/
theorem isName_filename {l : Library} (h : slash ∉ l.module.name) : IsName l.filename := by
  have hbase : slash ∉ SlashPath.base l.module.name := by
    by_cases hnil : l.module.name = []
    · rw [hnil]
      decide
    · rwa [base_of_noSlash h hnil]
  exact isEnding_wasm.isName fun hslash => hbase (mem_of_mem_dropEnd hslash)

namespace Package

theorem nodup_of_checkUnique {what : String} {names : List Bytes} (h : checkUnique what names = .ok ()) :
    names.Nodup := by
  by_contra hdup
  obtain ⟨n, -, hcheck⟩ := checkUnique_of_not_nodup what hdup
  rw [hcheck] at h
  cases h

/-- A package that was accepted has libraries and commands with names of their own. -/
theorem nodup_of_new {m : Metadata} {ls : List Library} {cs : List Command} {p : Package} (h : new m ls cs = .ok p) :
    (p.libraries.map Library.interfaceName).Nodup ∧ (p.commands.map (·.name)).Nodup := by
  obtain ⟨u, hlibraries, hrest⟩ := bind_eq_ok.1 h
  obtain ⟨v, hcommands, hpackage⟩ := bind_eq_ok.1 hrest
  cases hpackage
  exact ⟨nodup_of_checkUnique hlibraries, nodup_of_checkUnique hcommands⟩

end Package

namespace Npm

/-! ## The package as a list of files -/

/-- The files of a library in its directory. -/
def libraryEntries (l : Library) : List (List Bytes × Bytes) :=
  Glue.JavaScript.glueFiles l.interface l.imports ++ [([l.filename], l.module.wasm)]

/-- The files below `src/bindings`. -/
def bindingsEntries (ls : List Library) : List (List Bytes × Bytes) :=
  ls.flatMap (fun l => below [l.interfaceName] (libraryEntries l))
    ++ [([utf8 "index.js"], bindingsIndex ls), ([utf8 "index.d.ts"], bindingsTypes ls)]

/-- The files of a command. -/
def commandEntries (c : Command) : List (List Bytes × Bytes) :=
  [([c.name ++ utf8 ".js"], commandSource c), ([c.name ++ utf8 ".d.ts"], commandTypes c),
    ([commandModule c.name], c.wasm)]

theorem source_mem_commandEntries (c : Command) : ([c.name ++ utf8 ".js"], commandSource c) ∈ commandEntries c :=
  List.mem_cons_self

theorem types_mem_commandEntries (c : Command) : ([c.name ++ utf8 ".d.ts"], commandTypes c) ∈ commandEntries c :=
  List.mem_cons_of_mem _ List.mem_cons_self

theorem module_mem_commandEntries (c : Command) : ([c.name ++ utf8 ".wasm"], c.wasm) ∈ commandEntries c :=
  List.mem_cons_of_mem _ (List.mem_cons_of_mem _ List.mem_cons_self)

/-- The files below `src`. -/
def sourceEntries (o : Options) (p : Package) : List (List Bytes × Bytes) :=
  sectionEntries p (bindingsEntries p.libraries) (p.commands.flatMap commandEntries)
    [([utf8 "index.js"], topLevelIndex o p), ([utf8 "index.d.ts"], topLevelTypes o p)]

/-- All files. -/
def entries (o : Options) (p : Package) : List (List Bytes × Bytes) :=
  below [utf8 "package"] (below [utf8 "src"] (sourceEntries o p) ++ [([utf8 "package.json"], manifest o p)])

/-- The names in a package are names of files or directories: those of interfaces as they are, those
of modules and commands with an ending. -/
structure SegmentNames (p : Package) : Prop where
  interfaces : ∀ l ∈ p.libraries, ∀ i ∈ l.interface :: l.imports, IsName i.name
  modules : ∀ l ∈ p.libraries, slash ∉ l.module.name
  commands : ∀ c ∈ p.commands, slash ∉ c.name

namespace SegmentNames

variable {p : Package} {l : Library} {c : Command}

theorem isBase (h : SegmentNames p) (hl : l ∈ p.libraries) : ∀ i ∈ l.interface :: l.imports, IsBase i.name :=
  fun i hi => .inl (h.interfaces l hl i hi).noSlash

theorem isName_directory (h : SegmentNames p) (hl : l ∈ p.libraries) : IsName l.interfaceName :=
  interface_name l ▸ h.interfaces l hl l.interface (by simp)

theorem descend_library (h : SegmentNames p) (hl : l ∈ p.libraries) : Descend (libraryEntries l) := by
  rw [libraryEntries, FileTree.descend_append]
  refine ⟨Glue.JavaScript.descend_glueFiles (h.isBase hl), ?_⟩
  simpa [Descend] using isName_filename (h.modules l hl)

theorem libraryFiles_eq (h : SegmentNames p) (hl : l ∈ p.libraries) :
    libraryFiles l = ofSegments (libraryEntries l) := by
  rw [libraryFiles, Glue.JavaScript.generate_eq, FileTree.insert_name _ (isName_filename (h.modules l hl))]
  rfl

theorem descend_bindings (h : SegmentNames p) : Descend (bindingsEntries p.libraries) := by
  rw [bindingsEntries, FileTree.descend_append, FileTree.descend_flatMap]
  refine ⟨fun l hl => (h.descend_library hl).below ?_, ?_⟩
  · simpa using h.isName_directory hl
  · simp only [Descend, List.forall_mem_cons]
    exact ⟨⟨by decide, by simp⟩, ⟨by decide, by simp⟩, by simp⟩

theorem bindingsFiles_eq (h : SegmentNames p) :
    bindingsFiles p.libraries = ofSegments (bindingsEntries p.libraries) := by
  have hfold : p.libraries.foldl (fun t l => t.insertUnder l.interfaceName (libraryFiles l)) FileTree.empty = _ :=
    FileTree.foldl_ofSegments (fun l hl es => by
      rw [h.libraryFiles_eq hl, FileTree.insertUnder_ofSegments es (h.descend_library hl),
        (SlashPath.parts_name (h.isName_directory hl)).2]) []
  rw [bindingsFiles, hfold, FileTree.insert_name _ (by decide), FileTree.insert_name _ (by decide), List.append_assoc]
  rfl

theorem isName_command (h : SegmentNames p) (hc : c ∈ p.commands) {e : Bytes} (he : IsEnding e) :
    IsName (c.name ++ e) :=
  he.isName (h.commands c hc)

theorem descend_commands (h : SegmentNames p) : Descend (p.commands.flatMap commandEntries) := by
  refine FileTree.descend_flatMap.2 fun c hc => ?_
  simp only [Descend, commandEntries, List.forall_mem_cons]
  exact ⟨⟨h.isName_command hc (by decide), by simp⟩, ⟨h.isName_command hc (by decide), by simp⟩,
    ⟨h.isName_command hc isEnding_wasm, by simp⟩, by simp⟩

theorem commandsFiles_eq (h : SegmentNames p) :
    commandsFiles p.commands = ofSegments (p.commands.flatMap commandEntries) := by
  refine FileTree.foldl_ofSegments (fun c hc es => ?_) []
  rw [FileTree.insert_name _ (h.isName_command hc (by decide)),
    FileTree.insert_name _ (h.isName_command hc (by decide)), commandModule, FileTree.insert_name _ (h.isName_command hc isEnding_wasm), List.append_assoc, List.append_assoc]
  rfl

theorem descend_source (h : SegmentNames p) (o : Options) : Descend (sourceEntries o p) := by
  refine descend_sectionEntries p h.descend_bindings h.descend_commands ?_
  simp only [Descend, List.forall_mem_cons]
  exact ⟨⟨by decide, by simp⟩, ⟨by decide, by simp⟩, by simp⟩

theorem sourceFiles_eq (h : SegmentNames p) (o : Options) : sourceFiles o p = ofSegments (sourceEntries o p) := by
  have hsections := sectionEntries_eq p h.descend_bindings h.descend_commands
  rw [sourceFiles, h.bindingsFiles_eq, h.commandsFiles_eq, hsections, FileTree.insert_name _ (by decide),
    FileTree.insert_name _ (by decide), sectionEntries_append, sectionEntries_append]
  rfl

theorem descend_package (h : SegmentNames p) (o : Options) :
    Descend (below [utf8 "src"] (sourceEntries o p) ++ [([utf8 "package.json"], manifest o p)]) := by
  rw [FileTree.descend_append]
  refine ⟨(h.descend_source o).below (by decide), ?_⟩
  simp only [Descend, List.forall_mem_cons]
  exact ⟨⟨by decide, by simp⟩, by simp⟩

theorem descend_entries (h : SegmentNames p) (o : Options) : Descend (entries o p) :=
  (h.descend_package o).below (by decide)

/-- **The package is the tree of its list of files.** -/
theorem generate_eq (h : SegmentNames p) (o : Options) : generate o p = ofSegments (entries o p) := by
  have hsrc : parts (utf8 "src") = [utf8 "src"] := by decide
  have hpackage : parts (utf8 "package") = [utf8 "package"] := by decide
  rw [generate, h.sourceFiles_eq o, show FileTree.empty = ofSegments [] from rfl,
    FileTree.insertUnder_ofSegments [] (h.descend_source o), FileTree.insert_name _ (by decide), hsrc, List.nil_append,
    FileTree.insertUnder_ofSegments [] (h.descend_package o), hpackage]
  rfl

end SegmentNames

/-! ## The list file by file -/

/-- **The files of the package**, each with its place: the manifest, the two entry points, those of
the libraries if there are any, and the files of each library and of each command. -/
inductive FileAt (o : Options) (p : Package) : List Bytes → Bytes → Prop
  | manifest : FileAt o p [utf8 "package", utf8 "package.json"] (manifest o p)
  | index : FileAt o p [utf8 "package", utf8 "src", utf8 "index.js"] (topLevelIndex o p)
  | types : FileAt o p [utf8 "package", utf8 "src", utf8 "index.d.ts"] (topLevelTypes o p)
  | bindingsIndex (h : p.libraries ≠ []) :
    FileAt o p [utf8 "package", utf8 "src", utf8 "bindings", utf8 "index.js"] (bindingsIndex p.libraries)
  | bindingsTypes (h : p.libraries ≠ []) :
    FileAt o p [utf8 "package", utf8 "src", utf8 "bindings", utf8 "index.d.ts"] (bindingsTypes p.libraries)
  | library {l : Library} {rest : List Bytes} {data : Bytes} (hl : l ∈ p.libraries)
    (h : (rest, data) ∈ libraryEntries l) :
    FileAt o p (utf8 "package" :: utf8 "src" :: utf8 "bindings" :: l.interfaceName :: rest) data
  | command {c : Command} {rest : List Bytes} {data : Bytes} (hc : c ∈ p.commands)
    (h : (rest, data) ∈ commandEntries c) :
    FileAt o p (utf8 "package" :: utf8 "src" :: utf8 "commands" :: rest) data

theorem mem_entries {o : Options} {p : Package} {place : List Bytes} {data : Bytes} :
    (place, data) ∈ entries o p ↔ FileAt o p place data := by
  simp only [entries, sourceEntries, bindingsEntries, FileTree.mem_below, List.mem_append, mem_sectionEntries,
    List.mem_flatMap, List.mem_cons, List.not_mem_nil, or_false, Prod.mk.injEq]
  constructor
  · rintro ⟨_, rfl, ⟨_, rfl, hsource⟩ | ⟨rfl, rfl⟩⟩
    · rcases hsource with ⟨hne, _, rfl, ⟨l, hl, rest, rfl, hin⟩ | ⟨rfl, rfl⟩ | ⟨rfl, rfl⟩⟩ |
        ⟨-, rest, rfl, c, hc, hin⟩ | ⟨rfl, rfl⟩ | ⟨rfl, rfl⟩
      · exact .library hl hin
      · exact .bindingsIndex hne
      · exact .bindingsTypes hne
      · exact .command hc hin
      · exact .index
      · exact .types
    · exact .manifest
  · intro h
    cases h with
    | manifest => exact ⟨_, rfl, .inr ⟨rfl, rfl⟩⟩
    | index => exact ⟨_, rfl, .inl ⟨_, rfl, .inr (.inr (.inl ⟨rfl, rfl⟩))⟩⟩
    | types => exact ⟨_, rfl, .inl ⟨_, rfl, .inr (.inr (.inr ⟨rfl, rfl⟩))⟩⟩
    | bindingsIndex hne => exact ⟨_, rfl, .inl ⟨_, rfl, .inl ⟨hne, _, rfl, .inr (.inl ⟨rfl, rfl⟩)⟩⟩⟩
    | bindingsTypes hne => exact ⟨_, rfl, .inl ⟨_, rfl, .inl ⟨hne, _, rfl, .inr (.inr ⟨rfl, rfl⟩)⟩⟩⟩
    | library hl hin =>
      exact ⟨_, rfl, .inl ⟨_, rfl, .inl ⟨List.ne_nil_of_mem hl, _, rfl, .inl ⟨_, hl, _, rfl, hin⟩⟩⟩⟩
    | command hc hin =>
      exact ⟨_, rfl, .inl ⟨_, rfl, .inr (.inl ⟨List.ne_nil_of_mem hc, _, rfl, _, hc, hin⟩)⟩⟩

/-- The names of the files in the directory of a library: its glue and its module. -/
def filesOf (l : Library) : List Bytes := (Glue.JavaScript.generate l.interface l.imports).paths ++ [l.filename]

/-- The path of a file of a library. -/
def libraryPath (l : Library) (file : Bytes) : Bytes :=
  utf8 "package/src/bindings/" ++ l.interfaceName ++ utf8 "/" ++ file

/-- The path of a file of a command. -/
def commandPath (c : Command) (ending : String) : Bytes := utf8 "package/src/commands/" ++ c.name ++ utf8 ending

/-- The paths that a package describes. -/
def describedPaths (p : Package) : List Bytes :=
  [utf8 "package/package.json", utf8 "package/src/index.js", utf8 "package/src/index.d.ts"]
    ++ (if p.libraries.isEmpty then [] else
      [utf8 "package/src/bindings/index.js", utf8 "package/src/bindings/index.d.ts"])
    ++ p.libraries.flatMap (fun l => (filesOf l).map (libraryPath l))
    ++ p.commands.flatMap fun c => [commandPath c ".js", commandPath c ".d.ts", commandPath c ".wasm"]

theorem join_library (l : Library) (file : Bytes) :
    Bytes.join [slash] [utf8 "package", utf8 "src", utf8 "bindings", l.interfaceName, file] = libraryPath l file := by
  have hdirs : utf8 "package/src/bindings/"
      = utf8 "package" ++ slash :: (utf8 "src" ++ slash :: (utf8 "bindings" ++ [slash])) := by decide
  have hslash : utf8 "/" = [slash] := by decide
  rw [libraryPath, hdirs, hslash]
  simp [Bytes.join]

theorem join_command (c : Command) (ending : String) :
    Bytes.join [slash] [utf8 "package", utf8 "src", utf8 "commands", c.name ++ utf8 ending] = commandPath c ending := by
  have hdirs : utf8 "package/src/commands/"
      = utf8 "package" ++ slash :: (utf8 "src" ++ slash :: (utf8 "commands" ++ [slash])) := by decide
  rw [commandPath, hdirs]
  simp [Bytes.join]

namespace SegmentNames

variable {p : Package} {l : Library} {c : Command} {o : Options}

theorem place_iff_filesOf (h : SegmentNames p) (hl : l ∈ p.libraries) {rest : List Bytes} :
    (∃ data, (rest, data) ∈ libraryEntries l) ↔ ∃ f ∈ filesOf l, rest = [f] := by
  have hplaces : (∃ data, (rest, data) ∈ libraryEntries l) ↔ rest ∈ (libraryEntries l).map (·.1) := by simp
  rw [hplaces, libraryEntries, List.map_append, List.mem_append, Glue.JavaScript.place_iff (h.isBase hl)]
  simp [filesOf, or_and_right, exists_or]

theorem path_of_file (h : SegmentNames p) {place : List Bytes} {data : Bytes} (hfile : FileAt o p place data) :
    Bytes.join [slash] place ∈ (generate o p).paths := by
  rw [h.generate_eq o, FileTree.mem_paths_ofSegments]
  exact ⟨(place, data), mem_entries.2 hfile, rfl⟩

theorem libraryPath_mem_paths (h : SegmentNames p) (hl : l ∈ p.libraries) {file : Bytes} (hfile : file ∈ filesOf l) :
    libraryPath l file ∈ (generate o p).paths := by
  obtain ⟨data, hin⟩ := (h.place_iff_filesOf hl).2 ⟨file, hfile, rfl⟩
  exact join_library l file ▸ h.path_of_file (.library hl hin)

/-- **The paths of the package are those it describes.** -/
theorem mem_paths (h : SegmentNames p) {q : Bytes} : q ∈ (generate o p).paths ↔ q ∈ describedPaths p := by
  have hfixed : Bytes.join [slash] [utf8 "package", utf8 "package.json"] = utf8 "package/package.json" ∧
      Bytes.join [slash] [utf8 "package", utf8 "src", utf8 "index.js"] = utf8 "package/src/index.js" ∧
      Bytes.join [slash] [utf8 "package", utf8 "src", utf8 "index.d.ts"] = utf8 "package/src/index.d.ts" ∧
      Bytes.join [slash] [utf8 "package", utf8 "src", utf8 "bindings", utf8 "index.js"]
        = utf8 "package/src/bindings/index.js" ∧
      Bytes.join [slash] [utf8 "package", utf8 "src", utf8 "bindings", utf8 "index.d.ts"]
        = utf8 "package/src/bindings/index.d.ts" := by decide
  obtain ⟨hmanifest, hindex, htypes, hbindingsIndex, hbindingsTypes⟩ := hfixed
  have hbindings : q ∈ (if p.libraries.isEmpty then [] else
      [utf8 "package/src/bindings/index.js", utf8 "package/src/bindings/index.d.ts"]) ↔
      p.libraries ≠ [] ∧ (q = utf8 "package/src/bindings/index.js" ∨ q = utf8 "package/src/bindings/index.d.ts") := by
    cases p.libraries <;> simp
  rw [describedPaths, List.mem_append, List.mem_append, List.mem_append, hbindings, List.mem_flatMap, List.mem_flatMap]
  constructor
  · intro hq
    rw [h.generate_eq o, FileTree.mem_paths_ofSegments] at hq
    obtain ⟨⟨place, data⟩, he, rfl⟩ := hq
    cases mem_entries.1 he with
    | manifest => exact .inl (.inl (.inl (by simp [hmanifest])))
    | index => exact .inl (.inl (.inl (by simp [hindex])))
    | types => exact .inl (.inl (.inl (by simp [htypes])))
    | bindingsIndex hne => exact .inl (.inl (.inr ⟨hne, .inl hbindingsIndex⟩))
    | bindingsTypes hne => exact .inl (.inl (.inr ⟨hne, .inr hbindingsTypes⟩))
    | library hl hin =>
      obtain ⟨f, hf, rfl⟩ := (h.place_iff_filesOf hl).1 ⟨_, hin⟩
      exact .inl (.inr ⟨_, hl, List.mem_map.2 ⟨f, hf, (join_library _ f).symm⟩⟩)
    | command hc hin =>
      refine .inr ⟨_, hc, ?_⟩
      simp only [commandEntries, List.mem_cons, List.not_mem_nil, or_false, Prod.mk.injEq] at hin
      rcases hin with ⟨rfl, -⟩ | ⟨rfl, -⟩ | ⟨rfl, -⟩
      · simp [join_command _ ".js"]
      · simp [join_command _ ".d.ts"]
      · simp [commandModule, join_command _ ".wasm"]
  · simp only [List.mem_cons, List.not_mem_nil, or_false]
    rintro ((((rfl | rfl | rfl) | ⟨hne, rfl | rfl⟩) | ⟨l, hl, hq⟩) | ⟨c, hc, rfl | rfl | rfl⟩)
    · exact hmanifest ▸ h.path_of_file .manifest
    · exact hindex ▸ h.path_of_file .index
    · exact htypes ▸ h.path_of_file .types
    · exact hbindingsIndex ▸ h.path_of_file (.bindingsIndex hne)
    · exact hbindingsTypes ▸ h.path_of_file (.bindingsTypes hne)
    · obtain ⟨f, hf, rfl⟩ := List.mem_map.1 hq
      exact h.libraryPath_mem_paths hl hf
    · exact join_command c ".js" ▸ h.path_of_file (.command hc (source_mem_commandEntries c))
    · exact join_command c ".d.ts" ▸ h.path_of_file (.command hc (types_mem_commandEntries c))
    · exact join_command c ".wasm" ▸ h.path_of_file (.command hc (module_mem_commandEntries c))

/-! ## What stands at a path -/

/-- A file whose place only that file has is found at its path. -/
theorem get?_of_file (h : SegmentNames p) {place : List Bytes} {data : Bytes} (hfile : FileAt o p place data)
    (honly : ∀ data', FileAt o p place data' → data' = data) :
    (generate o p).get? (Bytes.join [slash] place) = some data := by
  have hin : (place, data) ∈ entries o p := mem_entries.2 hfile
  have hne : place ≠ [] := by
    rintro rfl
    cases hfile
  rw [h.generate_eq o, FileTree.get?_ofSegments (h.descend_entries o),
    SlashPath.parts_join_names hne (h.descend_entries o _ hin)]
  refine Table.lastOf_of_agree (fun e he heq => honly e.2 ?_) hin
  exact mem_entries.1 (heq ▸ he)

/-- The file of a module is none of the glue. -/
theorem module_of_filename (h : SegmentNames p) (hl : l ∈ p.libraries) {data : Bytes}
    (hin : ([l.filename], data) ∈ libraryEntries l) : data = l.module.wasm := by
  rcases List.mem_append.1 hin with hin | hin
  · have hsource := Glue.JavaScript.isSource_of_glue (h.isBase hl) (List.mem_map_of_mem (f := (·.1)) hin)
    exact absurd (module_suffix [] _) hsource.not_module
  · exact (Prod.mk.inj (List.mem_singleton.1 hin)).2

/-- Two directories and two files that are told apart below `src`. -/
theorem names_apart : utf8 "bindings" ≠ utf8 "commands" ∧ utf8 "index.js" ≠ utf8 "index.d.ts" ∧
    utf8 "index.js" ≠ utf8 "commands" := by decide

theorem get?_libraryModule (h : SegmentNames p) (hnodup : (p.libraries.map Library.interfaceName).Nodup)
    (hl : l ∈ p.libraries) : (generate o p).get? (libraryPath l l.filename) = some l.module.wasm := by
  rw [← join_library]
  refine h.get?_of_file (.library hl (by simp [libraryEntries])) fun data hfile => ?_
  generalize hplace : [utf8 "package", utf8 "src", utf8 "bindings", l.interfaceName, l.filename] = place at hfile
  cases hfile with
  | library hl' hin =>
    simp only [List.cons.injEq, true_and] at hplace
    obtain ⟨hname, rfl⟩ := hplace
    obtain rfl := List.inj_on_of_nodup_map hnodup hl' hl hname.symm
    exact h.module_of_filename hl hin
  | _ => simp [names_apart] at hplace

/-- The files of commands with different names have different names. -/
theorem eq_of_commandEntries (hnodup : (p.commands.map (·.name)).Nodup) {c' : Command} (hc : c ∈ p.commands)
    (hc' : c' ∈ p.commands) {file data data' : Bytes} (hin : ([file], data) ∈ commandEntries c)
    (hin' : ([file], data') ∈ commandEntries c') : data' = data := by
  simp only [commandEntries, commandModule, List.mem_cons, List.not_mem_nil, or_false, Prod.mk.injEq,
    List.singleton_inj] at hin hin'
  have hsame : ∀ {e : Bytes}, c.name ++ e = c'.name ++ e → c = c' := fun heq =>
    List.inj_on_of_nodup_map hnodup hc hc' (List.append_cancel_right heq)
  rcases hin with ⟨rfl, rfl⟩ | ⟨rfl, rfl⟩ | ⟨rfl, rfl⟩ <;> rcases hin' with ⟨heq, rfl⟩ | ⟨heq, rfl⟩ | ⟨heq, rfl⟩
  -- the three cases of one ending, then the six of two
  case inl.inl => rw [hsame heq]
  case inr.inl.inr.inl => rw [hsame heq]
  case inr.inr.inr.inr => rw [hsame heq]
  all_goals exact absurd heq (append_ne_append (by decide) (by decide) _ _)

theorem get?_command (h : SegmentNames p) (hnodup : (p.commands.map (·.name)).Nodup) (hc : c ∈ p.commands)
    {ending : String} {data : Bytes} (hin : ([c.name ++ utf8 ending], data) ∈ commandEntries c) :
    (generate o p).get? (commandPath c ending) = some data := by
  rw [← join_command]
  refine h.get?_of_file (.command hc hin) fun data' hfile => ?_
  generalize hplace : [utf8 "package", utf8 "src", utf8 "commands", c.name ++ utf8 ending] = place at hfile
  cases hfile with
  | command hc' hin' =>
    simp only [List.cons.injEq, true_and] at hplace
    subst hplace
    exact eq_of_commandEntries hnodup hc hc' hin hin'
  | _ => simp [names_apart.1.symm] at hplace

theorem get?_bindingsIndex (h : SegmentNames p) (hne : p.libraries ≠ []) :
    (generate o p).get? (utf8 "package/src/bindings/index.js") = some (bindingsIndex p.libraries) := by
  have hpath : utf8 "package/src/bindings/index.js"
      = Bytes.join [slash] [utf8 "package", utf8 "src", utf8 "bindings", utf8 "index.js"] := by decide
  rw [hpath]
  refine h.get?_of_file (.bindingsIndex hne) fun data hfile => ?_
  generalize hplace : [utf8 "package", utf8 "src", utf8 "bindings", utf8 "index.js"] = place at hfile
  cases hfile with
  | bindingsIndex => rfl
  | library hl hin =>
    simp only [List.cons.injEq, true_and] at hplace
    obtain ⟨f, -, rfl⟩ := (h.place_iff_filesOf hl).1 ⟨_, hin⟩
    simp at hplace
  | _ => simp [names_apart] at hplace

theorem get?_index (h : SegmentNames p) :
    (generate o p).get? (utf8 "package/src/index.js") = some (topLevelIndex o p) := by
  have hpath : utf8 "package/src/index.js"
      = Bytes.join [slash] [utf8 "package", utf8 "src", utf8 "index.js"] := by decide
  rw [hpath]
  refine h.get?_of_file .index fun data hfile => ?_
  generalize hplace : [utf8 "package", utf8 "src", utf8 "index.js"] = place at hfile
  cases hfile with
  | index => rfl
  | _ => simp [names_apart] at hplace

theorem get?_manifest (h : SegmentNames p) :
    (generate o p).get? (utf8 "package/package.json") = some (manifest o p) := by
  have hpath : utf8 "package/package.json" = Bytes.join [slash] [utf8 "package", utf8 "package.json"] := by decide
  rw [hpath]
  refine h.get?_of_file .manifest fun data hfile => ?_
  generalize hplace : [utf8 "package", utf8 "package.json"] = place at hfile
  cases hfile with
  | manifest => rfl
  | _ => simp at hplace

/-- **A module in the package** is that of a library or of a command. -/
theorem module_of_path (h : SegmentNames p) {q : Bytes} (hq : q ∈ (generate o p).paths) (hmodule : utf8 ".wasm" <:+ q) :
    (∃ l ∈ p.libraries, q = libraryPath l l.filename) ∨ ∃ c ∈ p.commands, q = commandPath c ".wasm" := by
  have hsource : ∀ place n, ¬utf8 ".wasm" <:+ n ∧ ¬n <:+ utf8 ".wasm" →
      ¬utf8 ".wasm" <:+ Bytes.join [slash] (place ++ [n]) := fun place n hn => (isSource_of_name hn place).not_module
  rw [h.generate_eq o, FileTree.mem_paths_ofSegments] at hq
  obtain ⟨⟨place, data⟩, he, rfl⟩ := hq
  cases mem_entries.1 he with
  | manifest => exact absurd hmodule (hsource [_] _ (by decide))
  | index => exact absurd hmodule (hsource [_, _] _ (by decide))
  | types => exact absurd hmodule (hsource [_, _] _ (by decide))
  | bindingsIndex => exact absurd hmodule (hsource [_, _, _] _ (by decide))
  | bindingsTypes => exact absurd hmodule (hsource [_, _, _] _ (by decide))
  | @library l rest data hl hin =>
    rcases List.mem_append.1 hin with hin | hin
    · have hglue := Glue.JavaScript.isSource_of_glue (h.isBase hl) (List.mem_map_of_mem (f := (·.1)) hin)
      exact absurd hmodule ((((hglue.below _).below _).below _).below _).not_module
    · obtain ⟨rfl, -⟩ := Prod.mk.inj (List.mem_singleton.1 hin)
      exact .inl ⟨l, hl, join_library l _⟩
  | @command c rest data hc hin =>
    simp only [commandEntries, List.mem_cons, List.not_mem_nil, or_false, Prod.mk.injEq] at hin
    rcases hin with ⟨rfl, -⟩ | ⟨rfl, -⟩ | ⟨rfl, -⟩
    · exact absurd hmodule (isSource_of_ending (by decide) [_, _, _] _).not_module
    · exact absurd hmodule (isSource_of_ending (by decide) [_, _, _] _).not_module
    · exact .inr ⟨c, hc, join_command c _⟩

end SegmentNames

end Npm

end Bindery
