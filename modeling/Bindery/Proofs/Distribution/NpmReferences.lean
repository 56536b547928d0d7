/-
What the sources of the npm package refer to. Each source is read line by line: a line that
refers to a file says which, and no other line has a relative file name in it. Every file that
is referred to is in the package (`package_as_described`), which is otherwise what the package
describes: its paths, its modules and what it depends on.
-/
import Bindery.Proofs.Distribution.NpmFiles

namespace Bindery

open SlashPath (parts IsName slash dot)
open FileTree (normalize)

namespace SlashPath

/-- A path relative to where one is goes on from there. -/
theorem parts_here {ds ns : List Bytes} (hds : ds ≠ []) (hns : ns ≠ []) (h : ∀ s ∈ ds ++ ns, IsName s) :
    parts (Bytes.join [slash] ds ++ slash :: dot :: slash :: Bytes.join [slash] ns) = ds ++ ns := by
  obtain ⟨hdirs, hnames⟩ := List.forall_mem_append.1 h
  have hrooted : isRooted (Bytes.join [slash] ds ++ slash :: dot :: slash :: Bytes.join [slash] ns) = false := by
    obtain ⟨d, ds, rfl⟩ := List.exists_cons_of_ne_nil hds
    have hdir := join_parts_ne_slash fun s hs => (hdirs s hs).isPart
    have hne : Bytes.join [slash] (d :: ds) ≠ [] := Bytes.join_ne_nil (hdirs d (by simp)).ne_nil
    obtain ⟨b, t, hbt⟩ := List.exists_cons_of_ne_nil hne
    rw [hbt] at hdir ⊢
    exact hdir
  have hsplit : (Bytes.join [slash] ds ++ slash :: dot :: slash :: Bytes.join [slash] ns).split slash
      = ds ++ ([dot] :: ns) := by
    have hhere : Bytes.split slash (dot :: slash :: Bytes.join [slash] ns) = [[dot]] ++ ns := by
      have hrest : Bytes.split slash ([dot] ++ slash :: Bytes.join [slash] ns) = _ := Bytes.split_append_sep _ _
      rw [split_join_parts hns fun s hs => (hnames s hs).isPart] at hrest
      exact hrest
    rw [Bytes.split_append_sep, hhere, split_join_parts hds fun s hs => (hdirs s hs).isPart]
    rfl
  rw [parts, hrooted, hsplit, resolve_append, resolve_skip (.inr rfl), resolve_names false [] hdirs,
    resolve_names false _ hnames, List.reverse_reverse]
  rfl

theorem normalize_here {ds ns : List Bytes} (hds : ds ≠ []) (hns : ns ≠ []) (h : ∀ s ∈ ds ++ ns, IsName s) :
    normalize (Bytes.join [slash] ds ++ utf8 "/" ++ (utf8 "./" ++ Bytes.join [slash] ns))
      = Bytes.join [slash] (ds ++ ns) := by
  have hhere : Bytes.join [slash] ds ++ utf8 "/" ++ (utf8 "./" ++ Bytes.join [slash] ns)
      = Bytes.join [slash] ds ++ slash :: dot :: slash :: Bytes.join [slash] ns := by
    rw [List.append_assoc]
    rfl
  rw [hhere, normalize_eq, parts_here hds hns h]

end SlashPath

namespace Npm

open Glue

/-! ## Sources line by line -/

/-- A line of a source. -/
inductive SourceLine where
  /-- a line that refers to no file -/
  | plain (text : Line)
  /-- a comment that names the generator -/
  | note (text : Line)
  /-- a line with the name of a file between quotes -/
  | refers (before file after : Bytes)
  /-- a line with the name of a file as a literal -/
  | loads (before file after : Bytes)

namespace SourceLine

def spell : SourceLine → Line
  | .plain text | .note text => text
  | .refers before file after => before ++ utf8 "\"" ++ file ++ utf8 "\"" ++ after
  | .loads before file after => before ++ file.quote ++ after

/-- The file that a line refers to. -/
def file? : SourceLine → Option Bytes
  | .plain _ | .note _ => none
  | .refers _ file _ | .loads _ file _ => some file

end SourceLine

/-- The files that a source refers to. -/
def references (source : List SourceLine) : List Bytes := source.filterMap SourceLine.file?

/-- An import of one name from a file. -/
def importSource (name file : Bytes) : SourceLine :=
  .refers (utf8 "import \x7b " ++ name ++ utf8 " \x7d from ") (utf8 "./" ++ file) (utf8 ";")

theorem spell_importSource (name file : Bytes) : (importSource name file).spell = importLine name file := by
  have hopen : utf8 " \x7d from \"./" = utf8 " \x7d from " ++ (utf8 "\"" ++ utf8 "./") := by decide
  have hclose : utf8 "\";" = utf8 "\"" ++ utf8 ";" := by decide
  rw [importSource, SourceLine.spell, importLine, hopen, hclose]
  simp only [List.append_assoc]

/-- The imports for a library: what wraps the interface it exports, and what registers those it imports. -/
def importsSource (l : Library) : List SourceLine :=
  importSource (JavaScript.exportsClass l.interfaceName) (glueFile l l.interfaceName)
    :: l.imports.map fun i => importSource (JavaScript.importsFunction i.name) (glueFile l i.name)

/-- The loading function of a library. Its sixth line opens the module. -/
def loadSource (l : Library) : List SourceLine :=
  ((loadLines l).take 5).map .plain
    ++ [.loads (utf8 "  const module = await loadModule(") (utf8 "./" ++ l.interfaceName ++ utf8 "/" ++ l.filename)
      (utf8 ");")]
    ++ ((loadLines l).drop 6).map .plain

/-- `bindings/index.js`. -/
def bindingsSource (ls : List Library) : List SourceLine :=
  [.plain []]
    ++ ls.flatMap importsSource
    ++ ((if ls.any Library.requiresWasi then fixed ["import \x7b init, WASI \x7d from \"@wasmer/wasi\";"] else [])
      ++ fixed ["", "async function loadModule(filename) \x7b", "  const url = new URL(filename, import.meta.url);"]
      ++ compileLines).map .plain
    ++ ls.flatMap fun l => .plain [] :: loadSource l

/-- `index.js`. -/
def topLevelSource (o : Options) (p : Package) : List SourceLine :=
  [.note (utf8 "// Generated by " ++ o.generatorText ++ utf8 ".")]
    ++ (if p.libraries.isEmpty then [] else
      [.refers (utf8 "export * as bindings from ") (utf8 "./bindings/index.js") (utf8 ";")])
    ++ p.commands.map (fun c => importSource (runner c.name) (utf8 "commands/" ++ c.name ++ utf8 ".js"))
    ++ (fixed ["", "export const commands = \x7b"] ++ p.commands.map (fun c => utf8 "  " ++ runner c.name ++ utf8 ",")
      ++ fixed ["\x7d;"]).map .plain

/-- The source of a command. -/
def commandLines (c : Command) : List SourceLine :=
  (fixed ["import \x7b init, WASI \x7d from \"@wasmer/wasi\";", "", "async function loadModule() \x7b"]).map .plain
    ++ [.loads (utf8 "  const url = new URL(") (commandModule c.name) (utf8 ", import.meta.url);")]
    ++ (compileLines ++ fixed [""] ++ runComment c
      ++ [utf8 "export async function " ++ runner c.name ++ utf8 "(options = \x7b\x7d) \x7b"]
      ++ fixed
        ["  await init();", "  const module = await loadModule();",
         "  const wasi = new WASI(options.wasi || \x7b\x7d);", "  const instance = await wasi.instantiate(module, \x7b\x7d);",
         "  const code = wasi.start(instance);",
         "  return \x7b code, wasi \x7d;", "\x7d"]).map .plain

theorem map_spell_plain (ls : List Line) : (ls.map SourceLine.plain).map SourceLine.spell = ls := by
  rw [List.map_map]
  exact List.map_id ls

theorem map_spell_importsSource (l : Library) : (importsSource l).map SourceLine.spell
    = importLine (JavaScript.exportsClass l.interfaceName) (glueFile l l.interfaceName)
      :: l.imports.map fun i => importLine (JavaScript.importsFunction i.name) (glueFile l i.name) := by
  simp [importsSource, spell_importSource]

theorem map_spell_loadSource (l : Library) : (loadSource l).map SourceLine.spell = loadLines l := by
  have hline : loadLines l = (loadLines l).take 5
      ++ [utf8 "  const module = await loadModule("
        ++ (utf8 "./" ++ l.interfaceName ++ utf8 "/" ++ l.filename).quote ++ utf8 ");"]
      ++ (loadLines l).drop 6 := rfl
  rw [loadSource, List.map_append, List.map_append, map_spell_plain, map_spell_plain, List.map_singleton,
    SourceLine.spell, ← hline]

theorem spell_bindingsSource (ls : List Library) :
    unlines ((bindingsSource ls).map SourceLine.spell) = bindingsIndex ls := by
  have hloads : ∀ l, ((SourceLine.plain [] :: loadSource l).map SourceLine.spell) = fixed [""] ++ loadLines l := by
    intro l
    rw [List.map_cons, map_spell_loadSource]
    rfl
  rw [bindingsSource, bindingsIndex]
  simp only [List.map_append, List.map_flatMap, map_spell_importsSource, hloads, map_spell_plain, List.append_assoc]
  rfl

theorem spell_topLevelSource (o : Options) (p : Package) :
    unlines ((topLevelSource o p).map SourceLine.spell) = topLevelIndex o p := by
  have hbindings : (if p.libraries.isEmpty then [] else
        [SourceLine.refers (utf8 "export * as bindings from ") (utf8 "./bindings/index.js") (utf8 ";")]).map
          SourceLine.spell
      = if p.libraries.isEmpty then [] else fixed ["export * as bindings from \"./bindings/index.js\";"] := by
    split
    · rfl
    · exact congrArg (fun s : Bytes => [s]) (by decide)
  have hcommands : (p.commands.map fun c =>
        importSource (runner c.name) (utf8 "commands/" ++ c.name ++ utf8 ".js")).map SourceLine.spell
      = p.commands.map fun c => importLine (runner c.name) (utf8 "commands/" ++ c.name ++ utf8 ".js") := by
    simp [spell_importSource]
  rw [topLevelSource, topLevelIndex, topLevelHead]
  simp only [List.map_append, hbindings, hcommands, map_spell_plain]
  simp only [List.append_assoc]
  rfl

theorem spell_commandLines (c : Command) : unlines ((commandLines c).map SourceLine.spell) = commandSource c := by
  rw [commandLines, List.map_append, List.map_append, map_spell_plain, map_spell_plain, commandSource]
  simp only [List.append_assoc]
  rfl

/-! ## No other relative file name -/

/-- The line has no relative file name in it. -/
def NoFile (text : Line) : Prop := ¬utf8 "./" <:+: text

instance (text : Line) : Decidable (NoFile text) := inferInstanceAs (Decidable (¬utf8 "./" <:+: text))

-- without decoding the string first, which is slow to evaluate
instance (s : String) : Decidable (NoFile (utf8 s)) :=
  decidable_of_iff (NoFile s.toByteArray.data.toList) (by rw [utf8_eq_toByteArray])

theorem noFile_of_noSlash {text : Line} (h : slash ∉ text) : NoFile text := by
  intro hin
  exact h (hin.subset (by decide))

/-- No plain line of a source has a relative file name in it. -/
def Complete (source : List SourceLine) : Prop := ∀ text, .plain text ∈ source → NoFile text

theorem complete_append {a b : List SourceLine} : Complete (a ++ b) ↔ Complete a ∧ Complete b := by
  simp [Complete, or_imp, forall_and]

theorem complete_flatMap {ι : Type} {is : List ι} {lines : ι → List SourceLine} :
    Complete (is.flatMap lines) ↔ ∀ i ∈ is, Complete (lines i) := by
  simp only [Complete, List.mem_flatMap]
  grind

theorem complete_plain {ls : List Line} : Complete (ls.map .plain) ↔ ∀ text ∈ ls, NoFile text := by
  simp [Complete]

theorem noFile_fixed {ss : List String} (h : ∀ s ∈ ss, NoFile (utf8 s)) {text : Line} (htext : text ∈ fixed ss) :
    NoFile text := by
  obtain ⟨s, hs, rfl⟩ := List.mem_map.1 htext
  exact h s hs

theorem noFile_compileLines {text : Line} (h : text ∈ compileLines) : NoFile text := noFile_fixed (by decide +kernel) h

theorem noFile_loadLines {l : Library} (h : ∀ i ∈ l.interface :: l.imports, slash ∉ i.name) :
    ∀ text ∈ (loadLines l).take 5 ++ (loadLines l).drop 6, NoFile text := by
  have hself : slash ∉ l.interfaceName := interface_name l ▸ h l.interface (by simp)
  have hloader : slash ∉ loader l.interfaceName := CaseStyle.noSlash_snake hself
  have himports : ∀ i ∈ l.imports, slash ∉ loader i.name :=
    fun i hi => CaseStyle.noSlash_snake (h i (List.mem_cons_of_mem _ hi))
  have hparams : slash ∉ importParams l fun i => loader i.name := by
    simp only [importParams, List.mem_flatMap, List.mem_append, not_exists, not_and, not_or]
    exact fun i hi => ⟨himports i hi, by decide⟩
  intro text htext
  simp only [loadLines, loadComment, List.cons_append, List.nil_append, List.take_succ_cons, List.take_zero,
    List.drop_succ_cons, List.drop_zero, List.mem_cons, List.mem_append, List.mem_map, List.mem_ite_nil_left,
    List.mem_ite_nil_right] at htext
  rcases htext with rfl | rfl | rfl | rfl | rfl |
    ((((⟨-, htext⟩ | ⟨-, htext⟩) | ⟨i, hi, rfl⟩) | htext) | ⟨-, htext⟩) | htext
  · decide
  · refine noFile_of_noSlash ?_
    simp only [List.mem_append, hself, or_false]
    decide
  · decide
  · refine noFile_of_noSlash ?_
    simp only [List.mem_append, hloader, hparams, or_false]
    decide
  · refine noFile_of_noSlash ?_
    simp only [List.mem_append, JavaScript.exportsClass, CaseStyle.noSlash_pascal, or_false]
    decide
  · exact noFile_fixed (by decide) htext
  · exact noFile_fixed (by decide) htext
  · refine noFile_of_noSlash ?_
    simp only [List.mem_append, JavaScript.importsFunction, CaseStyle.noSlash_pascal, himports i hi, or_false]
    decide
  · exact noFile_fixed (by decide) htext
  · exact noFile_fixed (by decide) htext
  · exact noFile_fixed (by decide) htext

theorem complete_bindingsSource {p : Package} (h : SegmentNames p) : Complete (bindingsSource p.libraries) := by
  have hnames : ∀ l ∈ p.libraries, ∀ i ∈ l.interface :: l.imports, slash ∉ i.name :=
    fun l hl i hi => (h.interfaces l hl i hi).noSlash
  have hempty : Complete ([[]].map .plain) := complete_plain.2 (by decide)
  simp only [bindingsSource, complete_append, complete_flatMap, complete_plain]
  refine ⟨⟨⟨hempty, fun l _ => ?_⟩, fun text htext => ?_⟩, fun l hl => ?_⟩
  · simp [Complete, importsSource, importSource]
  · simp only [List.mem_append, List.mem_ite_nil_right] at htext
    rcases htext with (⟨-, htext⟩ | htext) | htext
    · exact noFile_fixed (by decide) htext
    · exact noFile_fixed (by decide) htext
    · exact noFile_compileLines htext
  · rw [← List.singleton_append, complete_append, loadSource, complete_append, complete_append, complete_plain,
      complete_plain]
    have hlines := List.forall_mem_append.1 (noFile_loadLines (hnames l hl))
    exact ⟨hempty, ⟨hlines.1, by simp [Complete]⟩, hlines.2⟩

theorem complete_topLevelSource {p : Package} (h : SegmentNames p) (o : Options) : Complete (topLevelSource o p) := by
  simp only [topLevelSource, complete_append, complete_plain]
  refine ⟨⟨⟨by simp [Complete], ?_⟩, ?_⟩, fun text htext => ?_⟩
  · split <;> simp [Complete]
  · simp [Complete, importSource]
  · simp only [List.mem_append, List.mem_map] at htext
    rcases htext with (htext | ⟨c, hc, rfl⟩) | htext
    · exact noFile_fixed (by decide) htext
    · refine noFile_of_noSlash ?_
      have hrunner : slash ∉ runner c.name := noSlash_replaceAll (h.commands c hc) (by decide)
      simp only [List.mem_append, hrunner, or_false]
      decide
    · exact noFile_fixed (by decide) htext

theorem complete_commandLines {c : Command} (hc : slash ∉ c.name) : Complete (commandLines c) := by
  have hrunner : slash ∉ runner c.name := noSlash_replaceAll hc (by decide)
  simp only [commandLines, complete_append, complete_plain]
  refine ⟨⟨fun text => noFile_fixed (by decide), by simp [Complete]⟩, fun text htext => ?_⟩
  simp only [runComment, List.mem_append, List.mem_cons, List.not_mem_nil, or_false] at htext
  rcases htext with (((htext | htext) | rfl | rfl | rfl) | rfl) | htext
  · exact noFile_compileLines htext
  · exact noFile_fixed (by decide) htext
  · decide
  · refine noFile_of_noSlash ?_
    simp only [List.mem_append, hc, or_false]
    decide
  · decide
  · refine noFile_of_noSlash ?_
    simp only [List.mem_append, hrunner, or_false]
    decide
  · exact noFile_fixed (by decide) htext

/-! ## Every file that is referred to -/

section references

variable {ι : Type} (is : List ι)

theorem references_append (a b : List SourceLine) : references (a ++ b) = references a ++ references b :=
  List.filterMap_append

theorem references_flatMap (lines : ι → List SourceLine) :
    references (is.flatMap lines) = is.flatMap fun i => references (lines i) := by
  induction is with
  | nil => rfl
  | cons i is ih => rw [List.flatMap_cons, references_append, ih, List.flatMap_cons]

theorem references_plain (ls : List Line) : references (ls.map .plain) = [] := by
  simp [references, SourceLine.file?]

theorem references_imports (name file : ι → Bytes) :
    references (is.map fun i => importSource (name i) (file i)) = is.map fun i => utf8 "./" ++ file i := by
  induction is with
  | nil => rfl
  | cons i is ih => exact congrArg (_ :: ·) ih

end references

theorem references_importsSource (l : Library) : references (importsSource l)
    = (l.interface :: l.imports).map fun i => utf8 "./" ++ glueFile l i.name := by
  rw [List.map_cons, interface_name]
  exact congrArg (_ :: ·) (references_imports l.imports _ _)

/-- **What `bindings/index.js` refers to**: the glue of every interface of a library, and its module. -/
theorem references_bindingsSource (ls : List Library) : references (bindingsSource ls)
    = ls.flatMap (fun l => (l.interface :: l.imports).map fun i => utf8 "./" ++ glueFile l i.name)
      ++ ls.map fun l => utf8 "./" ++ l.interfaceName ++ utf8 "/" ++ l.filename := by
  have hloads : ∀ l, references (.plain [] :: loadSource l)
      = [utf8 "./" ++ l.interfaceName ++ utf8 "/" ++ l.filename] := by
    intro l
    rw [← List.singleton_append, references_append, loadSource, references_append, references_append, references_plain,
      references_plain]
    rfl
  rw [bindingsSource, references_append, references_append, references_append, references_flatMap, references_flatMap,
    references_plain]
  simp only [references_importsSource, hloads, List.append_nil]
  rw [← List.map_eq_flatMap]
  rfl

/-- **What `index.js` refers to**: the libraries if there are any, and every command. -/
theorem references_topLevelSource (o : Options) (p : Package) : references (topLevelSource o p)
    = (if p.libraries.isEmpty then [] else [utf8 "./bindings/index.js"])
      ++ p.commands.map fun c => utf8 "./" ++ (utf8 "commands/" ++ c.name ++ utf8 ".js") := by
  rw [topLevelSource, references_append, references_append, references_append, references_plain, references_imports,
    List.append_nil]
  split <;> rfl

/-- **What the source of a command refers to**: its module. -/
theorem references_commandLines (c : Command) : references (commandLines c) = [commandModule c.name] := by
  rw [commandLines, references_append, references_append, references_plain, references_plain]
  rfl

/-! ## References resolved -/

theorem resolve_library {l : Library} {file : Bytes} (hdir : IsName l.interfaceName) (hfile : IsName file) :
    normalize (utf8 "package/src/bindings" ++ utf8 "/" ++ (utf8 "./" ++ l.interfaceName ++ utf8 "/" ++ file))
      = libraryPath l file := by
  have hplace : utf8 "package/src/bindings" = Bytes.join [slash] [utf8 "package", utf8 "src", utf8 "bindings"] := by
    decide
  have hname : utf8 "./" ++ l.interfaceName ++ utf8 "/" ++ file
      = utf8 "./" ++ Bytes.join [slash] [l.interfaceName, file] := by
    have hslash : utf8 "/" = [slash] := by decide
    rw [hslash]
    simp [Bytes.join]
  have hnames : ∀ s ∈ [utf8 "package", utf8 "src", utf8 "bindings"] ++ [l.interfaceName, file], IsName s := by
    simp only [List.forall_mem_append, List.forall_mem_cons]
    exact ⟨⟨by decide, by decide, by decide, by simp⟩, hdir, hfile, by simp⟩
  rw [hplace, hname, SlashPath.normalize_here (by simp) (by simp) hnames]
  exact join_library l file

theorem resolve_command {c : Command} (hc : slash ∉ c.name) :
    normalize (utf8 "package/src" ++ utf8 "/" ++ (utf8 "./" ++ (utf8 "commands/" ++ c.name ++ utf8 ".js")))
      = commandPath c ".js" := by
  have hplace : utf8 "package/src" = Bytes.join [slash] [utf8 "package", utf8 "src"] := by decide
  have hdir : utf8 "commands/" = utf8 "commands" ++ [slash] := by decide
  have hname : utf8 "commands/" ++ c.name ++ utf8 ".js"
      = Bytes.join [slash] [utf8 "commands", c.name ++ utf8 ".js"] := by
    rw [hdir]
    simp [Bytes.join]
  have hnames : ∀ s ∈ [utf8 "package", utf8 "src"] ++ [utf8 "commands", c.name ++ utf8 ".js"], IsName s := by
    simp only [List.forall_mem_append, List.forall_mem_cons]
    exact ⟨⟨by decide, by decide, by simp⟩, by decide, SlashPath.IsEnding.isName (by decide) hc, by simp⟩
  rw [hplace, hname, SlashPath.normalize_here (by simp) (by simp) hnames]
  exact join_command c ".js"

theorem commandPath_eq (c : Command) (ending : String) :
    utf8 "package/src/commands" ++ utf8 "/" ++ (c.name ++ utf8 ending) = commandPath c ending := by
  have hdir : utf8 "package/src/commands/" = utf8 "package/src/commands" ++ utf8 "/" := by decide
  rw [commandPath, hdir]
  simp only [List.append_assoc]

theorem resolve_commandModule {c : Command} (hc : slash ∉ c.name) :
    normalize (utf8 "package/src/commands" ++ utf8 "/" ++ commandModule c.name) = commandPath c ".wasm" := by
  have hnames : ∀ s ∈ [utf8 "package", utf8 "src", utf8 "commands", c.name ++ utf8 ".wasm"], IsName s := by
    simp only [List.forall_mem_cons]
    exact ⟨by decide, by decide, by decide, isEnding_wasm.isName hc, by simp⟩
  rw [commandModule, commandPath_eq, ← join_command, SlashPath.normalize_eq,
    SlashPath.parts_join_names (by simp) hnames]

/-! ## The package -/

/-- A source of the tree: its lines are as given, the lines that refer to no file have no relative
file name in them, and every file that is referred to is in the tree. -/
structure SourceIn (t : FileTree) (dir file : Bytes) (source : List SourceLine) : Prop where
  text : t.get? (dir ++ utf8 "/" ++ file) = some (unlines (source.map SourceLine.spell))
  complete : Complete source
  resolve : ∀ f ∈ references source, normalize (dir ++ utf8 "/" ++ f) ∈ t.paths

theorem bindings_sourceIn {p : Package} (h : SegmentNames p) (o : Options) (hne : p.libraries ≠ []) :
    SourceIn (generate o p) (utf8 "package/src/bindings") (utf8 "index.js") (bindingsSource p.libraries) := by
  have hpath : utf8 "package/src/bindings" ++ utf8 "/" ++ utf8 "index.js" = utf8 "package/src/bindings/index.js" := by
    decide
  have hglue : ∀ l ∈ p.libraries, ∀ i ∈ l.interface :: l.imports,
      normalize (utf8 "package/src/bindings" ++ utf8 "/" ++ (utf8 "./" ++ glueFile l i.name))
        ∈ (generate o p).paths := by
    intro l hl i hi
    have hname := (h.interfaces l hl i hi).noSlash
    have hfile : IsName (i.name ++ utf8 ".js") := SlashPath.IsEnding.isName (by decide) hname
    have hsame : utf8 "./" ++ glueFile l i.name
        = utf8 "./" ++ l.interfaceName ++ utf8 "/" ++ (i.name ++ utf8 ".js") := by
      simp only [glueFile, List.append_assoc]
    rw [hsame, resolve_library (h.isName_directory hl) hfile]
    exact h.libraryPath_mem_paths hl (List.mem_append_left _ (JavaScript.js_mem_paths (h.isBase hl) hi hname))
  refine ⟨?_, complete_bindingsSource h, fun f hf => ?_⟩
  · rw [hpath, h.get?_bindingsIndex hne, spell_bindingsSource]
  · rw [references_bindingsSource] at hf
    rcases List.mem_append.1 hf with hf | hf
    · obtain ⟨l, hl, hf⟩ := List.mem_flatMap.1 hf
      obtain ⟨i, hi, rfl⟩ := List.mem_map.1 hf
      exact hglue l hl i hi
    · obtain ⟨l, hl, rfl⟩ := List.mem_map.1 hf
      rw [resolve_library (h.isName_directory hl) (isName_filename (h.modules l hl))]
      exact h.libraryPath_mem_paths hl (by simp [filesOf])

theorem index_sourceIn {p : Package} (h : SegmentNames p) (o : Options) :
    SourceIn (generate o p) (utf8 "package/src") (utf8 "index.js") (topLevelSource o p) := by
  have hpath : utf8 "package/src" ++ utf8 "/" ++ utf8 "index.js" = utf8 "package/src/index.js" := by decide
  have hbindings : normalize (utf8 "package/src" ++ utf8 "/" ++ utf8 "./bindings/index.js")
      = Bytes.join [slash] [utf8 "package", utf8 "src", utf8 "bindings", utf8 "index.js"] := by decide
  refine ⟨?_, complete_topLevelSource h o, fun f hf => ?_⟩
  · rw [hpath, h.get?_index, spell_topLevelSource]
  · rw [references_topLevelSource, List.mem_append, List.mem_ite_nil_left, List.mem_map] at hf
    rcases hf with ⟨hne, hf⟩ | ⟨c, hc, rfl⟩
    · rw [List.mem_singleton.1 hf, hbindings]
      exact h.path_of_file (.bindingsIndex (by simpa using hne))
    · rw [resolve_command (h.commands c hc), ← join_command]
      exact h.path_of_file (.command hc (source_mem_commandEntries c))

theorem command_sourceIn {p : Package} (h : SegmentNames p) (o : Options) (hnodup : (p.commands.map (·.name)).Nodup)
    {c : Command} (hc : c ∈ p.commands) :
    SourceIn (generate o p) (utf8 "package/src/commands") (c.name ++ utf8 ".js") (commandLines c) := by
  refine ⟨?_, complete_commandLines (h.commands c hc), fun f hf => ?_⟩
  · rw [commandPath_eq, h.get?_command hnodup hc (source_mem_commandEntries c), spell_commandLines]
  · rw [references_commandLines, List.mem_singleton] at hf
    rw [hf, resolve_commandModule (h.commands c hc), ← join_command]
    exact h.path_of_file (.command hc (module_mem_commandEntries c))

/-- The manifest lists what the package depends on last. -/
theorem manifest_eq (o : Options) (p : Package) : ∃ front : List (Bytes × JsonText.Value),
    utf8 "dependencies" ∉ front.map (·.1) ∧
    manifest o p = JsonText.render (.object (front ++ [(utf8 "dependencies", .object
      (if p.requiresWasi then [(utf8 "@wasmer/wasi", .text o.wasiRange)] else []))])) := by
  refine ⟨[(utf8 "name", .text p.metadata.name.npm), (utf8 "version", .text p.metadata.version)]
    ++ JsonText.textUnlessEmpty "description" p.metadata.description
    ++ [(utf8 "main", .text (utf8 "src/index.js")), (utf8 "types", .text (utf8 "src/index.d.ts")),
        (utf8 "type", .text (utf8 "module"))], ?_, ?_⟩
  · rw [JsonText.textUnlessEmpty]
    split <;> simp only [List.map_append, List.map_cons, List.map_nil] <;> decide
  · rw [manifest, List.append_assoc _ [_, _, _]]
    rfl

theorem requiresWasi_iff (p : Package) :
    p.requiresWasi = true ↔ p.commands ≠ [] ∨ ∃ l ∈ p.libraries, l.module.abi = .wasi := by
  simp [Package.requiresWasi, Library.requiresWasi]

/-- The tree is what the package describes. -/
structure Describes (o : Options) (p : Package) (t : FileTree) : Prop where
  /-- it has the paths of the package and no other -/
  paths : ∀ q, q ∈ t.paths ↔ q ∈ describedPaths p
  /-- every library has a directory of its own -/
  directories : (p.libraries.map Library.interfaceName).Nodup
  /-- modules are found where they belong -/
  libraries : ∀ l ∈ p.libraries, t.get? (libraryPath l l.filename) = some l.module.wasm
  commands : ∀ c ∈ p.commands, t.get? (commandPath c ".wasm") = some c.wasm
  /-- there is no other module -/
  modules : ∀ q ∈ t.paths, utf8 ".wasm" <:+ q →
    (∃ l ∈ p.libraries, q = libraryPath l l.filename) ∨ ∃ c ∈ p.commands, q = commandPath c ".wasm"
  /-- the entry points and the commands refer to files of the tree only -/
  bindings : p.libraries ≠ [] →
    SourceIn t (utf8 "package/src/bindings") (utf8 "index.js") (bindingsSource p.libraries)
  index : SourceIn t (utf8 "package/src") (utf8 "index.js") (topLevelSource o p)
  sources : ∀ c ∈ p.commands, SourceIn t (utf8 "package/src/commands") (c.name ++ utf8 ".js") (commandLines c)
  /-- it depends on a WASI host exactly when some part of the package needs one -/
  dependencies : ∃ front deps : List (Bytes × JsonText.Value), utf8 "dependencies" ∉ front.map (·.1) ∧
    t.get? (utf8 "package/package.json")
      = some (JsonText.render (.object (front ++ [(utf8 "dependencies", .object deps)]))) ∧
    (utf8 "@wasmer/wasi" ∈ deps.map (·.1) ↔ p.commands ≠ [] ∨ ∃ l ∈ p.libraries, l.module.abi = .wasi)

/-- **The npm package is what the package describes**, for every package that was accepted and whose
names are names of files. -/
theorem package_as_described {m : Metadata} {ls : List Library} {cs : List Command} {p : Package} (o : Options)
    (hnew : Package.new m ls cs = .ok p) (hnames : SegmentNames p) : Describes o p (generate o p) := by
  obtain ⟨hlibraries, hcommands⟩ := Package.nodup_of_new hnew
  obtain ⟨front, hfront, hmanifest⟩ := manifest_eq o p
  exact {
    paths := fun q => hnames.mem_paths
    directories := hlibraries
    libraries := fun l hl => hnames.get?_libraryModule hlibraries hl
    commands := fun c hc => hnames.get?_command hcommands hc (module_mem_commandEntries c)
    modules := fun q hq hmodule => hnames.module_of_path hq hmodule
    bindings := bindings_sourceIn hnames o
    index := index_sourceIn hnames o
    sources := fun c hc => command_sourceIn hnames o hcommands hc
    dependencies := by
      refine ⟨front, _, hfront, hmanifest ▸ hnames.get?_manifest, ?_⟩
      rw [← requiresWasi_iff]
      cases p.requiresWasi <;> simp }

/-- A package of a library that imports an interface and of a command. -/
def greetings : Package :=
  { metadata := { name := { name := utf8 "greetings" }, version := utf8 "1.0.0" }
    libraries := [{ module := { name := utf8 "greet.wasm", abi := .wasi, wasm := [1] }
                    exports := some { name := utf8 "greet", path := [] }
                    imports := [{ name := utf8 "log", path := [] }] }]
    commands := [{ name := utf8 "say-hello", wasm := [2] }] }

theorem package_as_described_greetings : Describes {} greetings (generate {} greetings) := by
  have hnew : Package.new greetings.metadata greetings.libraries greetings.commands = .ok greetings := rfl
  refine package_as_described {} hnew ⟨?_, ?_, ?_⟩
  · decide
  · decide
  · decide

end Npm

end Bindery
