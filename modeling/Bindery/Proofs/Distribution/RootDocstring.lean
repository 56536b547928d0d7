/-
The docstring of the import package. It says what the package is called, its version, its description
and what generated it, and is meant to hold all of them verbatim. The description is quoted for it;
the version and the name of the generator are spliced in, and have to be inert
(`root_docstring_iff`).
-/
import Bindery.Proofs.Distribution.PipFiles
import Bindery.Proofs.Distribution.Quoting
import Bindery.Proofs.FileTree.Rebase

namespace Bindery

open Docstring
open Glue (Line unlines fixed)
open SlashPath (parts climb under IsName EndsIn)
open FileTree (normalize)

/-! ## Inert lines -/

namespace Docstring

/-- An octet that has no meaning of its own in a literal. -/
def isMild (b : UInt8) : Bool := b < 0x80 && b != 0 && b != 13 && b != 34 && b != 92

theorem inert_nil : Inert [] := ⟨⟨⟨by decide, by simp⟩, by simp⟩, unescaped_nil⟩

theorem inert_cons {b : UInt8} {s : Bytes} (hb : isMild b = true) : Inert (b :: s) ↔ Inert s := by
  simp only [isMild, Bool.and_eq_true, decide_eq_true_eq, bne_iff_ne] at hb
  obtain ⟨⟨⟨⟨hascii, hnul⟩, hreturn⟩, hquote⟩, hslash⟩ := hb
  have hsource : IsSource (b :: s) ↔ IsSource s := by
    simp only [isSource_iff, text_cons hascii, List.mem_cons, or_iff_right hnul.symm]
  have hescape : Unescaped (b :: s) ↔ Unescaped s := by
    rw [unescaped_cons]
    exact ⟨fun h => h.2.2, fun h => ⟨not_fence_of_head hquote, fun heq => absurd heq hslash, h⟩⟩
  constructor
  · exact fun h => ⟨⟨hsource.1 h.toIsSource, fun hin => h.noReturn (List.mem_cons_of_mem b hin)⟩, hescape.1 h.toUnescaped⟩
  · refine fun h => ⟨⟨hsource.2 h.toIsSource, ?_⟩, hescape.2 h.toUnescaped⟩
    simpa using ⟨hreturn.symm, h.noReturn⟩

theorem inert_append {front s : Bytes} (h : ∀ b ∈ front, isMild b = true) : Inert (front ++ s) ↔ Inert s := by
  induction front with
  | nil => rfl
  | cons b front ih =>
    obtain ⟨hb, hfront⟩ := List.forall_mem_cons.1 h
    rw [List.cons_append, inert_cons hb, ih hfront]

end Docstring

theorem PackageName.isMild_toText {raw : Bytes} {n : PackageName} (h : parse raw = .ok n) :
    ∀ b ∈ n.toText, isMild b = true := by
  have hident : ∀ {s : Bytes}, identProblem s = none → ∀ b ∈ s, isMild b = true := fun hs b hb =>
    Byte.forall_octets (P := fun b => isIdentByte b = true → isMild b = true) (by decide +kernel) b
      ((isIdentByte_of_mem hs).2 b hb)
  intro b hb
  cases written_of_parse h with
  | bare hname => exact hident hname b hb
  | underscore hname => exact hident hname b hb
  | @named ns name hns hname =>
    have htext : PackageName.toText { space := .named ns, name } = ns ++ utf8 "/" ++ name :=
      if_neg (by simpa [spaceText] using (isIdentByte_of_mem hns).1)
    rw [htext, List.mem_append, List.mem_append] at hb
    rcases hb with (hb | hb) | hb
    · exact hident hns b hb
    · exact (show ∀ b ∈ utf8 "/", isMild b = true by decide +kernel) b hb
    · exact hident hname b hb

namespace Pip

/-! ## Its text -/

/-- What the docstring of the import package is meant to say. -/
def rootText (generator : Bytes) (m : Metadata) : Bytes :=
  unlines <|
    [[], m.name.toText ++ utf8 " " ++ m.version]
    ++ (if m.description.isEmpty then [] else [[], m.description])
    ++ [[], utf8 "Generated by " ++ generator ++ utf8 "."]

/-- What follows the docstring. -/
def rootCode (p : Package) : Bytes :=
  unlines <|
    [[], []]
    ++ (if p.libraries.isEmpty then [] else fixed ["from . import bindings"])
    ++ (if p.commands.isEmpty then [] else fixed ["from . import commands"])

/-- How the docstring is put together. -/
def rootFields (generator : Bytes) (m : Metadata) : List Field :=
  [.spliced [], .spliced (m.name.toText ++ utf8 " " ++ m.version)]
  ++ (if m.description.isEmpty then [] else [.spliced [], .quoted m.description])
  ++ [.spliced [], .spliced (utf8 "Generated by " ++ generator ++ utf8 ".")]

theorem rootText_eq (generator : Bytes) (m : Metadata) :
    rootText generator m = unlines ((rootFields generator m).map Field.value) := by
  rw [rootText, rootFields]
  split <;> rfl

theorem topLevelInit_eq (generator : Bytes) (p : Package) : topLevelInit generator p
    = fence ++ (unlines ((rootFields generator p.metadata).map Field.source) ++ (fence ++ rootCode p)) := by
  have hline : Bytes.line Pip.fence = Pip.fence ++ Bytes.line [] := rfl
  simp only [topLevelInit, rootFields, rootCode, unlines, List.flatMap_append, List.map_append, List.append_assoc]
  split <;> simp [Field.source, hline]

theorem isText_rootCode (p : Package) : IsText (rootCode p) := by
  rw [rootCode]
  split <;> split <;> decide +kernel

theorem holds_rootFields {raw : Bytes} (generator : Bytes) {m : Metadata} (hname : PackageName.parse raw = .ok m.name) :
    (∀ f ∈ rootFields generator m, f.Holds) ↔
      Inert m.version ∧ IsText m.description ∧ Inert (generator ++ utf8 ".") := by
  have hversion : Inert (m.name.toText ++ utf8 " " ++ m.version) ↔ Inert m.version := by
    rw [List.append_assoc, inert_append (PackageName.isMild_toText hname), inert_append (by decide +kernel)]
  have hgenerator : Inert (utf8 "Generated by " ++ generator ++ utf8 ".") ↔ Inert (generator ++ utf8 ".") := by
    rw [List.append_assoc, inert_append (by decide +kernel)]
  have hdescription : (∀ f ∈ (if m.description.isEmpty then [] else [.spliced [], .quoted m.description] : List Field),
      f.Holds) ↔ IsText m.description := by
    split
    · rename_i hnil
      rw [List.isEmpty_iff.1 hnil]
      simpa using inert_nil.toIsText
    · simp [Field.Holds, inert_nil]
  rw [rootFields, List.forall_mem_append, List.forall_mem_append, hdescription, and_assoc]
  simp only [List.forall_mem_cons, Field.Holds, inert_nil, hversion, hgenerator, true_and, List.not_mem_nil,
    false_imp_iff, implies_true, and_true]

/-! ## Its file -/

/-- A file of the import package that leads out of it is the module of a command. -/
theorem names_below {p : Package} {n : Bytes} (h : n ∈ packageNames p) :
    climb n = 0 ∨ ∃ stem, EndsIn n (stem ++ utf8 ".wasm") := by
  revert n
  simp only [packageNames, List.forall_mem_cons, List.forall_mem_append, forall_mem_unless, List.forall_mem_map,
    List.forall_mem_flatMap]
  refine ⟨.inl (by decide), .inl (by decide), fun _ => ⟨.inl (by decide), fun c _ => .inr ?_⟩,
    fun _ => ⟨.inl (by decide), fun l _ f hf => .inl ?_⟩⟩
  · exact ⟨_, (isEnding_wasm.endsIn (runner c.name)).under _⟩
  · rw [under, under, SlashPath.climb_under_path _ (endsIn_libraryPaths hf).1]
    decide

theorem kept_packageFiles (generator : Bytes) (p : Package) : (packageFiles generator p).Kept := by
  have hempty : FileTree.empty.Kept := FileTree.Made.empty.kept
  refine FileTree.Kept.insert (FileTree.Kept.insert ?_ _ _) _ _
  split <;> split
  · exact hempty
  · exact hempty.insertUnder _ _
  · exact hempty.insertUnder _ _
  · exact (hempty.insertUnder _ _).insertUnder _ _

theorem parts_rootInit {d : Bytes} (hd : IsName d) : parts (d ++ utf8 "/__init__.py") = [d, initFile] := by
  have hslash : utf8 "/__init__.py" = SlashPath.slash :: initFile := by decide
  rw [hslash]
  exact SlashPath.parts_file hd isName_initFile

/-- Of the files of the import package only the one of the docstring comes to its place. -/
theorem eq_initFile_of_place {g : Bytes} {p : Package} (hpy : IsName p.metadata.name.python) {f : Bytes × Bytes}
    (hf : f ∈ (packageFiles g p).files) (hplace : normalize (SlashPath.join [p.metadata.name.python, f.1])
      = normalize (p.metadata.name.python ++ utf8 "/__init__.py")) : f.1 = initFile := by
  obtain ⟨n, hn, hpath⟩ := (filled_packageFiles g p f.1).1 (List.mem_map_of_mem hf)
  have hparts : parts (under [p.metadata.name.python] n) = [p.metadata.name.python, initFile] := by
    rw [under, under, ← hpath, parts_eq_of_normalize hplace, parts_rootInit hpy]
  rcases names_below hn with hclimb | ⟨stem, hends⟩
  · rw [SlashPath.parts_under_dir _ hclimb, (SlashPath.parts_name hpy).2] at hparts
    have hrest : parts n = [initFile] := (List.cons.inj hparts).2
    rw [hpath, SlashPath.normalize_eq, hrest]
    rfl
  · obtain ⟨front, hlast⟩ := (hends.under p.metadata.name.python).last
    have hname : stem ++ utf8 ".wasm" = initFile := by
      have hlasts := congrArg List.getLast? (hlast.symm.trans hparts)
      simpa using hlasts
    exact absurd hname (ne_module (by decide) stem)

/-- The file of the docstring is not replaced, whatever the commands are called. -/
theorem get?_rootInit (generator : Bytes) {p : Package} (hpy : IsName p.metadata.name.python) :
    (generate generator p).get? (p.metadata.name.python ++ utf8 "/__init__.py")
      = some (topLevelInit (if generator.isEmpty then Release.generator else generator) p) := by
  set g := if generator.isEmpty then Release.generator else generator with hg
  have hbeside : ∀ file, IsName file →
      normalize (p.metadata.name.python ++ utf8 "/__init__.py") ≠ normalize file := by
    intro file hfile heq
    have hparts := parts_eq_of_normalize heq
    rw [parts_rootInit hpy, (SlashPath.parts_name hfile).2] at hparts
    cases hparts
  have hfound : (initFile, topLevelInit g p) ∈ (packageFiles g p).files := by
    refine Table.mem_of_find? (?_ : (packageFiles g p).get? initFile = _)
    rw [packageFiles, FileTree.get?_insert_other (by decide)]
    exact FileTree.get?_insert_self _ _ _
  have hown : ∀ f ∈ (packageFiles g p).files, normalize (SlashPath.join [p.metadata.name.python, f.1])
      = normalize (p.metadata.name.python ++ utf8 "/__init__.py") → f.2 = topLevelInit g p := by
    intro f hf hplace
    have hsame := (kept_packageFiles g p).get?_of_mem hf
    rw [eq_initFile_of_place hpy hf hplace, (kept_packageFiles g p).get?_of_mem hfound] at hsame
    exact (Option.some.inj hsame).symm
  have hlast : Table.lastOf (normalize (p.metadata.name.python ++ utf8 "/__init__.py"))
      ((packageFiles g p).files.map fun f => (normalize (SlashPath.join [p.metadata.name.python, f.1]), f.2))
      = some (topLevelInit g p) := by
    refine Table.lastOf_of_agree (List.forall_mem_map.2 hown) (List.mem_map.2 ⟨_, hfound, Prod.ext ?_ rfl⟩)
    have hjoin := SlashPath.parts_under_dir p.metadata.name.python (SlashPath.climb_name isName_initFile)
    rw [(SlashPath.parts_name hpy).2, parts_initFile] at hjoin
    rw [SlashPath.normalize_eq (p.metadata.name.python ++ utf8 "/__init__.py"), parts_rootInit hpy]
    exact (SlashPath.normalize_eq _).trans (congrArg (Bytes.join [SlashPath.slash]) hjoin)
  rw [generate, ← hg, FileTree.get?_insert_other (hbeside _ (by decide)), FileTree.get?_insert_other (hbeside _ (by decide)),
    FileTree.get?, FileTree.insertUnder, FileTree.files_foldl_insert fun f => SlashPath.join [p.metadata.name.python, f],
    Table.find?_foldl_insert_eq, hlast]
  rfl

/-! ## What it is read for -/

/-- **The docstring of the import package is closed by its own closing line and says what it is meant to
say,** the name, the version and the description verbatim, exactly when the version and the name of the
generator are inert, the latter with the full stop behind it, and the description is a text without
carriage returns. -/
theorem root_docstring_iff {raw : Bytes} (named : Bytes → Option Char) (generator : Bytes) {p : Package}
    (hname : PackageName.parse raw = .ok p.metadata.name) :
    let writer := if generator.isEmpty then Release.generator else generator
    ∃ source, (generate generator p).get? (p.metadata.name.python ++ utf8 "/__init__.py") = some source ∧
      (docstring? named source = some (rootText writer p.metadata, rootCode p) ↔
        Inert p.metadata.version ∧ IsText p.metadata.description ∧ Inert (writer ++ utf8 ".")) := by
  intro writer
  refine ⟨_, get?_rootInit generator (PackageName.isName_python hname), ?_⟩
  rw [topLevelInit_eq, rootText_eq, docstring?_eq_iff (isText_rootCode p), holds_rootFields _ hname]

/-- A package of one command with a version and a description. -/
def describedPackage (version description : String) : Package :=
  { metadata := { name := { name := utf8 "demo" }, version := utf8 version, description := utf8 description }
    libraries := []
    commands := [{ name := utf8 "run" }] }

theorem root_docstring_iff_demo :
    ∃ source, (generate [] (describedPackage "1.0.0" "Say \"\"\"hi\"\"\" in C:\\")).get? (utf8 "demo/__init__.py")
        = some source ∧
      docstring? (fun _ => none) source
        = some (utf8 "\ndemo 1.0.0\n\nSay \"\"\"hi\"\"\" in C:\\\n\nGenerated by wasm-pack v0.7.1.\n",
          utf8 "\n\nfrom . import commands\n") := by
  have hname : PackageName.parse (utf8 "demo")
      = .ok (describedPackage "1.0.0" "Say \"\"\"hi\"\"\" in C:\\").metadata.name := rfl
  obtain ⟨source, hsource, hread⟩ := root_docstring_iff (fun _ => none) [] hname
  refine ⟨source, hsource, (hread.2 ⟨?_, ?_, ?_⟩).trans ?_⟩
  · decide +kernel
  · decide +kernel
  · decide +kernel
  · rw [describedPackage, utf8_eq_toByteArray]
    decide +kernel

/-- A version with three quotes in it ends the docstring, and what was to be its rest is code. -/
theorem version_closes_docstring :
    let p := describedPackage "1.0\"\"\"" ""
    Package.new p.metadata p.libraries p.commands = .ok p ∧
    ((generate [] p).get? (utf8 "demo/__init__.py")).bind (docstring? fun _ => none)
      = some (utf8 "\ndemo 1.0",
          utf8 "\n\nGenerated by wasm-pack v0.7.1.\n\"\"\"\n\nfrom . import commands\n") := by
  refine ⟨rfl, ?_⟩
  rw [describedPackage, utf8_eq_toByteArray]
  decide +kernel

end Pip

end Bindery
