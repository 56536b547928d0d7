/-
The names at the top level of a Python module of glue. `moduleTop` is the module as a list of
lines that say which names they bind, and spelling them gives the text that is generated
(`spell_moduleTop`). The runtime, the types and the cases of all interfaces, the interfaces and
their registrations share one namespace.

Main statement: no name is bound twice exactly when the names in Pascal case of types, cases and
interfaces are distinct and none of them is one of the runtime's, and no two imported interfaces
have one name in snake case. Registrations never clash with anything else.
-/
import Bindery.Proofs.CaseStyle
import Bindery.Proofs.FileTree
import Bindery.Proofs.Interface.Scope
import Bindery.Glue.Python
import Mathlib.Data.List.Nodup

namespace Bindery.Glue.Python

/-- A line at the top level of a module, or inside a block of it. -/
inductive TopLine where
  | empty
  /-- a line that is indented -/
  | inside (rest : Bytes)
  | comment (rest : Bytes)
  | decorator (rest : Bytes)
  /-- the end of a table -/
  | close
  /-- a class, with what it derives from in brackets -/
  | cls (name : Bytes) (bases : Option Bytes)
  | func (name : Bytes) (rest : Bytes)
  | assign (name value : Bytes)
  | module (name : Bytes)
  /-- names from another module -/
  | names (source : Bytes) (names : List Bytes)
  deriving DecidableEq, Repr

namespace TopLine

def spell : TopLine → Line
  | .empty => []
  | .inside rest => 32 :: rest
  | .comment rest => 35 :: rest
  | .decorator rest => 64 :: rest
  | .close => [125]
  | .cls n none => utf8 "class " ++ n ++ utf8 ":"
  | .cls n (some bases) => utf8 "class " ++ n ++ utf8 "(" ++ bases ++ utf8 "):"
  | .func n rest => utf8 "def " ++ n ++ utf8 "(" ++ rest
  | .assign n value => n ++ utf8 " = " ++ value
  | .module n => utf8 "import " ++ n
  | .names source ns => utf8 "from " ++ source ++ utf8 " import " ++ Dialect.commas ns

/-- The names that a line binds in the module. -/
def binds : TopLine → List Bytes
  | .cls n _ | .func n _ | .assign n _ | .module n => [n]
  | .names _ ns => ns
  | .empty | .inside _ | .comment _ | .decorator _ | .close => []

/-- The line of a text. -/
def read (l : Line) : TopLine :=
  let name (s : Bytes) := s.takeWhile Byte.isWord
  let rest (s : Bytes) := s.dropWhile Byte.isWord
  match l with
  | [] => .empty
  | 32 :: r => .inside r
  | 35 :: r => .comment r
  | 64 :: r => .decorator r
  | 125 :: _ => .close
  | _ =>
    if (utf8 "class ").isPrefixOf l then
      match rest (l.drop 6) with
      | 40 :: bases => .cls (name (l.drop 6)) (some bases.dropLast.dropLast)
      | _ => .cls (name (l.drop 6)) none
    else if (utf8 "def ").isPrefixOf l then .func (name (l.drop 4)) (rest (l.drop 4)).tail
    else if (utf8 "import ").isPrefixOf l then .module (l.drop 7)
    else if (utf8 "from ").isPrefixOf l then
      let s := l.drop 5
      .names (name s) (((rest s).drop 8).splitOn 44 |>.map fun n => n.dropWhile (· == 32))
    else .assign (name l) ((rest l).drop 3)

/-- The lines of an indented block. -/
def block (ls : List Line) : List TopLine :=
  ls.map fun l => if l.isEmpty then .empty else .inside (utf8 "   " ++ l)

theorem spell_block (ls : List Line) : (block ls).map spell = indent unit ls := by
  unfold block indent
  rw [List.map_map]
  refine List.map_congr_left fun l _ => ?_
  simp only [Function.comp_apply]
  split
  · rename_i h
    rw [List.isEmpty_iff.1 h]
    rfl
  · rfl

theorem binds_block (ls : List Line) : (block ls).flatMap binds = [] := by
  simp only [block, List.flatMap_map, List.flatMap_eq_nil_iff]
  intro l _
  split <;> rfl

end TopLine

/-! ## Reading lines -/

/-- A line that is empty, indented, a comment or a decorator. -/
def isQuiet (l : Line) : Bool := l.head?.all (· ∈ [32, 35, 64])

/-- The first line of a function. -/
def isFunc (l : Line) : Bool :=
  (utf8 "def ").isPrefixOf l && ((l.drop 4).dropWhile Byte.isWord).head? == some 40

theorem read_of_isQuiet {l : Line} (h : isQuiet l = true) :
    (TopLine.read l).spell = l ∧ (TopLine.read l).binds = [] := by
  match l with
  | [] => exact ⟨rfl, rfl⟩
  | b :: r =>
    simp only [isQuiet, List.head?_cons, Option.all_some, List.mem_cons, List.not_mem_nil, or_false, decide_eq_true_eq] at h
    rcases h with rfl | rfl | rfl <;> exact ⟨rfl, rfl⟩

theorem spell_read_of_isFunc {l : Line} (h : isFunc l = true) : (TopLine.read l).spell = l := by
  rw [isFunc, Bool.and_eq_true, beq_iff_eq, List.isPrefixOf_iff_prefix] at h
  obtain ⟨⟨s, rfl⟩, hrest⟩ := h
  have hdrop : (utf8 "def " ++ s).drop 4 = s := rfl
  have hread : TopLine.read (utf8 "def " ++ s) = .func (s.takeWhile Byte.isWord) (s.dropWhile Byte.isWord).tail := rfl
  rw [hdrop] at hrest
  rw [hread, TopLine.spell]
  calc utf8 "def " ++ s.takeWhile Byte.isWord ++ utf8 "(" ++ (s.dropWhile Byte.isWord).tail
      = utf8 "def " ++ (s.takeWhile Byte.isWord ++ (40 :: (s.dropWhile Byte.isWord).tail)) := by
        rw [List.append_assoc, List.append_assoc]
        rfl
    _ = utf8 "def " ++ (s.takeWhile Byte.isWord ++ s.dropWhile Byte.isWord) := by
      rw [List.cons_head?_tail hrest]
    _ = utf8 "def " ++ s := by rw [List.takeWhile_append_dropWhile]

/-- The lines are read as what they spell, and bind the names. -/
structure Reads (ls : List Line) (ns : List Bytes) : Prop where
  spell : (ls.map TopLine.read).map TopLine.spell = ls
  binds : (ls.map TopLine.read).flatMap TopLine.binds = ns

namespace Reads

variable {ls ls' : List Line} {ns ns' : List Bytes}

theorem nil : Reads [] [] := ⟨rfl, rfl⟩

theorem append (h : Reads ls ns) (h' : Reads ls' ns') : Reads (ls ++ ls') (ns ++ ns') where
  spell := by rw [List.map_append, List.map_append, h.spell, h'.spell]
  binds := by rw [List.map_append, List.flatMap_append, h.binds, h'.binds]

theorem line {l : Line} (hs : (TopLine.read l).spell = l) (hb : (TopLine.read l).binds = ns) : Reads [l] ns :=
  ⟨by simp [hs], by simp [hb]⟩

theorem quiet (h : ∀ l ∈ ls, isQuiet l = true) : Reads ls [] := by
  induction ls with
  | nil => exact nil
  | cons l ls ih =>
    have hl := read_of_isQuiet (h l (by simp))
    exact (line hl.1 hl.2).append (ih fun l' hl' => h l' (by simp [hl']))

theorem block (ls : List Line) : Reads (indent unit ls) [] := by
  refine quiet fun l hl => ?_
  obtain ⟨l', -, rfl⟩ := List.mem_map.1 hl
  split
  · rename_i h
    rw [List.isEmpty_iff.1 h]
    rfl
  · rfl

theorem flatMap {α : Type} {as : List α} {f : α → List Line} {g : α → List Bytes} (h : ∀ a ∈ as, Reads (f a) (g a)) :
    Reads (as.flatMap f) (as.flatMap g) := by
  induction as with
  | nil => exact nil
  | cons a as ih => exact (h a (by simp)).append (ih fun a' ha' => h a' (by simp [ha']))

end Reads

/-- Only letters, digits and underscores. -/
def IsWord (n : Bytes) : Prop := ∀ b ∈ n, Byte.isWord b = true

theorem takeWhile_word {n : Bytes} (hn : IsWord n) {rest : Bytes} (hrest : rest.head?.all (!Byte.isWord ·) = true) :
    (n ++ rest).takeWhile Byte.isWord = n ∧ (n ++ rest).dropWhile Byte.isWord = rest := by
  induction n with
  | nil =>
    cases rest with
    | nil => exact ⟨rfl, rfl⟩
    | cons b rest =>
      have hb : Byte.isWord b = false := by simpa using hrest
      simp [hb]
  | cons b n ih =>
    have hb : Byte.isWord b = true := hn b (by simp)
    have hih := ih fun b' hb' => hn b' (by simp [hb'])
    simp [hb, hih]

theorem read_class (s : Bytes) : TopLine.read (utf8 "class " ++ s) =
    match s.dropWhile Byte.isWord with
    | 40 :: bases => .cls (s.takeWhile Byte.isWord) (some bases.dropLast.dropLast)
    | _ => .cls (s.takeWhile Byte.isWord) none := rfl

theorem reads_class {n : Bytes} (hn : IsWord n) : Reads [utf8 "class " ++ n ++ utf8 ":"] [n] := by
  obtain ⟨htake, hdrop⟩ := @takeWhile_word n hn (utf8 ":") (by decide)
  have hread : TopLine.read (utf8 "class " ++ n ++ utf8 ":") = .cls n none := by
    rw [List.append_assoc, read_class, htake, hdrop]
    rfl
  exact .line (by rw [hread]; rfl) (by rw [hread]; rfl)

theorem reads_derived {n : Bytes} (hn : IsWord n) (bases : Bytes) {tail : Bytes}
    (htail : tail = 40 :: (bases ++ [41, 58])) : Reads [utf8 "class " ++ n ++ tail] [n] := by
  subst htail
  obtain ⟨htake, hdrop⟩ := @takeWhile_word n hn (40 :: (bases ++ [41, 58])) rfl
  have hread : TopLine.read (utf8 "class " ++ n ++ 40 :: (bases ++ [41, 58])) = .cls n (some bases) := by
    rw [List.append_assoc, read_class, htake, hdrop]
    simp
  exact .line (by rw [hread, TopLine.spell]; simp; rfl) (by rw [hread]; rfl)

/-! ## The runtime -/

/-- The lines of the runtime. -/
def runtimeTop : List TopLine := helperLines.map TopLine.read

/-- The names that the runtime binds. -/
def runtimeNames : List Bytes := runtimeTop.flatMap TopLine.binds

/-- How the lines of the runtime are read back, and the names that they bind. -/
theorem runtime_read :
    (∀ l ∈ helperLines, isQuiet l = true ∨ isFunc l = true ∨ (TopLine.read l).spell = l) ∧
    runtimeNames = fixed
      ["annotations", "struct", "abstractmethod", "dataclass", "IntEnum", "IntFlag", "Any", "Callable", "Generic",
       "List", "Optional", "Protocol", "Tuple", "TypeVar", "Union", "wasmer", "T", "E", "Ok", "Err", "Result",
       "_FORMATS", "_load", "_store", "_signed", "_encode_string", "_decode_string", "_load_string", "_store_string",
       "_lower_list", "_lift_list", "_load_list", "_store_list", "_unsupported"] := by
  rw [runtimeNames, runtimeTop, helperLines, fixed, fixed, utf8_eq_toByteArray]
  decide +kernel

theorem spell_runtimeTop : runtimeTop.map TopLine.spell = helperLines := by
  rw [runtimeTop, List.map_map]
  refine (List.map_congr_left fun l hl => ?_).trans (List.map_id _)
  rcases runtime_read.1 l hl with h | h | h
  · exact (read_of_isQuiet h).1
  · exact spell_read_of_isFunc h
  · exact h

/-! ## Types -/

theorem isWord_pascal (n : Bytes) : IsWord (CaseStyle.pascal n) := by
  intro b hb
  rw [Byte.isWord, Bool.or_eq_true, Bool.or_eq_true]
  exact .inl (CaseStyle.mem_joinWords hb)

theorem isWord_caseClass (type case : Bytes) : IsWord (caseClass type case) := by
  intro b hb
  exact (List.mem_append.1 hb).elim (isWord_pascal type b) (isWord_pascal case b)

/-- The classes of the cases of a variant or union. -/
def caseClasses (d : Decl) : List Bytes :=
  match d.body with
  | .variant cs => cs.map fun c => caseClass d.name c.1
  | .union ts => (unionCases ts).map fun c => caseClass d.name c.1
  | _ => []

/-- The classes of a declaration: its own, or those of its cases. -/
def declClasses (d : Decl) : List Bytes :=
  match d.body with
  | .record _ | .enum _ | .flags _ => [CaseStyle.pascal d.name]
  | _ => caseClasses d

/-- The name that a declaration binds after the classes of its interface. -/
def declAliases (d : Decl) : List Bytes :=
  match d.body with
  | .record _ | .enum _ | .flags _ => []
  | _ => [CaseStyle.pascal d.name]

theorem reads_variantLines (type : Bytes) (cases : List (Bytes × TypeExpr)) :
    Reads (variantLines type cases) (cases.map fun c => caseClass type c.1) := by
  rw [← List.flatMap_singleton' (cases.map _), List.flatMap_map]
  refine Reads.flatMap fun c _ => ?_
  have hhead : Reads [[], [], utf8 "@dataclass"] [] := Reads.quiet (by decide)
  exact (hhead.append (reads_class (isWord_caseClass type c.1))).append (.block _)

theorem reads_declLines (d : Decl) : Reads (declLines d) (declClasses d) := by
  have hname := isWord_pascal d.name
  have hgap : Reads [[], []] [] := Reads.quiet (by decide)
  have hdata : Reads [[], [], utf8 "@dataclass"] [] := Reads.quiet (by decide)
  unfold declLines declClasses caseClasses
  cases d.body with
  | record fs => exact (hdata.append (reads_class hname)).append (.block _)
  | enum cs => exact (hgap.append (reads_derived hname (utf8 "IntEnum") rfl)).append (.block _)
  | flags fs => exact (hgap.append (reads_derived hname (utf8 "IntFlag") rfl)).append (.block _)
  | variant cs => exact reads_variantLines d.name cs
  | union ts => exact reads_variantLines d.name (unionCases ts)
  | _ => exact .nil

/-- The line of a name for another type. -/
def aliasTop? (d : Decl) : Option TopLine :=
  (aliasLine? d).map fun l => .assign (CaseStyle.pascal d.name) (l.drop ((CaseStyle.pascal d.name).length + 3))

theorem spell_aliasTop? (d : Decl) : (aliasTop? d).map TopLine.spell = aliasLine? d := by
  have hline (value : Bytes) : TopLine.spell (.assign (CaseStyle.pascal d.name)
      ((CaseStyle.pascal d.name ++ (utf8 " = " ++ value)).drop ((CaseStyle.pascal d.name).length + 3)))
      = CaseStyle.pascal d.name ++ (utf8 " = " ++ value) := by
    rw [List.drop_length_add_append, TopLine.spell, List.append_assoc]
    rfl
  unfold aliasTop? aliasLine?
  cases d.body with
  | variant cs | union ts =>
    simp only [Option.map_some, List.append_assoc]
    exact congrArg some (hline _)
  | resource => exact congrArg some (hline (utf8 "int"))
  | record fs | enum cs | flags fs => rfl
  | _ =>
    simp only [Option.map_some, List.append_assoc]
    exact congrArg some (hline _)

theorem binds_aliasTop? (d : Decl) : (aliasTop? d).toList.flatMap TopLine.binds = declAliases d := by
  unfold aliasTop? aliasLine? declAliases
  cases d.body <;> rfl

/-- The types of an interface. -/
def typesTop (i : Interface) : List TopLine :=
  let aliases := i.types.filterMap aliasTop?
  (i.types.flatMap declLines).map TopLine.read ++ if aliases.isEmpty then [] else [.empty, .empty] ++ aliases

theorem spell_typesTop (i : Interface) : (typesTop i).map TopLine.spell = typeDecls i := by
  have hclasses := (Reads.flatMap fun d (_ : d ∈ i.types) => reads_declLines d).spell
  have haliases : (i.types.filterMap aliasTop?).map TopLine.spell = i.types.filterMap aliasLine? := by
    rw [List.map_filterMap]
    exact List.filterMap_congr fun d _ => spell_aliasTop? d
  have hempty : (i.types.filterMap aliasLine?).isEmpty = (i.types.filterMap aliasTop?).isEmpty := by
    rw [← haliases, List.isEmpty_map]
  rw [typesTop, typeDecls, List.map_append, hclasses, hempty]
  split
  · rfl
  · rw [List.map_append, haliases]
    rfl

theorem binds_typesTop (i : Interface) : (typesTop i).flatMap TopLine.binds =
    i.types.flatMap declClasses ++ i.types.flatMap declAliases := by
  have hclasses := (Reads.flatMap fun d (_ : d ∈ i.types) => reads_declLines d).binds
  have haliases : (i.types.filterMap aliasTop?).flatMap TopLine.binds = i.types.flatMap declAliases := by
    induction i.types with
    | nil => rfl
    | cons d ds ih =>
      rw [List.flatMap_cons, ← ih, ← binds_aliasTop?, List.filterMap_cons]
      cases aliasTop? d <;> simp
  rw [typesTop, List.flatMap_append, hclasses, ← haliases]
  split
  · rename_i h
    rw [List.isEmpty_iff.1 h]
  · rfl

/-! ## The module -/

/-- The types, the class and the registration of an imported interface. -/
def importsTop (i : Interface) : List TopLine :=
  typesTop i ++ [.empty, .empty, .cls (exportsClass i.name) (some (utf8 "Protocol"))]
    ++ TopLine.block (protocolMethods i.functions)
    ++ [.empty, .empty, .func (importsFunction i.name)
      (utf8 "store: wasmer.Store, imports: wasmer.ImportObject, host: " ++ exportsClass i.name
        ++ utf8 ", get_export: Callable[[str], Any]) -> None:")]
    ++ TopLine.block ([utf8 "functions = \x7b\x7d"] ++ i.functions.flatMap (wrapper i)
      ++ [[], utf8 "imports.register(" ++ i.name.quote ++ utf8 ", functions)"])

/-- The types and the class of the exported interface. -/
def exportsTop (i : Interface) : List TopLine :=
  typesTop i ++ [.empty, .empty, .cls (exportsClass i.name) none]
    ++ TopLine.block (classHead ++ i.functions.flatMap (method i))

/-- All glue of a library. -/
def moduleTop (exports : Interface) (imports : List Interface) : List TopLine :=
  runtimeTop ++ imports.flatMap importsTop ++ exportsTop exports

theorem spell_importsTop (i : Interface) : (importsTop i).map TopLine.spell = importsLines i := by
  have hclass : TopLine.spell (.cls (exportsClass i.name) (some (utf8 "Protocol")))
      = utf8 "class " ++ exportsClass i.name ++ utf8 "(Protocol):" := by
    simp only [TopLine.spell, List.append_assoc]
    rfl
  have hfunc (rest : Bytes) : TopLine.spell (.func (importsFunction i.name)
      (utf8 "store: wasmer.Store, imports: wasmer.ImportObject, host: " ++ rest))
      = utf8 "def " ++ importsFunction i.name
        ++ (utf8 "(store: wasmer.Store, imports: wasmer.ImportObject, host: " ++ rest) := by
    simp only [TopLine.spell, List.append_assoc]
    rfl
  have hparam := hfunc (exportsClass i.name ++ utf8 ", get_export: Callable[[str], Any]) -> None:")
  rw [importsTop, importsLines]
  simp only [List.map_append, spell_typesTop, TopLine.spell_block, List.map_cons, List.map_nil, hclass,
    List.append_assoc, hparam]
  rfl

theorem spell_exportsTop (i : Interface) : (exportsTop i).map TopLine.spell = exportsLines i := by
  rw [exportsTop, exportsLines]
  simp only [List.map_append, spell_typesTop, TopLine.spell_block, List.map_cons, List.map_nil, TopLine.spell]

/-- Spelled out, the lines are the module that is generated. -/
theorem spell_moduleTop (exports : Interface) (imports : List Interface) :
    generate exports imports =
      FileTree.empty.insert bindingsFile (unlines ((moduleTop exports imports).map TopLine.spell)) := by
  have himports : (imports.flatMap importsTop).map TopLine.spell = imports.flatMap importsLines := by
    rw [List.map_flatMap]
    simp only [spell_importsTop]
  rw [moduleTop, List.map_append, List.map_append, spell_runtimeTop, himports, spell_exportsTop, generate]

/-! ## Names -/

/-- The classes and aliases that the glue of an interface declares, all in Pascal case: the interface,
its types and the cases of these. -/
def classNames (i : Interface) : List Bytes :=
  CaseStyle.pascal i.name :: i.types.flatMap fun d => CaseStyle.pascal d.name :: caseClasses d

/-- The classes and aliases of all glue of a library. -/
def allClassNames (exports : Interface) (imports : List Interface) : List Bytes :=
  (imports ++ [exports]).flatMap classNames

theorem declClasses_perm (d : Decl) : (declClasses d ++ declAliases d).Perm (CaseStyle.pascal d.name :: caseClasses d) := by
  unfold declClasses declAliases caseClasses
  cases d.body <;> simp

theorem typesTop_perm (i : Interface) :
    ((typesTop i).flatMap TopLine.binds ++ [exportsClass i.name]).Perm (classNames i) := by
  rw [binds_typesTop, classNames]
  refine (List.perm_append_singleton _ _).trans (.cons _ ?_)
  exact (List.flatMap_append_perm i.types declClasses declAliases).trans
    (.flatMap_left i.types fun d _ => declClasses_perm d)

theorem importsTop_perm (i : Interface) :
    ((importsTop i).flatMap TopLine.binds).Perm (classNames i ++ [importsFunction i.name]) := by
  have hbinds : (importsTop i).flatMap TopLine.binds
      = ((typesTop i).flatMap TopLine.binds ++ [exportsClass i.name]) ++ [importsFunction i.name] := by
    simp [importsTop, List.flatMap_append, TopLine.binds_block, TopLine.binds]
  rw [hbinds]
  exact (typesTop_perm i).append_right _

theorem exportsTop_perm (i : Interface) : ((exportsTop i).flatMap TopLine.binds).Perm (classNames i) := by
  have hbinds : (exportsTop i).flatMap TopLine.binds = (typesTop i).flatMap TopLine.binds ++ [exportsClass i.name] := by
    simp [exportsTop, List.flatMap_append, TopLine.binds_block, TopLine.binds]
  rw [hbinds]
  exact typesTop_perm i

/-- What the module binds: the names of the runtime, classes and aliases, and registrations. -/
theorem moduleTop_perm (exports : Interface) (imports : List Interface) :
    ((moduleTop exports imports).flatMap TopLine.binds).Perm
      (runtimeNames ++ (allClassNames exports imports ++ imports.map fun i => importsFunction i.name)) := by
  have himports : ((imports.flatMap importsTop).flatMap TopLine.binds).Perm
      (imports.flatMap classNames ++ imports.map fun i => importsFunction i.name) := by
    rw [List.flatMap_assoc, ← List.flatMap_singleton' (imports.map _), List.flatMap_map]
    exact (List.Perm.flatMap_left imports fun i _ => importsTop_perm i).trans
      (List.flatMap_append_perm imports classNames fun i => [importsFunction i.name]).symm
  rw [moduleTop, List.flatMap_append, List.flatMap_append, List.append_assoc, allClassNames, List.flatMap_append]
  refine .append_left _ ((himports.append (exportsTop_perm exports)).trans ?_)
  simp only [List.flatMap_singleton, List.append_assoc]
  exact .append_left _ List.perm_append_comm

theorem nodup_runtimeNames : runtimeNames.Nodup := by
  rw [runtime_read.2, fixed, utf8_eq_toByteArray]
  decide +kernel

/-- A registration is named unlike the runtime. -/
theorem importsFunction_not_mem_runtimeNames (iface : Bytes) : importsFunction iface ∉ runtimeNames := by
  have hhead : ∀ n ∈ runtimeNames, ¬(utf8 "add_").isPrefixOf n = true := by
    rw [runtime_read.2, fixed, utf8_eq_toByteArray]
    decide +kernel
  intro h
  refine hhead _ h (List.isPrefixOf_iff_prefix.2 ⟨CaseStyle.snake iface ++ utf8 "_to_imports", ?_⟩)
  rw [importsFunction, List.append_assoc]

theorem underscore_not_mem_pascal (n : Bytes) : 95 ∉ CaseStyle.pascal n := fun h =>
  absurd (CaseStyle.mem_joinWords h) (by decide)

theorem exists_of_mem_caseClasses {d : Decl} {n : Bytes} (h : n ∈ caseClasses d) : ∃ c, n = caseClass d.name c := by
  unfold caseClasses at h
  split at h
  · obtain ⟨c, -, rfl⟩ := List.mem_map.1 h
    exact ⟨c.1, rfl⟩
  · obtain ⟨c, -, rfl⟩ := List.mem_map.1 h
    exact ⟨c.1, rfl⟩
  · cases h

/-- No class is named with an underscore. -/
theorem underscore_not_mem_classNames {i : Interface} {n : Bytes} (h : n ∈ classNames i) : 95 ∉ n := by
  rw [classNames, List.mem_cons, List.mem_flatMap] at h
  rcases h with rfl | ⟨d, -, h⟩
  · exact underscore_not_mem_pascal i.name
  · rcases List.mem_cons.1 h with rfl | h
    · exact underscore_not_mem_pascal d.name
    · obtain ⟨c, rfl⟩ := exists_of_mem_caseClasses h
      intro hmem
      exact (List.mem_append.1 hmem).elim (underscore_not_mem_pascal d.name) (underscore_not_mem_pascal c)

theorem underscore_mem_importsFunction (iface : Bytes) : 95 ∈ importsFunction iface := by
  simp only [importsFunction, List.mem_append]
  exact .inl (.inl (by decide))

/-- Registrations are named as differently as their interfaces in snake case. -/
theorem nodup_importsFunction (imports : List Interface) :
    (imports.map fun i => importsFunction i.name).Nodup ↔ (imports.map fun i => CaseStyle.snake i.name).Nodup := by
  have hinj : Function.Injective fun n => utf8 "add_" ++ n ++ utf8 "_to_imports" := fun a b h => by simpa using h
  have hmap := List.nodup_map_iff hinj (l := imports.map fun i => CaseStyle.snake i.name)
  rw [List.map_map] at hmap
  exact hmap

theorem nodup_moduleTop_iff (exports : Interface) (imports : List Interface) :
    ((moduleTop exports imports).flatMap TopLine.binds).Nodup ↔
      (allClassNames exports imports).Nodup ∧ (∀ n ∈ allClassNames exports imports, n ∉ runtimeNames) ∧
        (imports.map fun i => CaseStyle.snake i.name).Nodup := by
  have hruntime : ∀ n ∈ runtimeNames, ∀ r ∈ imports.map fun i => importsFunction i.name, n ≠ r := by
    rintro n hn r hr rfl
    obtain ⟨i, -, rfl⟩ := List.mem_map.1 hr
    exact importsFunction_not_mem_runtimeNames i.name hn
  have hclass : ∀ n ∈ allClassNames exports imports, ∀ r ∈ imports.map fun i => importsFunction i.name, n ≠ r := by
    rintro n hn r hr rfl
    obtain ⟨i, -, rfl⟩ := List.mem_map.1 hr
    obtain ⟨j, -, hn⟩ := List.mem_flatMap.1 hn
    exact underscore_not_mem_classNames hn (underscore_mem_importsFunction i.name)
  rw [(moduleTop_perm exports imports).nodup_iff, List.nodup_append, List.nodup_append, nodup_importsFunction]
  constructor
  · rintro ⟨-, ⟨hclasses, himports, -⟩, hapart⟩
    exact ⟨hclasses, fun n hn hrun => hapart n hrun n (by simp [hn]) rfl, himports⟩
  · rintro ⟨hclasses, hapart, himports⟩
    refine ⟨nodup_runtimeNames, ⟨hclasses, himports, hclass⟩, fun n hn r hr => ?_⟩
    rcases List.mem_append.1 hr with hr | hr
    · exact fun h => hapart r hr (h ▸ hn)
    · exact hruntime n hn r hr

/-- **When names at the top level are distinct.** The generated module is the spelling of its lines,
and these bind no name twice exactly when the names of types, cases and interfaces stay distinct in
Pascal case, none of them is one of the runtime's, and the names of imported interfaces stay
distinct in snake case. -/
theorem module_names_distinct_iff (exports : Interface) (imports : List Interface) :
    generate exports imports =
      FileTree.empty.insert bindingsFile (unlines ((moduleTop exports imports).map TopLine.spell)) ∧
    (((moduleTop exports imports).flatMap TopLine.binds).Nodup ↔
      (allClassNames exports imports).Nodup ∧ (∀ n ∈ allClassNames exports imports, n ∉ runtimeNames) ∧
        (imports.map fun i => CaseStyle.snake i.name).Nodup) :=
  ⟨spell_moduleTop exports imports, nodup_moduleTop_iff exports imports⟩

/-- A record `ok` takes the place of the runtime's `Ok`, which the glue of a result refers to; and two
names that differ in a divider become one class. -/
theorem class_replaces_another :
    (∃ i, Interface.parse (utf8 "m.wai") (utf8 "record ok \x7b a: u32 \x7d\nget: func() -> result<u32, u32>\n") = .ok i ∧
      utf8 "Ok" ∈ classNames i ∧ ¬((moduleTop i []).flatMap TopLine.binds).Nodup) ∧
    ∃ i, Interface.parse (utf8 "m.wai") (utf8 "record user-id \x7b n: u32 \x7d\nrecord user_id \x7b s: string \x7d\n") = .ok i ∧
      ¬((moduleTop i []).flatMap TopLine.binds).Nodup := by
  constructor
  · obtain ⟨i, hi, hcheck⟩ := Interface.exists_ok_of_check (r := Interface.parse (utf8 "m.wai")
      (utf8 "record ok \x7b a: u32 \x7d\nget: func() -> result<u32, u32>\n"))
      (fun i => utf8 "Ok" ∈ classNames i) (by rw [utf8_eq_toByteArray]; decide +kernel)
    have hmem : utf8 "Ok" ∈ classNames i := of_decide_eq_true hcheck
    have hall : utf8 "Ok" ∈ allClassNames i [] := by simpa [allClassNames] using hmem
    refine ⟨i, hi, hmem, fun hnodup => ((nodup_moduleTop_iff i []).1 hnodup).2.1 _ hall ?_⟩
    rw [runtime_read.2, fixed, utf8_eq_toByteArray]
    decide +kernel
  · obtain ⟨i, hi, hcheck⟩ := Interface.exists_ok_of_check (r := Interface.parse (utf8 "m.wai")
      (utf8 "record user-id \x7b n: u32 \x7d\nrecord user_id \x7b s: string \x7d\n"))
      (fun i => ¬(classNames i).Nodup) (by rw [utf8_eq_toByteArray]; decide +kernel)
    refine ⟨i, hi, fun hnodup => of_decide_eq_true hcheck ?_⟩
    simpa [allClassNames] using ((nodup_moduleTop_iff i []).1 hnodup).1

end Bindery.Glue.Python
