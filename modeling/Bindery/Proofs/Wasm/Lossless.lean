/-
The binary form of a module loses nothing. Behind the header it is a sequence of sections
with increasing ids (`split_encode`, `increasing_sections`), of which each is there
exactly when the module has something to say in it (`mem_sections_iff`), and the grammar
reads the module back from their bodies (`says_sections`). Since reading gives one answer,
modules with one binary form are the same, up to the kinds of their imports
(`Says.unique`).
-/
import Bindery.Proofs.Wasm.Elements

namespace Bindery.Wasm

open Utf8 (valid)

variable {α : Type}

/-- The step reads all of the octets and gives `a`. -/
def ReadsAll (step : Read α) (s : Bytes) (a : α) : Prop := step (Cursor.ofBytes s) = .ok a ⟨s.length, []⟩

theorem Reads.all {step : Read α} {s : Bytes} {a : α} (h : Reads step s a) : ReadsAll step s a := by
  have hread := h 0 []
  rwa [List.append_nil, Nat.zero_add] at hread

theorem ReadsAll.unique {step : Read α} {s : Bytes} {a b : α} (ha : ReadsAll step s a) (hb : ReadsAll step s b) :
    a = b := by
  have heq := ha.symm.trans hb
  injection heq

/-! ## The sequence of sections -/

/-- A section with its id and its body. -/
def Read.frame : Read (UInt8 × Bytes) := do
  let id ← byte
  let size ← index
  return (id, ← take size)

theorem reads_frame {s : UInt8 × Bytes} (h : s.2.length < 2 ^ 32) : Reads Read.frame (Write.section1 s.1 s.2) s := by
  have hsize := reads_index (UInt32.ofNat s.2.length)
  rw [UInt32.toNat_ofNat_of_lt' h] at hsize
  exact (reads_byte s.1).bind (hsize.bind ((reads_take s.2).map fun body => (s.1, body)))

namespace Module

/-- The header, then sections to the end of the octets. Every section takes octets, so their
number bounds the walk. -/
def split (fuel : Nat) : Read (List (UInt8 × Bytes)) := do
  Read.header
  Read.untilEnd Read.frame fuel

/-- **The binary form is a sequence of sections**, to the last octet. -/
theorem split_encode {m : Module} (h : ∀ s ∈ m.sections, s.2.length < 2 ^ 32) :
    ReadsAll (split m.encode.length) m.encode m.sections := by
  have hparts : writeSections m.sections = (m.sections.map fun s => Write.section1 s.1 s.2).flatten :=
    List.flatMap_def
  have hread : List.Forall₂ (Reads Read.frame) (m.sections.map fun s => Write.section1 s.1 s.2) m.sections :=
    List.forall₂_map_left_iff.2 (List.forall₂_same.2 fun s hs => reads_frame (h s hs))
  have hpos : ∀ s ∈ m.sections.map (fun s => Write.section1 s.1 s.2), 0 < s.length :=
    List.forall_mem_map.2 fun s _ => Nat.succ_pos _
  have hfuel : (m.sections.map fun s => Write.section1 s.1 s.2).length ≤ m.encode.length := by
    have hle := length_le_writeSections m.sections
    rw [encode_eq, List.length_append, List.length_map]
    omega
  have hwalk := untilEnd_parts hread hpos hfuel 8
  have hrun := reads_header.bind_run (fun _ => Read.untilEnd Read.frame m.encode.length) 0 (writeSections m.sections)
  rw [← encode_eq, hparts] at hrun
  have hlen : m.encode.length = 8 + (m.sections.map fun s => Write.section1 s.1 s.2).flatten.length := by
    rw [encode_eq, List.length_append, hparts]
    rfl
  rw [ReadsAll, hlen]
  exact (hlen ▸ hrun).trans (hlen ▸ hwalk)

/-! ## Which sections there are -/

theorem mem_listed {β : Type} {id : UInt8} {each : β → Bytes} {xs : List β} {s : UInt8 × Bytes} :
    s ∈ listed id each xs ↔ xs ≠ [] ∧ s = (id, Write.vector each xs) := by
  rw [listed]
  cases xs <;> simp

theorem mem_memory {memory : Option UInt32} {s : UInt8 × Bytes} :
    s ∈ memory.toList.map (fun pages => ((5 : UInt8), 1 :: 0 :: Write.u32 pages)) ↔
      ∃ pages, memory = some pages ∧ s = (5, 1 :: 0 :: Write.u32 pages) := by
  cases memory <;> simp

/-- The module has something to say in the section of this id. -/
def HasSection (m : Module) (id : UInt8) : Prop :=
  id = 1 ∧ m.types ≠ [] ∨ id = 2 ∧ m.imports ≠ [] ∨ id = 3 ∧ m.funcs ≠ [] ∨ id = 5 ∧ m.memory ≠ none ∨
    id = 7 ∧ m.exports ≠ [] ∨ id = 10 ∧ m.funcs ≠ []

theorem mem_sections_iff {m : Module} {s : UInt8 × Bytes} : s ∈ m.sections ↔
    (m.types ≠ [] ∧ s = (1, Write.vector Write.funcType m.types)) ∨
    (m.imports ≠ [] ∧ s = (2, Write.vector Write.import1 m.imports)) ∨
    (m.funcs ≠ [] ∧ s = (3, Write.vector Write.u32 m.funcs)) ∨
    (∃ pages, m.memory = some pages ∧ s = (5, 1 :: 0 :: Write.u32 pages)) ∨
    (m.exports ≠ [] ∧ s = (7, Write.vector Write.export1 m.exports)) ∨
    (m.funcs ≠ [] ∧ s = (10, Write.vector (fun f => Write.sized (Write.zeroBody (m.resultsOf f))) m.funcs)) := by
  simp only [sections, laterSections, List.mem_append, mem_listed, mem_memory, or_assoc]

/-- **A section is there exactly when the module has something to say in it.** -/
theorem mem_ids_iff (m : Module) (id : UInt8) : id ∈ m.sections.map (·.1) ↔ m.HasSection id := by
  have hmemory : m.memory ≠ none ↔ ∃ pages, m.memory = some pages := Option.ne_none_iff_exists'
  simp only [List.mem_map, mem_sections_iff, HasSection, hmemory]
  constructor
  · rintro ⟨s, ⟨h, rfl⟩ | ⟨h, rfl⟩ | ⟨h, rfl⟩ | ⟨pages, h, rfl⟩ | ⟨h, rfl⟩ | ⟨h, rfl⟩, rfl⟩ <;> simp [h]
  · rintro (⟨rfl, h⟩ | ⟨rfl, h⟩ | ⟨rfl, h⟩ | ⟨rfl, pages, h⟩ | ⟨rfl, h⟩ | ⟨rfl, h⟩)
    · exact ⟨_, .inl ⟨h, rfl⟩, rfl⟩
    · exact ⟨_, .inr (.inl ⟨h, rfl⟩), rfl⟩
    · exact ⟨_, .inr (.inr (.inl ⟨h, rfl⟩)), rfl⟩
    · exact ⟨_, .inr (.inr (.inr (.inl ⟨pages, h, rfl⟩))), rfl⟩
    · exact ⟨_, .inr (.inr (.inr (.inr (.inl ⟨h, rfl⟩)))), rfl⟩
    · exact ⟨_, .inr (.inr (.inr (.inr (.inr ⟨h, rfl⟩)))), rfl⟩

theorem listed_sublist {β : Type} (id : UInt8) (each : β → Bytes) (xs : List β) :
    ((listed id each xs).map (·.1)).Sublist [id] := by
  rw [listed]
  split
  · exact List.nil_sublist _
  · exact List.Sublist.refl _

/-- **The ids increase.** -/
theorem increasing_sections (m : Module) : (m.sections.map (·.1)).Pairwise (· < ·) := by
  have hmemory : ((m.memory.toList.map fun pages => ((5 : UInt8), 1 :: 0 :: Write.u32 pages)).map (·.1)).Sublist
      [5] := by
    cases m.memory with
    | none => exact List.nil_sublist _
    | some pages => exact List.Sublist.refl _
  have hall : (m.sections.map (·.1)).Sublist ([1] ++ [2] ++ ([3] ++ [5] ++ [7] ++ [10])) := by
    simp only [sections, laterSections, List.map_append]
    exact ((listed_sublist 1 _ _).append (listed_sublist 2 _ _)).append
      ((((listed_sublist 3 _ _).append hmemory).append (listed_sublist 7 _ _)).append (listed_sublist 10 _ _))
  exact List.Pairwise.sublist hall (by decide)

/-! ## What the sections say -/

/-- The code is a constant for every result of the signature, in order, and the end mark; it is
read as these instructions, and they fit the signature whatever else the module has. -/
structure ReturnsConstants (t : FuncType) (code : Bytes) : Prop where
  constants : ∃ parts, code = parts.flatten ++ [0x0B] ∧
    List.Forall₂ (fun r part => ReadsAll Read.constant part (.value r)) t.results parts
  instructions : ReadsAll (Read.instructions code.length) code (t.results.map .constant ++ [.finish])
  fits : ∀ ctx : Context, ctx.accepts t [] (t.results.map .constant ++ [.finish]) = true

/-- The sections say what the module is, as the grammar reads their bodies. -/
structure Says (ss : List (UInt8 × Bytes)) (m : Module) : Prop where
  types : ∀ body, (1, body) ∈ ss → ReadsAll (Read.vector Read.funcType) body m.types
  imports : ∀ body, (2, body) ∈ ss → ReadsAll (Read.vector Read.hostItem) body (m.imports.map Import.asHostItem)
  funcs : ∀ body, (3, body) ∈ ss → ReadsAll (Read.vector Read.index) body (m.funcs.map UInt32.toNat)
  memory : ∀ body, (5, body) ∈ ss →
    ∃ pages, m.memory = some pages ∧ ReadsAll (Read.vector Read.bounds) body [(pages.toNat, none)]
  /-- whatever kinds of exports a grammar knows, those of the module among them -/
  exports : ∀ body, (7, body) ∈ ss → ∀ known : UInt8 → Bool, (∀ e ∈ m.exports, known e.kind = true) →
    ReadsAll (Read.vector (Read.exportOf known)) body m.exports
  code : ∀ body, (10, body) ∈ ss → ∃ bodies, ReadsAll (Read.vector Read.body) body bodies ∧
    List.Forall₂ (fun (f : UInt32) (b : Body) => b.locals = [] ∧
      ∃ t, m.types[f.toNat]? = some t ∧ ReturnsConstants t b.code) m.funcs bodies

/-- Numbers, texts, known signatures and short sections: what the binary form can say. -/
structure WellFormed (m : Module) : Prop where
  numbers : ∀ t ∈ m.types, t.OfNumbers
  importNames : ∀ i ∈ m.imports, valid i.module = true ∧ valid i.name = true
  exportNames : ∀ e ∈ m.exports, valid e.name = true
  signatures : ∀ f ∈ m.funcs, f.toNat < m.types.length
  short : ∀ s ∈ m.sections, s.2.length < 2 ^ 32

theorem returnsConstants {t : FuncType} (h : t.OfNumbers) : ReturnsConstants t (zeroCode t.results) := by
  have hresults : ∀ r ∈ t.results, r ∈ ValType.numbers := fun r hr => h r (List.mem_append_right _ hr)
  refine ⟨⟨t.results.map Write.zero, ?_, ?_⟩, ?_, fun ctx => accepts_constants ctx t⟩
  · rw [zeroCode, List.flatMap_def]
  · refine List.forall₂_map_right_iff.2 (List.forall₂_same.2 fun r hr => ?_)
    exact (reads_constant (hresults r hr)).all
  · have hread := instructions_zeroCode hresults 0
    rwa [Nat.zero_add] at hread

theorem length_funcType_pos (t : FuncType) : 0 < (Write.funcType t).length := Nat.succ_pos _

theorem length_lt_export1 (e : Export) : e.name.length < (Write.export1 e).length := by
  have hlen := length_lt_sized e.name
  rw [Write.export1, List.length_append]
  omega

theorem readsAll_types {ts : List FuncType} (hnumbers : ∀ t ∈ ts, t.OfNumbers)
    (hlen : (Write.vector Write.funcType ts).length < 2 ^ 32) :
    ReadsAll (Read.vector Read.funcType) (Write.vector Write.funcType ts) ts := by
  obtain ⟨hcount, heach⟩ := vector_bounds (fun t _ => length_funcType_pos t) hlen
  have hread := reads_vector id hcount (fun t _ => length_funcType_pos t)
    fun t ht => reads_funcType (hnumbers t ht) (heach t ht)
  rw [List.map_id] at hread
  exact hread.all

theorem readsAll_imports {is : List Import} (hnames : ∀ i ∈ is, valid i.module = true ∧ valid i.name = true)
    (hlen : (Write.vector Write.import1 is).length < 2 ^ 32) :
    ReadsAll (Read.vector Read.hostItem) (Write.vector Write.import1 is) (is.map Import.asHostItem) := by
  obtain ⟨hcount, hwritable⟩ := writable_of_section hnames hlen
  exact (reads_vector Import.asHostItem hcount (fun i _ => (length_le_import1 i).2.2) fun i hi =>
    reads_hostItem (hwritable i hi)).all

theorem readsAll_funcs {fs : List UInt32} (hlen : (Write.vector Write.u32 fs).length < 2 ^ 32) :
    ReadsAll (Read.vector Read.index) (Write.vector Write.u32 fs) (fs.map UInt32.toNat) := by
  obtain ⟨hcount, -⟩ := vector_bounds (fun f _ => length_u32_pos f) hlen
  exact (reads_vector UInt32.toNat hcount (fun f _ => length_u32_pos f) fun f _ => reads_index f).all

theorem readsAll_memory (pages : UInt32) :
    ReadsAll (Read.vector Read.bounds) (1 :: 0 :: Write.u32 pages) [(pages.toNat, none)] := by
  have hvector : Write.vector (fun pages => 0 :: Write.u32 pages) [pages] = 1 :: 0 :: Write.u32 pages :=
    congrArg (1 :: 0 :: ·) (List.append_nil _)
  have hread : Reads (Read.vector Read.bounds) (Write.vector (fun pages => 0 :: Write.u32 pages) [pages]) _ :=
    reads_vector (fun pages : UInt32 => (pages.toNat, none)) (by simp) (fun _ _ => Nat.succ_pos _)
      fun pages _ => reads_bounds pages
  rw [hvector] at hread
  exact hread.all

theorem readsAll_exports {es : List Export} {known : UInt8 → Bool} (hknown : ∀ e ∈ es, known e.kind = true)
    (hnames : ∀ e ∈ es, valid e.name = true) (hlen : (Write.vector Write.export1 es).length < 2 ^ 32) :
    ReadsAll (Read.vector (Read.exportOf known)) (Write.vector Write.export1 es) es := by
  have hpos : ∀ e ∈ es, 0 < (Write.export1 e).length := fun e _ => Nat.zero_lt_of_lt (length_lt_export1 e)
  obtain ⟨hcount, heach⟩ := vector_bounds hpos hlen
  have hread := reads_vector id hcount hpos fun e he =>
    reads_exportOf (hknown e he) (hnames e he) (Nat.lt_trans (length_lt_export1 e) (heach e he))
  rw [List.map_id] at hread
  exact hread.all

theorem readsAll_code {fs : List UInt32} {results : UInt32 → List ValType}
    (hlen : (Write.vector (fun f => Write.sized (Write.zeroBody (results f))) fs).length < 2 ^ 32) :
    ReadsAll (Read.vector Read.body) (Write.vector (fun f => Write.sized (Write.zeroBody (results f))) fs)
      (fs.map fun f => ⟨[], zeroCode (results f)⟩) := by
  have hpos : ∀ f ∈ fs, 0 < (Write.sized (Write.zeroBody (results f))).length := fun f _ =>
    Nat.zero_lt_of_lt (length_lt_sized _)
  obtain ⟨hcount, heach⟩ := vector_bounds hpos hlen
  exact (reads_vector (fun f => (⟨[], zeroCode (results f)⟩ : Body)) hcount hpos
    fun f hf => reads_body (Nat.lt_trans (length_lt_sized _) (heach f hf))).all

/-- **The grammar reads a module back from its sections.** -/
theorem says_sections {m : Module} (h : m.WellFormed) : Says m.sections m where
  types body hbody := by
    obtain ⟨-, rfl⟩ : m.types ≠ [] ∧ body = _ := by simpa [mem_sections_iff] using hbody
    exact readsAll_types h.numbers (h.short _ hbody)
  imports body hbody := by
    obtain ⟨-, rfl⟩ : m.imports ≠ [] ∧ body = _ := by simpa [mem_sections_iff] using hbody
    exact readsAll_imports h.importNames (h.short _ hbody)
  funcs body hbody := by
    obtain ⟨-, rfl⟩ : m.funcs ≠ [] ∧ body = _ := by simpa [mem_sections_iff] using hbody
    exact readsAll_funcs (h.short _ hbody)
  memory body hbody := by
    obtain ⟨pages, hpages, rfl⟩ : ∃ pages, m.memory = some pages ∧ body = _ := by
      simpa [mem_sections_iff] using hbody
    exact ⟨pages, hpages, readsAll_memory pages⟩
  exports body hbody known hknown := by
    obtain ⟨-, rfl⟩ : m.exports ≠ [] ∧ body = _ := by simpa [mem_sections_iff] using hbody
    exact readsAll_exports hknown h.exportNames (h.short _ hbody)
  code body hbody := by
    obtain ⟨-, rfl⟩ : m.funcs ≠ [] ∧ body = _ := by simpa [mem_sections_iff] using hbody
    refine ⟨_, readsAll_code (h.short _ hbody), ?_⟩
    refine List.forall₂_map_right_iff.2 (List.forall₂_same.2 fun f hf => ⟨rfl, ?_⟩)
    have htype := List.getElem?_eq_getElem (h.signatures f hf)
    refine ⟨_, htype, ?_⟩
    rw [resultsOf, htype]
    exact returnsConstants (h.numbers _ (List.getElem_mem _))

/-! ## One binary form, one module -/

/-- Lists that are read from one section, and are both empty when it is not there, are the same. -/
theorem eq_of_section {β : Type} {ss : List (UInt8 × Bytes)} {id : UInt8} {step : Read (List β)} {xs ys : List β}
    (hxs : ∀ body, (id, body) ∈ ss → ReadsAll step body xs) (hys : ∀ body, (id, body) ∈ ss → ReadsAll step body ys)
    (hx : id ∈ ss.map (·.1) ↔ xs ≠ []) (hy : id ∈ ss.map (·.1) ↔ ys ≠ []) : xs = ys := by
  by_cases h : id ∈ ss.map (·.1)
  · obtain ⟨s, hs, rfl⟩ := List.mem_map.1 h
    exact (hxs s.2 hs).unique (hys s.2 hs)
  · have hxs : xs = [] := not_not.1 fun hne => h (hx.2 hne)
    have hys : ys = [] := not_not.1 fun hne => h (hy.2 hne)
    rw [hxs, hys]

/-- The same module, but for the kinds of the imports. -/
structure Agrees (m m' : Module) : Prop where
  types : m.types = m'.types
  imports : m.imports.map Import.asFunc = m'.imports.map Import.asFunc
  funcs : m.funcs = m'.funcs
  memory : m.memory = m'.memory
  exports : m.exports = m'.exports

theorem Says.memory_toList {ss : List (UInt8 × Bytes)} {m : Module} (h : Says ss m) (body : Bytes)
    (hbody : (5, body) ∈ ss) :
    ReadsAll (Read.vector Read.bounds) body (m.memory.toList.map fun pages => (pages.toNat, none)) := by
  obtain ⟨pages, hpages, hread⟩ := h.memory body hbody
  rwa [hpages]

/-- **Sections say one module**, up to the kinds of its imports. -/
theorem Says.unique {ss : List (UInt8 × Bytes)} {m m' : Module} (h : Says ss m) (h' : Says ss m')
    (hids : ∀ id, id ∈ ss.map (·.1) ↔ m.HasSection id) (hids' : ∀ id, id ∈ ss.map (·.1) ↔ m'.HasSection id) :
    m.Agrees m' := by
  have himports := eq_of_section h.imports h'.imports (by simp [hids, HasSection]) (by simp [hids', HasSection])
  have hfuncs := eq_of_section h.funcs h'.funcs (by simp [hids, HasSection]) (by simp [hids', HasSection])
  have hmemory := eq_of_section h.memory_toList h'.memory_toList (by simp [hids, HasSection])
    (by simp [hids', HasSection])
  refine ⟨?_, ?_, ?_, ?_, ?_⟩
  · exact eq_of_section h.types h'.types (by simp [hids, HasSection]) (by simp [hids', HasSection])
  · have hmap := congrArg (List.map HostItem.asImport) himports
    simpa only [List.map_map, Function.comp_def, asImport_asHostItem] using hmap
  · exact List.map_injective_iff.2 (fun a b => UInt32.toNat_inj.1) hfuncs
  · have hlist := List.map_injective_iff.2 (fun a b hab => UInt32.toNat_inj.1 (congrArg Prod.fst hab)) hmemory
    cases hm : m.memory <;> cases hm' : m'.memory <;> simp_all
  · have hany := fun body hbody => h.exports body hbody (fun _ => true) fun _ _ => rfl
    have hany' := fun body hbody => h'.exports body hbody (fun _ => true) fun _ _ => rfl
    exact eq_of_section hany hany' (by simp [hids, HasSection]) (by simp [hids', HasSection])

/-- **The binary form of a module loses nothing.** It is the header and a sequence of sections
with increasing ids, read to the last octet; a section is there exactly when the module has
something to say in it, and the grammar reads the module back from the sections. So modules
with one binary form are the same, up to the kinds of their imports. -/
theorem encode_lossless (m : Module) (h : m.WellFormed) :
    (∃ ss, ReadsAll (split m.encode.length) m.encode ss ∧ m.encode = header ++ writeSections ss ∧
      (ss.map (·.1)).Pairwise (· < ·) ∧ (∀ id, id ∈ ss.map (·.1) ↔ m.HasSection id) ∧ Says ss m) ∧
    ∀ m' : Module, m'.WellFormed → m'.encode = m.encode → m'.Agrees m := by
  refine ⟨⟨m.sections, split_encode h.short, m.encode_eq, m.increasing_sections, m.mem_ids_iff, says_sections h⟩, ?_⟩
  intro m' h' hsame
  have hsections : m'.sections = m.sections := by
    have hsplit := split_encode h'.short
    rw [hsame] at hsplit
    exact hsplit.unique (split_encode h.short)
  refine Says.unique (says_sections h') ?_ m'.mem_ids_iff ?_
  · rw [hsections]
    exact says_sections h
  · rw [hsections]
    exact m.mem_ids_iff

/-- A module with something in every section, more pages than a memory may have and an import
that is no function. -/
def fullModule : Module where
  types := [⟨[.i32, .f64], [.i64, .f32]⟩, ⟨[], []⟩]
  imports := [{ module := utf8 "env", name := utf8 "memory", kind := .memory, typeIdx := 300 }]
  funcs := [1, 0]
  memory := some 70000
  exports := [{ name := utf8 "memory", kind := 2 }, { name := utf8 "f", idx := 2 }]

theorem encode_lossless_full :
    fullModule.WellFormed ∧
    (∃ ss, ReadsAll (split fullModule.encode.length) fullModule.encode ss ∧ ss.map (·.1) = [1, 2, 3, 5, 7, 10] ∧
      ∀ body, (7, body) ∈ ss → ReadsAll (Read.vector Read.export1) body fullModule.exports) ∧
    ¬ ∃ m' : Module, m'.WellFormed ∧ m'.encode = fullModule.encode ∧ m'.funcs = [0, 1] := by
  have hwell : fullModule.WellFormed :=
    { numbers := by simp only [FuncType.OfNumbers]; decide
      importNames := by simpa [fullModule] using ⟨Utf8.valid_of_ascii rfl, Utf8.valid_of_ascii rfl⟩
      exportNames := by simpa [fullModule] using ⟨Utf8.valid_of_ascii rfl, Utf8.valid_of_ascii rfl⟩
      signatures := by simp [fullModule]
      short := by decide +kernel }
  obtain ⟨⟨ss, hread, -, -, -, hsays⟩, hone⟩ := encode_lossless fullModule hwell
  refine ⟨hwell, ⟨ss, hread, ?_, fun body hbody => ?_⟩, ?_⟩
  · rw [hread.unique (split_encode hwell.short)]
    rfl
  · rw [Read.export1_eq]
    exact hsays.exports body hbody _ (by decide)
  · rintro ⟨m', hm', hsame, hfuncs⟩
    have heq := (hone m' hm' hsame).funcs
    rw [hfuncs] at heq
    exact absurd heq (by decide)

end Module

end Bindery.Wasm
