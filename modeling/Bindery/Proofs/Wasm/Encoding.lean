/-
The imports of a module are read back from its binary form. The binary form is the header
and the module's sections (`Module.encode_eq`), of which only the second kind holds
imports; its body is a count and the imports one after the other, each read back as the
function it is written as (`sectionImports_vector`). The walk stops there, so octets behind
a module that imports anything change nothing (`imports_encode`).
-/
import Bindery.Proofs.Wasm.Sections

namespace Bindery.Wasm

open Utf8 (valid)

/-! ## The sections of a module -/

/-- A list of elements as a section, which is not there when the list is empty. -/
def listed {α : Type} (id : UInt8) (each : α → Bytes) (xs : List α) : List (UInt8 × Bytes) :=
  if xs.isEmpty then [] else [(id, Write.vector each xs)]

theorem writeSections_listed {α : Type} (id : UInt8) (each : α → Bytes) (xs : List α) :
    writeSections (listed id each xs) = Write.listSection id each xs := by
  rw [listed, Write.listSection]
  split
  · rfl
  · exact List.append_nil _

theorem id_of_mem_listed {α : Type} {id : UInt8} {each : α → Bytes} {xs : List α} {s : UInt8 × Bytes}
    (h : s ∈ listed id each xs) : s.1 = id := by
  rw [listed] at h
  split at h
  · simp at h
  · rw [List.mem_singleton.1 h]

namespace Module

/-- The sections of a module behind its imports. -/
def laterSections (m : Module) : List (UInt8 × Bytes) :=
  listed 3 Write.u32 m.funcs
    ++ m.memory.toList.map (fun pages => (5, 1 :: 0 :: Write.u32 pages))
    ++ listed 7 Write.export1 m.exports
    ++ listed 10 (fun f => Write.sized (Write.zeroBody (m.resultsOf f))) m.funcs

/-- The sections of a module, in the order of their ids. -/
def sections (m : Module) : List (UInt8 × Bytes) :=
  listed 1 Write.funcType m.types ++ listed 2 Write.import1 m.imports ++ m.laterSections

theorem writeSections_append (ss ss' : List (UInt8 × Bytes)) :
    writeSections (ss ++ ss') = writeSections ss ++ writeSections ss' := List.flatMap_append

/-- The binary form is the header and the sections. -/
theorem encode_eq (m : Module) : m.encode = header ++ writeSections m.sections := by
  have hmemory : writeSections (m.memory.toList.map fun pages => (5, 1 :: 0 :: Write.u32 pages))
      = memorySection m.memory := by
    cases m.memory with
    | none => rfl
    | some pages => exact List.append_nil _
  simp only [encode, sections, laterSections, writeSections_append, writeSections_listed, hmemory,
    List.append_assoc]

theorem id_types {m : Module} {s : UInt8 × Bytes} (h : s ∈ listed 1 Write.funcType m.types) : s.1 ≠ 2 := by
  rw [id_of_mem_listed h]
  decide

theorem id_laterSections {m : Module} {s : UInt8 × Bytes} (h : s ∈ m.laterSections) : s.1 ≠ 2 := by
  simp only [laterSections, List.mem_append, List.mem_map] at h
  rcases h with ((h | ⟨pages, -, rfl⟩) | h) | h
  · rw [id_of_mem_listed h]
    decide
  · show (5 : UInt8) ≠ 2
    decide
  · rw [id_of_mem_listed h]
    decide
  · rw [id_of_mem_listed h]
    decide

end Module

/-! ## The imports in their section -/

/-- An import as it is written: a function. -/
def Import.asFunc (i : Import) : Import := { i with kind := .func }

/-- The names of an import are texts whose lengths are written in 32 bits. -/
structure Import.Writable (i : Import) : Prop where
  module : valid i.module = true
  name : valid i.name = true
  moduleLength : i.module.length < 2 ^ 32
  nameLength : i.name.length < 2 ^ 32

theorem reads_import1 {i : Import} (h : i.Writable) : Reads Read.import1 (Write.import1 i) i.asFunc := by
  have htype : Reads (Read.description .func) (Write.u32 i.typeIdx) i.typeIdx := reads_u32 i.typeIdx
  rw [Read.import1, Write.import1, List.append_assoc]
  refine (reads_name h.module h.moduleLength).bind ?_
  refine (reads_name h.name h.nameLength).bind ?_
  refine (reads_byte ExternKind.func.code).bind (t := Write.u32 i.typeIdx) ?_
  exact htype.map fun typeIdx => ({ module := i.module, name := i.name, kind := .func, typeIdx } : Import)

theorem reads_importList : ∀ {is : List Import}, (∀ i ∈ is, i.Writable) →
    Reads (Read.importList is.length) (is.flatMap Write.import1) (is.map Import.asFunc)
  | [], _ => .pure []
  | i :: is, h => by
    obtain ⟨hi, his⟩ := List.forall_mem_cons.1 h
    rw [List.flatMap_cons]
    exact (reads_import1 hi).bind ((reads_importList his).map (i.asFunc :: ·))

/-- **The body of a section of imports is read back.** -/
theorem sectionImports_vector {is : List Import} (hlen : is.length < 2 ^ 32) (h : ∀ i ∈ is, i.Writable) :
    sectionImports (Write.vector Write.import1 is) = .ok (is.map Import.asFunc) := by
  have hread := (Reads.count (f := Read.importList) hlen (reads_importList h)) 0 []
  rw [List.append_nil] at hread
  have hsection : Read.importSection (Cursor.ofBytes (Write.vector Write.import1 is)) = _ := hread
  rw [sectionImports, hsection]

theorem length_le_import1 (i : Import) :
    i.module.length ≤ (Write.import1 i).length ∧ i.name.length ≤ (Write.import1 i).length
      ∧ 1 ≤ (Write.import1 i).length := by
  simp only [Write.import1, Write.sized, List.length_append, List.length_cons]
  omega

theorem length_le_imports : ∀ is : List Import, is.length ≤ (is.flatMap Write.import1).length
  | [] => Nat.le_refl 0
  | i :: is => by
    have hone := (length_le_import1 i).2.2
    have ih := length_le_imports is
    rw [List.flatMap_cons, List.length_append, List.length_cons]
    omega

/-- In a section shorter than 2^32 octets the number of imports and the lengths of their
names are written in full. -/
theorem writable_of_section {is : List Import} (hvalid : ∀ i ∈ is, valid i.module = true ∧ valid i.name = true)
    (hlen : (Write.vector Write.import1 is).length < 2 ^ 32) : is.length < 2 ^ 32 ∧ ∀ i ∈ is, i.Writable := by
  rw [Write.vector, List.length_append] at hlen
  have hcount := length_le_imports is
  refine ⟨by omega, fun i hi => ?_⟩
  obtain ⟨hmodule, hname, -⟩ := length_le_import1 i
  have hle := length_le_flatMap Write.import1 hi
  exact ⟨(hvalid i hi).1, (hvalid i hi).2, by omega, by omega⟩

/-! ## The imports of a module -/

/-- **The imports of a module are read back from its binary form.** When the names of the
imports are texts and no section is longer than its size can say, the imports are found in
order, as functions; and when there are any, whatever follows the module is not looked at. -/
theorem imports_encode (m : Module) (hnames : ∀ i ∈ m.imports, valid i.module = true ∧ valid i.name = true)
    (hsections : ∀ s ∈ m.sections, s.2.length < 2 ^ 32) :
    imports m.encode = .ok (m.imports.map fun i => { i with kind := .func }) ∧
      (m.imports ≠ [] → ∀ t, imports (m.encode ++ t) = .ok (m.imports.map fun i => { i with kind := .func })) := by
  have hfront : ∀ s ∈ listed 1 Write.funcType m.types, s.1 ≠ 2 ∧ s.2.length < 2 ^ 32 := fun s hs =>
    ⟨Module.id_types hs, hsections s (List.mem_append_left _ (List.mem_append_left _ hs))⟩
  cases hempty : m.imports.isEmpty with
  | true =>
    have hnone : m.imports = [] := List.isEmpty_iff.1 hempty
    have hall : ∀ s ∈ m.sections, s.1 ≠ 2 ∧ s.2.length < 2 ^ 32 := by
      refine fun s hs => ⟨?_, hsections s hs⟩
      simp only [Module.sections, listed, hempty, if_true, List.append_nil, List.mem_append] at hs
      exact hs.elim (fun h => Module.id_types (m := m) h) Module.id_laterSections
    rw [Module.encode_eq, imports_no_section hall, hnone]
    exact ⟨rfl, fun h => absurd rfl h⟩
  | false =>
    have hlisted : listed 2 Write.import1 m.imports = [(2, Write.vector Write.import1 m.imports)] := by
      rw [listed, hempty]
      rfl
    have hbody : (Write.vector Write.import1 m.imports).length < 2 ^ 32 := by
      refine hsections (2, _) (List.mem_append_left _ (List.mem_append_right _ ?_))
      rw [hlisted]
      exact List.mem_singleton_self _
    obtain ⟨hcount, hwritable⟩ := writable_of_section hnames hbody
    have hfound : ∀ t, imports (m.encode ++ t) = .ok (m.imports.map Import.asFunc) := by
      intro t
      have hsection := imports_sections hfront hbody (writeSections m.laterSections ++ t)
      have hone : writeSections [(2, Write.vector Write.import1 m.imports)]
          = Write.section1 2 (Write.vector Write.import1 m.imports) := List.append_nil _
      rw [sectionImports_vector hcount hwritable] at hsection
      rw [Module.encode_eq, Module.sections, hlisted, Module.writeSections_append, Module.writeSections_append, hone,
        ← hsection]
      simp only [List.append_assoc]
    have hself := hfound []
    rw [List.append_nil] at hself
    exact ⟨hself, fun _ => hfound⟩

/-- A module with something in every section, its imports of two kinds. -/
def hostedModule : Module where
  types := [⟨[.i32], [.i64]⟩]
  imports := [{ module := utf8 "env", name := utf8 "memory", kind := .memory, typeIdx := 300 },
    { module := utf8 "wasi_unstable", name := [] }]
  funcs := [0, 7]
  memory := some 200
  exports := [{ name := utf8 "f", idx := 2 }]

theorem imports_encode_hosted :
    imports (hostedModule.encode ++ [2, 0xff]) = .ok [{ module := utf8 "env", name := utf8 "memory", typeIdx := 300 },
      { module := utf8 "wasi_unstable", name := [] }] := by
  have hnames : ∀ i ∈ hostedModule.imports, valid i.module = true ∧ valid i.name = true := by
    simp only [hostedModule, List.forall_mem_cons]
    exact ⟨⟨Utf8.valid_of_ascii rfl, Utf8.valid_of_ascii rfl⟩, ⟨Utf8.valid_of_ascii rfl, rfl⟩, List.forall_mem_nil _⟩
  have hsections : ∀ s ∈ hostedModule.sections, s.2.length < 2 ^ 32 := by decide +kernel
  exact (imports_encode hostedModule hnames hsections).2 (by simp [hostedModule]) [2, 0xff]

end Bindery.Wasm
