/-
What a module's contract is detected from: the names in its first section of imports, and
nothing else. Whatever stands in other sections or behind that one, the imports found are
those the section says (`Wasm.imports_sections`); the namespaces a module imports from are
the distinct names of these, ascending, and the contract is WASI's when one of them is a
namespace of WASI (`detect_eq_wasi_iff`).
-/
import Bindery.Package.Abi
import Bindery.Proofs.Table
import Bindery.Proofs.Wasm.Sections

namespace Bindery

open Wasm (imports importModules sectionImports writeSections)

namespace Wasm

theorem importModules_eq_ok {d : Bytes} {is : List Import} (h : imports d = .ok is) :
    importModules d = .ok (Table.distinct (is.map (·.module))) := by
  rw [importModules, h]
  rfl

theorem importModules_eq_error {d : Bytes} {f : Fault} (h : imports d = .error f) : importModules d = .error f := by
  rw [importModules, h]
  rfl

/-- The namespaces can be listed just when the imports can be read. -/
theorem importModules_fails_iff (d : Bytes) : (∃ f, importModules d = .error f) ↔ ∃ f, imports d = .error f := by
  cases h : imports d with
  | ok is => simp [importModules_eq_ok h]
  | error f => simp [importModules_eq_error h]

end Wasm

namespace Abi

theorem isWasiModule_iff {n : Bytes} :
    isWasiModule n = true ↔ n = utf8 "wasi_unstable" ∨ n = utf8 "wasi_snapshot_preview1" := by
  rw [isWasiModule, Bool.or_eq_true, beq_iff_eq, beq_iff_eq]

/-- The contract is WASI's when the imports can be read and one is from a namespace of WASI. -/
theorem detect_eq_wasi_iff (d : Bytes) : detect d = .wasi ↔ ∃ is, imports d = .ok is ∧
    ∃ i ∈ is, i.module = utf8 "wasi_unstable" ∨ i.module = utf8 "wasi_snapshot_preview1" := by
  rw [detect]
  cases h : imports d with
  | error f => simp [Wasm.importModules_eq_error h]
  | ok is =>
    have hany : (Table.distinct (is.map (·.module))).any isWasiModule = true
        ↔ ∃ i ∈ is, i.module = utf8 "wasi_unstable" ∨ i.module = utf8 "wasi_snapshot_preview1" := by
      simp only [List.any_eq_true, Table.mem_distinct, List.mem_map, isWasiModule_iff, exists_exists_and_eq_and]
    rw [Wasm.importModules_eq_ok h]
    simp only [Except.ok.injEq, exists_eq_left', ← hany]
    cases (Table.distinct (is.map (·.module))).any isWasiModule <;> simp

end Abi

/-- **Only the first section of imports counts.** Behind any sections without imports, a
section of imports gives what its body says, or fails as its body does, whatever follows; a
module that ends without one imports nothing. For any octets, the namespaces can be listed
just when the imports can be read, and are then their distinct names, ascending; and the
contract is WASI's just when one of them is a namespace of WASI. -/
theorem first_imports_decide (ss : List (UInt8 × Bytes)) (hss : ∀ s ∈ ss, s.1 ≠ 2 ∧ s.2.length < 2 ^ 32) :
    (∀ body, body.length < 2 ^ 32 → ∀ t,
      imports (Wasm.Module.header ++ writeSections ss ++ Wasm.Write.section1 2 body ++ t) = sectionImports body) ∧
    imports (Wasm.Module.header ++ writeSections ss) = .ok [] ∧
    (∀ d, (∃ f, importModules d = .error f) ↔ ∃ f, imports d = .error f) ∧
    (∀ d is, imports d = .ok is → ∃ names, importModules d = .ok names ∧
      names.Pairwise (fun m n => Table.before m n = true) ∧ ∀ n, n ∈ names ↔ ∃ i ∈ is, i.module = n) ∧
    ∀ d, Abi.detect d = .wasi ↔ ∃ is, imports d = .ok is ∧
      ∃ i ∈ is, i.module = utf8 "wasi_unstable" ∨ i.module = utf8 "wasi_snapshot_preview1" := by
  refine ⟨fun body hbody t => Wasm.imports_sections hss hbody t, Wasm.imports_no_section hss,
    Wasm.importModules_fails_iff, fun d is h => ?_, Abi.detect_eq_wasi_iff⟩
  refine ⟨_, Wasm.importModules_eq_ok h, Table.pairwise_distinct _, fun n => ?_⟩
  rw [Table.mem_distinct, List.mem_map]

/-- A section of another kind whose body is that of a section of imports, one of imports,
and octets that are no section at all. -/
theorem first_imports_decide_decoy :
    imports (Wasm.Module.header ++ writeSections [(0, [1, 1, 97, 0, 0, 0]), (11, [])]
        ++ Wasm.Write.section1 2 [1, 1, 98, 1, 99, 3, 0x7f, 0] ++ [2, 0x80])
      = .ok [{ module := utf8 "b", name := utf8 "c", kind := .global }] ∧
    imports (Wasm.Module.header ++ writeSections [(0, [1, 1, 97, 0, 0, 0]), (11, [])]) = .ok [] := by
  have hss : ∀ s ∈ [((0 : UInt8), ([1, 1, 97, 0, 0, 0] : Bytes)), (11, [])], s.1 ≠ 2 ∧ s.2.length < 2 ^ 32 := by
    decide
  obtain ⟨hfirst, hnone, -⟩ := first_imports_decide _ hss
  have hread : sectionImports [1, 1, 98, 1, 99, 3, 0x7f, 0]
      = .ok [{ module := utf8 "b", name := utf8 "c", kind := .global }] := by rfl
  exact ⟨(hfirst _ (by decide) _).trans hread, hnone⟩

end Bindery
