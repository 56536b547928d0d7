/-
How package names are written. A name that is accepted is an identifier, or one behind the
global namespace or behind another identifier and a slash (`written_of_parse`), so it has
neither an octet above ASCII nor an `@` (`octets_of_parse`).
-/
import Bindery.Package.Name
import Bindery.Proofs.Bytes.Pieces
import Bindery.Proofs.Bytes.Trim
import Bindery.Proofs.Outcome

namespace Bindery.PackageName

theorem isIdentByte_spec (b : UInt8) (h : isIdentByte b = true) :
    b < 0x80 ∧ Blank.isBlankByte b = false ∧ b ≠ 47 ∧ b ≠ 64 :=
  Byte.forall_octets (P := fun b => isIdentByte b = true → b < 0x80 ∧ Blank.isBlankByte b = false ∧ b ≠ 47 ∧ b ≠ 64)
    (by decide +kernel) b h

theorem isIdentByte_of_mem {s : Bytes} (h : identProblem s = none) : s ≠ [] ∧ ∀ b ∈ s, isIdentByte b = true := by
  cases s with
  | nil => cases h
  | cons c s =>
    rw [identProblem] at h
    split at h
    · cases h
    · rename_i hletter
      split at h
      · cases h
      · rename_i hrest
        have hc : isIdentByte c = true := by
          rw [isIdentByte, show Byte.isLetter c = true by simpa using hletter]
          rfl
        refine ⟨by simp, List.forall_mem_cons.2 ⟨hc, ?_⟩⟩
        simpa using hrest

theorem checkIdent_eq_ok {s : Bytes} {what : String} {u : Unit} :
    checkIdent s what = .ok u ↔ identProblem s = none := by
  rw [checkIdent]
  cases identProblem s <;> simp

/-- The ways to write a package name. -/
inductive Written : PackageName → Bytes → Prop
  | bare {name : Bytes} : identProblem name = none → Written { name } name
  | underscore {name : Bytes} : identProblem name = none →
    Written { space := .underscore, name } (utf8 "_" ++ 47 :: name)
  | named {ns name : Bytes} : identProblem ns = none → identProblem name = none →
    Written { space := .named ns, name } (ns ++ 47 :: name)

/-- **A name that is accepted is written in one of the three ways.** -/
theorem written_of_parse {raw : Bytes} {n : PackageName} (h : parse raw = .ok n) : Written n raw := by
  by_cases hslash : 47 ∈ raw
  · obtain ⟨ns, name, rfl, hns⟩ := List.eq_append_cons_of_mem hslash
    rw [parse, Bytes.cut_append_sep hns] at h
    split at h
    · rename_i heq
      cases heq
    · rename_i heq
      cases heq
      split at h
      · rename_i hglobal
        obtain ⟨_, hspace, h⟩ := bind_eq_ok.1 h
        obtain ⟨_, hname, h⟩ := bind_eq_ok.1 h
        cases hspace
        cases h
        rw [hglobal]
        exact .underscore (checkIdent_eq_ok.1 hname)
      · obtain ⟨_, hcheck, h⟩ := bind_eq_ok.1 h
        obtain ⟨_, hspace, h⟩ := bind_eq_ok.1 h
        obtain ⟨_, hname, h⟩ := bind_eq_ok.1 h
        cases hspace
        cases h
        exact .named (checkIdent_eq_ok.1 hcheck) (checkIdent_eq_ok.1 hname)
  · rw [parse, Bytes.cut_of_not_mem hslash] at h
    obtain ⟨_, hname, h⟩ := bind_eq_ok.1 h
    cases h
    exact .bare (checkIdent_eq_ok.1 hname)

theorem Written.identProblem_name {n : PackageName} {raw : Bytes} : Written n raw → identProblem n.name = none
  | .bare h | .underscore h | .named _ h => h

/-- A name that is accepted is in ASCII and has no `@`. -/
theorem octets_of_parse {raw : Bytes} {n : PackageName} (h : parse raw = .ok n) : ∀ b ∈ raw, b < 0x80 ∧ b ≠ 64 := by
  have hident : ∀ {s : Bytes}, identProblem s = none → ∀ b ∈ s, b < 0x80 ∧ b ≠ 64 := by
    intro s hs b hb
    obtain ⟨hascii, -, -, hat⟩ := isIdentByte_spec b ((isIdentByte_of_mem hs).2 b hb)
    exact ⟨hascii, hat⟩
  have hslash : (47 : UInt8) < 0x80 ∧ (47 : UInt8) ≠ 64 := by decide
  have hunderscore : utf8 "_" = [95] := by decide
  cases written_of_parse h with
  | bare hname => exact hident hname
  | underscore hname =>
    rw [hunderscore]
    exact List.forall_mem_append.2 ⟨List.forall_mem_singleton.2 (by decide),
      List.forall_mem_cons.2 ⟨hslash, hident hname⟩⟩
  | named hns hname =>
    exact List.forall_mem_append.2 ⟨hident hns, List.forall_mem_cons.2 ⟨hslash, hident hname⟩⟩

end Bindery.PackageName
