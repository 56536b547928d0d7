/-
The walk over the sections of a module. A section that is not one of imports is stepped
over by its declared size, whatever its body (`sections_skip`); the first section of
imports decides, and the octets behind it are never reached (`sections_import`). So what is
found in a module is what its first section of imports says, and nothing when it has none
(`imports_sections`, `imports_no_section`).
-/
import Bindery.Proofs.Wasm.Reading

namespace Bindery.Wasm

open Read (sections importSection)

/-- Sections with their ids and bodies, as octets. -/
def writeSections (ss : List (UInt8 × Bytes)) : Bytes := ss.flatMap fun s => Write.section1 s.1 s.2

/-- What the body of a section of imports says. -/
def sectionImports (body : Bytes) : Except Fault (List Import) :=
  match importSection (Cursor.ofBytes body) with
  | .ok is _ => .ok is
  | .error f _ => .error (.inImportSection f)

/-! ## One section -/

variable {p fuel : Nat} {body rest : Bytes}

theorem sections_nil : ∀ fuel : Nat, sections fuel ⟨p, []⟩ = .ok [] ⟨p, []⟩
  | 0 => rfl
  | _ + 1 => rfl

theorem reads_sectionSize (hbody : body.length < 2 ^ 32) :
    Reads (Read.part (utf8 "section size") Read.u32) (Write.count body.length) (UInt32.ofNat body.length) ∧
      (UInt32.ofNat body.length).toNat = body.length :=
  ⟨(reads_u32 _).part _, UInt32.toNat_ofNat_of_lt' hbody⟩

theorem sections_skip {id : UInt8} (hid : id ≠ 2) (hbody : body.length < 2 ^ 32) :
    sections (fuel + 1) ⟨p, Write.section1 id body ++ rest⟩
      = sections fuel ⟨p + (Write.section1 id body).length, rest⟩ := by
  obtain ⟨hsize, hlen⟩ := reads_sectionSize hbody
  have hskip := (reads_skip body).part (utf8 "section data")
  rw [← hlen] at hskip
  rw [sections, Write.section1, Write.sized, List.cons_append, List.append_assoc]
  refine Eq.trans ((reads_byte id).bind_run _ p _) ?_
  refine Eq.trans (hsize.bind_run _ _ _) ?_
  rw [if_neg hid]
  refine Eq.trans (hskip.bind_run _ _ _) ?_
  have hend : p + [id].length + (Write.count body.length).length + body.length
      = p + (id :: (Write.count body.length ++ body)).length := by
    simp only [List.length_cons, List.length_append, List.length_nil]
    omega
  rw [hend]

/-- Whether it can be read or not, the first section of imports is where the walk ends. -/
theorem sections_import (hbody : body.length < 2 ^ 32) :
    ∃ c, sections (fuel + 1) ⟨p, Write.section1 2 body ++ rest⟩
      = match sectionImports body with
        | .ok is => .ok is c
        | .error f => .error f c := by
  obtain ⟨hsize, hlen⟩ := reads_sectionSize hbody
  have htake := (reads_take body).part (utf8 "section data")
  rw [← hlen] at htake
  refine ⟨⟨p + 1 + (Write.count body.length).length + body.length, rest⟩, ?_⟩
  rw [sections, Write.section1, Write.sized, List.cons_append, List.append_assoc]
  refine Eq.trans ((reads_byte 2).bind_run _ p _) ?_
  refine Eq.trans (hsize.bind_run _ _ _) ?_
  rw [if_pos rfl]
  refine Eq.trans (htake.bind_run _ _ _) ?_
  rw [sectionImports]
  cases importSection (Cursor.ofBytes body) <;> rfl

/-! ## The walk -/

/-- Sections without imports leave the walk where they end. -/
theorem sections_skips : ∀ {ss : List (UInt8 × Bytes)} {p : Nat}, (∀ s ∈ ss, s.1 ≠ 2 ∧ s.2.length < 2 ^ 32) →
    sections (ss.length + fuel) ⟨p, writeSections ss ++ rest⟩
      = sections fuel ⟨p + (writeSections ss).length, rest⟩
  | [], p, _ => by rw [List.length_nil, Nat.zero_add]; rfl
  | s :: ss, p, h => by
    obtain ⟨⟨hid, hbody⟩, hrest⟩ := List.forall_mem_cons.1 h
    have hcons : writeSections (s :: ss) = Write.section1 s.1 s.2 ++ writeSections ss := List.flatMap_cons
    rw [hcons, List.append_assoc, List.length_cons, Nat.add_right_comm, sections_skip hid hbody,
      sections_skips hrest, List.length_append, Nat.add_assoc]

/-- Every section takes octets, so a walk with fuel for the octets has it for the sections. -/
theorem length_le_writeSections (ss : List (UInt8 × Bytes)) : ss.length ≤ (writeSections ss).length :=
  length_le_length_flatMap fun _ _ => Nat.succ_pos _

theorem reads_header : Reads Read.header Module.header () := fun _ _ => rfl

/-- A module that starts as modules do is walked over from behind its header. -/
theorem imports_header (s : Bytes) :
    imports (Module.header ++ s)
      = match sections (8 + s.length) ⟨8, s⟩ with
        | .ok is _ => .ok is
        | .error f _ => .error f := by
  have hlen : (Module.header ++ s).length = 8 + s.length := List.length_append
  have hrun := reads_header.bind_run (fun _ => sections (8 + s.length)) 0 s
  rw [imports, hlen, Cursor.ofBytes]
  exact congrArg (fun r : EStateM.Result Fault Cursor (List Import) => match r with
    | .ok is _ => Except.ok is
    | .error f _ => .error f) hrun

/-- **The first section of imports decides.** Neither the sections in front of it nor the
octets behind it matter. -/
theorem imports_sections {ss : List (UInt8 × Bytes)} (hss : ∀ s ∈ ss, s.1 ≠ 2 ∧ s.2.length < 2 ^ 32)
    (hbody : body.length < 2 ^ 32) (t : Bytes) :
    imports (Module.header ++ writeSections ss ++ Write.section1 2 body ++ t) = sectionImports body := by
  have hle := length_le_writeSections ss
  obtain ⟨fuel, hfuel⟩ : ∃ fuel, 8 + (writeSections ss ++ (Write.section1 2 body ++ t)).length
      = ss.length + (fuel + 1) := by
    refine ⟨8 + (writeSections ss ++ (Write.section1 2 body ++ t)).length - ss.length - 1, ?_⟩
    rw [List.length_append]
    omega
  have hdecides : ∃ c, sections (fuel + 1) ⟨8 + (writeSections ss).length, Write.section1 2 body ++ t⟩
      = match sectionImports body with
        | .ok is => .ok is c
        | .error f => .error f c := sections_import hbody
  obtain ⟨c, hc⟩ := hdecides
  rw [List.append_assoc, List.append_assoc, imports_header, hfuel, sections_skips hss, hc]
  cases sectionImports body <;> rfl

/-- A module without a section of imports has none. -/
theorem imports_no_section {ss : List (UInt8 × Bytes)} (hss : ∀ s ∈ ss, s.1 ≠ 2 ∧ s.2.length < 2 ^ 32) :
    imports (Module.header ++ writeSections ss) = .ok [] := by
  have hle := length_le_writeSections ss
  obtain ⟨fuel, hfuel⟩ : ∃ fuel, 8 + (writeSections ss).length = ss.length + fuel :=
    ⟨8 + (writeSections ss).length - ss.length, by omega⟩
  have hwalk : sections (ss.length + fuel) ⟨8, writeSections ss ++ []⟩ = _ := sections_skips hss
  rw [List.append_nil, sections_nil, ← hfuel] at hwalk
  rw [imports_header, hwalk]

end Bindery.Wasm
