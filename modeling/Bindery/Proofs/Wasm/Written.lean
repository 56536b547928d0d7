/-
What was written is read in its place. A cursor between `a` and what was written between `a` and `b`
reads that and no more, and stands in front of `b` (`Reads.inPlace`). A number of 32 bits is also
read as one of 64, and no octets that are read as it are fewer than those that it is written in
(`length_le_of_eq_ok`).
-/
import Bindery.Proofs.Wasm.Numbers
import Bindery.Proofs.Wasm.Position

namespace Bindery.Wasm

open Cursor (seek)
open Utf8 (valid)

variable {α : Type}

/-! ## In place -/

/-- Between `a` and `b`, the step goes from the end of `a` to the start of `b`. -/
theorem Reads.inPlace {step : Read α} {s : Bytes} {x : α} (h : Reads step s x) (a b : Bytes) :
    step (seek (a ++ s ++ b) a.length) = .ok x (seek (a ++ s ++ b) (a ++ s).length) := by
  rw [Cursor.seek_append, List.append_assoc, Cursor.seek_append, List.length_append]
  exact h a.length b

/-! ## Numbers -/

theorem reads_u64_u32 (v : UInt32) : Reads Read.u64 (Write.u32 v) v.toUInt64 := by
  have hv : v.toNat < 128 ^ 5 := Nat.lt_trans v.toNat_lt (by decide)
  have hread := (reads_groups hv (by decide) (show 5 ≤ 10 by decide)).map UInt64.ofNat
  rwa [UInt64.ofNat_uInt32ToNat] at hread

/-- A number is written in no more groups than it has digits to the base 128. -/
theorem length_groups_le : ∀ {k j v : Nat}, v < 128 ^ j → 0 < j → (Write.groups k v).length ≤ j
  | 0, _, _, _, _ => Nat.zero_le _
  | k + 1, j + 1, v, hv, _ => by
    rw [Write.groups]
    split
    · exact Nat.succ_le_succ (Nat.zero_le j)
    · have hquot : v / 128 < 128 ^ j := (Nat.div_lt_iff_lt_mul (by decide)).2 hv
      have hj : 0 < j := by
        rcases Nat.eq_zero_or_pos j with rfl | hj
        · omega
        · exact hj
      exact Nat.succ_le_succ (length_groups_le hquot hj)

/-- **No text of a number is shorter than the written one**: octets that are read as a number, even if bits
above its width are lost, are as many as its groups at least. -/
theorem length_le_of_eq_ok {k bits p : Nat} {step : Read α} {toNat : α → Nat} {s : Bytes} {v : α} {c : Cursor}
    (h : Recognises step fun s v => Chain s ∧ s.length ≤ k ∧ toNat v = grouped s % 2 ^ bits)
    (hread : step ⟨p, s⟩ = .ok v c) (n : Nat) : (Write.groups n (toNat v)).length ≤ s.length := by
  obtain ⟨number, ⟨hchain, -, hv⟩, rfl, -⟩ := h.eq_ok_iff.1 hread
  obtain ⟨init, b, rfl, -⟩ := hchain.concat
  have hlt : toNat v < 128 ^ (init ++ [b]).length := by
    calc toNat v = grouped (init ++ [b]) % 2 ^ bits := hv
      _ ≤ grouped (init ++ [b]) := Nat.mod_le _ _
      _ < 128 ^ (init ++ [b]).length := grouped_lt _
  have hle := length_groups_le (k := n) hlt (by simp)
  rw [List.length_append]
  exact Nat.le_add_right_of_le hle

theorem length_u32_le (v : UInt32) : (Write.u32 v).length ≤ 5 :=
  length_groups_le (Nat.lt_trans v.toNat_lt (by decide)) (by decide)

/-! ## Numbers and names in context -/

/-- **Numbers and names are read back where they were written.** Between any octets `a` and `b`, a number
is read as it was by the readers of 32 and of 64 bits, and a name that is a text of less than 2^32 octets
by that of names; the cursor is left at the start of `b`. A number is written in one to five octets, and no
fewer octets are read as it. -/
theorem written_read_in_place (a b : Bytes) :
    (∀ v : UInt32,
      let data := a ++ Write.u32 v ++ b
      let behind := seek data (a ++ Write.u32 v).length
      behind.rest = b ∧ Read.u32 (seek data a.length) = .ok v behind ∧
        Read.u64 (seek data a.length) = .ok v.toUInt64 behind ∧
        1 ≤ (Write.u32 v).length ∧ (Write.u32 v).length ≤ 5 ∧
        ∀ (s : Bytes) (c : Cursor), s.length < (Write.u32 v).length →
          Read.u32 (.ofBytes s) ≠ .ok v c ∧ Read.u64 (.ofBytes s) ≠ .ok v.toUInt64 c) ∧
    ∀ name : Bytes, valid name = true → name.length < 2 ^ 32 →
      let data := a ++ Write.sized name ++ b
      let behind := seek data (a ++ Write.sized name).length
      behind.rest = b ∧ Read.name (seek data a.length) = .ok name behind := by
  have hrest (s : Bytes) : (seek (a ++ s ++ b) (a ++ s).length).rest = b := by rw [Cursor.seek_append]
  refine ⟨fun v => ?_, fun name hname hlen => ⟨hrest _, (reads_name hname hlen).inPlace a b⟩⟩
  refine ⟨hrest _, (reads_u32 v).inPlace a b, (reads_u64_u32 v).inPlace a b, length_u32_pos v, length_u32_le v,
    fun s c hshort => ?_⟩
  constructor
  · intro hread
    exact Nat.not_lt.2 (length_le_of_eq_ok recognises_u32 hread 5) hshort
  · intro hread
    have hle := length_le_of_eq_ok recognises_u64 hread 5
    rw [UInt32.toNat_toUInt64] at hle
    exact Nat.not_lt.2 hle hshort

/-- The number 16384, which takes three octets, and a name in two scripts. -/
theorem written_read_in_place_scripts :
    Write.u32 16384 = [0x80, 0x80, 0x01] ∧
    Read.u32 ⟨2, [0x80, 0x80, 0x01, 0x80, 0xFF]⟩ = .ok 16384 ⟨5, [0x80, 0xFF]⟩ ∧
    Read.u64 ⟨2, [0x80, 0x80, 0x01, 0x80, 0xFF]⟩ = .ok 16384 ⟨5, [0x80, 0xFF]⟩ ∧
    (∀ c, Read.u32 (.ofBytes [0x80, 0x01]) ≠ .ok 16384 c) ∧
    Read.name ⟨2, Write.sized (utf8 "naïve λ") ++ [0x80, 0xFF]⟩ = .ok (utf8 "naïve λ") ⟨12, [0x80, 0xFF]⟩ := by
  obtain ⟨hnumbers, hnames⟩ := written_read_in_place [0x00, 0x61] [0x80, 0xFF]
  obtain ⟨-, h32, h64, -, -, hshort⟩ := hnumbers 16384
  obtain ⟨-, hname⟩ := hnames (utf8 "naïve λ") (by decide +kernel) (by decide +kernel)
  exact ⟨by decide, h32, h64, fun c => (hshort [0x80, 0x01] c (by decide)).1, hname⟩

end Bindery.Wasm
