/-
Numbers in decimal: they are written with digits, and different numbers are written differently.
-/
import Bindery.Bytes
import Mathlib.Tactic.IntervalCases

namespace Bindery

theorem Byte.isDigit_ofChar {c : Char} (h : c.isDigit = true) : Byte.isDigit (Byte.ofChar c) = true := by
  obtain ⟨hlow, hhigh⟩ : 48 ≤ c.toNat ∧ c.toNat ≤ 57 := by
    simpa [Char.isDigit, UInt32.le_iff_toNat_le] using h
  unfold ofChar
  generalize c.toNat = k at *
  interval_cases k <;> rfl

theorem Bytes.decimal_ne_nil (k : Nat) : Bytes.decimal k ≠ [] := by
  simp [Bytes.decimal, Nat.toDigits_ne_nil]

theorem Bytes.isDigit_of_mem_decimal {k : Nat} {b : UInt8} (h : b ∈ Bytes.decimal k) : Byte.isDigit b = true := by
  obtain ⟨c, hc, rfl⟩ := List.mem_map.1 h
  exact Byte.isDigit_ofChar (Nat.isDigit_of_mem_toDigits (by decide) (by decide) hc)

theorem Byte.ofNat_ofChar {c : Char} (h : c.isDigit = true) : Char.ofNat (Byte.ofChar c).toNat = c := by
  obtain ⟨-, hhigh⟩ : 48 ≤ c.toNat ∧ c.toNat ≤ 57 := by
    simpa [Char.isDigit, UInt32.le_iff_toNat_le] using h
  have hnat : (Byte.ofChar c).toNat = c.toNat := by
    rw [ofChar, Nat.toUInt8, UInt8.toNat_ofNat']
    omega
  rw [hnat, Char.ofNat_toNat]

theorem Bytes.decimal_injective : Function.Injective Bytes.decimal := by
  intro m n h
  have hback : ∀ k, (Bytes.decimal k).map (fun b => Char.ofNat b.toNat) = Nat.toDigits 10 k := by
    intro k
    rw [Bytes.decimal, List.map_map]
    refine (List.map_congr_left fun c hc => ?_).trans (List.map_id _)
    exact Byte.ofNat_ofChar (Nat.isDigit_of_mem_toDigits (by decide) (by decide) hc)
  have hsame : Nat.toDigits 10 m = Nat.toDigits 10 n := by rw [← hback m, h, hback n]
  rw [← Nat.ofDigitChars_toDigits (b := 10) (n := m) (by decide) (by decide), hsame,
    Nat.ofDigitChars_toDigits (by decide) (by decide)]

end Bindery
