/-
The units of a text hold all its octets: written one after the other they are the text
(`bytesOf_units`), whether it is well-formed or not. So trimming takes octets away at the
ends and makes up none (`mem_of_mem_trim`).
-/
import Bindery.Bytes.Blank

namespace Bindery

namespace Utf8

theorem val_ofNat {n : Nat} (h : n.isValidChar) : (Char.ofNat n).val.toNat = n := by
  rw [Char.ofNat, dif_pos h]
  rfl

theorem ofNat_eq {n : Nat} {b : UInt8} (h : n = b.toNat) : UInt8.ofNat n = b := by
  rw [h, UInt8.ofNat_toNat]

/-! ## Characters by the octets that encode them -/

theorem encode_one {a : UInt8} (h : a < 0x80) : String.utf8EncodeChar (Char.ofNat a.toNat) = [a] := by
  have ha : a.toNat < 128 := UInt8.lt_iff_toNat_lt.1 h
  rw [String.utf8EncodeChar, val_ofNat (.inl (by omega))]
  simp only [show a.toNat ≤ 127 by omega, if_true, UInt8.ofNat_toNat]

theorem encode_two {a b : UInt8} (h : isTwo a b = true) :
    String.utf8EncodeChar (Char.ofNat (a.toNat % 32 * 64 + tailBits b)) = [a, b] := by
  simp only [isTwo, isTail, Bool.and_eq_true, decide_eq_true_eq, UInt8.le_iff_toNat_le, UInt8.reduceToNat] at h
  unfold tailBits
  rw [String.utf8EncodeChar, val_ofNat (.inl (by omega))]
  rw [if_neg (by omega), if_pos (by omega), ofNat_eq (b := a) (by omega), ofNat_eq (b := b) (by omega)]

theorem encode_three {a b c : UInt8} (h : isThree a b c = true) :
    String.utf8EncodeChar (Char.ofNat (a.toNat % 16 * 4096 + tailBits b * 64 + tailBits c)) = [a, b, c] := by
  simp only [isThree, isTail, Bool.and_eq_true, Bool.or_eq_true, bne_iff_ne, decide_eq_true_eq, UInt8.le_iff_toNat_le,
    UInt8.reduceToNat, ne_eq, ← UInt8.toNat_inj] at h
  unfold tailBits
  have hvalid : (a.toNat % 16 * 4096 + b.toNat % 64 * 64 + c.toNat % 64).isValidChar := by
    unfold Nat.isValidChar
    omega
  rw [String.utf8EncodeChar, val_ofNat hvalid]
  rw [if_neg (by omega), if_neg (by omega), if_pos (by omega), ofNat_eq (b := a) (by omega),
    ofNat_eq (b := b) (by omega), ofNat_eq (b := c) (by omega)]

theorem encode_four {a b c d : UInt8} (h : isFour a b c d = true) :
    String.utf8EncodeChar (Char.ofNat
      (a.toNat % 8 * 262144 + tailBits b * 4096 + tailBits c * 64 + tailBits d)) = [a, b, c, d] := by
  simp only [isFour, isTail, Bool.and_eq_true, Bool.or_eq_true, bne_iff_ne, decide_eq_true_eq, UInt8.le_iff_toNat_le,
    UInt8.reduceToNat, ne_eq, ← UInt8.toNat_inj] at h
  unfold tailBits
  have hvalid : (a.toNat % 8 * 262144 + b.toNat % 64 * 4096 + c.toNat % 64 * 64 + d.toNat % 64).isValidChar := by
    unfold Nat.isValidChar
    omega
  rw [String.utf8EncodeChar, val_ofNat hvalid]
  rw [if_neg (by omega), if_neg (by omega), if_neg (by omega), ofNat_eq (b := a) (by omega),
    ofNat_eq (b := b) (by omega), ofNat_eq (b := c) (by omega), ofNat_eq (b := d) (by omega)]

theorem bytesOf_cons (u : TextUnit) (us : List TextUnit) : bytesOf (u :: us) = u.bytes ++ bytesOf us := rfl

/-- **The octets of the units of a text are the text.** -/
theorem bytesOf_units (s : Bytes) : bytesOf (units s) = s := by
  fun_induction units s with
  | case1 => rfl
  | case2 a s h ih => rw [bytesOf_cons, ih, TextUnit.bytes, encode_one h, List.singleton_append]
  | case3 a h => rfl
  | case4 a h b s h₂ ih =>
    rw [bytesOf_cons, ih, TextUnit.bytes, encode_two h₂]
    rfl
  | case5 a h b h₂ ih =>
    rw [bytesOf_cons, ih]
    rfl
  | case6 a h b h₂ c s h₃ ih =>
    rw [bytesOf_cons, ih, TextUnit.bytes, encode_three h₃]
    rfl
  | case7 a h b h₂ c h₃ ih =>
    rw [bytesOf_cons, ih]
    rfl
  | case8 a h b h₂ c h₃ d s h₄ ih =>
    rw [bytesOf_cons, ih, TextUnit.bytes, encode_four h₄]
    rfl
  | case9 a h b h₂ c h₃ d s h₄ ih =>
    rw [bytesOf_cons, ih]
    rfl

end Utf8

/-- Trimming makes up no octet. -/
theorem Bytes.mem_of_mem_trim {s : Bytes} {b : UInt8} (h : b ∈ s.trim) : b ∈ s := by
  obtain ⟨u, hu, hb⟩ := List.mem_flatMap.1 h
  have hunit : u ∈ Utf8.units s := by
    have hback := (List.dropWhile_sublist _).subset (List.mem_reverse.1 hu)
    exact (List.dropWhile_sublist _).subset (List.mem_reverse.1 hback)
  rw [← Utf8.bytesOf_units s]
  exact List.mem_flatMap.2 ⟨u, hunit, hb⟩

end Bindery
