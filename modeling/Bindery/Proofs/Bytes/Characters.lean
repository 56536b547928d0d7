/-
Valid texts by their characters. The units of two texts one after the other are those of the first
and those of the second (`Text.units_append`), and characters are read back from the octets that
encode them (`units_bytesOf`). So a valid text is found again by trimming it out of white space
(`trim_around`), and what trimming takes away is white space only (`exists_around`).
-/
import Bindery.Proofs.Bytes.Trim
import Bindery.Proofs.Bytes.Units
import Mathlib.Data.List.DropRight

namespace Bindery

namespace Utf8

/-- No character goes over the end of a valid text. -/
theorem Text.units_append {s : Bytes} (hs : Text s) (t : Bytes) : units (s ++ t) = units s ++ units t := by
  induction hs with
  | nil => simp [units]
  | one ha _ ih => simp only [List.cons_append, units_one _ ha, ih]
  | two hab _ ih => simp only [List.cons_append, units_two _ hab, ih]
  | three habc _ ih => simp only [List.cons_append, units_three _ habc, ih]
  | four habcd _ ih => simp only [List.cons_append, units_four _ habcd, ih]

theorem units_append {s : Bytes} (hs : valid s = true) (t : Bytes) : units (s ++ t) = units s ++ units t :=
  (text_of_valid hs).units_append t

theorem text_encodeChar (c : Char) : Text (String.utf8EncodeChar c) := by
  have hrange := c.valid
  unfold UInt32.isValidChar Nat.isValidChar at hrange
  rw [String.utf8EncodeChar]
  split
  · refine .one ?_ .nil
    simp only [UInt8.lt_iff_toNat_lt, UInt8.toNat_ofNat', UInt8.reduceToNat]
    omega
  split
  · refine .two ?_ .nil
    simp only [isTwo, isTail, Bool.and_eq_true, decide_eq_true_eq, UInt8.le_iff_toNat_le, UInt8.toNat_ofNat',
      UInt8.reduceToNat]
    omega
  split
  · refine .three ?_ .nil
    simp only [isThree, isTail, Bool.and_eq_true, Bool.or_eq_true, bne_iff_ne, decide_eq_true_eq, UInt8.le_iff_toNat_le,
      ne_eq, ← UInt8.toNat_inj, UInt8.toNat_ofNat', UInt8.reduceToNat]
    omega
  · refine .four ?_ .nil
    simp only [isFour, isTail, Bool.and_eq_true, Bool.or_eq_true, bne_iff_ne, decide_eq_true_eq, UInt8.le_iff_toNat_le,
      ne_eq, ← UInt8.toNat_inj, UInt8.toNat_ofNat', UInt8.reduceToNat]
    omega

theorem encode_injective {cs ds : List Char}
    (h : cs.flatMap String.utf8EncodeChar = ds.flatMap String.utf8EncodeChar) : cs = ds := by
  have hdecode : cs.utf8Encode.utf8Decode? = ds.utf8Encode.utf8Decode? := by
    rw [List.utf8Encode, List.utf8Encode, h]
  rw [List.utf8Decode?_utf8Encode, List.utf8Decode?_utf8Encode] at hdecode
  exact List.toArray_inj (Option.some.inj hdecode)

theorem exists_chars : ∀ {us : List TextUnit}, (∀ u ∈ us, u.isChar = true) → ∃ cs : List Char, us = cs.map .char
  | [], _ => ⟨[], rfl⟩
  | .char c :: us, h => by
    obtain ⟨cs, rfl⟩ := exists_chars (List.forall_mem_cons.1 h).2
    exact ⟨c :: cs, rfl⟩
  | .stray b :: us, h => absurd (List.forall_mem_cons.1 h).1 (by simp [TextUnit.isChar])

theorem isChar_of_valid {s : Bytes} (h : valid s = true) : ∀ u ∈ units s, u.isChar = true := List.all_eq_true.1 h

theorem bytesOf_chars (cs : List Char) : bytesOf (cs.map .char) = cs.flatMap String.utf8EncodeChar := by
  rw [bytesOf, List.flatMap_map]
  rfl

/-- The encoding of a character is that character: what it is read as has the same octets. -/
theorem units_encodeChar (c : Char) : units (String.utf8EncodeChar c) = [.char c] := by
  obtain ⟨cs, hcs⟩ := exists_chars (isChar_of_valid (valid_of_text (text_encodeChar c)))
  have hoctets : cs.flatMap String.utf8EncodeChar = [c].flatMap String.utf8EncodeChar := by
    rw [← bytesOf_chars, ← hcs, bytesOf_units, List.flatMap_singleton]
  rw [hcs, encode_injective hoctets]
  rfl

/-- **Characters are read back** from the octets that encode them. -/
theorem units_bytesOf : ∀ {us : List TextUnit}, (∀ u ∈ us, u.isChar = true) → units (bytesOf us) = us
  | [], _ => by simp [bytesOf, units]
  | .char c :: us, h => by
    rw [bytesOf_cons, TextUnit.bytes, (text_encodeChar c).units_append, units_encodeChar,
      units_bytesOf (List.forall_mem_cons.1 h).2]
    rfl
  | .stray b :: us, h => absurd (List.forall_mem_cons.1 h).1 (by simp [TextUnit.isChar])

theorem valid_bytesOf {us : List TextUnit} (h : ∀ u ∈ us, u.isChar = true) : valid (bytesOf us) = true := by
  rw [valid, units_bytesOf h]
  exact List.all_eq_true.2 h

theorem bytesOf_append (us vs : List TextUnit) : bytesOf (us ++ vs) = bytesOf us ++ bytesOf vs := List.flatMap_append

end Utf8

open Utf8

/-! ## White space -/

/-- White space and nothing else. -/
def Blank.IsBlankText (s : Bytes) : Prop := ∀ u ∈ units s, Blank.isBlankUnit u = true

/-- A text that neither begins nor ends with white space. -/
structure Bytes.IsTrimmed (s : Bytes) : Prop where
  head : ∀ u ∈ (units s).head?, Blank.isBlankUnit u = false
  last : ∀ u ∈ (units s).getLast?, Blank.isBlankUnit u = false

namespace Blank

theorem isChar_of_isBlankUnit {u : TextUnit} (h : isBlankUnit u = true) : u.isChar = true := by
  cases u with
  | char c => rfl
  | stray b => cases h

theorem isBlankText_nil : IsBlankText [] := by simp [IsBlankText, units]

theorem IsBlankText.valid {s : Bytes} (h : IsBlankText s) : valid s = true :=
  List.all_eq_true.2 fun u hu => isChar_of_isBlankUnit (h u hu)

/-- An ASCII octet is a unit of its own. -/
theorem IsBlankText.isBlankByte {s : Bytes} (h : IsBlankText s) {b : UInt8} (hb : b ∈ s) (hascii : b < 0x80) :
    isBlankByte b = true := by
  obtain ⟨p, q, rfl⟩ := List.append_of_mem hb
  rw [← isBlankUnit_ofAscii hascii]
  exact h _ (by simp [units_append_ascii hascii])

theorem isBlankText_bytesOf {us : List TextUnit} (h : ∀ u ∈ us, isBlankUnit u = true) : IsBlankText (bytesOf us) := by
  rw [IsBlankText, units_bytesOf fun u hu => isChar_of_isBlankUnit (h u hu)]
  exact h

end Blank

namespace Bytes

open Blank (IsBlankText)

theorem trim_eq_rdropWhile (s : Bytes) :
    s.trim = bytesOf (((units s).dropWhile Blank.isBlankUnit).rdropWhile Blank.isBlankUnit) := rfl

theorem trim_of_isBlankText {w : Bytes} (hw : IsBlankText w) : w.trim = [] := by
  rw [trim, List.dropWhile_eq_nil_iff.2 hw]
  rfl

/-- **Trimming** takes white space away at both ends. -/
theorem trim_around {v x w : Bytes} (hv : IsBlankText v) (hw : IsBlankText w) (hvalid : valid x = true)
    (hx : x.IsTrimmed) : (v ++ x ++ w).trim = x := by
  rw [trim, units_append (valid_append hv.valid hvalid), units_append hv.valid,
    dropWhile_between hv hw hx.head hx.last, bytesOf_units]

/-- What trimming leaves of a valid text, and what it takes away. -/
theorem exists_around {s : Bytes} (hs : valid s = true) : valid s.trim = true ∧ s.trim.IsTrimmed ∧
    ∃ v w, IsBlankText v ∧ IsBlankText w ∧ s = v ++ s.trim ++ w := by
  have hchars : ∀ {us : List TextUnit}, us <:+: units s → ∀ u ∈ us, u.isChar = true :=
    fun hus u hu => isChar_of_valid hs u (hus.subset hu)
  have hback : (units s).dropWhile Blank.isBlankUnit <:+: units s := (List.dropWhile_suffix _).isInfix
  have hinner : ((units s).dropWhile Blank.isBlankUnit).rdropWhile Blank.isBlankUnit <+:
      (units s).dropWhile Blank.isBlankUnit := List.rdropWhile_prefix _ _
  have hunits : units s.trim = ((units s).dropWhile Blank.isBlankUnit).rdropWhile Blank.isBlankUnit :=
    units_bytesOf (hchars (hinner.isInfix.trans hback))
  refine ⟨valid_bytesOf (hchars (hinner.isInfix.trans hback)), ⟨?_, ?_⟩,
    bytesOf ((units s).takeWhile Blank.isBlankUnit),
    bytesOf (((units s).dropWhile Blank.isBlankUnit).rtakeWhile Blank.isBlankUnit), ?_, ?_, ?_⟩
  · intro u hu
    have hhead : u ∈ ((units s).dropWhile Blank.isBlankUnit).head? := by
      obtain ⟨t, ht⟩ := hinner
      rw [hunits] at hu
      rw [← ht, List.head?_append, Option.mem_def.1 hu]
      rfl
    have hstop := List.head?_dropWhile_not Blank.isBlankUnit (units s)
    rw [Option.mem_def.1 hhead] at hstop
    simpa using hstop
  · intro u hu
    rw [hunits] at hu
    have hne := List.ne_nil_of_mem (List.mem_of_mem_getLast? hu)
    obtain rfl := List.getLast_eq_iff_getLast?_eq_some hne |>.2 hu
    simpa using List.rdropWhile_last_not _ _ hne
  · exact Blank.isBlankText_bytesOf fun u hu => List.mem_takeWhile_imp hu
  · exact Blank.isBlankText_bytesOf fun u hu => List.mem_rtakeWhile_imp hu
  · rw [trim_eq_rdropWhile, ← bytesOf_append, ← bytesOf_append, List.append_assoc, List.rdropWhile_append_rtakeWhile,
      List.takeWhile_append_dropWhile, bytesOf_units]

end Bytes

end Bindery
