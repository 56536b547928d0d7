/-
Trimming ASCII texts. On octets below 0x80 the units of a text are its octets, so trimming
drops blank octets at the two ends (`trim_between`) and a text whose ends are not blank
stays as it is (`trim_of_tight`).
-/
import Bindery.Bytes.Blank
import Bindery.Proofs.Bytes.Octets
import Mathlib.Data.List.TakeWhile

namespace Bindery

/-- An ASCII text. -/
def Bytes.IsAscii (s : Bytes) : Prop := ∀ b ∈ s, b < 0x80

/-- A blank ASCII octet. -/
def Blank.isBlankByte (b : UInt8) : Bool := (9 ≤ b && b ≤ 13) || b == 32

/-- Neither end of the text is blank. -/
structure Bytes.IsTight (s : Bytes) : Prop where
  head : ∀ b ∈ s.head?, Blank.isBlankByte b = false
  last : ∀ b ∈ s.getLast?, Blank.isBlankByte b = false

/-- What holds of 256 octets holds of all. -/
theorem Byte.forall_octets {P : UInt8 → Prop} (h : ∀ n : Fin 256, P (UInt8.ofNat n.val)) (b : UInt8) : P b := by
  have hn := h ⟨b.toNat, b.toNat_lt⟩
  rwa [UInt8.ofNat_toNat] at hn

/-- The unit of an ASCII octet. -/
def TextUnit.ofAscii (b : UInt8) : TextUnit := .char (Char.ofNat b.toNat)

namespace Bytes

theorem IsAscii.append {s t : Bytes} (hs : IsAscii s) (ht : IsAscii t) : IsAscii (s ++ t) := by
  intro b hb
  rcases List.mem_append.1 hb with hb | hb
  · exact hs b hb
  · exact ht b hb

end Bytes

namespace Utf8

open Bytes (IsAscii)

/-- What holds of the first 128 octets holds of every ASCII octet. -/
theorem ascii_forall {P : UInt8 → Prop} (h : ∀ n : Fin 128, P (UInt8.ofNat n.val)) {b : UInt8} (hb : b < 0x80) :
    P b := by
  have hn := h ⟨b.toNat, UInt8.lt_iff_toNat_lt.1 hb⟩
  rwa [UInt8.ofNat_toNat] at hn

theorem units_cons_ascii {x : UInt8} (hx : x < 0x80) (t : Bytes) : units (x :: t) = TextUnit.ofAscii x :: units t :=
  units_one t hx

theorem units_append_of_ascii {s : Bytes} (hs : IsAscii s) (t : Bytes) :
    units (s ++ t) = s.map TextUnit.ofAscii ++ units t := by
  induction s with
  | nil => rfl
  | cons b s ih =>
    obtain ⟨hb, hs⟩ := List.forall_mem_cons.1 hs
    rw [List.cons_append, units_cons_ascii hb, ih hs]
    rfl

theorem units_of_ascii {s : Bytes} (hs : IsAscii s) : units s = s.map TextUnit.ofAscii := by
  have h := units_append_of_ascii hs []
  rwa [List.append_nil, show units [] = [] by simp [units], List.append_nil] at h

/-- No character that takes several octets goes over an ASCII octet. -/
theorem units_append_ascii {x : UInt8} (hx : x < 0x80) (t s : Bytes) :
    units (s ++ x :: t) = units s ++ TextUnit.ofAscii x :: units t := by
  have htwo : ∀ a, isTwo a x = false := fun a => Bool.eq_false_iff.2 fun h => (isTwo_octets h).2 hx
  have hthree₁ : ∀ a c, isThree a x c = false := fun a c => Bool.eq_false_iff.2 fun h => (isThree_octets h).2.1 hx
  have hthree₂ : ∀ a b, isThree a b x = false := fun a b => Bool.eq_false_iff.2 fun h => (isThree_octets h).2.2 hx
  have hfour₁ : ∀ a c d, isFour a x c d = false := fun a c d => Bool.eq_false_iff.2 fun h => (isFour_octets h).2.1 hx
  have hfour₂ : ∀ a b d, isFour a b x d = false := fun a b d => Bool.eq_false_iff.2 fun h => (isFour_octets h).2.2.1 hx
  have hfour₃ : ∀ a b c, isFour a b c x = false := fun a b c => Bool.eq_false_iff.2 fun h => (isFour_octets h).2.2.2 hx
  fun_induction units s with
  | case1 => exact units_cons_ascii hx t
  | case2 a s h ih =>
    rw [List.cons_append, units_cons_ascii h, ih]
    rfl
  | case3 a h =>
    rw [List.singleton_append, List.singleton_append, ← units_cons_ascii hx]
    cases t with
    | nil => simp [units, h, htwo]
    | cons c t =>
      cases t with
      | nil => simp [units, h, htwo, hthree₁]
      | cons d t =>
        rw [units.eq_def]
        simp only [if_neg h, htwo, hthree₁, hfour₁, Bool.false_eq_true, ↓reduceIte]
  | case4 a h b s h₂ ih =>
    rw [List.cons_append, List.cons_append, units.eq_def]
    simp only [if_neg h, if_pos h₂, ih, List.cons_append]
  | case5 a h b h₂ ih =>
    simp only [List.cons_append, List.nil_append] at ih ⊢
    rw [← ih]
    cases t with
    | nil => simp [units, h, h₂, hthree₂]
    | cons d t =>
      rw [units.eq_def]
      simp only [if_neg h, h₂, hthree₂, hfour₂, Bool.false_eq_true, ↓reduceIte]
  | case6 a h b h₂ c s h₃ ih =>
    simp only [List.cons_append]
    rw [units.eq_def]
    simp only [if_neg h, h₂, if_pos h₃, ih, Bool.false_eq_true, ↓reduceIte]
  | case7 a h b h₂ c h₃ ih =>
    simp only [List.cons_append, List.nil_append] at ih ⊢
    rw [← ih, units.eq_def]
    simp only [if_neg h, h₂, h₃, hfour₃, Bool.false_eq_true, ↓reduceIte]
  | case8 a h b h₂ c h₃ d s h₄ ih =>
    simp only [List.cons_append]
    rw [units.eq_def]
    simp only [if_neg h, h₂, h₃, if_pos h₄, ih, Bool.false_eq_true, ↓reduceIte]
  | case9 a h b h₂ c h₃ d s h₄ ih =>
    simp only [List.cons_append] at ih ⊢
    rw [← ih, units.eq_def]
    simp only [if_neg h, h₂, h₃, h₄, Bool.false_eq_true, ↓reduceIte]

theorem bytes_ofAscii {b : UInt8} (h : b < 0x80) : (TextUnit.ofAscii b).bytes = [b] :=
  ascii_forall (P := fun b => (TextUnit.ofAscii b).bytes = [b]) (by decide) h

theorem bytesOf_ascii : ∀ {s : Bytes}, IsAscii s → bytesOf (s.map TextUnit.ofAscii) = s
  | [], _ => rfl
  | b :: s, h => by
    obtain ⟨hb, hs⟩ := List.forall_mem_cons.1 h
    have ih := bytesOf_ascii hs
    rw [bytesOf] at ih ⊢
    rw [List.map_cons, List.flatMap_cons, bytes_ofAscii hb, ih]
    rfl

theorem isBlankUnit_ofAscii {b : UInt8} (h : b < 0x80) :
    Blank.isBlankUnit (TextUnit.ofAscii b) = Blank.isBlankByte b :=
  ascii_forall (P := fun b => Blank.isBlankUnit (TextUnit.ofAscii b) = Blank.isBlankByte b) (by decide) h

end Utf8

namespace Bytes

theorem dropWhile_ascii : ∀ {s : Bytes}, IsAscii s →
    (s.map TextUnit.ofAscii).dropWhile Blank.isBlankUnit = (s.dropWhile Blank.isBlankByte).map TextUnit.ofAscii
  | [], _ => rfl
  | b :: s, h => by
    obtain ⟨hb, hs⟩ := List.forall_mem_cons.1 h
    rw [List.map_cons, List.dropWhile_cons, List.dropWhile_cons, Utf8.isBlankUnit_ofAscii hb]
    split
    · exact dropWhile_ascii hs
    · rfl

theorem IsAscii.dropWhile {s : Bytes} (h : IsAscii s) (f : UInt8 → Bool) : IsAscii (s.dropWhile f) :=
  fun b hb => h b ((List.dropWhile_sublist f).subset hb)

theorem IsAscii.reverse {s : Bytes} (h : IsAscii s) : IsAscii s.reverse := fun b hb => h b (List.mem_reverse.1 hb)

/-- **Trimming an ASCII text** drops blank octets at both ends. -/
theorem trim_eq {s : Bytes} (h : IsAscii s) :
    trim s = ((s.dropWhile Blank.isBlankByte).reverse.dropWhile Blank.isBlankByte).reverse := by
  have hfront := (h.dropWhile Blank.isBlankByte).reverse
  rw [trim, Utf8.units_of_ascii h, dropWhile_ascii h, ← List.map_reverse, dropWhile_ascii hfront, ← List.map_reverse,
    Utf8.bytesOf_ascii (hfront.dropWhile _).reverse]

theorem dropWhile_of_head {α : Type} {s : List α} {f : α → Bool} (h : ∀ b ∈ s.head?, f b = false) :
    s.dropWhile f = s := by
  cases s with
  | nil => rfl
  | cons b s => rw [List.dropWhile_cons, if_neg (by simp [h b (by simp)])]

/-- What stands between things that are dropped. -/
theorem dropWhile_between {α : Type} {f : α → Bool} {a s c : List α} (ha : ∀ b ∈ a, f b = true)
    (hc : ∀ b ∈ c, f b = true) (hhead : ∀ b ∈ s.head?, f b = false) (hlast : ∀ b ∈ s.getLast?, f b = false) :
    (((a ++ s ++ c).dropWhile f).reverse.dropWhile f).reverse = s := by
  rw [List.append_assoc, List.dropWhile_append_of_pos ha]
  cases s with
  | nil =>
    rw [List.nil_append, List.dropWhile_eq_nil_iff.2 hc]
    rfl
  | cons b t =>
    have hhead' : ∀ x ∈ (b :: t ++ c).head?, f x = false := by simpa using hhead
    have hlast' : ∀ x ∈ (b :: t).reverse.head?, f x = false := by
      rwa [List.head?_reverse]
    rw [dropWhile_of_head hhead', List.reverse_append,
      List.dropWhile_append_of_pos fun b hb => hc b (List.mem_reverse.1 hb), dropWhile_of_head hlast',
      List.reverse_reverse]

/-- What stands between blanks. -/
theorem trim_between {a s c : Bytes} (ha : ∀ b ∈ a, Blank.isBlankByte b = true)
    (hc : ∀ b ∈ c, Blank.isBlankByte b = true) (hs : IsTight s) (hascii : IsAscii (a ++ s ++ c)) :
    trim (a ++ s ++ c) = s := by
  rw [trim_eq hascii]
  exact dropWhile_between ha hc hs.head hs.last

theorem trim_of_tight {s : Bytes} (hascii : IsAscii s) (hs : IsTight s) : trim s = s := by
  have h := trim_between (a := []) (c := []) (by simp) (by simp) hs (by simpa using hascii)
  simpa using h

end Bytes

end Bindery
