/-
Numbers and texts as octets. A number is read back from as many octets as it takes,
least or most significant first. `Utf8.Text` is the grammar behind `Utf8.valid`: a text
is a run of encodings, so texts one after the other are a text, and a text that is cut
at an octet below 0x80 is cut between two characters.
-/
import Bindery.Bytes.Endian
import Bindery.Bytes.Utf8
import Mathlib.Algebra.Ring.Nat

namespace Bindery

/-- No part of a text is longer than the whole. -/
theorem length_le_flatMap {α : Type} (encode : α → Bytes) {a : α} {as : List α} (h : a ∈ as) :
    (encode a).length ≤ (as.flatMap encode).length := by
  obtain ⟨as₁, as₂, rfl⟩ := List.append_of_mem h
  rw [List.flatMap_append, List.flatMap_cons, List.length_append, List.length_append]
  omega

/-- A text of parts that are not empty is as long as there are parts. -/
theorem length_le_length_flatMap {α : Type} {encode : α → Bytes} : ∀ {as : List α},
    (∀ a ∈ as, 0 < (encode a).length) → as.length ≤ (as.flatMap encode).length
  | [], _ => Nat.le_refl 0
  | a :: as, h => by
    obtain ⟨ha, has⟩ := List.forall_mem_cons.1 h
    have hrest := length_le_length_flatMap has
    rw [List.flatMap_cons, List.length_append, List.length_cons]
    omega

/-- A text known in advance is the octets that it is stored in, which are quicker to compute. -/
theorem utf8_eq_toByteArray : utf8 = fun s => s.toByteArray.data.toList := by
  funext s
  have hs : s.toByteArray = s.toList.utf8Encode := by simp
  rw [hs, List.utf8Encode, utf8]
  simp

/-! ## Numbers -/

namespace Endian

theorem length_little (count n : Nat) : (little count n).length = count := by
  induction count generalizing n with
  | zero => rfl
  | succ count ih => rw [little, List.length_cons, ih]

theorem length_big (count n : Nat) : (big count n).length = count := by
  rw [big, List.length_reverse, length_little]

theorem ofLittle_little {count n : Nat} (h : n < 256 ^ count) : ofLittle (little count n) = n := by
  induction count generalizing n with
  | zero =>
    rw [Nat.pow_zero] at h
    obtain rfl : n = 0 := by omega
    rfl
  | succ count ih =>
    have hdiv : n / 256 < 256 ^ count := by
      rw [Nat.pow_succ] at h
      omega
    have hrest := ih hdiv
    have hlow : n.toUInt8.toNat = n % 256 := UInt8.toNat_ofNat'
    rw [little, ofLittle, List.foldr_cons, ← ofLittle, hrest, hlow]
    omega

theorem ofLittle_lt (s : Bytes) : ofLittle s < 256 ^ s.length := by
  induction s with
  | nil => simp [ofLittle]
  | cons b s ih =>
    have hb := b.toNat_lt
    rw [ofLittle, List.foldr_cons, ← ofLittle, List.length_cons, Nat.pow_succ]
    omega

theorem little_ofLittle (s : Bytes) : little s.length (ofLittle s) = s := by
  induction s with
  | nil => rfl
  | cons b s ih =>
    have hb := b.toNat_lt
    have hlow : (b.toNat + 256 * ofLittle s).toUInt8 = b := by
      refine UInt8.toNat_inj.1 ?_
      rw [Nat.toUInt8, UInt8.toNat_ofNat']
      omega
    have hhigh : (b.toNat + 256 * ofLittle s) / 256 = ofLittle s := by omega
    rw [ofLittle, List.foldr_cons, ← ofLittle, List.length_cons, little, hlow, hhigh, ih]

theorem ofBig_big {count n : Nat} (h : n < 256 ^ count) : ofBig (big count n) = n := by
  have hcomm : (fun (b : UInt8) (m : Nat) => 256 * m + b.toNat) = fun b m => b.toNat + 256 * m := by
    funext b m
    omega
  rw [ofBig, big, List.foldl_reverse, hcomm]
  exact ofLittle_little h

end Endian

/-! ## Texts -/

namespace Utf8

/-- A run of encoded characters. -/
inductive Text : Bytes → Prop
  | nil : Text []
  | one {a : UInt8} {s : Bytes} : a < 0x80 → Text s → Text (a :: s)
  | two {a b : UInt8} {s : Bytes} : isTwo a b = true → Text s → Text (a :: b :: s)
  | three {a b c : UInt8} {s : Bytes} : isThree a b c = true → Text s → Text (a :: b :: c :: s)
  | four {a b c d : UInt8} {s : Bytes} : isFour a b c d = true → Text s → Text (a :: b :: c :: d :: s)

theorem text_of_valid {s : Bytes} (h : valid s = true) : Text s := by
  unfold valid at h
  fun_induction units s with
  | case1 => exact .nil
  | case2 a s ha ih => exact .one ha (ih (by simpa [TextUnit.isChar] using h))
  | case4 a _ b s hab ih => exact .two hab (ih (by simpa [TextUnit.isChar] using h))
  | case6 a _ b _ c s habc ih => exact .three habc (ih (by simpa [TextUnit.isChar] using h))
  | case8 a _ b _ c _ d s habcd ih => exact .four habcd (ih (by simpa [TextUnit.isChar] using h))
  | _ => simp [TextUnit.isChar] at h

/-- An octet of a longer encoding is no character of its own. -/
theorem not_lt_of_isTail {b : UInt8} (h : isTail b = true) : ¬b < 0x80 := by
  simp only [isTail, Bool.and_eq_true, decide_eq_true_eq] at h
  exact UInt8.not_lt.2 h.1

theorem isTwo_octets {a b : UInt8} (h : isTwo a b = true) : ¬a < 0x80 ∧ ¬b < 0x80 := by
  simp only [isTwo, Bool.and_eq_true, decide_eq_true_eq] at h
  exact ⟨UInt8.not_lt.2 (UInt8.le_trans (by decide) h.1.1), not_lt_of_isTail h.2⟩

theorem isThree_octets {a b c : UInt8} (h : isThree a b c = true) : ¬a < 0x80 ∧ ¬b < 0x80 ∧ ¬c < 0x80 := by
  simp only [isThree, Bool.and_eq_true, decide_eq_true_eq] at h
  obtain ⟨⟨⟨⟨⟨ha, -⟩, hb⟩, hc⟩, -⟩, -⟩ := h
  exact ⟨UInt8.not_lt.2 (UInt8.le_trans (by decide) ha), not_lt_of_isTail hb, not_lt_of_isTail hc⟩

theorem isFour_octets {a b c d : UInt8} (h : isFour a b c d = true) :
    ¬a < 0x80 ∧ ¬b < 0x80 ∧ ¬c < 0x80 ∧ ¬d < 0x80 := by
  simp only [isFour, Bool.and_eq_true, decide_eq_true_eq] at h
  obtain ⟨⟨⟨⟨⟨⟨ha, -⟩, hb⟩, hc⟩, hd⟩, -⟩, -⟩ := h
  exact ⟨UInt8.not_lt.2 (UInt8.le_trans (by decide) ha), not_lt_of_isTail hb, not_lt_of_isTail hc,
    not_lt_of_isTail hd⟩

theorem isThree_not_isTwo {a b c : UInt8} (h : isThree a b c = true) : isTwo a b = false := by
  simp only [isThree, Bool.and_eq_true, decide_eq_true_eq] at h
  have hlead : ¬a ≤ 0xDF := UInt8.not_le.2 (UInt8.lt_of_lt_of_le (by decide) h.1.1.1.1.1)
  simp [isTwo, hlead]

theorem isFour_not_shorter {a b c d : UInt8} (h : isFour a b c d = true) :
    isTwo a b = false ∧ isThree a b c = false := by
  simp only [isFour, Bool.and_eq_true, decide_eq_true_eq] at h
  have htwo : ¬a ≤ 0xDF := UInt8.not_le.2 (UInt8.lt_of_lt_of_le (by decide) h.1.1.1.1.1.1)
  have hthree : ¬a ≤ 0xEF := UInt8.not_le.2 (UInt8.lt_of_lt_of_le (by decide) h.1.1.1.1.1.1)
  simp [isTwo, isThree, htwo, hthree]

section units

variable {a b c d : UInt8} (t : Bytes)

theorem units_one (h : a < 0x80) : units (a :: t) = .char (Char.ofNat a.toNat) :: units t := by
  rw [units.eq_def]
  simp only [h, ↓reduceIte]

theorem units_two (h : isTwo a b = true) :
    units (a :: b :: t) = .char (Char.ofNat (a.toNat % 32 * 64 + tailBits b)) :: units t := by
  rw [units.eq_def]
  simp only [(isTwo_octets h).1, h, ↓reduceIte]

theorem units_three (h : isThree a b c = true) : units (a :: b :: c :: t) =
    .char (Char.ofNat (a.toNat % 16 * 4096 + tailBits b * 64 + tailBits c)) :: units t := by
  rw [units.eq_def]
  simp only [(isThree_octets h).1, isThree_not_isTwo h, h, ↓reduceIte, Bool.false_eq_true]

theorem units_four (h : isFour a b c d = true) : units (a :: b :: c :: d :: t) = .char (Char.ofNat
    (a.toNat % 8 * 262144 + tailBits b * 4096 + tailBits c * 64 + tailBits d)) :: units t := by
  obtain ⟨htwo, hthree⟩ := isFour_not_shorter h
  rw [units.eq_def]
  simp only [(isFour_octets h).1, htwo, hthree, h, ↓reduceIte, Bool.false_eq_true]

end units

theorem valid_of_text {s : Bytes} (h : Text s) : valid s = true := by
  induction h with
  | nil => simp [valid, units]
  | one ha _ ih =>
    rw [valid, units_one _ ha]
    exact ih
  | two hab _ ih =>
    rw [valid, units_two _ hab]
    exact ih
  | three habc _ ih =>
    rw [valid, units_three _ habc]
    exact ih
  | four habcd _ ih =>
    rw [valid, units_four _ habcd]
    exact ih

/-- **The valid octets are the texts of the grammar.** -/
theorem valid_iff_text {s : Bytes} : valid s = true ↔ Text s := ⟨text_of_valid, valid_of_text⟩

theorem Text.append {s t : Bytes} (hs : Text s) (ht : Text t) : Text (s ++ t) := by
  induction hs with
  | nil => exact ht
  | one ha _ ih => exact .one ha ih
  | two hab _ ih => exact .two hab ih
  | three habc _ ih => exact .three habc ih
  | four habcd _ ih => exact .four habcd ih

theorem text_of_ascii : ∀ {s : Bytes}, (∀ b ∈ s, b < 0x80) → Text s
  | [], _ => .nil
  | b :: s, h => .one (h b (by simp)) (text_of_ascii fun b hb => h b (by simp [hb]))

theorem valid_of_ascii {s : Bytes} (h : s.all (· < 0x80) = true) : valid s = true := by
  simp only [List.all_eq_true, decide_eq_true_eq] at h
  exact valid_of_text (text_of_ascii h)

theorem valid_append {s t : Bytes} (hs : valid s = true) (ht : valid t = true) : valid (s ++ t) = true :=
  valid_of_text ((text_of_valid hs).append (text_of_valid ht))

/-- A text is cut between characters at an octet below 0x80. -/
theorem Text.cut {x : UInt8} (hx : x < 0x80) {u : Bytes} (h : Text u) :
    ∀ {s t : Bytes}, u = s ++ x :: t → Text s ∧ Text t := by
  induction h with
  | nil => simp
  | @one a r ha hr ih =>
    intro s t heq
    rcases List.cons_eq_append_iff.1 heq with ⟨rfl, heq⟩ | ⟨s', rfl, hrest⟩
    · obtain ⟨rfl, rfl⟩ := List.cons.inj heq
      exact ⟨.nil, hr⟩
    · exact ⟨.one ha (ih hrest).1, (ih hrest).2⟩
  | @two a b r hab hr ih =>
    obtain ⟨ha, hb⟩ := isTwo_octets hab
    rintro (_ | ⟨a', _ | ⟨b', s⟩⟩) t heq <;> simp only [List.nil_append, List.cons_append, List.cons.injEq] at heq
    · exact absurd hx (heq.1 ▸ ha)
    · exact absurd hx (heq.2.1 ▸ hb)
    · obtain ⟨rfl, rfl, heq⟩ := heq
      exact ⟨.two hab (ih heq).1, (ih heq).2⟩
  | @three a b c r habc hr ih =>
    obtain ⟨ha, hb, hc⟩ := isThree_octets habc
    rintro (_ | ⟨a', _ | ⟨b', _ | ⟨c', s⟩⟩⟩) t heq <;>
      simp only [List.nil_append, List.cons_append, List.cons.injEq] at heq
    · exact absurd hx (heq.1 ▸ ha)
    · exact absurd hx (heq.2.1 ▸ hb)
    · exact absurd hx (heq.2.2.1 ▸ hc)
    · obtain ⟨rfl, rfl, rfl, heq⟩ := heq
      exact ⟨.three habc (ih heq).1, (ih heq).2⟩
  | @four a b c d r habcd hr ih =>
    obtain ⟨ha, hb, hc, hd⟩ := isFour_octets habcd
    rintro (_ | ⟨a', _ | ⟨b', _ | ⟨c', _ | ⟨d', s⟩⟩⟩⟩) t heq <;>
      simp only [List.nil_append, List.cons_append, List.cons.injEq] at heq
    · exact absurd hx (heq.1 ▸ ha)
    · exact absurd hx (heq.2.1 ▸ hb)
    · exact absurd hx (heq.2.2.1 ▸ hc)
    · exact absurd hx (heq.2.2.2.1 ▸ hd)
    · obtain ⟨rfl, rfl, rfl, rfl, heq⟩ := heq
      exact ⟨.four habcd (ih heq).1, (ih heq).2⟩

end Utf8

end Bindery
