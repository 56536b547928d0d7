/-
Lists of items. A list is divided at the commas outside brackets; a text that closes every
bracket it opens and has no comma outside them goes through whole (`Passes`), so the items
of a canonical list are the texts it was joined from (`items_join`).
-/
import Bindery.Interface.Item
import Bindery.Interface.Line
import Bindery.Proofs.Bytes.Trim

namespace Bindery.Interface

open Bytes (IsAscii IsTight)

/-! ## Octets of identifiers and types -/

/-- An octet in the text of a type. -/
def isTypeByte (b : UInt8) : Bool := isIdentByte b || b == 60 || b == 62 || b == 44 || b == 32 || b == 46

/-- An octet in the text of a member: brackets and a colon stand beside types. -/
def isMemberByte (b : UInt8) : Bool := isTypeByte b || b == 40 || b == 41 || b == 58

theorem isTypeByte_spec (b : UInt8) (h : isTypeByte b = true) : b ∉ [37, 40, 41, 58] := by
  have hnone : ∀ b ∈ [37, 40, 41, 58], ¬isTypeByte b = true := by decide +kernel
  exact fun hb => hnone b hb h

/-- Line feed, slash, semicolon and braces end or divide texts around members. -/
theorem isMemberByte_spec (b : UInt8) (h : isMemberByte b = true) : b < 0x80 ∧ b ∉ [10, 47, 59, 123, 125] := by
  have hascii : b < 0x80 := Byte.forall_octets (P := fun b => isMemberByte b = true → b < 0x80) (by decide +kernel) b h
  have hnone : ∀ b ∈ [10, 47, 59, 123, 125], ¬isMemberByte b = true := by decide +kernel
  exact ⟨hascii, fun hb => hnone b hb h⟩

theorem isMemberByte_of_isTypeByte {b : UInt8} (h : isTypeByte b = true) : isMemberByte b = true := by
  simp [isMemberByte, h]

theorem isIdentByte_spec (b : UInt8) (h : isIdentByte b = true) :
    Blank.isBlankByte b = false ∧ b ≠ 60 ∧ b ≠ 44 ∧ b ≠ 32 ∧ bracketStep b = 0 :=
  Byte.forall_octets (P := fun b => isIdentByte b = true →
    Blank.isBlankByte b = false ∧ b ≠ 60 ∧ b ≠ 44 ∧ b ≠ 32 ∧ bracketStep b = 0) (by decide +kernel) b h

theorem isIdentByte_of_isIdent {s : Bytes} (h : isIdent s = true) : s ≠ [] ∧ ∀ b ∈ s, isIdentByte b = true := by
  cases s with
  | nil => cases h
  | cons c s =>
    obtain ⟨hc, hs⟩ : Byte.isLetter c = true ∧ s.all isIdentByte = true := by simpa [isIdent] using h
    refine ⟨by simp, List.forall_mem_cons.2 ⟨?_, by simpa using hs⟩⟩
    rw [isIdentByte, hc]
    rfl

/-! ## Lists of items -/

theorem join_comma (p q : Bytes) (ps : List Bytes) :
    Bytes.join (utf8 ", ") (p :: q :: ps) = p ++ 44 :: 32 :: Bytes.join (utf8 ", ") (q :: ps) := by
  rw [Bytes.join, List.intercalate_cons_cons, List.append_assoc]
  rfl

theorem join_single (p : Bytes) : Bytes.join (utf8 ", ") [p] = p := by simp [Bytes.join]

theorem mem_join_comma {b : UInt8} : ∀ {ts : List Bytes}, b ∈ Bytes.join (utf8 ", ") ts →
    b = 44 ∨ b = 32 ∨ ∃ t ∈ ts, b ∈ t
  | [], h => by simp [Bytes.join] at h
  | [t], h => by
    rw [join_single] at h
    exact .inr (.inr ⟨t, by simp, h⟩)
  | t :: t' :: ts, h => by
    have ih : b ∈ Bytes.join (utf8 ", ") (t' :: ts) → _ := mem_join_comma
    rw [join_comma] at h
    simp only [List.mem_append, List.mem_cons (a := b)] at h
    rcases h with h | h | h | h
    · exact .inr (.inr ⟨t, by simp, h⟩)
    · exact .inl h
    · exact .inr (.inl h)
    · refine (ih h).imp_right (Or.imp_right ?_)
      rintro ⟨u, hu, hb⟩
      exact ⟨u, List.mem_cons_of_mem t hu, hb⟩

/-- At a depth of brackets of at least `k` the text goes into the current piece as a whole. -/
def Passes (k : Int) (s : Bytes) : Prop :=
  ∀ depth, k ≤ depth → ∀ current rest, pieces depth current (s ++ rest) = pieces depth (s.reverse ++ current) rest

section passes

variable {k : Int} {s t : Bytes}

theorem passes_nil : Passes k [] := fun _ _ _ _ => rfl

theorem Passes.append (hs : Passes k s) (ht : Passes k t) : Passes k (s ++ t) := by
  intro depth hdepth current rest
  rw [List.append_assoc, hs depth hdepth, ht depth hdepth, List.reverse_append, List.append_assoc]

theorem Passes.mono (hs : Passes k s) {k' : Int} (h : k ≤ k') : Passes k' s :=
  fun depth hdepth => hs depth (Int.le_trans h hdepth)

/-- An octet that is no bracket passes, a comma inside brackets only. -/
theorem passes_octet {b : UInt8} (hstep : bracketStep b = 0) (hcomma : b = 44 → 0 < k) : Passes k [b] := by
  intro depth hdepth current rest
  have hnot : ¬(b = 44 ∧ depth = 0) := fun ⟨hb, hzero⟩ => by
    have := hcomma hb
    omega
  rw [List.singleton_append, pieces, if_neg hnot, hstep, Int.add_zero]
  rfl

theorem passes_of_all (h : ∀ b ∈ s, bracketStep b = 0 ∧ (b = 44 → 0 < k)) : Passes k s := by
  induction s with
  | nil => exact passes_nil
  | cons b s ih =>
    obtain ⟨hb, hs⟩ := List.forall_mem_cons.1 h
    exact (passes_octet hb.1 hb.2).append (ih hs)

/-! What stands between the name of a member and its type. -/

theorem plain_colon : ∀ b ∈ utf8 ": ", isMemberByte b = true := by decide +kernel

theorem passes_colon : Passes 0 (utf8 ": ") := passes_of_all (by decide +kernel)

/-- What passes inside brackets passes with its brackets around it. -/
theorem Passes.bracket {o c : UInt8} (ho : bracketStep o = 1) (hc : bracketStep c = -1) (hs : Passes (k + 1) s) :
    Passes k (o :: s ++ [c]) := by
  intro depth hdepth current rest
  have hopen : ¬(o = 44 ∧ depth = 0) := fun ⟨h, _⟩ => by
    rw [h] at ho
    exact absurd ho (by decide)
  have hclose : ¬(c = 44 ∧ depth + 1 = 0) := fun ⟨h, _⟩ => by
    rw [h] at hc
    exact absurd hc (by decide)
  calc pieces depth current (o :: s ++ [c] ++ rest)
      = pieces (depth + 1) (o :: current) (s ++ ([c] ++ rest)) := by
        rw [List.cons_append, List.cons_append, pieces, if_neg hopen, ho, List.append_assoc]
    _ = pieces (depth + 1) (s.reverse ++ o :: current) (c :: rest) := hs (depth + 1) (by omega) _ _
    _ = pieces depth (c :: (s.reverse ++ o :: current)) rest := by
        rw [pieces, if_neg hclose, hc, show depth + 1 + -1 = depth by omega]
    _ = pieces depth ((o :: s ++ [c]).reverse ++ current) rest := by simp

theorem passes_join {ts : List Bytes} (hts : ∀ t ∈ ts, Passes 1 t) : Passes 1 (Bytes.join (utf8 ", ") ts) := by
  match ts with
  | [] => exact passes_nil
  | [t] =>
    rw [join_single]
    exact hts t (by simp)
  | t :: t' :: ts =>
    obtain ⟨ht, hrest⟩ := List.forall_mem_cons.1 hts
    have hcomma : Passes 1 [44, 32] := passes_of_all (by simp [bracketStep])
    rw [join_comma]
    exact ht.append (hcomma.append (passes_join hrest))

end passes

/-- A text that is one item of a list. -/
structure IsItem (s : Bytes) : Prop where
  ne_nil : s ≠ []
  plain : ∀ b ∈ s, isMemberByte b = true
  tight : IsTight s
  passes : Passes 0 s

theorem IsItem.ascii {s : Bytes} (h : IsItem s) : IsAscii s := fun b hb => (isMemberByte_spec b (h.plain b hb)).1

/-- Gaps around an item. -/
def IsGap (s : Bytes) : Prop := ∀ b ∈ s, b = 32

theorem scrub_of_ascii {s : Bytes} (h : IsAscii s) : scrub s = s := by
  rw [scrub, Utf8.units_of_ascii h, List.map_map]
  exact Utf8.bytesOf_ascii h

theorem IsGap.ascii {s : Bytes} (h : IsGap s) : IsAscii s := by
  intro b hb
  rw [h b hb]
  decide

theorem IsGap.blank {s : Bytes} (h : IsGap s) : ∀ b ∈ s, Blank.isBlankByte b = true := by
  intro b hb
  rw [h b hb]
  rfl

theorem IsGap.passes {s : Bytes} (h : IsGap s) : Passes 0 s := by
  refine passes_of_all fun b hb => ?_
  rw [h b hb]
  exact ⟨rfl, fun h => absurd h (by decide)⟩

/-- An item between gaps. -/
theorem IsItem.trim_between {a s c : Bytes} (hs : IsItem s) (ha : IsGap a) (hc : IsGap c) :
    Bytes.trim (a ++ s ++ c) = s :=
  Bytes.trim_between ha.blank hc.blank hs.tight ((ha.ascii.append hs.ascii).append hc.ascii)

/-- Reading on from the gap before an item, up to the gap behind the last one. -/
theorem pieces_join {c : Bytes} (hc : IsGap c) : ∀ {ts : List Bytes} {current : Bytes}, (∀ t ∈ ts, IsItem t) →
    ts ≠ [] → IsGap current.reverse →
    (pieces 0 current (Bytes.join (utf8 ", ") ts ++ c)).map Bytes.trim = ts
  | [t], current, hts, _, hgap => by
    have ht := hts t (by simp)
    have hlast : pieces 0 current (t ++ c) = [current.reverse ++ t ++ c] := by
      have hpass := hc.passes 0 (Int.le_refl 0) (t.reverse ++ current) []
      rw [List.append_nil] at hpass
      rw [ht.passes 0 (Int.le_refl 0), hpass]
      simp [pieces]
    rw [join_single, hlast, List.map_singleton, ht.trim_between hgap hc]
  | t :: t' :: ts, current, hts, _, hgap => by
    obtain ⟨ht, hrest⟩ := List.forall_mem_cons.1 hts
    have hpiece : pieces 0 current (t ++ 44 :: 32 :: (Bytes.join (utf8 ", ") (t' :: ts) ++ c)) =
        (current.reverse ++ t) :: pieces 0 [32] (Bytes.join (utf8 ", ") (t' :: ts) ++ c) := by
      rw [ht.passes 0 (Int.le_refl 0), pieces, if_pos ⟨rfl, rfl⟩, pieces, if_neg (by decide)]
      simp only [List.reverse_append, List.reverse_reverse]
      rfl
    have htrim : Bytes.trim (current.reverse ++ t) = t := by
      simpa using ht.trim_between hgap (c := []) (by simp [IsGap])
    rw [join_comma, List.append_assoc, List.cons_append, List.cons_append, hpiece, List.map_cons, htrim,
      pieces_join hc hrest (by simp) (by simp [IsGap])]

/-- **The items of a canonical list** are those it was joined from. -/
theorem items_join {a c : Bytes} {ts : List Bytes} (ha : IsGap a) (hc : IsGap c) (hts : ∀ t ∈ ts, IsItem t) :
    items (a ++ Bytes.join (utf8 ", ") ts ++ c) = ts := by
  have hascii : IsAscii (a ++ Bytes.join (utf8 ", ") ts ++ c) := by
    refine (ha.ascii.append fun b hb => ?_).append hc.ascii
    rcases mem_join_comma hb with rfl | rfl | ⟨t, ht, hb⟩
    · decide
    · decide
    · exact (hts t ht).ascii b hb
  have hpieces : (pieces 0 [] (a ++ Bytes.join (utf8 ", ") ts ++ c)).map Bytes.trim = if ts = [] then [[]] else ts := by
    rw [List.append_assoc, ha.passes 0 (Int.le_refl 0), List.append_nil]
    split
    · rename_i hnil
      subst hnil
      have hblank : Bytes.trim (a ++ [] ++ c) = [] :=
        Bytes.trim_between ha.blank hc.blank ⟨by simp, by simp⟩ (by simpa using ha.ascii.append hc.ascii)
      have hpass := hc.passes 0 (Int.le_refl 0) a.reverse []
      rw [List.append_nil] at hpass hblank
      rw [show Bytes.join (utf8 ", ") [] = [] from rfl, List.nil_append, hpass]
      simp [pieces, hblank]
    · rename_i hne
      exact pieces_join hc hts hne (by simpa using ha)
  rw [items, scrub_of_ascii hascii, hpieces]
  split
  · rename_i hnil
    simp [hnil]
  · refine List.filter_eq_self.2 fun t ht => ?_
    simpa using (hts t ht).ne_nil

theorem items_of_join {ts : List Bytes} (hts : ∀ t ∈ ts, IsItem t) : items (Bytes.join (utf8 ", ") ts) = ts := by
  simpa using items_join (a := []) (c := []) (by simp [IsGap]) (by simp [IsGap]) hts

end Bindery.Interface
