/-
What letter cases leave of a name. Snake case consists of underscores and rewritten octets
(`of_mem_snakeFrom`): it has no dot, and no slash that was not read, so the import package of a package name is always the name of one
directory (`PackageName.isName_python`). Joined words have letters and digits only
(`mem_joinWords`).
-/
import Bindery.Proofs.Package.Name
import Bindery.Proofs.SlashPath

namespace Bindery

open SlashPath (IsName dot slash up)

/-- An underscore, or nothing. -/
def gap (there : Bool) : Bytes := if there then [95] else []

namespace CaseStyle

theorem snakePlain_spec (b : UInt8) : snakePlain b ≠ dot ∧ (snakePlain b = slash → b = slash) :=
  Byte.forall_octets (P := fun b => snakePlain b ≠ dot ∧ (snakePlain b = slash → b = slash)) (by decide +kernel) b

/-- An octet of a class is no divider. -/
theorem lower_eq_snakePlain {a b : UInt8} (h : changesClass a b = true) : Byte.lower a = snakePlain a := by
  have hclass : Byte.isUpper a = true ∨ Byte.isLower a = true ∨ Byte.isDigit a = true := by
    simp only [changesClass, Bool.or_eq_true, Bool.and_eq_true] at h
    tauto
  exact Byte.forall_octets (P := fun a => Byte.isUpper a = true ∨ Byte.isLower a = true ∨ Byte.isDigit a = true →
    Byte.lower a = snakePlain a) (by decide +kernel) a hclass

theorem changesClass_wide {b : UInt8} (hb : ¬b < 0x80) (next : UInt8) : changesClass b next = false := by
  have hclass := Byte.forall_octets (P := fun b => ¬b < 0x80 →
    Byte.isUpper b = false ∧ Byte.isLower b = false ∧ Byte.isDigit b = false) (by decide +kernel) b hb
  simp [changesClass, hclass]

/-- One octet in snake case, with underscores beside it. -/
theorem snakeFrom_cons (afterUpper : Bool) (b : UInt8) (s : Bytes) : ∃ front back,
    (front = true → Byte.isLetter b = true) ∧ (¬b < 0x80 → front = false ∧ back = false) ∧
    snakeFrom afterUpper (b :: s) = gap front ++ snakePlain b :: (gap back ++ snakeFrom (Byte.isUpper b) s) := by
  cases s with
  | nil => exact ⟨false, false, by simp, by simp, rfl⟩
  | cons next s =>
    rw [snakeFrom]
    by_cases hclass : changesClass b next = true
    · refine ⟨Byte.isUpper b && Byte.isLower next && afterUpper, Byte.isLower b || Byte.isDigit b || Byte.isDigit next,
        ?_, fun hb => ?_, ?_⟩
      · intro hfront
        simp only [Bool.and_eq_true] at hfront
        simp [Byte.isLetter, hfront.1.1]
      · rw [changesClass_wide hb] at hclass
        cases hclass
      · simp only [if_pos hclass, lower_eq_snakePlain hclass, gap, List.append_assoc, List.cons_append,
          List.nil_append]
    · refine ⟨false, false, by simp, by simp, ?_⟩
      simp [hclass, gap]

/-- Snake case consists of underscores and rewritten octets. -/
theorem of_mem_snakeFrom {x : UInt8} {s : Bytes} {afterUpper : Bool} (h : x ∈ snakeFrom afterUpper s) :
    x = 95 ∨ ∃ b ∈ s, x = snakePlain b := by
  induction s generalizing afterUpper with
  | nil => simp [snakeFrom] at h
  | cons b s ih =>
    obtain ⟨front, back, -, -, hsnake⟩ := snakeFrom_cons afterUpper b s
    have hgap (there : Bool) (hx : x ∈ gap there) : x = 95 := by
      cases there
      · simp [gap] at hx
      · simpa [gap] using hx
    rw [hsnake, List.mem_append, List.mem_cons, List.mem_append] at h
    rcases h with h | rfl | h | h
    · exact .inl (hgap front h)
    · exact .inr ⟨b, by simp, rfl⟩
    · exact .inl (hgap back h)
    · exact (ih h).imp_right fun ⟨c, hc, hx⟩ => ⟨c, List.mem_cons_of_mem b hc, hx⟩

theorem mem_snakeFrom {x : UInt8} {s : Bytes} {afterUpper : Bool} (h : x ∈ snakeFrom afterUpper s) :
    x ≠ dot ∧ (x = slash → slash ∈ s) := by
  rcases of_mem_snakeFrom h with rfl | ⟨b, hb, rfl⟩
  · exact ⟨by decide, fun hx => absurd hx (by decide)⟩
  · obtain ⟨hdot, hslash⟩ := snakePlain_spec b
    exact ⟨hdot, fun hx => hslash hx ▸ hb⟩

theorem snakeFrom_ne_nil {s : Bytes} (hs : s ≠ []) (afterUpper : Bool) : snakeFrom afterUpper s ≠ [] := by
  match s with
  | [b] => simp [snakeFrom]
  | b :: next :: s =>
    rw [snakeFrom]
    split <;> simp

theorem dot_not_mem_snake (s : Bytes) : dot ∉ snake s := fun h => (mem_snakeFrom h).1 rfl

theorem isLetter_recase (st : Joining) {b : UInt8} (h : Byte.isLetter b = true) : Byte.isLetter (st.recase b) = true := by
  have hcase := Byte.forall_octets (P := fun b => Byte.isLetter b = true →
    Byte.isLetter (Byte.upper b) = true ∧ Byte.isLetter (Byte.lower b) = true) (by decide +kernel) b h
  unfold Joining.recase
  split
  · exact hcase.1
  · split
    · exact hcase.2
    · exact h

/-- Joined words are letters and digits. -/
theorem mem_joinWords {x : UInt8} : ∀ {s : Bytes} {st : Joining}, x ∈ joinWords st s →
    Byte.isLetter x = true ∨ Byte.isDigit x = true
  | [], _, h => by simp [joinWords] at h
  | b :: s, st, h => by
    rw [joinWords] at h
    split at h
    · rename_i hletter
      rcases List.mem_cons.1 h with rfl | h
      · exact .inl (isLetter_recase st hletter)
      · exact mem_joinWords h
    · split at h
      · rename_i hdigit
        rcases List.mem_cons.1 h with rfl | h
        · exact .inr hdigit
        · exact mem_joinWords h
      · exact mem_joinWords h

end CaseStyle

namespace PackageName

open Bytes (IsAscii IsTight)

/-- **The import package** is the name of a directory. -/
theorem isName_python {raw : Bytes} {n : PackageName} (h : parse raw = .ok n) : IsName n.python := by
  obtain ⟨hne, hident⟩ := isIdentByte_of_mem (written_of_parse h).identProblem_name
  have hspec := fun b hb => isIdentByte_spec b (hident b hb)
  have hascii : IsAscii n.name := fun b hb => (hspec b hb).1
  have htight : IsTight n.name :=
    ⟨fun b hb => (hspec b (List.mem_of_mem_head? hb)).2.1, fun b hb => (hspec b (List.mem_of_getLast? hb)).2.1⟩
  have hdot : dot ∉ n.python := CaseStyle.dot_not_mem_snake n.name
  refine ⟨?_, fun h => hdot (by simp [h]), fun h => hdot (by simp [h, up]), fun hslash => ?_⟩
  · rw [python, CaseStyle.snake, Bytes.trim_of_tight hascii htight]
    exact CaseStyle.snakeFrom_ne_nil hne false
  · rw [python, CaseStyle.snake, Bytes.trim_of_tight hascii htight] at hslash
    exact (hspec slash ((CaseStyle.mem_snakeFrom hslash).2 rfl)).2.2.1 rfl

end PackageName

end Bindery
