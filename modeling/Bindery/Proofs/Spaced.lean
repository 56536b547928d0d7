/-
Lists with gaps put in behind certain elements, the stops. What such a list is taken apart into
differs in gaps only: prefixes without stops (`Spaced.of_prefix`), and what is left when gaps are
trimmed (`Spaced.dropWhile`, `Spaced.rdropWhile`).
-/
import Mathlib.Data.List.DropRight

namespace Bindery

/-- A list and the same list with gaps put in: behind stops, and at the front if that is fresh. -/
inductive Spaced {α : Type} (gap stop : α → Prop) : Prop → List α → List α → Prop where
  | nil {fresh : Prop} : Spaced gap stop fresh [] []
  | cons {fresh : Prop} {b : α} {s s' : List α} : Spaced gap stop (stop b) s s' → Spaced gap stop fresh (b :: s) (b :: s')
  | gap {fresh : Prop} {g : α} {s s' : List α} : fresh → gap g → Spaced gap stop fresh s s' →
      Spaced gap stop fresh s (g :: s')

namespace Spaced

variable {α β : Type} {gap stop : α → Prop} {fresh : Prop} {s s' : List α}

theorem refl : ∀ {fresh : Prop} (s : List α), Spaced gap stop fresh s s
  | _, [] => .nil
  | _, _ :: s => .cons (refl s)

theorem mono {fresh' : Prop} (h : fresh → fresh') (hs : Spaced gap stop fresh s s') : Spaced gap stop fresh' s s' := by
  induction hs generalizing fresh' with
  | nil => exact .nil
  | cons hs _ => exact .cons hs
  | gap hfresh hg _ ih => exact .gap (h hfresh) hg (ih h)

theorem append_left (w : List α) (hs : Spaced gap stop False s s') : Spaced gap stop fresh (w ++ s) (w ++ s') := by
  induction w generalizing fresh with
  | nil => exact hs.mono False.elim
  | cons b w ih => exact .cons ih

theorem gaps_left {g : List α} (hg : ∀ x ∈ g, gap x) (hfresh : fresh) (hs : Spaced gap stop fresh s s') :
    Spaced gap stop fresh s (g ++ s') := by
  induction g with
  | nil => exact hs
  | cons x g ih =>
    obtain ⟨hx, hg⟩ := List.forall_mem_cons.1 hg
    exact .gap hfresh hx (ih hg)

theorem length_le (hs : Spaced gap stop fresh s s') : s.length ≤ s'.length := by
  induction hs with
  | nil => exact Nat.le_refl _
  | cons _ ih => exact Nat.succ_le_succ ih
  | gap _ _ _ ih => exact Nat.le_succ_of_le ih

/-- The gaps at the front apart. -/
theorem exists_gaps (hs : Spaced gap stop fresh s s') : ∃ g t, s' = g ++ t ∧ (∀ x ∈ g, gap x) ∧ (¬fresh → g = []) ∧
    Spaced gap stop False s t := by
  induction hs with
  | nil => exact ⟨[], [], rfl, by simp, fun _ => rfl, .nil⟩
  | @cons _ b s s' hs _ => exact ⟨[], b :: s', rfl, by simp, fun _ => rfl, .cons hs⟩
  | @gap _ x s s' hfresh hx _ ih =>
    obtain ⟨g, t, rfl, hg, -, ht⟩ := ih
    exact ⟨x :: g, t, rfl, List.forall_mem_cons.2 ⟨hx, hg⟩, fun h => absurd hfresh h, ht⟩

theorem map {gap' stop' : β → Prop} (f : α → β) (hgap : ∀ a, gap a → gap' (f a)) (hstop : ∀ a, stop a → stop' (f a))
    (hs : Spaced gap stop fresh s s') : Spaced gap' stop' fresh (s.map f) (s'.map f) := by
  induction hs with
  | nil => exact .nil
  | cons _ ih => exact .cons (ih.mono (hstop _))
  | gap hfresh hg _ ih => exact .gap hfresh (hgap _ hg) ih

theorem eq_nil (hs : Spaced gap stop fresh [] s') (hfresh : ¬fresh) : s' = [] := by
  cases hs with
  | nil => rfl
  | gap h => exact absurd h hfresh

theorem nil_of_nil (hs : Spaced gap stop fresh s []) : s = [] := by
  cases hs
  rfl

theorem eq_nil_iff (hs : Spaced gap stop False s s') : s = [] ↔ s' = [] := by
  constructor
  · rintro rfl
    exact hs.eq_nil not_false
  · rintro rfl
    exact hs.nil_of_nil

/-! ### Prefixes and suffixes -/

/-- What stands behind a prefix without stops. -/
theorem of_prefix : ∀ {w : List α} {fresh : Prop} {s s' : List α}, (∀ b ∈ w, ¬stop b) → ¬fresh →
    Spaced gap stop fresh (w ++ s) s' → ∃ t, s' = w ++ t ∧ Spaced gap stop False s t
  | [], _, s, s', _, hfresh, hs => ⟨s', rfl, hs.mono hfresh⟩
  | b :: w, _, s, s', hw, hfresh, hs => by
    obtain ⟨hb, hw⟩ := List.forall_mem_cons.1 hw
    cases hs with
    | cons hs =>
      obtain ⟨t, rfl, ht⟩ := of_prefix hw hb hs
      exact ⟨t, rfl, ht⟩
    | gap h => exact absurd h hfresh

theorem of_prefix_right : ∀ {w : List α} {fresh : Prop} {s t : List α}, (∀ b ∈ w, ¬stop b) → ¬fresh →
    Spaced gap stop fresh s (w ++ t) → ∃ r, s = w ++ r ∧ Spaced gap stop False r t
  | [], _, s, t, _, hfresh, hs => ⟨s, rfl, hs.mono hfresh⟩
  | b :: w, _, s, t, hw, hfresh, hs => by
    obtain ⟨hb, hw⟩ := List.forall_mem_cons.1 hw
    cases hs with
    | cons hs =>
      obtain ⟨r, rfl, hr⟩ := of_prefix_right hw hb hs
      exact ⟨r, rfl, hr⟩
    | gap h => exact absurd h hfresh

/-- A list without stops has no place for gaps. -/
theorem eq_of_left (hs : Spaced gap stop False s s') (h : ∀ b ∈ s, ¬stop b) : s' = s := by
  obtain ⟨t, rfl, ht⟩ := of_prefix (s := []) h not_false (by rwa [List.append_nil])
  rw [ht.eq_nil not_false, List.append_nil]

theorem eq_of_right (hs : Spaced gap stop False s s') (h : ∀ b ∈ s', ¬stop b) : s = s' := by
  obtain ⟨r, rfl, hr⟩ := of_prefix_right (t := []) h not_false (by rwa [List.append_nil])
  rw [hr.nil_of_nil, List.append_nil]

theorem of_concat {b : α} (hb : ¬stop b) : ∀ {fresh : Prop} {s s' : List α}, Spaced gap stop fresh (s ++ [b]) s' →
    ∃ t, s' = t ++ [b] ∧ Spaced gap stop fresh s t := by
  intro fresh s s' hs
  generalize hx : s ++ [b] = x at hs
  induction hs generalizing s with
  | nil => simp at hx
  | @cons fresh a r r' hr ih =>
    cases s with
    | nil =>
      cases hx
      rw [hr.eq_nil hb]
      exact ⟨[], rfl, .nil⟩
    | cons d s =>
      cases hx
      obtain ⟨t, rfl, ht⟩ := ih rfl
      exact ⟨a :: t, rfl, .cons ht⟩
  | @gap fresh g r r' hfresh hg _ ih =>
    obtain ⟨t, rfl, ht⟩ := ih hx
    exact ⟨g :: t, rfl, .gap hfresh hg ht⟩

theorem of_concat_right {b : α} (hb : ¬gap b) : ∀ {fresh : Prop} {s t : List α}, Spaced gap stop fresh s (t ++ [b]) →
    ∃ r, s = r ++ [b] := by
  intro fresh s t hs
  generalize hx : t ++ [b] = x at hs
  induction hs generalizing t with
  | nil => simp at hx
  | @cons fresh a r r' hr ih =>
    cases t with
    | nil =>
      cases hx
      rw [hr.nil_of_nil]
      exact ⟨[], rfl⟩
    | cons d t =>
      cases hx
      obtain ⟨r, rfl⟩ := ih rfl
      exact ⟨a :: r, rfl⟩
  | @gap fresh g r r' hfresh hg hr ih =>
    cases t with
    | nil =>
      cases hx
      exact absurd hg hb
    | cons d t =>
      cases hx
      exact ih rfl

/-! ### Trimming -/

theorem dropWhile {p : α → Bool} (hp : ∀ g, gap g → p g = true) (hs : Spaced gap stop fresh s s') :
    Spaced gap stop False (s.dropWhile p) (s'.dropWhile p) := by
  induction hs with
  | nil => exact .nil
  | @cons _ b s s' hs ih =>
    rw [List.dropWhile_cons, List.dropWhile_cons]
    split
    · exact ih
    · exact .cons hs
  | @gap _ g s s' _ hg _ ih => rwa [List.dropWhile_cons, if_pos (hp g hg)]

theorem all_iff {p : α → Bool} (hp : ∀ g, gap g → p g = true) (hs : Spaced gap stop fresh s s') :
    (∀ b ∈ s, p b = true) ↔ ∀ b ∈ s', p b = true := by
  induction hs with
  | nil => exact Iff.rfl
  | cons _ ih => rw [List.forall_mem_cons, List.forall_mem_cons, ih]
  | @gap _ g _ _ _ hg _ ih => rw [List.forall_mem_cons, and_iff_right (hp g hg), ih]

theorem rdropWhile_cons (p : α → Bool) (b : α) (s : List α) : List.rdropWhile p (b :: s) =
    if ∀ x ∈ b :: s, p x = true then [] else b :: List.rdropWhile p s := by
  split
  · rename_i h
    exact List.rdropWhile_eq_nil_iff.2 h
  · rename_i h
    rw [List.rdropWhile, List.rdropWhile, List.reverse_cons, List.dropWhile_append]
    split
    · rename_i hnil
      rw [List.isEmpty_iff] at hnil
      have hs : ∀ x ∈ s, p x = true := by simpa using List.dropWhile_eq_nil_iff.1 hnil
      have hb : p b = false := by simpa using fun hb : p b = true => h (List.forall_mem_cons.2 ⟨hb, hs⟩)
      rw [hnil, List.dropWhile_cons, if_neg (by simp [hb])]
      rfl
    · simp

theorem rdropWhile {p : α → Bool} (hp : ∀ g, gap g → p g = true) (hs : Spaced gap stop fresh s s') :
    Spaced gap stop fresh (List.rdropWhile p s) (List.rdropWhile p s') := by
  induction hs with
  | nil => exact .nil
  | @cons _ b s s' hs ih =>
    have hall : (∀ x ∈ b :: s, p x = true) ↔ ∀ x ∈ b :: s', p x = true := by
      rw [List.forall_mem_cons, List.forall_mem_cons, hs.all_iff hp]
    rw [rdropWhile_cons, rdropWhile_cons]
    by_cases h : ∀ x ∈ b :: s, p x = true
    · rw [if_pos h, if_pos (hall.1 h)]
      exact .nil
    · rw [if_neg h, if_neg (mt hall.2 h)]
      exact .cons ih
  | @gap _ g s s' hfresh hg hs ih =>
    rw [rdropWhile_cons]
    split
    · rename_i h
      have hnil : List.rdropWhile p s = [] :=
        List.rdropWhile_eq_nil_iff.2 ((hs.all_iff hp).2 (List.forall_mem_cons.1 h).2)
      rw [hnil]
      exact .nil
    · exact .gap hfresh hg ih

end Spaced

end Bindery
