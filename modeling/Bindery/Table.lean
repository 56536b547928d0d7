/-
Tables from names to values, held in strictly increasing byte order of the
names. Every collection whose order an answer can show (file trees, volumes,
atoms, commands) is one.

Insertion is a single pass that replaces an entry of the same name, so what a
look-up finds after it does not depend on the order of the entries
(`find?_insert_self`, `find?_insert_other`), and a table that was ordered
stays so (`ordered_insert`).
-/
import Bindery.Bytes

namespace Bindery

/-- Names with their values, ascending by name. -/
abbrev Table (α : Type) := List (Bytes × α)

namespace Table

variable {α : Type}

/-- `a` stands before `b` in byte order. -/
def before : Bytes → Bytes → Bool
  | _, [] => false
  | [], _ :: _ => true
  | a :: s, b :: t => a < b || (a == b && before s t)

/-- The table with `v` under the name `k`, whatever stood there before. -/
def insert (k : Bytes) (v : α) : Table α → Table α
  | [] => [(k, v)]
  | (k', v') :: t =>
    if before k k' then (k, v) :: (k', v') :: t
    else if k = k' then (k, v) :: t
    else (k', v') :: insert k v t

/-- What stands under a name. -/
def find? (k : Bytes) : Table α → Option α
  | [] => none
  | (k', v) :: t => if k = k' then some v else find? k t

def contains (t : Table α) (k : Bytes) : Bool := (t.find? k).isSome

/-- The names, ascending. -/
def keys (t : Table α) : List Bytes := t.map (·.1)

/-- The table of a list of entries; of two with one name the later stays. -/
def ofEntries (es : List (Bytes × α)) : Table α := es.foldl (fun t e => t.insert e.1 e.2) []

/-- Strictly ascending by name. -/
def Ordered (t : Table α) : Prop := t.Pairwise fun a b => before a.1 b.1 = true

/-- The distinct names of a list, ascending. -/
def distinct (names : List Bytes) : List Bytes := keys (ofEntries (names.map fun n => (n, ())))

/-- Puts a name before the first one that does not stand before it. -/
def insertName (n : Bytes) : List Bytes → List Bytes
  | [] => [n]
  | m :: ms => if before m n then m :: insertName n ms else n :: m :: ms

/-- Names in byte order, repeated ones included. -/
def sorted (names : List Bytes) : List Bytes := names.foldr insertName []

@[simp] theorem find?_insert_self (k : Bytes) (v : α) (t : Table α) :
    find? k (insert k v t) = some v := by
  induction t with
  | nil => simp [insert, find?]
  | cons e t ih =>
    obtain ⟨k', v'⟩ := e
    rw [insert]
    split
    · simp [find?]
    · split
      · simp [find?]
      · rename_i hne
        simp [find?, hne, ih]

theorem find?_insert_other {k k' : Bytes} (h : k' ≠ k) (v : α) (t : Table α) :
    find? k' (insert k v t) = find? k' t := by
  induction t with
  | nil => simp [insert, find?, h]
  | cons e t ih =>
    obtain ⟨k₁, v₁⟩ := e
    rw [insert]
    split
    · simp [find?, h]
    · split
      · rename_i he
        subst he
        simp [find?, h]
      · simp [find?, ih]

theorem before_trans : ∀ {a b c : Bytes}, before a b = true → before b c = true → before a c = true
  | a, b, [], _, h₂ => by cases b <;> simp [before] at h₂
  | a, [], c :: u, h₁, _ => by cases a <;> simp [before] at h₁
  | [], b :: t, c :: u, _, _ => rfl
  | a :: s, b :: t, c :: u, h₁, h₂ => by
    simp only [before, Bool.or_eq_true, decide_eq_true_eq, Bool.and_eq_true, beq_iff_eq] at *
    rcases h₁ with h₁ | ⟨rfl, h₁⟩ <;> rcases h₂ with h₂ | ⟨rfl, h₂⟩
    · exact .inl (UInt8.lt_trans h₁ h₂)
    · exact .inl h₁
    · exact .inl h₂
    · exact .inr ⟨rfl, before_trans h₁ h₂⟩

theorem before_or_eq_of_not_before : ∀ {a b : Bytes}, before a b = false → a = b ∨ before b a = true
  | [], [], _ => .inl rfl
  | [], b :: t, h => by simp [before] at h
  | a :: s, [], _ => .inr rfl
  | a :: s, b :: t, h => by
    simp only [before, Bool.or_eq_false_iff, decide_eq_false_iff_not, Bool.and_eq_false_imp,
      beq_iff_eq, UInt8.not_lt] at h
    simp only [before, Bool.or_eq_true, decide_eq_true_eq, Bool.and_eq_true, beq_iff_eq]
    by_cases hab : a = b
    · subst hab
      rcases before_or_eq_of_not_before (h.2 rfl) with rfl | h'
      · exact .inl rfl
      · exact .inr (.inr ⟨rfl, h'⟩)
    · exact .inr (.inl (UInt8.lt_of_le_of_ne h.1 (Ne.symm hab)))

theorem mem_insert {e : Bytes × α} {k : Bytes} {v : α} {t : Table α} (h : e ∈ insert k v t) :
    e = (k, v) ∨ e ∈ t := by
  induction t with
  | nil => simpa [insert] using h
  | cons e' t ih =>
    obtain ⟨k', v'⟩ := e'
    rw [insert] at h
    split at h
    · simpa using h
    · split at h
      · rcases List.mem_cons.1 h with h | h <;> simp [h]
      · rcases List.mem_cons.1 h with h | h
        · simp [h]
        · rcases ih h with h | h <;> simp [h]

theorem ordered_insert (k : Bytes) (v : α) {t : Table α} (h : Ordered t) : Ordered (insert k v t) := by
  induction t with
  | nil => simp [insert, Ordered]
  | cons e t ih =>
    obtain ⟨k', v'⟩ := e
    have ⟨hhd, htl⟩ := List.pairwise_cons.1 h
    rw [insert]
    split
    · rename_i hlt
      refine List.pairwise_cons.2 ⟨?_, h⟩
      intro e he
      rcases List.mem_cons.1 he with rfl | he
      · exact hlt
      · exact before_trans hlt (hhd e he)
    · split
      · rename_i he
        subst he
        exact List.pairwise_cons.2 ⟨hhd, htl⟩
      · rename_i hlt hne
        refine List.pairwise_cons.2 ⟨?_, ih htl⟩
        intro e he
        rcases mem_insert he with rfl | he
        · rcases before_or_eq_of_not_before (by simpa using hlt) with h' | h'
          · exact absurd h' hne
          · exact h'
        · exact hhd e he

end Table

end Bindery
