/-
Tables by what a look-up finds. An ordered table is determined by its look-ups (`ext`). Of
entries added under one name the last counts (`find?_foldl_insert_eq`), and adding the entries
of an ordered table in any order gives it back (`ofEntries_eq`).
-/
import Bindery.Table
import Mathlib.Data.List.Nodup
import Mathlib.Data.List.Perm.Basic

namespace Bindery.Table

variable {α β : Type}

theorem before_irrefl : ∀ a : Bytes, before a a = false
  | [] => rfl
  | a :: s => by simp [before, before_irrefl s]

theorem before_asymm {a b : Bytes} (h : before a b = true) : before b a = false := by
  cases h' : before b a with
  | false => rfl
  | true => simpa [before_irrefl] using before_trans h h'

theorem find?_eq_none {k : Bytes} {t : Table α} : find? k t = none ↔ ∀ e ∈ t, e.1 ≠ k := by
  induction t with
  | nil => simp [find?]
  | cons e t ih =>
    obtain ⟨k', v⟩ := e
    rw [find?]
    split
    · rename_i h
      simp [h]
    · rename_i h
      simp [ih, Ne.symm h]

theorem mem_of_find? {k : Bytes} {v : α} {t : Table α} (h : find? k t = some v) : (k, v) ∈ t := by
  induction t with
  | nil => simp [find?] at h
  | cons e t ih =>
    obtain ⟨k', v'⟩ := e
    rw [find?] at h
    split at h
    · rename_i hk
      simp [hk, Option.some.inj h]
    · simp [ih h]

theorem find?_of_mem {k : Bytes} {v : α} {t : Table α} (ht : Ordered t) (h : (k, v) ∈ t) :
    find? k t = some v := by
  induction t with
  | nil => simp at h
  | cons e t ih =>
    obtain ⟨k', v'⟩ := e
    obtain ⟨hhd, htl⟩ := List.pairwise_cons.1 ht
    rw [find?]
    rcases List.mem_cons.1 h with h | h
    · simp [Prod.mk.inj h]
    · have hlt : before k' k = true := hhd (k, v) h
      rw [if_neg, ih htl h]
      rintro rfl
      simp [before_irrefl] at hlt

theorem find?_eq_some {k : Bytes} {v : α} {t : Table α} (ht : Ordered t) :
    find? k t = some v ↔ (k, v) ∈ t := ⟨mem_of_find?, find?_of_mem ht⟩

theorem find?_append (k : Bytes) (t t' : Table α) : find? k (t ++ t') = (find? k t).or (find? k t') := by
  induction t with
  | nil => simp [find?]
  | cons e t ih =>
    rw [List.cons_append, find?, find?, ih]
    split <;> rfl

/-- Names of an ordered table are distinct. -/
theorem Ordered.nodup {t : Table α} (h : Ordered t) : (t.map (·.1)).Nodup := by
  refine List.pairwise_map.2 (h.imp ?_)
  intro e e' hlt heq
  simp [heq, before_irrefl] at hlt

/-- Ordered tables with the same entries are the same. -/
theorem eq_of_perm {t t' : Table α} (ht : Ordered t) (ht' : Ordered t') (h : t.Perm t') : t = t' := by
  refine h.eq_of_pairwise ?_ ht ht'
  intro e e' _ _ hlt hlt'
  simp [before_asymm hlt] at hlt'

theorem nodup_of_ordered {t : Table α} (h : Ordered t) : t.Nodup := by
  refine h.imp ?_
  intro e e' hlt heq
  simp [heq, before_irrefl] at hlt

/-- **An ordered table is what its look-ups find.** -/
theorem ext {t t' : Table α} (ht : Ordered t) (ht' : Ordered t') (h : ∀ k, find? k t = find? k t') :
    t = t' := by
  refine eq_of_perm ht ht' ((List.perm_ext_iff_of_nodup (nodup_of_ordered ht) (nodup_of_ordered ht')).2 ?_)
  rintro ⟨k, v⟩
  rw [← find?_eq_some ht, ← find?_eq_some ht', h k]

/-! ## The last entry under a key -/

section lastOf

variable {κ κ' α : Type} [BEq κ]

/-- The value of the last entry under a key. -/
def lastOf (k : κ) (es : List (κ × α)) : Option α := ((es.filter (·.1 == k)).map (·.2)).getLast?

theorem lastOf_append (k : κ) (es fs : List (κ × α)) : lastOf k (es ++ fs) = (lastOf k fs).or (lastOf k es) := by
  rw [lastOf, List.filter_append, List.map_append, List.getLast?_append]
  rfl

variable [LawfulBEq κ] [BEq κ'] [LawfulBEq κ']

theorem lastOf_of_not_mem {k : κ} {es : List (κ × α)} (h : k ∉ es.map (·.1)) : lastOf k es = none := by
  have hnil : es.filter (·.1 == k) = [] := by
    rw [List.filter_eq_nil_iff]
    intro e he heq
    exact h (List.mem_map.2 ⟨e, he, by simpa using heq⟩)
  rw [lastOf, hnil]
  rfl

/-- Entries under one key that agree leave no doubt about its value. -/
theorem lastOf_of_agree {k : κ} {v : α} {es : List (κ × α)} (hes : ∀ e ∈ es, e.1 = k → e.2 = v)
    (h : (k, v) ∈ es) : lastOf k es = some v := by
  have hmem : v ∈ (es.filter (·.1 == k)).map (·.2) := List.mem_map.2 ⟨(k, v), by simpa using h, rfl⟩
  obtain ⟨w, hw⟩ : ∃ w, lastOf k es = some w := ⟨_, List.getLast?_eq_some_getLast (List.ne_nil_of_mem hmem)⟩
  obtain ⟨e, he, rfl⟩ := List.mem_map.1 (List.mem_of_getLast? hw)
  obtain ⟨he, hk⟩ := List.mem_filter.1 he
  rw [hw, hes e he (by simpa using hk)]

/-- A key that stands once has the value it stands with. -/
theorem lastOf_of_nodup {k : κ} {v : α} {es : List (κ × α)} (hes : (es.map (·.1)).Nodup) (h : (k, v) ∈ es) :
    lastOf k es = some v := by
  refine lastOf_of_agree (fun e he hk => ?_) h
  have hsame := List.inj_on_of_nodup_map hes he h hk
  rw [hsame]

/-- The last entry under a key counts. -/
theorem lastOf_of_last {k : κ} {v : α} (es : List (κ × α)) {fs : List (κ × α)} (h : k ∉ fs.map (·.1)) :
    lastOf k (es ++ (k, v) :: fs) = some v := by
  rw [lastOf_append, ← List.singleton_append, lastOf_append, lastOf_of_not_mem h]
  simp [lastOf]

/-- Keys may be renamed as long as none becomes the one that is looked for. -/
theorem lastOf_map {f : κ → κ'} {k : κ} {es : List (κ × α)} (hf : ∀ e ∈ es, f e.1 = f k → e.1 = k) :
    lastOf (f k) (es.map fun e => (f e.1, e.2)) = lastOf k es := by
  have hsame : ∀ e ∈ es, (f e.1 == f k) = (e.1 == k) := by
    intro e he
    by_cases heq : e.1 = k
    · simp [heq]
    · have hne : f e.1 ≠ f k := fun h => heq (hf e he h)
      simp [heq, hne]
  simp only [lastOf, List.filter_map, List.map_map]
  rw [List.filter_congr (q := (·.1 == k)) hsame]
  rfl

end lastOf

/-! ## Adding entries -/

/-- A new name adds one entry and moves no other. -/
theorem insert_perm {k : Bytes} (v : α) : ∀ {t : Table α}, (∀ e ∈ t, e.1 ≠ k) →
    (insert k v t).Perm ((k, v) :: t)
  | [], _ => .refl _
  | (k', v') :: t, h => by
    have hk : k' ≠ k := h (k', v') (by simp)
    rw [insert]
    split
    · exact .refl _
    · rw [if_neg (Ne.symm hk)]
      exact ((insert_perm v fun e he => h e (by simp [he])).cons _).trans (.swap _ _ _)

theorem foldl_insert_perm : ∀ {es : List (Bytes × α)} {t : Table α}, (es.map (·.1)).Nodup →
    (∀ e ∈ es, ∀ e' ∈ t, e'.1 ≠ e.1) →
    (es.foldl (fun t e => t.insert e.1 e.2) t).Perm (es ++ t)
  | [], t, _, _ => .refl _
  | (k, v) :: es, t, hnodup, hnew => by
    obtain ⟨hk, hes⟩ := List.nodup_cons.1 hnodup
    have hins := insert_perm v (hnew (k, v) (by simp))
    have hnew' : ∀ e ∈ es, ∀ e' ∈ insert k v t, e'.1 ≠ e.1 := by
      intro e he e' he' heq
      rcases mem_insert he' with rfl | he'
      · exact hk (List.mem_map.2 ⟨e, he, heq.symm⟩)
      · exact hnew e (by simp [he]) e' he' heq
    rw [List.foldl_cons]
    refine (foldl_insert_perm hes hnew').trans ((hins.append_left es).trans ?_)
    exact List.perm_middle

/-- A name is found in what was put under it, or else where it was. -/
theorem find?_insert (k k' : Bytes) (v : α) (t : Table α) :
    find? k (insert k' v t) = (if k' = k then some v else none).or (find? k t) := by
  split
  · rename_i h
    rw [h, find?_insert_self, Option.some_or]
  · rename_i h
    rw [find?_insert_other (Ne.symm h), Option.none_or]

/-- **The last entry under a name counts**, or else what stood before. -/
theorem find?_foldl_insert_eq (k : Bytes) : ∀ (es : List (Bytes × α)) (t : Table α),
    find? k (es.foldl (fun t e => t.insert e.1 e.2) t) = (lastOf k es).or (find? k t)
  | [], t => rfl
  | (k', v) :: es, t => by
    rw [List.foldl_cons, find?_foldl_insert_eq k es, find?_insert, ← Option.or_assoc, ← List.singleton_append,
      lastOf_append]
    by_cases hk : k' = k <;> simp [lastOf, hk]

theorem find?_foldl_insert_none {k : Bytes} {es : List (Bytes × α)} {t : Table α} (h : ∀ e ∈ es, e.1 ≠ k) :
    find? k (es.foldl (fun t e => t.insert e.1 e.2) t) = find? k t := by
  rw [find?_foldl_insert_eq, lastOf_of_not_mem fun hmem => ?_, Option.none_or]
  obtain ⟨e, he, heq⟩ := List.mem_map.1 hmem
  exact h e he heq

theorem mem_foldl_insert {e : Bytes × α} : ∀ {es : List (Bytes × α)} {t : Table α},
    e ∈ es.foldl (fun t e => t.insert e.1 e.2) t → e ∈ es ∨ e ∈ t
  | [], _, h => .inr h
  | e' :: es, t, h => by
    rw [List.foldl_cons] at h
    rcases mem_foldl_insert h with h | h
    · exact .inl (List.mem_cons_of_mem e' h)
    · exact (mem_insert h).imp_left fun h => by simp [h]

theorem foldl_insert_ordered : ∀ (es : List (Bytes × α)) {t : Table α}, Ordered t →
    Ordered (es.foldl (fun t e => t.insert e.1 e.2) t)
  | [], _, h => h
  | e :: es, _, h => foldl_insert_ordered es (ordered_insert e.1 e.2 h)

/-- **The entries of an ordered table, added in any order, give the table back.** -/
theorem ofEntries_eq {es : List (Bytes × α)} {t : Table α} (h : es.Perm t) (ht : Ordered t) :
    ofEntries es = t := by
  refine eq_of_perm (foldl_insert_ordered es .nil) ht ?_
  have hnodup : (es.map (·.1)).Nodup := (h.map _).nodup_iff.2 ht.nodup
  have hperm := foldl_insert_perm (t := []) hnodup (by simp)
  rw [List.append_nil] at hperm
  exact hperm.trans h

theorem mem_keys_insert {k a : Bytes} {v : α} {t : Table α} :
    k ∈ (insert a v t).keys ↔ k = a ∨ k ∈ t.keys := by
  induction t with
  | nil => simp [insert, keys]
  | cons e t ih =>
    obtain ⟨a', v'⟩ := e
    simp only [keys, List.map_cons, List.mem_cons] at ih ⊢
    rw [insert]
    split
    · simp
    · split
      · rename_i heq
        simp [heq]
      · simp only [List.map_cons, List.mem_cons, ih]
        exact or_left_comm

theorem mem_keys_foldl_insert {k : Bytes} : ∀ {es : List (Bytes × α)} {t : Table α},
    k ∈ (es.foldl (fun t e => t.insert e.1 e.2) t).keys ↔ (∃ e ∈ es, e.1 = k) ∨ k ∈ t.keys
  | [], t => by simp
  | e :: es, t => by
    rw [List.foldl_cons, mem_keys_foldl_insert, mem_keys_insert, List.exists_mem_cons_iff, or_assoc, or_left_comm,
      eq_comm]

/-- **The distinct names of a list** are its names. -/
theorem mem_distinct {k : Bytes} {names : List Bytes} : k ∈ distinct names ↔ k ∈ names := by
  rw [distinct, ofEntries, mem_keys_foldl_insert]
  simp [keys]

/-- The distinct names of a list are in increasing order, each once. -/
theorem pairwise_distinct (names : List Bytes) : (distinct names).Pairwise fun m n => before m n = true :=
  List.pairwise_map.2 (foldl_insert_ordered _ .nil)

/-- Changing values keeps the order of names. -/
theorem Ordered.map_values {t : Table α} (h : Ordered t) (f : Bytes × α → β) :
    Ordered (t.map fun e => (e.1, f e)) := List.pairwise_map.2 h

/-- Leaving out and changing values by themselves is seen under each name apart. -/
theorem find?_filterMap_values {t : Table α} (ht : Ordered t) (f : α → Option β) (k : Bytes) :
    find? k (t.filterMap fun e => (f e.2).map fun v => (e.1, v)) = (find? k t).bind f := by
  induction t with
  | nil => rfl
  | cons e t ih =>
    obtain ⟨k', v⟩ := e
    obtain ⟨hhd, htl⟩ := List.pairwise_cons.1 ht
    rw [List.filterMap_cons, find?]
    by_cases hk : k = k'
    · subst hk
      have hrest : find? k (t.filterMap fun e => (f e.2).map fun v => (e.1, v)) = none := by
        rw [ih htl, Option.bind_eq_none_iff]
        intro v' hv'
        have hlt : before k k = true := hhd _ (mem_of_find? hv')
        simp [before_irrefl] at hlt
      cases hf : f v <;> simp [hf, find?, hrest]
    · cases hf : f v <;> simp [hk, find?, ih htl]

theorem find?_map_values (f : α → β) (k : Bytes) (t : Table α) :
    find? k (t.map fun e => (e.1, f e.2)) = (find? k t).map f := by
  induction t with
  | nil => rfl
  | cons e t ih =>
    rw [List.map_cons, find?, find?, ih]
    split <;> rfl

end Bindery.Table
