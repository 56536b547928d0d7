/-
Computations that may fail, taken apart: what a sequence of steps, a traversal or a fold
says of its steps, given that it ended well or that it failed.
-/
import Mathlib.Data.List.Forall2

namespace Bindery

universe u

variable {ε : Type u} {α β γ : Type u}

theorem bind_eq_ok {x : Except ε α} {f : α → Except ε β} {b : β} :
    (x >>= f) = .ok b ↔ ∃ a, x = .ok a ∧ f a = .ok b := by
  cases x with
  | error e => simp [bind, Except.bind]
  | ok a => simp [bind, Except.bind]

theorem bind_eq_error {x : Except ε α} {f : α → Except ε β} {e : ε} :
    (x >>= f) = .error e ↔ x = .error e ∨ ∃ a, x = .ok a ∧ f a = .error e := by
  cases x with
  | error e' => simp [bind, Except.bind]
  | ok a => simp [bind, Except.bind]

theorem toOption_eq_some {x : Except ε α} {a : α} : x.toOption = some a ↔ x = .ok a := by
  cases x <;> simp [Except.toOption]

/-- A traversal ends well when every step does. -/
theorem mapM_eq_ok {f : α → Except ε β} : ∀ {as : List α} {bs : List β},
    as.mapM f = .ok bs ↔ List.Forall₂ (fun a b => f a = .ok b) as bs
  | [], bs => by
    rw [List.mapM_nil, List.forall₂_nil_left_iff]
    exact ⟨fun h => (Except.ok.inj h).symm, fun h => h ▸ rfl⟩
  | a :: as, bs => by
    rw [List.mapM_cons, bind_eq_ok, List.forall₂_cons_left_iff]
    constructor
    · rintro ⟨b, hb, h⟩
      obtain ⟨bs', hbs, h⟩ := bind_eq_ok.1 h
      exact ⟨b, bs', hb, mapM_eq_ok.1 hbs, (Except.ok.inj h).symm⟩
    · rintro ⟨b, bs', hb, hbs, rfl⟩
      exact ⟨b, hb, bind_eq_ok.2 ⟨bs', mapM_eq_ok.2 hbs, rfl⟩⟩

/-- Of two lists in step, what is in the second stands for something in the first. -/
theorem exists_of_mem_forall₂ {R : α → β → Prop} {as : List α} {bs : List β} (h : List.Forall₂ R as bs) {b : β}
    (hb : b ∈ bs) : ∃ a ∈ as, R a b := by
  induction h with
  | nil => simp at hb
  | cons hstep _ ih =>
    rcases List.mem_cons.1 hb with rfl | hb
    · exact ⟨_, by simp, hstep⟩
    · obtain ⟨a, ha, hab⟩ := ih hb
      exact ⟨a, by simp [ha], hab⟩

/-- Of two lists in step, what is the same for partners is the same for the lists. -/
theorem map_eq_map_of_forall₂ {R : α → β → Prop} {f : α → γ} {g : β → γ} {as : List α} {bs : List β}
    (h : List.Forall₂ R as bs) (hR : ∀ a b, R a b → f a = g b) : as.map f = bs.map g := by
  induction h with
  | nil => rfl
  | cons hstep _ ih => rw [List.map_cons, List.map_cons, ih, hR _ _ hstep]

/-- Lists are in step in another way when each element is with all its partners. -/
theorem forall₂_imp_of_mem {R S : α → β → Prop} {as : List α} {bs : List β} (h : List.Forall₂ R as bs)
    (hS : ∀ a ∈ as, ∀ b, R a b → S a b) : List.Forall₂ S as bs := by
  induction h with
  | nil => exact .nil
  | cons hstep _ ih =>
    obtain ⟨ha, has⟩ := List.forall_mem_cons.1 hS
    exact .cons (ha _ hstep) (ih has)

/-- Two ways of being in step at once. -/
theorem forall₂_and {R S : α → β → Prop} {as : List α} {bs : List β} (h : List.Forall₂ R as bs)
    (h' : List.Forall₂ S as bs) : List.Forall₂ (fun a b => R a b ∧ S a b) as bs := by
  induction h with
  | nil => exact .nil
  | cons hstep _ ih =>
    cases h' with
    | cons hstep' h' => exact .cons ⟨hstep, hstep'⟩ (ih h')

/-- A list has another in step with it when each of its elements has a partner. -/
theorem exists_forall₂_iff {R : α → β → Prop} {as : List α} :
    (∃ bs, List.Forall₂ R as bs) ↔ ∀ a ∈ as, ∃ b, R a b := by
  induction as with
  | nil => simp
  | cons a as ih =>
    simp only [List.forall₂_cons_left_iff, List.forall_mem_cons, ← ih]
    constructor
    · rintro ⟨_, b, bs, hab, hbs, rfl⟩
      exact ⟨⟨b, hab⟩, bs, hbs⟩
    · rintro ⟨⟨b, hab⟩, bs, hbs⟩
      exact ⟨_, b, bs, hab, hbs, rfl⟩

/-- Every result of a traversal is the result of a step. -/
theorem exists_of_mem_mapM {f : α → Except ε β} {as : List α} {bs : List β} (h : as.mapM f = .ok bs) {b : β}
    (hb : b ∈ bs) : ∃ a ∈ as, f a = .ok b := exists_of_mem_forall₂ (mapM_eq_ok.1 h) hb

/-- A traversal that fails fails at a step. -/
theorem exists_of_mapM_eq_error {f : α → Except ε β} {e : ε} : ∀ {as : List α}, as.mapM f = .error e →
    ∃ a ∈ as, f a = .error e
  | [], h => by cases h
  | a :: as, h => by
    rw [List.mapM_cons, bind_eq_error] at h
    rcases h with h | ⟨b, -, h⟩
    · exact ⟨a, by simp, h⟩
    · rcases bind_eq_error.1 h with h | ⟨bs, -, h⟩
      · obtain ⟨a', ha', h⟩ := exists_of_mapM_eq_error h
        exact ⟨a', by simp [ha'], h⟩
      · cases h

/-- A fold that fails fails at a step, on what the steps before it made. -/
theorem exists_of_foldlM_eq_error {f : γ → α → Except ε γ} {e : ε} : ∀ {as : List α} {c : γ}, as.foldlM f c = .error e →
    ∃ before a after c', as = before ++ a :: after ∧ before.foldlM f c = .ok c' ∧ f c' a = .error e
  | [], c, h => by cases h
  | a :: as, c, h => by
    rw [List.foldlM_cons, bind_eq_error] at h
    rcases h with h | ⟨c₁, hc₁, h⟩
    · exact ⟨[], a, as, c, rfl, rfl, h⟩
    · obtain ⟨before, a', after, c', rfl, hbefore, h⟩ := exists_of_foldlM_eq_error h
      refine ⟨a :: before, a', after, c', rfl, ?_, h⟩
      rw [List.foldlM_cons, hc₁]
      exact hbefore

/-- What every step of a fold keeps holds at its end. -/
theorem foldlM_induct {f : γ → α → Except ε γ} (P : γ → Prop) (hstep : ∀ c a c', P c → f c a = .ok c' → P c') :
    ∀ {as : List α} {c c' : γ}, as.foldlM f c = .ok c' → P c → P c'
  | [], _, _, h, hc => Except.ok.inj h ▸ hc
  | a :: as, c, c', h, hc => by
    rw [List.foldlM_cons] at h
    obtain ⟨c₁, hc₁, h⟩ := bind_eq_ok.1 h
    exact foldlM_induct P hstep h (hstep c a c₁ hc hc₁)

/-- A fold whose every step adds one new element ends well when no key comes twice. `R` ties
what is folded to what it stands for, `S` what was added. -/
theorem foldlM_eq_ok_of_nodup {δ κ : Type u} {f : List β → α → Except ε (List β)} {R : α → δ → Prop}
    {S : β → δ → Prop} (key : δ → κ) (hstep : ∀ {bs ds a d}, List.Forall₂ S bs ds → R a d → key d ∉ ds.map key →
      ∃ b, f bs a = .ok (bs ++ [b]) ∧ S b d) {as : List α} {ds' : List δ} (has : List.Forall₂ R as ds') :
    ∀ {bs : List β} {ds : List δ}, List.Forall₂ S bs ds → ((ds ++ ds').map key).Nodup →
      ∃ bs', as.foldlM f bs = .ok bs' ∧ List.Forall₂ S bs' (ds ++ ds') := by
  induction has with
  | nil =>
    intro bs ds hbs _
    exact ⟨bs, rfl, by simpa using hbs⟩
  | @cons a d as ds' had _ ih =>
    intro bs ds hbs hnodup
    have hnew : key d ∉ ds.map key := by
      rw [List.map_append, List.nodup_append] at hnodup
      exact fun h => hnodup.2.2 _ h _ (by simp) rfl
    obtain ⟨b, hb, hbd⟩ := hstep hbs had hnew
    rw [List.append_cons] at hnodup ⊢
    obtain ⟨bs', hbs', h⟩ := ih (List.rel_append hbs (.cons hbd .nil)) hnodup
    exact ⟨bs', by rw [List.foldlM_cons]; exact bind_eq_ok.2 ⟨_, hb, hbs'⟩, h⟩

end Bindery
