/-
How a step of generating code can end. `Emit.Ends m s Q R` says that the step `m`,
started in the state `s`, ends in a value and a state that satisfy `Q`, or in a
reason that satisfies `R`. The emitters are sequences of steps, so what holds of
their ends is put together step by step (`ends_bind`), and an emitter is never
unfolded twice.
-/
import Bindery.Glue.Emit

namespace Bindery.Glue

variable {α β : Type} {s : EmitState} {R : Unsupported → Prop}

/-- The step ends well in `Q`, or badly in `R`. -/
def Emit.Ends (m : Emit α) (s : EmitState) (Q : α → EmitState → Prop) (R : Unsupported → Prop) :
    Prop :=
  match m s with
  | .ok (a, s') => Q a s'
  | .error u => R u

namespace Emit

theorem ends_pure {a : α} {Q : α → EmitState → Prop} (h : Q a s) : Ends (pure a) s Q R := h

theorem ends_throw {u : Unsupported} {Q : α → EmitState → Prop} (h : R u) : Ends (throw u) s Q R := h

theorem ends_bind {m : Emit α} {f : α → Emit β} {P : α → EmitState → Prop}
    {Q : β → EmitState → Prop} (hm : Ends m s P R) (hf : ∀ a s', P a s' → Ends (f a) s' Q R) :
    Ends (m >>= f) s Q R := by
  unfold Ends at hm ⊢
  simp only [bind, StateT.bind, Except.bind]
  cases hms : m s with
  | error u => simpa only [hms] using hm
  | ok r => exact hf r.1 r.2 (by simpa only [hms] using hm)

theorem ends_map {m : Emit α} {f : α → β} {P : α → EmitState → Prop} {Q : β → EmitState → Prop}
    (hm : Ends m s P R) (hf : ∀ a s', P a s' → Q (f a) s') : Ends (f <$> m) s Q R := by
  rw [map_eq_pure_bind]
  exact ends_bind hm fun a s' ha => ends_pure (hf a s' ha)

/-- A new name is the next one, whatever follows. -/
theorem ends_fresh {stem : String} {f : Bytes → Emit β} {Q : β → EmitState → Prop}
    (h : Ends (f (utf8 stem ++ Bytes.decimal s.next)) { s with next := s.next + 1 } Q R) :
    Ends (fresh stem >>= f) s Q R := h

theorem ends_queue {stmt : Stmt} {f : Unit → Emit β} {Q : β → EmitState → Prop}
    (h : Ends (f ()) { s with stmts := s.stmts ++ [stmt] } Q R) :
    Ends (queue stmt >>= f) s Q R := h

theorem Ends.mono {m : Emit α} {P Q : α → EmitState → Prop} (hm : Ends m s P R)
    (h : ∀ a s', P a s' → Q a s') : Ends m s Q R := by
  unfold Ends at hm ⊢
  cases hms : m s with
  | error u => simpa only [hms] using hm
  | ok r => exact h r.1 r.2 (by simpa only [hms] using hm)

/-- Two facts about how one step ends. -/
theorem Ends.and {m : Emit α} {P Q : α → EmitState → Prop} {R' : Unsupported → Prop} (hP : Ends m s P R)
    (hQ : Ends m s Q R') : Ends m s (fun a s' => P a s' ∧ Q a s') R := by
  unfold Ends at *
  cases hms : m s with
  | error u => simpa only [hms] using hP
  | ok r =>
    simp only [hms] at hP hQ ⊢
    exact ⟨hP, hQ⟩

/-- A step that succeeds ends in `Q`. -/
theorem Ends.of_ok {m : Emit α} {Q : α → EmitState → Prop} {a : α} {s' : EmitState}
    (hm : Ends m s Q R) (h : m s = .ok (a, s')) : Q a s' := by
  simpa only [Ends, h] using hm

/-- A step that fails does so for a reason in `R`. -/
theorem Ends.of_error {m : Emit α} {Q : α → EmitState → Prop} {u : Unsupported}
    (hm : Ends m s Q R) (h : m s = .error u) : R u := by
  simpa only [Ends, h] using hm

/-- A step that cannot fail ends in `Q`. -/
theorem Ends.exists_ok {m : Emit α} {Q : α → EmitState → Prop} (hm : Ends m s Q fun _ => False) :
    ∃ a s', m s = .ok (a, s') ∧ Q a s' := by
  unfold Ends at hm
  cases hms : m s with
  | error u => simp only [hms] at hm
  | ok r =>
    simp only [hms] at hm
    exact ⟨r.1, r.2, rfl, hm⟩

end Emit

theorem map_eq_ok_iff {x : Except Unsupported α} {f : α → β} {b : β} :
    x.map f = .ok b ↔ ∃ a, x = .ok a ∧ f a = b := by
  cases x <;> simp [Except.map]

theorem map_eq_error_iff {x : Except Unsupported α} {f : α → β} {u : Unsupported} :
    x.map f = .error u ↔ x = .error u := by
  cases x <;> simp [Except.map]

/-! ## Numbers at the front -/

/-- What holds of all numbers holds of the first one and of those that are left. -/
theorem Emit.ends_take1 {t : Shape} {vs : List Expr} {P : Expr → Prop} (h : ∀ v ∈ vs, P v) :
    Emit.Ends (take1 t vs) s (fun r s' => P r.1 ∧ (∀ v ∈ r.2, P v) ∧ s' = s) fun _ => True := by
  match vs with
  | [] => exact ends_throw trivial
  | v :: vs =>
    obtain ⟨hv, hvs⟩ := List.forall_mem_cons.1 h
    exact ends_pure ⟨hv, hvs, rfl⟩

theorem Emit.ends_take2 {t : Shape} {vs : List Expr} {P : Expr → Prop} (h : ∀ v ∈ vs, P v) :
    Emit.Ends (take2 t vs) s (fun r s' => P r.1 ∧ P r.2.1 ∧ (∀ v ∈ r.2.2, P v) ∧ s' = s) fun _ => True := by
  match vs with
  | [] | [_] => exact ends_throw trivial
  | a :: b :: vs =>
    obtain ⟨ha, hvs⟩ := List.forall_mem_cons.1 h
    obtain ⟨hb, hvs⟩ := List.forall_mem_cons.1 hvs
    exact ends_pure ⟨ha, hb, hvs, rfl⟩

/-! ## Payloads that may be missing -/

/-- Reads a payload of a result; a blank one is null. -/
def loadPayload (t : Shape) (p : Place) : Emit Expr :=
  if t.isBlank then pure .null else load t p

/-- Reads a case of a variant; a blank payload is left out. -/
def loadCase (type case : Bytes) (t : Shape) (p : Place) : Emit Expr :=
  if t.isBlank then pure (.caseOnly type case) else Expr.caseOf type case <$> load t p

theorem eq_blank_of_isBlank {t : Shape} (h : t.isBlank = true) : t = .blank := by
  cases t <;> simp_all [Shape.isBlank]

theorem ends_loadPayload {t : Shape} {p : Place} {Q : Expr → EmitState → Prop}
    (hnull : t = .blank → Q .null s) (hload : Emit.Ends (load t p) s Q R) :
    Emit.Ends (loadPayload t p) s Q R := by
  unfold loadPayload
  split
  · rename_i h
    exact Emit.ends_pure (hnull (eq_blank_of_isBlank h))
  · exact hload

theorem ends_loadCase {type case : Bytes} {t : Shape} {p : Place} {Q : Expr → EmitState → Prop}
    (honly : t = .blank → Q (.caseOnly type case) s)
    (hload : Emit.Ends (load t p) s (fun e s' => Q (.caseOf type case e) s') R) :
    Emit.Ends (loadCase type case t p) s Q R := by
  unfold loadCase
  split
  · rename_i h
    exact Emit.ends_pure (honly (eq_blank_of_isBlank h))
  · exact Emit.ends_map hload fun _ _ h => h

theorem load_result (ok err : Shape) (p : Place) :
    load (.result ok err) p = (do
      let place := p.plus (Layout.payloadOffset [ok.layout, err.layout])
      let okValue ← loadPayload ok place
      let errValue ← loadPayload err place
      return .whenTag (.discriminant 2) p 0 (.ok okValue) (.err errValue)) := by
  rw [load]
  unfold loadPayload
  split <;> split <;> rfl

theorem loadCases_cons (type case : Bytes) (t : Shape) (cs : List (Bytes × Shape)) (p : Place) :
    loadCases type ((case, t) :: cs) p = (do
      let e ← loadCase type case t p
      return e :: (← loadCases type cs p)) := by
  rw [loadCases]
  unfold loadCase
  split <;> rfl

theorem load_variant (n : Bytes) {cs : List (Bytes × Shape)} (h : cs ≠ []) (p : Place) :
    load (.variant n cs) p = (do
      let values ← loadCases n cs (p.plus (Layout.payloadOffset (Shape.namedLayouts cs)))
      return choose (.discriminant cs.length) p 0 values) := by
  rw [load, if_neg (by simpa using h)]

theorem load_variant_nil (n : Bytes) (p : Place) :
    load (.variant n []) p = throw (.emptyVariant n) := by
  rw [load]
  rfl

end Bindery.Glue
