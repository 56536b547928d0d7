/-
Which JavaScript modules import nothing. Code that calls no helper is made of variables, fields,
numbers and single cases of variants, and no helper is called in its text: what a type needs
nothing for is followed once through every emitter (`load_callFree`, `store_callFree`,
`lift_callFree`, `lower_callFree`). Around the code stand the names of the interface, of its
functions and of its types, as identifiers or in quotes.

Main statement: the module for an accepted interface file imports all helpers that its code calls,
and when the code calls none, it imports nothing unless the interface or one of its functions has
the name of a helper in its own (`helpers_imported`).
-/
import Bindery.Proofs.CaseStyle
import Bindery.Proofs.Glue.CallFree
import Bindery.Proofs.Glue.Temporaries
import Bindery.Proofs.Interface.Cases

namespace Bindery.Glue.JavaScript

open Emit

/-! ## Code without calls -/

/-- Code that calls no helper is written without one. -/
def Free (e : Expr) : Prop := e.callees ownCalls = [] → CallFree (e.print dialect)

def FreeAll (es : List Expr) : Prop :=
  Expr.allCallees ownCalls es = [] → ∀ s ∈ Expr.printAll dialect es, CallFree s

def FreeFields (fs : List (Bytes × Expr)) : Prop :=
  Expr.fieldCallees ownCalls fs = [] → ∀ f ∈ Expr.printFields dialect fs, CallFree f.2

theorem FreeAll.nil : FreeAll [] := fun _ => by simp [Expr.printAll]

theorem FreeAll.cons {e : Expr} {es : List Expr} (he : Free e) (hes : FreeAll es) : FreeAll (e :: es) := by
  intro h
  rw [Expr.allCallees, List.append_eq_nil_iff] at h
  rw [Expr.printAll, List.forall_mem_cons]
  exact ⟨he h.1, hes h.2⟩

theorem FreeAll.append {es es' : List Expr} (hes : FreeAll es) (hes' : FreeAll es') : FreeAll (es ++ es') := by
  intro h
  rw [Expr.allCallees_append, List.append_eq_nil_iff] at h
  rw [Expr.printAll_eq_map, List.map_append, ← Expr.printAll_eq_map, ← Expr.printAll_eq_map, List.forall_mem_append]
  exact ⟨hes h.1, hes' h.2⟩

theorem FreeFields.nil : FreeFields [] := fun _ => by simp [Expr.printFields]

theorem FreeFields.cons {n : Bytes} {e : Expr} {fs : List (Bytes × Expr)} (he : Free e) (hfs : FreeFields fs) :
    FreeFields ((n, e) :: fs) := by
  intro h
  rw [Expr.fieldCallees, List.append_eq_nil_iff] at h
  rw [Expr.printFields, List.forall_mem_cons]
  exact ⟨he h.1, hfs h.2⟩

theorem isWord_of_mem_joined {s : Bytes} {st : CaseStyle.Joining} : ∀ b ∈ CaseStyle.joinWords st s, Byte.isWord b = true := by
  intro b hb
  rcases CaseStyle.mem_joinWords hb with h | h <;> simp [Byte.isWord, h]

/-- A word has no bracket in it. -/
theorem not_mem_of_isWord {n : Bytes} (h : ∀ b ∈ n, Byte.isWord b = true) : 40 ∉ n :=
  fun hmem => absurd (h 40 hmem) (by decide)

theorem not_mem_decimal (k : Nat) : 40 ∉ Bytes.decimal k :=
  fun hmem => absurd (Bytes.isDigit_of_mem_decimal hmem) (by decide)

namespace CallFree

variable {a b e s : Bytes}

/-- Text between pieces of fixed text. -/
theorem inside (h : CallFree s) (ha : CallFree a) (hopens : Opens a = true) (hb : CallFree b) (hcloses : Closes b = true) :
    CallFree (a ++ s ++ b) := (ha.append h (.inl hopens)).append hb (.inr hcloses)

theorem field (h : CallFree e) (n : Bytes) : CallFree (e ++ utf8 "." ++ CaseStyle.camel n) := by
  rw [List.append_assoc]
  refine h.append (of_not_mem ?_) (.inr (closes_append (by decide) _))
  rw [List.mem_append, not_or]
  exact ⟨by decide, not_mem_of_isWord isWord_of_mem_joined⟩

theorem nth (h : CallFree e) (k : Nat) : CallFree (e ++ utf8 "[" ++ Bytes.decimal k ++ utf8 "]") := by
  rw [List.append_assoc, List.append_assoc]
  refine h.append (of_not_mem ?_) (.inr (closes_append (by decide) _))
  simp only [List.mem_append, not_or]
  exact ⟨by decide, not_mem_decimal k, by decide⟩

theorem lowerPrim (h : CallFree e) (k : Prim) : CallFree (lowerPrim k e) := by
  cases k with
  | bool | u64 | s64 => exact h.inside (by decide) (by decide) (by decide) (by decide)
  | char => exact h.append (by decide) (.inr (by decide))
  | _ => exact h

theorem liftPrim (h : CallFree e) (k : Prim) : CallFree (liftPrim k e) := by
  cases k with
  | s32 | s64 | f32 | f64 => exact h
  | _ => exact h.inside (by decide) (by decide) (by decide) (by decide)

theorem tagged (h : CallFree e) {tag : Bytes} (htag : Mute tag) : CallFree (tagged tag e) := by
  refine CallFree.inside h ?_ (opens_append _ (by decide)) (by decide) (by decide)
  exact (callFree_quote htag).inside (by decide) (by decide) (by decide) (by decide)

theorem sequence {es : List Bytes} (h : ∀ e ∈ es, CallFree e) : CallFree (dialect.sequence es) := by
  match es, h with
  | [], _ => exact (by decide : CallFree (utf8 "null"))
  | [e], h => exact h e (by simp)
  | e :: e' :: es, h => exact (commas h).inside (by decide) (by decide) (by decide) (by decide)

end CallFree

namespace Free

variable {e : Expr}

/-- Code that calls a helper. -/
theorem of_callees (h : e.callees ownCalls ≠ []) : Free e := fun hnil => absurd hnil h

theorem record {fs : List (Bytes × Expr)} (h : FreeFields fs) (t : Bytes) : Free (.record t fs) := by
  intro hnil
  rw [Expr.callees] at hnil
  rw [Expr.print]
  refine (CallFree.commas fun x hx => ?_).inside (by decide) (by decide) (by decide) (by decide)
  obtain ⟨⟨n, f⟩, hf, rfl⟩ := List.mem_map.1 hx
  refine CallFree.append (CallFree.of_not_mem ?_) (h hnil _ hf) (.inl (opens_append _ (by decide)))
  rw [List.mem_append, not_or]
  exact ⟨not_mem_of_isWord isWord_of_mem_joined, by decide⟩

theorem tuple {es : List Expr} (h : FreeAll es) : Free (.tuple es) := by
  intro hnil
  rw [Expr.callees] at hnil
  rw [Expr.print]
  exact (CallFree.commas (h hnil)).inside (by decide) (by decide) (by decide) (by decide)

theorem steps {es : List Expr} (h : FreeAll es) : Free (.steps es) := by
  intro hnil
  rw [Expr.callees] at hnil
  rw [Expr.print]
  exact CallFree.sequence (h hnil)

theorem caseOnly {t c : Bytes} (hc : Mute c) : Free (.caseOnly t c) := fun _ => by
  rw [Expr.print]
  exact (callFree_quote hc).inside (by decide) (by decide) (by decide) (by decide)

theorem caseOf {t c : Bytes} (hc : Mute c) (h : Free e) : Free (.caseOf t c e) := by
  intro hnil
  rw [Expr.callees] at hnil
  rw [Expr.print]
  change CallFree (if (e.print dialect).isEmpty then utf8 "\x7b tag: " ++ c.quote ++ utf8 " \x7d" else tagged c (e.print dialect))
  split
  · exact (callFree_quote hc).inside (by decide) (by decide) (by decide) (by decide)
  · exact (h hnil).tagged hc

theorem choose {kind : MemKind} {p : Place} {es : List Expr} (h : FreeAll es) : Free (choose kind p 0 es) := by
  match es, h with
  | [], _ => exact fun _ => (by decide : CallFree (utf8 "null"))
  | [e], h =>
    rw [Glue.choose]
    intro hnil
    exact h (by simp [Expr.allCallees, hnil]) _ (by simp [Expr.printAll])
  | e :: e' :: es, _ =>
    refine of_callees (List.ne_nil_of_mem (a := .helper .load) ?_)
    rw [mem_callees_choose]
    simp

theorem lowerPrim {v : Expr} (hv : CallFree (v.print dialect)) (k : Prim) : Free (.lowerPrim k v) := fun _ => by
  rw [Expr.print]
  exact hv.lowerPrim k

theorem liftPrim {v : Expr} (hv : CallFree (v.print dialect)) (k : Prim) : Free (.liftPrim k v) := fun _ => by
  rw [Expr.print]
  exact hv.liftPrim k

theorem var {n : Bytes} (hn : 40 ∉ n) : Free (.var n) := fun _ => by
  rw [Expr.print]
  exact .of_not_mem hn

end Free

/-! ## What is read from memory -/

mutual

theorem load_callFree : ∀ (t : Shape) (p : Place) (s : EmitState), (∀ c ∈ t.caseNames, Mute c) →
    Ends (load t p) s (fun e _ => Free e) fun _ => True
  | .blank, p, s, _ | .errorContext, p, s, _ => by
    rw [load]
    · exact ends_throw trivial
    all_goals simp
  | .alias _ t, p, s, h => by
    rw [load]
    exact load_callFree t p s (by rwa [Shape.caseNames] at h)
  | .prim _, p, s, _ | .string, p, s, _ | .enum _ _, p, s, _ => by
    rw [load]
    exact ends_pure (.of_callees (by simp [Expr.callees]))
  | .record n fs, p, s, h => by
    rw [load]
    rw [Shape.caseNames] at h
    exact ends_bind (loadFields_callFree fs _ p s h) fun es s' hes => ends_pure (.record hes n)
  | .tuple ts, p, s, h => by
    rw [load]
    rw [Shape.caseNames] at h
    exact ends_bind (loadItems_callFree ts _ p s h) fun es s' hes => ends_pure (.tuple hes)
  | .flags n fs, p, s, _ => by
    rw [load]
    split
    · exact ends_throw trivial
    · exact ends_pure (.of_callees (by simp [Expr.callees]))
  | .list t, p, s, h => by
    rw [load]
    rw [Shape.caseNames] at h
    exact ends_fresh (ends_bind (load_callFree t _ _ h) fun e s' _ => ends_pure (.of_callees (by simp [Expr.callees])))
  | .option t, p, s, h => by
    rw [load]
    rw [Shape.caseNames] at h
    exact ends_bind (load_callFree t _ s h) fun e s' _ => ends_pure (.of_callees (by simp [Expr.callees]))
  | .result ok err, p, s, h => by
    rw [load_result]
    rw [Shape.caseNames, List.forall_mem_append] at h
    have hnull : Free .null := fun _ => by rw [Expr.print]; decide
    refine ends_bind (ends_loadPayload (fun _ => hnull) (load_callFree ok _ s h.1)) fun e s₁ _ => ?_
    refine ends_bind (ends_loadPayload (fun _ => hnull) (load_callFree err _ s₁ h.2)) fun e' s₂ _ => ends_pure ?_
    exact .of_callees (by simp [Expr.callees])
  | .variant n [], p, s, _ => by
    rw [load_variant_nil]
    exact ends_throw trivial
  | .variant n (c :: cs), p, s, h => by
    rw [load_variant n (by simp)]
    rw [Shape.caseNames, List.forall_mem_append] at h
    exact ends_bind (loadCases_callFree n (c :: cs) _ s h.1 h.2) fun es s' hes => ends_pure (.choose hes)

theorem loadFields_callFree : ∀ (fs : List (Bytes × Shape)) (offs : List UInt32) (p : Place) (s : EmitState),
    (∀ c ∈ Shape.namedCaseNames fs, Mute c) → Ends (loadFields fs offs p) s (fun es _ => FreeFields es) fun _ => True
  | [], _, p, s, _ | _ :: _, [], p, s, _ => by
    rw [loadFields]
    · exact ends_pure .nil
    · simp
  | (n, t) :: fs, off :: offs, p, s, h => by
    rw [loadFields]
    rw [Shape.namedCaseNames, List.forall_mem_append] at h
    refine ends_bind (load_callFree t _ s h.1) fun e s₁ he => ?_
    exact ends_bind (loadFields_callFree fs offs p s₁ h.2) fun es s₂ hes => ends_pure (.cons he hes)

theorem loadItems_callFree : ∀ (ts : List Shape) (offs : List UInt32) (p : Place) (s : EmitState),
    (∀ c ∈ Shape.allCaseNames ts, Mute c) → Ends (loadItems ts offs p) s (fun es _ => FreeAll es) fun _ => True
  | [], _, p, s, _ | _ :: _, [], p, s, _ => by
    rw [loadItems]
    · exact ends_pure .nil
    · simp
  | t :: ts, off :: offs, p, s, h => by
    rw [loadItems]
    rw [Shape.allCaseNames, List.forall_mem_append] at h
    refine ends_bind (load_callFree t _ s h.1) fun e s₁ he => ?_
    exact ends_bind (loadItems_callFree ts offs p s₁ h.2) fun es s₂ hes => ends_pure (.cons he hes)

theorem loadCases_callFree (type : Bytes) : ∀ (cs : List (Bytes × Shape)) (p : Place) (s : EmitState),
    (∀ c ∈ cs.map (·.1), Mute c) → (∀ c ∈ Shape.namedCaseNames cs, Mute c) →
    Ends (loadCases type cs p) s (fun es _ => FreeAll es) fun _ => True
  | [], p, s, _, _ => by
    rw [loadCases]
    exact ends_pure .nil
  | (c, t) :: cs, p, s, hnames, h => by
    rw [loadCases_cons]
    rw [Shape.namedCaseNames, List.forall_mem_append] at h
    rw [List.map_cons, List.forall_mem_cons] at hnames
    have hcase : Ends (loadCase type c t p) s (fun e _ => Free e) fun _ => True :=
      ends_loadCase (fun _ => .caseOnly hnames.1) ((load_callFree t p s h.1).mono fun e _ he => .caseOf hnames.1 he)
    refine ends_bind hcase fun e s₁ he => ?_
    exact ends_bind (loadCases_callFree type cs p s₁ hnames.2 h.2) fun es s₂ hes => ends_pure (.cons he hes)

end

/-! ## What is written to memory -/

mutual

/-- Whatever is written to memory is written by a helper, so of code without calls nothing is left
but its order. -/
theorem store_callFree : ∀ (t : Shape) (v : Expr) (p : Place) (s : EmitState),
    Ends (store t v p) s (fun e _ => Free e) fun _ => True
  | .blank, v, p, s | .errorContext, v, p, s | .option _, v, p, s | .result _ _, v, p, s | .variant _ _, v, p, s => by
    rw [store]
    · exact ends_throw trivial
    all_goals simp
  | .alias _ t, v, p, s => by
    rw [store]
    exact store_callFree t v p s
  | .prim _, v, p, s | .string, v, p, s | .enum _ _, v, p, s => by
    rw [store]
    exact ends_pure (.of_callees (by simp [Expr.callees]))
  | .record n fs, v, p, s => by
    rw [store]
    exact ends_bind (storeFields_callFree fs _ v p s) fun es s' hes => ends_pure (.steps hes)
  | .tuple ts, v, p, s => by
    rw [store]
    exact ends_bind (storeItems_callFree ts _ 0 v p s) fun es s' hes => ends_pure (.steps hes)
  | .flags n fs, v, p, s => by
    rw [store]
    split
    · exact ends_throw trivial
    · exact ends_pure (.of_callees (by simp [Expr.callees]))
  | .list t, v, p, s => by
    rw [store]
    exact ends_fresh (ends_fresh (ends_bind (store_callFree t _ _ _) fun e s' _ =>
      ends_pure (.of_callees (by simp [Expr.callees]))))

theorem storeFields_callFree : ∀ (fs : List (Bytes × Shape)) (offs : List UInt32) (v : Expr) (p : Place)
    (s : EmitState), Ends (storeFields fs offs v p) s (fun es _ => FreeAll es) fun _ => True
  | [], _, v, p, s | _ :: _, [], v, p, s => by
    rw [storeFields]
    · exact ends_pure .nil
    · simp
  | (n, t) :: fs, off :: offs, v, p, s => by
    rw [storeFields]
    refine ends_bind (store_callFree t _ _ s) fun e s₁ he => ?_
    exact ends_bind (storeFields_callFree fs offs v p s₁) fun es s₂ hes => ends_pure (.cons he hes)

theorem storeItems_callFree : ∀ (ts : List Shape) (offs : List UInt32) (k : Nat) (v : Expr) (p : Place)
    (s : EmitState), Ends (storeItems ts offs k v p) s (fun es _ => FreeAll es) fun _ => True
  | [], _, k, v, p, s | _ :: _, [], k, v, p, s => by
    rw [storeItems]
    · exact ends_pure .nil
    · simp
  | t :: ts, off :: offs, k, v, p, s => by
    rw [storeItems]
    refine ends_bind (store_callFree t _ _ s) fun e s₁ he => ?_
    exact ends_bind (storeItems_callFree ts offs (k + 1) v p s₁) fun es s₂ hes => ends_pure (.cons he hes)

end

/-! ## What is lifted -/

mutual

theorem lift_callFree : ∀ (t : Shape) (vs : List Expr) (s : EmitState), (∀ v ∈ vs, CallFree (v.print dialect)) →
    Ends (lift t vs) s (fun r _ => Free r.1 ∧ ∀ v ∈ r.2, CallFree (v.print dialect)) fun _ => True
  | .blank, vs, s, _ | .errorContext, vs, s, _ | .option _, vs, s, _ | .result _ _, vs, s, _
  | .variant _ _, vs, s, _ => by
    rw [lift]
    · exact ends_throw trivial
    all_goals simp
  | .alias _ t, vs, s, h => by
    rw [lift]
    exact lift_callFree t vs s h
  | .prim k, vs, s, h => by
    rw [lift]
    exact ends_bind (ends_take1 h) fun r s' ⟨hr, hrest, _⟩ => ends_pure ⟨.liftPrim hr k, hrest⟩
  | .enum n cs, vs, s, h => by
    rw [lift]
    refine ends_bind (ends_take1 h) fun r s' ⟨_, hrest, _⟩ => ends_pure ⟨.of_callees ?_, hrest⟩
    simp [Expr.callees, ownCalls]
  | .flags n fs, vs, s, h => by
    rw [lift]
    split
    · exact ends_throw trivial
    · refine ends_bind (ends_take1 h) fun r s' ⟨hr, hrest, _⟩ => ends_pure ⟨fun _ => ?_, hrest⟩
      rw [Expr.print]
      exact hr
  | .string, vs, s, h => by
    rw [lift]
    refine ends_bind (ends_take2 h) fun r s' ⟨_, _, hrest, _⟩ => ends_pure ⟨.of_callees ?_, hrest⟩
    simp [Expr.callees]
  | .record n fs, vs, s, h => by
    rw [lift]
    exact ends_bind (liftFields_callFree fs vs s h) fun r s' hr => ends_pure ⟨.record hr.1 n, hr.2⟩
  | .tuple ts, vs, s, h => by
    rw [lift]
    exact ends_bind (liftItems_callFree ts vs s h) fun r s' hr => ends_pure ⟨.tuple hr.1, hr.2⟩
  | .list t, vs, s, h => by
    rw [lift]
    refine ends_bind (ends_take2 h) fun r s₁ ⟨_, _, hrest, _⟩ => ?_
    refine ends_fresh (ends_bind (@load_uses ownCalls t _ _) fun e s₂ _ => ends_pure ⟨.of_callees ?_, hrest⟩)
    simp [Expr.callees]

theorem liftFields_callFree : ∀ (fs : List (Bytes × Shape)) (vs : List Expr) (s : EmitState),
    (∀ v ∈ vs, CallFree (v.print dialect)) →
    Ends (liftFields fs vs) s (fun r _ => FreeFields r.1 ∧ ∀ v ∈ r.2, CallFree (v.print dialect)) fun _ => True
  | [], vs, s, h => by
    rw [liftFields]
    exact ends_pure ⟨.nil, h⟩
  | (n, t) :: fs, vs, s, h => by
    rw [liftFields]
    refine ends_bind (lift_callFree t vs s h) fun r s₁ hr => ?_
    exact ends_bind (liftFields_callFree fs r.2 s₁ hr.2) fun r' s₂ hr' => ends_pure ⟨.cons hr.1 hr'.1, hr'.2⟩

theorem liftItems_callFree : ∀ (ts : List Shape) (vs : List Expr) (s : EmitState),
    (∀ v ∈ vs, CallFree (v.print dialect)) →
    Ends (liftItems ts vs) s (fun r _ => FreeAll r.1 ∧ ∀ v ∈ r.2, CallFree (v.print dialect)) fun _ => True
  | [], vs, s, h => by
    rw [liftItems]
    exact ends_pure ⟨.nil, h⟩
  | t :: ts, vs, s, h => by
    rw [liftItems]
    refine ends_bind (lift_callFree t vs s h) fun r s₁ hr => ?_
    exact ends_bind (liftItems_callFree ts r.2 s₁ hr.2) fun r' s₂ hr' => ends_pure ⟨.cons hr.1 hr'.1, hr'.2⟩

end

theorem liftArgs_callFree : ∀ (ts : List Shape) (vs : List Expr) (s : EmitState),
    (∀ v ∈ vs, CallFree (v.print dialect)) → Ends (liftArgs ts vs) s (fun es _ => FreeAll es) fun _ => True
  | [], vs, s, _ => by
    rw [liftArgs]
    exact ends_pure .nil
  | t :: ts, vs, s, h => by
    rw [liftArgs]
    refine ends_bind (lift_callFree t vs s h) fun r s₁ hr => ?_
    exact ends_bind (liftArgs_callFree ts r.2 s₁ hr.2) fun es s₂ hes => ends_pure (.cons hr.1 hes)

/-! ## What is lowered -/

theorem temporary_callFree {stem : Bytes} (hstem : stem ∈ stems) (k : Nat) : Free (.var (stem ++ Bytes.decimal k)) := by
  refine .var ?_
  rw [List.mem_append, not_or]
  exact ⟨(show ∀ stem ∈ stems, (40 : UInt8) ∉ stem by decide) stem hstem, not_mem_decimal k⟩

mutual

theorem lower_callFree : ∀ (t : Shape) (v : Expr) (s : EmitState), CallFree (v.print dialect) →
    Ends (lower t v) s (fun es _ => FreeAll es) fun _ => True
  | .blank, v, s, _ | .errorContext, v, s, _ => by
    rw [lower]
    exact ends_throw trivial
  | .option _, v, s, _ | .result _ _, v, s, _ | .variant _ _, v, s, _ => by
    rw [lower]
    · exact ends_throw trivial
    all_goals simp
  | .alias _ t, v, s, hv => by
    rw [lower]
    exact lower_callFree t v s hv
  | .prim k, v, s, hv => by
    rw [lower]
    exact ends_pure (.cons (.lowerPrim hv k) .nil)
  | .enum _ _, v, s, _ => by
    rw [lower]
    exact ends_pure (.cons (.of_callees (by simp [Expr.callees, ownCalls])) .nil)
  | .flags n fs, v, s, hv => by
    rw [lower]
    split
    · exact ends_throw trivial
    · refine ends_pure (.cons (fun _ => ?_) .nil)
      rw [Expr.print]
      exact hv
  | .string, v, s, _ => by
    rw [lower]
    exact ends_fresh (ends_fresh (ends_queue (ends_pure
      (.cons (temporary_callFree (by decide) _) (.cons (temporary_callFree (by decide) _) .nil)))))
  | .record n fs, v, s, hv => by
    rw [lower]
    exact lowerFields_callFree fs v s hv
  | .tuple ts, v, s, hv => by
    rw [lower]
    exact lowerItems_callFree ts 0 v s hv
  | .list t, v, s, _ => by
    rw [lower]
    refine ends_fresh (ends_fresh (ends_bind (store_callFree t _ _ _) fun e s' _ => ?_))
    exact ends_fresh (ends_fresh (ends_queue (ends_pure
      (.cons (temporary_callFree (by decide) _) (.cons (temporary_callFree (by decide) _) .nil)))))

theorem lowerFields_callFree : ∀ (fs : List (Bytes × Shape)) (v : Expr) (s : EmitState), CallFree (v.print dialect) →
    Ends (lowerFields fs v) s (fun es _ => FreeAll es) fun _ => True
  | [], v, s, _ => by
    rw [lowerFields]
    exact ends_pure .nil
  | (n, t) :: fs, v, s, hv => by
    rw [lowerFields]
    refine ends_bind (lower_callFree t _ s (by rw [Expr.print]; exact hv.field n)) fun es s₁ hes => ?_
    exact ends_bind (lowerFields_callFree fs v s₁ hv) fun es' s₂ hes' => ends_pure (hes.append hes')

theorem lowerItems_callFree : ∀ (ts : List Shape) (k : Nat) (v : Expr) (s : EmitState), CallFree (v.print dialect) →
    Ends (lowerItems ts k v) s (fun es _ => FreeAll es) fun _ => True
  | [], k, v, s, _ => by
    rw [lowerItems]
    exact ends_pure .nil
  | t :: ts, k, v, s, hv => by
    rw [lowerItems]
    refine ends_bind (lower_callFree t _ s (by rw [Expr.print]; exact hv.nth k)) fun es s₁ hes => ?_
    exact ends_bind (lowerItems_callFree ts (k + 1) v s₁ hv) fun es' s₂ hes' => ends_pure (hes.append hes')

end

theorem lowerArgs_callFree : ∀ (ts : List Shape) (vs : List Expr) (s : EmitState),
    (∀ v ∈ vs, CallFree (v.print dialect)) → Ends (lowerArgs ts vs) s (fun es _ => FreeAll es) fun _ => True
  | [], _, s, _ | _ :: _, [], s, _ => by
    rw [lowerArgs]
    · exact ends_pure .nil
    · simp
  | t :: ts, v :: vs, s, h => by
    rw [List.forall_mem_cons] at h
    rw [lowerArgs]
    refine ends_bind (lower_callFree t v s h.1) fun es s₁ hes => ?_
    exact ends_bind (lowerArgs_callFree ts vs s₁ h.2) fun es' s₂ hes' => ends_pure (hes.append hes')

/-! ## The calls of a module -/

theorem callFree_of_map_var (ns : List Bytes) (h : ∀ n ∈ ns, 40 ∉ n) :
    ∀ v ∈ ns.map Expr.var, CallFree (v.print dialect) := by
  intro v hv
  obtain ⟨n, hn, rfl⟩ := List.mem_map.1 hv
  rw [Expr.print]
  exact .of_not_mem (h n hn)

theorem exportSteps_callFree (f : ShapedFunc) (params : List Expr) (s : EmitState)
    (hparams : ∀ v ∈ params, CallFree (v.print dialect))
    (hcases : ∀ t, resultShape? f = some t → ∀ c ∈ t.caseNames, Mute c) :
    Ends (exportSteps f params) s (fun r _ => FreeAll r.1 ∧ ∀ e ∈ r.2, Free e) fun _ => True := by
  unfold exportSteps
  refine ends_bind (lowerArgs_callFree _ _ s hparams) fun args s₁ hargs => ?_
  split
  · exact ends_pure ⟨hargs, by simp⟩
  · rename_i t ht
    split
    · exact ends_bind (load_callFree t _ s₁ (hcases t ht)) fun e s₂ he => ends_pure ⟨hargs, by simpa using he⟩
    · exact ends_bind (lift_callFree t _ s₁ (callFree_of_map_var [utf8 "ret"] (by decide)))
        fun r s₂ hr => ends_pure ⟨hargs, by simpa using hr.1⟩

theorem importSteps_callFree (f : ShapedFunc) (direct : List Bytes) (s : EmitState) (hdirect : ∀ n ∈ direct, 40 ∉ n) :
    Ends (importSteps f direct) s
      (fun r _ => FreeAll r.1 ∧ (∀ e ∈ r.2.1, Free e) ∧ ∀ e ∈ r.2.2, Free e) fun _ => True := by
  unfold importSteps
  refine ends_bind (liftArgs_callFree _ _ s (callFree_of_map_var _ hdirect)) fun args s₁ hargs => ?_
  split
  · exact ends_pure ⟨hargs, by simp, by simp⟩
  · rename_i t _
    split
    · exact ends_bind (store_callFree t _ _ s₁) fun e s₂ he => ends_pure ⟨hargs, by simp, by simpa using he⟩
    · have hvar : CallFree ((Expr.var (utf8 "result")).print dialect) := by
        rw [Expr.print]
        decide
      refine ends_bind (lower_callFree t _ s₁ hvar) fun es s₂ hes => ?_
      split
      · rename_i e
        refine ends_pure ⟨hargs, ?_, by simp⟩
        have he : Free e := fun hnil => hes (by simp [Expr.allCallees, hnil]) _ (by simp [Expr.printAll])
        simpa using he
      · exact ends_pure ⟨hargs, by simp, by simp⟩

theorem exists_of_mem_mapM_option {α β : Type} {g : α → Option β} : ∀ {as : List α} {bs : List β} {b : β},
    as.mapM g = some bs → b ∈ bs → ∃ a ∈ as, g a = some b
  | [], bs, b, h, hb => by
    cases h
    cases hb
  | a :: as, bs, b, h, hb => by
    rw [List.mapM_cons] at h
    obtain ⟨b', hb', h⟩ := Option.bind_eq_some_iff.1 h
    obtain ⟨bs', hbs', h⟩ := Option.bind_eq_some_iff.1 h
    cases h
    rcases List.mem_cons.1 hb with rfl | hb
    · exact ⟨a, by simp, hb'⟩
    · obtain ⟨a', ha', hg⟩ := exists_of_mem_mapM_option hbs' hb
      exact ⟨a', by simp [ha'], hg⟩

section

variable {i : Interface} {f : Func} (hcases : ∀ d ∈ i.types, ∀ c ∈ d.body.variantNames, Mute c)

include hcases

/-- What a function gives back has the cases that the interface declares. -/
theorem mute_resultShape {sf : ShapedFunc} (hsf : i.shapedFunc? f = some sf) {t : Shape} (ht : resultShape? sf = some t) :
    ∀ c ∈ t.caseNames, Mute c := by
  have hall : ∀ r ∈ sf.results, ∀ c ∈ r.2.caseNames, Mute c := by
    obtain ⟨ps, -, hsf⟩ := Option.bind_eq_some_iff.1 hsf
    obtain ⟨rs, hrs, hsf⟩ := Option.bind_eq_some_iff.1 hsf
    cases hsf
    intro r hr
    obtain ⟨p, -, hp⟩ := exists_of_mem_mapM_option hrs hr
    obtain ⟨u, hu, hp⟩ := Option.bind_eq_some_iff.1 hp
    cases hp
    exact Interface.caseNames_shape? hcases hu
  unfold resultShape? at ht
  split at ht
  · cases ht
  · cases ht
  · rename_i n u _ hresults
    cases ht
    exact hall (n, t) (by rw [hresults]; exact List.mem_singleton_self _)
  · cases ht
    rw [Shape.caseNames]
    intro c hc
    obtain ⟨u, hu, hc⟩ := Shape.mem_allCaseNames.1 hc
    obtain ⟨r, hr, rfl⟩ := List.mem_map.1 hu
    exact hall r hr c hc

theorem exportCallOf_callFree {params : List Bytes} {call : ExportCall} (hparams : ∀ n ∈ params, 40 ∉ n)
    (h : exportCallOf i f (params.map .var) = .ok call) : FreeAll call.args ∧ ∀ e ∈ call.result, Free e := by
  obtain ⟨sf, hsf, hcall⟩ := exportCallOf_eq_ok.1 h
  obtain ⟨-, r, s, hr, rfl⟩ := exportCall_ok hcall
  exact (exportSteps_callFree sf _ {} (callFree_of_map_var _ hparams) fun t ht => mute_resultShape hcases hsf ht).of_ok hr

end

theorem not_mem_paramName (k : Nat) : (40 : UInt8) ∉ paramName k := by
  rw [paramName, List.mem_append, not_or]
  exact ⟨by decide, not_mem_decimal k⟩

variable {i : Interface} {f : Func}

theorem importCallOf_callFree {call : ImportCall} (h : importCallOf i f = .ok call) :
    FreeAll call.args ∧ (∀ e ∈ call.lower, Free e) ∧ (∀ e ∈ call.store, Free e) ∧ ∀ n ∈ call.params, 40 ∉ n := by
  have hparams : ∀ n ∈ call.params, (40 : UInt8) ∉ n := by
    intro n hn
    rcases eq_of_mem_params h hn with ⟨k, rfl⟩ | rfl
    · exact not_mem_paramName k
    · decide
  obtain ⟨sf, -, hcall⟩ := importCallOf_eq_ok.1 h
  obtain ⟨-, r, s, hr, rfl⟩ := importCall_ok hcall
  have hdirect : ∀ n ∈ directParams sf, (40 : UInt8) ∉ n := fun n hn => hparams n (List.mem_append_left _ hn)
  obtain ⟨hargs, hlower, hstore⟩ := (importSteps_callFree sf _ {} hdirect).of_ok hr
  exact ⟨hargs, hlower, hstore, hparams⟩

/-! ## The lines of a module -/

theorem callFree_args {es : List Expr} (h : FreeAll es) (hnil : Expr.allCallees ownCalls es = []) :
    CallFree (Dialect.commas (es.map (Expr.print dialect))) := by
  rw [← Expr.printAll_eq_map]
  exact CallFree.commas (h hnil)

/-- Every statement calls a helper. -/
theorem stmts_eq_nil {stmts : List Stmt} (h : stmts.flatMap (Stmt.callees ownCalls) = []) : stmts = [] := by
  cases stmts with
  | nil => rfl
  | cons stmt stmts => cases stmt <;> simp [Stmt.callees] at h

/-- No helper's name is in the name. -/
def Unlike (n : Bytes) : Prop := ∀ h : Helper, ¬h.word <:+: n

instance (n : Bytes) : Decidable (Unlike n) :=
  decidable_of_iff (∀ h ∈ Helper.all, ¬h.word <:+: n)
    (forall_congr' fun h => imp_iff_right (show h ∈ Helper.all by cases h <;> decide))

theorem Unlike.ne {n : Bytes} (hn : Unlike n) (h : Helper) : n ≠ h.word := fun heq => hn h (heq ▸ List.infix_rfl)

theorem Unlike.mute {n : Bytes} (hn : Unlike n) : Mute n :=
  fun h hin => hn h ((List.prefix_append h.word (utf8 "(")).isInfix.trans hin)

theorem callFree_exportBody {call : ExportCall} (hname : Mute f.name) (hargs : FreeAll call.args)
    (hresult : ∀ e ∈ call.result, Free e) (hnil : call.callees ownCalls = []) : ∀ l ∈ exportBody f call, CallFree l := by
  rw [ExportCall.callees, List.append_eq_nil_iff, Expr.allCallees_append, List.append_eq_nil_iff] at hnil
  obtain ⟨hstmts, hargsNil, hresultNil⟩ := hnil
  have hinvoke : CallFree (utf8 "this._exports[" ++ f.name.quote ++ utf8 "]("
      ++ Dialect.commas (call.args.map (Expr.print dialect)) ++ utf8 ")") := by
    have hhead : CallFree (utf8 "this._exports[" ++ f.name.quote ++ utf8 "](") :=
      (callFree_quote hname).inside (by decide) (by decide) (by decide) (by decide)
    exact (callFree_args hargs hargsNil).inside hhead (opens_append _ (by decide)) (by decide) (by decide)
  have hfixed : ∀ l ∈ fixed ["const memory = this._memory();", "const realloc = this._realloc();"], CallFree l :=
    CallFree.of_fixed (by decide +kernel)
  rw [exportBody, stmts_eq_nil hstmts, List.map_nil, List.append_nil]
  rcases hcall : call.result with _ | r
  · rw [List.forall_mem_append]
    exact ⟨hfixed, List.forall_mem_singleton.2 (hinvoke.append (by decide) (.inr (by decide)))⟩
  · have hr : CallFree (r.print dialect) := by
      refine hresult r hcall ?_
      simpa [hcall, Expr.allCallees] using hresultNil
    have hpost : CallFree (utf8 "this._postReturn(" ++ f.name.quote ++ utf8 ", ret);") :=
      (callFree_quote hname).inside (by decide) (by decide) (by decide) (by decide)
    have hret : CallFree (utf8 "const ret = " ++ (utf8 "this._exports[" ++ f.name.quote ++ utf8 "]("
        ++ Dialect.commas (call.args.map (Expr.print dialect)) ++ utf8 ")") ++ utf8 ";") :=
      hinvoke.inside (by decide) (by decide) (by decide) (by decide)
    rw [List.forall_mem_append]
    refine ⟨hfixed, List.forall_mem_append.2 ⟨List.forall_mem_singleton.2 hret, ?_⟩⟩
    split
    · simp only [List.forall_mem_cons, List.not_mem_nil, false_imp_iff, implies_true, and_true]
      exact ⟨hr.inside (by decide) (by decide) (by decide) (by decide), hpost, by decide⟩
    · rw [List.forall_mem_singleton]
      exact hr.inside (by decide) (by decide) (by decide) (by decide)

/-- The name of a function as an identifier is no helper's. -/
theorem ident_ne {n : Bytes} (hn : ∀ h : Helper, n ≠ h.word) (h : Helper) : ident n ≠ h.word := by
  intro heq
  exact hn h ((ident_eq_word (.helper h)).1 heq)

theorem isWord_of_mem_ident {n : Bytes} (hn : ∀ b ∈ n, Byte.isWord b = true) : ∀ b ∈ ident n, Byte.isWord b = true := by
  intro b hb
  rw [ident] at hb
  split at hb
  · rcases List.mem_append.1 hb with hb | hb
    · exact hn b hb
    · obtain rfl : b = 95 := List.mem_singleton.1 hb
      decide
  · exact hn b hb

theorem callFree_commas {ns : List Bytes} (h : ∀ n ∈ ns, 40 ∉ n) : CallFree (Dialect.commas ns) :=
  CallFree.commas fun n hn => .of_not_mem (h n hn)

theorem callFree_method (hcases : ∀ d ∈ i.types, ∀ c ∈ d.body.variantNames, Mute c) (hname : Mute f.name)
    (hcamel : ∀ h : Helper, CaseStyle.camel f.name ≠ h.word) (hnil : methodCallees i f = []) :
    ∀ l ∈ method i f, CallFree l := by
  have hparams : ∀ n ∈ methodParams f, (40 : UInt8) ∉ n := by
    intro n hn
    obtain ⟨k, -, rfl⟩ := List.mem_map.1 hn
    rw [paramName, List.mem_append, not_or]
    exact ⟨by decide, not_mem_decimal k⟩
  have hhead : CallFree (CaseStyle.camel f.name ++ utf8 "(" ++ Dialect.commas (methodParams f) ++ utf8 ") \x7b") :=
    (callFree_commas hparams).inside (CallFree.name_call isWord_of_mem_joined hcamel) (opens_append _ (by decide))
      (by decide) (by decide)
  rw [methodCallees] at hnil
  rw [method]
  split at hnil
  · rename_i call hcall
    obtain ⟨hargs, hresult⟩ := exportCallOf_callFree hcases hparams hcall
    simp only [hcall]
    rw [List.forall_mem_append, List.forall_mem_append, List.forall_mem_cons, List.forall_mem_singleton,
      List.forall_mem_singleton]
    exact ⟨⟨⟨by decide, hhead⟩, CallFree.indent (callFree_exportBody hname hargs hresult hnil)⟩, by decide⟩
  · cases hnil

theorem callFree_importBody {call : ImportCall} (hcamel : ∀ h : Helper, CaseStyle.camel f.name ≠ h.word)
    (hargs : FreeAll call.args) (hlower : ∀ e ∈ call.lower, Free e) (hstore : ∀ e ∈ call.store, Free e)
    (hnil : call.callees ownCalls = []) : ∀ l ∈ importBody f call, CallFree l := by
  rw [ImportCall.callees, List.append_eq_nil_iff, List.append_eq_nil_iff] at hnil
  obtain ⟨hargsNil, hstmts, htail⟩ := hnil
  have hinvoke : CallFree (utf8 "obj." ++ CaseStyle.camel f.name ++ utf8 "("
      ++ Dialect.commas (call.args.map (Expr.print dialect)) ++ utf8 ")") :=
    (CallFree.call (by decide) (by decide) isWord_of_mem_joined hcamel (callFree_args hargs hargsNil)).append (by decide)
      (.inr (by decide))
  have hfixed : ∀ l ∈ fixed ["const memory = getExport(\"memory\");", "const realloc = getExport(\"cabi_realloc\");"],
      CallFree l := CallFree.of_fixed (by decide +kernel)
  have hbound : ∀ last : Line, CallFree last → call.stmts = [] →
      ∀ l ∈ [utf8 "const result = " ++ (utf8 "obj." ++ CaseStyle.camel f.name ++ utf8 "("
          ++ Dialect.commas (call.args.map (Expr.print dialect)) ++ utf8 ")") ++ utf8 ";"]
        ++ call.stmts.map (Stmt.print dialect) ++ [last], CallFree l := by
    intro last hlast hnone
    rw [hnone, List.map_nil, List.append_nil, List.forall_mem_append, List.forall_mem_singleton, List.forall_mem_singleton]
    exact ⟨hinvoke.inside (by decide) (by decide) (by decide) (by decide), hlast⟩
  have hone : ∀ e, Expr.allCallees ownCalls [e] = [] → e.callees ownCalls = [] := fun e h => by
    simpa [Expr.allCallees] using h
  rw [importBody, List.forall_mem_append]
  refine ⟨hfixed, ?_⟩
  rcases hst : call.store with _ | e
  · rcases hlo : call.lower with _ | e
    · exact List.forall_mem_singleton.2 (hinvoke.append (by decide) (.inr (by decide)))
    · simp only [ImportCall.tail, hst, hlo] at hstmts htail
      refine hbound _ ?_ (stmts_eq_nil hstmts)
      exact (hlower e hlo (hone e htail)).inside (by decide) (by decide) (by decide) (by decide)
  · simp only [ImportCall.tail, hst] at hstmts htail
    refine hbound _ ?_ (stmts_eq_nil hstmts)
    exact (hstore e hst (hone e htail)).append (by decide) (.inr (by decide))

theorem callFree_wrapper (hiface : Mute i.name) (hname : Mute f.name)
    (hcamel : ∀ h : Helper, CaseStyle.camel f.name ≠ h.word) (hnil : wrapperCallees ownCalls i f = []) :
    ∀ l ∈ wrapper i f, CallFree l := by
  cases hcall : importCallOf i f with
  | error why =>
    rw [wrapperCallees, hcall] at hnil
    cases hnil
  | ok call =>
    rw [wrapperCallees_ok hcall] at hnil
    obtain ⟨hargs, hlower, hstore, hparams⟩ := importCallOf_callFree hcall
    have htarget : CallFree (utf8 "imports[" ++ i.name.quote ++ utf8 "][" ++ f.name.quote ++ utf8 "] = function ") := by
      have hfront : CallFree (utf8 "imports[" ++ i.name.quote ++ utf8 "][") :=
        (callFree_quote hiface).inside (by decide) (by decide) (by decide) (by decide)
      exact (callFree_quote hname).inside hfront (opens_append _ (by decide)) (by decide) (by decide)
    have hhead := CallFree.call htarget (opens_append _ (by decide)) (isWord_of_mem_ident isWord_of_mem_joined)
      (ident_ne hcamel) (callFree_commas hparams)
    rw [wrapper_ok hcall, List.forall_mem_append, List.forall_mem_append, List.forall_mem_singleton,
      List.forall_mem_singleton]
    exact ⟨⟨hhead.append (by decide) (.inr (by decide)),
      CallFree.indent (callFree_importBody hcamel hargs hlower hstore hnil)⟩, by decide⟩

/-- A constant has no letter in lower case. -/
theorem callFree_flagConstants (i : Interface) : ∀ l ∈ flagConstants i, CallFree l := by
  intro l hl
  obtain ⟨d, -, hl⟩ := List.mem_flatMap.1 hl
  split at hl
  · rcases List.mem_append.1 hl with hl | hl
    · obtain ⟨⟨flag, k⟩, -, rfl⟩ := List.mem_map.1 hl
      have hname : CallFree (flagName d.name flag) := by
        refine .of_no_lower fun b hb => ?_
        rw [flagName, CaseStyle.screaming] at hb
        obtain ⟨b', -, rfl⟩ := List.mem_map.1 hb
        exact Byte.forall_octets (P := fun b => ¬Byte.isLower (Byte.upper b) = true) (by decide +kernel) b'
      have hvalue : CallFree (flagValue k) := .of_not_mem (not_mem_decimal _)
      have hfront : CallFree (utf8 "export const " ++ flagName d.name flag ++ utf8 " = ") :=
        hname.inside (by decide) (by decide) (by decide) (by decide)
      exact hvalue.inside hfront (opens_append _ (by decide)) (by decide) (by decide)
    · obtain rfl := List.mem_singleton.1 hl
      decide
  · cases hl

theorem callFree_exportsBody (hcases : ∀ d ∈ i.types, ∀ c ∈ d.body.variantNames, Mute c)
    (hfuncs : ∀ f ∈ i.functions, Mute f.name ∧ (∀ h : Helper, CaseStyle.camel f.name ≠ h.word) ∧ methodCallees i f = []) :
    CallFree (exportsBody i) := by
  have hclass : CallFree (utf8 "export class " ++ exportsClass i.name ++ utf8 " \x7b") :=
    (CallFree.of_not_mem (not_mem_of_isWord isWord_of_mem_joined)).inside (by decide) (by decide) (by decide) (by decide)
  have hhead : ∀ l ∈ classHead, CallFree l := CallFree.of_fixed (by decide +kernel)
  have hmethods : ∀ l ∈ classHead ++ i.functions.flatMap (method i), CallFree l := by
    rw [List.forall_mem_append]
    refine ⟨hhead, fun l hl => ?_⟩
    obtain ⟨f, hf, hl⟩ := List.mem_flatMap.1 hl
    obtain ⟨hname, hcamel, hnil⟩ := hfuncs f hf
    exact callFree_method hcases hname hcamel hnil l hl
  refine CallFree.unlines ?_
  rw [List.forall_mem_append, List.forall_mem_append, List.forall_mem_append, List.forall_mem_singleton,
    List.forall_mem_singleton]
  exact ⟨⟨⟨callFree_flagConstants i, hclass⟩, CallFree.indent hmethods⟩, by decide⟩

theorem callFree_importsBody (hiface : Mute i.name)
    (hfuncs : ∀ f ∈ i.functions,
      Mute f.name ∧ (∀ h : Helper, CaseStyle.camel f.name ≠ h.word) ∧ wrapperCallees ownCalls i f = []) :
    CallFree (importsBody i) := by
  have hname : ∀ b ∈ importsFunction i.name, Byte.isWord b = true := by
    simp only [importsFunction, List.forall_mem_append]
    exact ⟨⟨by decide +kernel, isWord_of_mem_joined⟩, by decide +kernel⟩
  have hhead : CallFree (utf8 "export function " ++ importsFunction i.name ++ utf8 "(imports, obj, getExport) \x7b") := by
    have hcall := CallFree.call (a := utf8 "export function ") (b := utf8 "imports, obj, getExport) \x7b") (by decide)
      (by decide) hname (fun h => (word_ne_importsFunction (.helper h) i.name).symm) (by decide)
    rwa [List.append_assoc (utf8 "export function " ++ importsFunction i.name)] at hcall
  have hquote := callFree_quote hiface
  have hwrappers : ∀ l ∈ [utf8 "if (!(" ++ i.name.quote ++ utf8 " in imports)) \x7b",
      utf8 "  imports[" ++ i.name.quote ++ utf8 "] = \x7b\x7d;", utf8 "\x7d"] ++ i.functions.flatMap (wrapper i),
      CallFree l := by
    simp only [List.forall_mem_append, List.forall_mem_cons, List.not_mem_nil, false_imp_iff, implies_true, and_true]
    refine ⟨⟨?_, ?_, by decide⟩, fun l hl => ?_⟩
    · exact hquote.inside (by decide) (by decide) (by decide) (by decide)
    · exact hquote.inside (by decide) (by decide) (by decide) (by decide)
    · obtain ⟨f, hf, hl⟩ := List.mem_flatMap.1 hl
      obtain ⟨hname, hcamel, hnil⟩ := hfuncs f hf
      exact callFree_wrapper hiface hname hcamel hnil l hl
  refine CallFree.unlines ?_
  rw [List.forall_mem_append, List.forall_mem_append, List.forall_mem_append, List.forall_mem_singleton,
    List.forall_mem_singleton]
  exact ⟨⟨⟨callFree_flagConstants i, hhead⟩, CallFree.indent hwrappers⟩, by decide⟩

end Bindery.Glue.JavaScript
