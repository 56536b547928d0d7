/-
The glue and the core signature agree on the number of core values. Flattening,
lowering and lifting are three recursions over the same types: a value is lowered
to as many numbers as its type flattens to (`lower_ends`), and is lifted from
exactly as many, taken from the front in order (`lift_ends`). So the arguments of a
call fit the signature, the parameters of a wrapper are used up one by one, and no
type is ever short of core values (`calls_fit_signature`).

Which numbers a lifted value was made of is read off its code: `Expr.reads` lists
the variables an expression reads, from left to right.
-/
import Bindery.Glue.JavaScript
import Bindery.Glue.Python
import Bindery.Proofs.Glue.Ending

namespace Bindery.Glue

open Emit

/-! ## The variables of an expression -/

namespace Expr

mutual

/-- The variables an expression reads, from left to right. The names that the code of
an element binds are its own. -/
def reads : Expr → List Bytes
  | .var n => [n]
  | .field e _ | .nth e _ => e.reads
  | .null => []
  | .lowerPrim _ e | .liftPrim _ e => e.reads
  | .lowerEnum _ _ e | .liftEnum _ _ e => e.reads
  | .lowerFlags _ e | .liftFlags _ e => e.reads
  | .load _ p => [p.base]
  | .store _ p e => p.base :: e.reads
  | .loadString p => [p.base]
  | .storeString p e => p.base :: e.reads
  | .decodeString ptr len => ptr.reads ++ len.reads
  | .liftList ptr len _ base elem => ptr.reads ++ len.reads ++ elem.reads.filter (· ≠ base)
  | .loadList p _ base elem => p.base :: elem.reads.filter (· ≠ base)
  | .storeList p e _ _ item base elem =>
    p.base :: e.reads ++ elem.reads.filter fun n => n ≠ item ∧ n ≠ base
  | .record _ fs => fieldReads fs
  | .tuple es | .steps es => allReads es
  | .whenTag _ p _ yes no => p.base :: yes.reads ++ no.reads
  | .ok e | .err e => e.reads
  | .caseOnly _ _ => []
  | .caseOf _ _ e => e.reads

def allReads : List Expr → List Bytes
  | [] => []
  | e :: es => e.reads ++ allReads es

def fieldReads : List (Bytes × Expr) → List Bytes
  | [] => []
  | (_, e) :: fs => e.reads ++ fieldReads fs

end

theorem allReads_eq (es : List Expr) : allReads es = es.flatMap reads := by
  induction es with
  | nil => rfl
  | cons e es ih => rw [allReads, ih, List.flatMap_cons]

theorem fieldReads_eq (fs : List (Bytes × Expr)) : fieldReads fs = fs.flatMap fun f => f.2.reads := by
  induction fs with
  | nil => rfl
  | cons f fs ih => rw [fieldReads, ih, List.flatMap_cons]

end Expr

/-- The reason is another one than missing core values. -/
def Unsupported.NotShort (u : Unsupported) : Prop := ∀ t n, u ≠ .coreValues t n

/-! ## Reading from memory -/

/-- Code that reads nothing but one variable. -/
def Expr.ReadsOnly (x : Bytes) (e : Expr) : Prop := ∀ n ∈ e.reads, n = x

theorem Place.plus_base (p : Place) (off : UInt32) : (p.plus off).base = p.base := by
  unfold Place.plus
  split <;> rfl

theorem choose_readsOnly {kind : MemKind} {p : Place} : ∀ (i : Nat) (es : List Expr),
    (∀ e ∈ es, e.ReadsOnly p.base) → (choose kind p i es).ReadsOnly p.base
  | _, [], _ => by simp [choose, Expr.ReadsOnly, Expr.reads]
  | _, [e], h => h e (by simp)
  | i, e :: e' :: es, h => by
    have hrest := @choose_readsOnly kind p (i + 1) (e' :: es) fun x hx => h x (by simp [hx])
    intro n hn
    simp only [choose, Expr.reads, List.cons_append, List.mem_cons, List.mem_append] at hn
    rcases hn with rfl | hn | hn
    · rfl
    · exact h e (by simp) n hn
    · exact hrest n hn

mutual

/-- Loading reads no variable but the one that holds the address. -/
theorem load_ends : ∀ (t : Shape) (p : Place) (s : EmitState),
    Ends (load t p) s (fun e _ => e.ReadsOnly p.base) Unsupported.NotShort
  | .blank, p, s | .errorContext, p, s => by
    rw [load]
    · exact ends_throw (by simp [Unsupported.NotShort])
    all_goals simp
  | .alias _ t, p, s => by
    rw [load]
    exact load_ends t p s
  | .prim k, p, s => by
    rw [load]
    exact ends_pure (by simp [Expr.ReadsOnly, Expr.reads])
  | .string, p, s => by
    rw [load]
    exact ends_pure (by simp [Expr.ReadsOnly, Expr.reads])
  | .record n fs, p, s => by
    rw [load]
    refine ends_bind (loadFields_ends fs _ p s) fun es s' h => ends_pure ?_
    intro x hx
    rw [Expr.reads, Expr.fieldReads_eq, List.mem_flatMap] at hx
    obtain ⟨e, he, hx⟩ := hx
    exact h e he x hx
  | .tuple ts, p, s => by
    rw [load]
    refine ends_bind (loadItems_ends ts _ p s) fun es s' h => ends_pure ?_
    intro x hx
    rw [Expr.reads, Expr.allReads_eq, List.mem_flatMap] at hx
    obtain ⟨e, he, hx⟩ := hx
    exact h e he x hx
  | .enum n cs, p, s => by
    rw [load]
    exact ends_pure (by simp [Expr.ReadsOnly, Expr.reads])
  | .flags n fs, p, s => by
    rw [load]
    split
    · exact ends_throw (by simp [Unsupported.NotShort])
    · exact ends_pure (by simp [Expr.ReadsOnly, Expr.reads])
  | .list t, p, s => by
    rw [load]
    refine ends_fresh (ends_bind (load_ends t _ _) fun e s' h => ends_pure ?_)
    intro n hn
    simp only [Expr.reads, List.mem_cons, List.mem_filter, decide_eq_true_eq] at hn
    exact hn.resolve_right fun ⟨hmem, hne⟩ => hne (h n hmem)
  | .option t, p, s => by
    rw [load]
    refine ends_bind (load_ends t (p.plus _) s) fun e s' h => ends_pure ?_
    rw [Place.plus_base] at h
    simpa [Expr.ReadsOnly, Expr.reads] using h
  | .result ok err, p, s => by
    have hok := fun q s => ends_loadPayload (s := s) (p := q) (fun _ => nofun) (load_ends ok q s)
    have herr := fun q s => ends_loadPayload (s := s) (p := q) (fun _ => nofun) (load_ends err q s)
    rw [load_result]
    refine ends_bind (hok _ s) fun e s₁ he => ?_
    refine ends_bind (herr _ s₁) fun e' s₂ he' => ends_pure ?_
    rw [Place.plus_base] at he he'
    intro n hn
    simp only [Expr.reads, List.cons_append, List.mem_cons, List.mem_append] at hn
    rcases hn with rfl | hn | hn
    · rfl
    · exact he n hn
    · exact he' n hn
  | .variant n [], p, s => by
    rw [load_variant_nil]
    exact ends_throw (by simp [Unsupported.NotShort])
  | .variant n (c :: cs), p, s => by
    rw [load_variant n (by simp)]
    refine ends_bind (loadCases_ends n (c :: cs) _ s) fun es s' h => ends_pure ?_
    rw [Place.plus_base] at h
    exact choose_readsOnly 0 es h

theorem loadFields_ends : ∀ (fs : List (Bytes × Shape)) (offs : List UInt32) (p : Place) (s : EmitState),
    Ends (loadFields fs offs p) s (fun es _ => ∀ e ∈ es, e.2.ReadsOnly p.base) Unsupported.NotShort
  | [], _, p, s => by
    rw [loadFields]
    · exact ends_pure (by simp)
    · simp
  | _ :: _, [], p, s => by
    rw [loadFields]
    · exact ends_pure (by simp)
    · simp
  | (n, t) :: fs, off :: offs, p, s => by
    rw [loadFields]
    refine ends_bind (load_ends t (p.plus off) s) fun e s₁ he => ?_
    refine ends_bind (loadFields_ends fs offs p s₁) fun es s₂ hes => ends_pure ?_
    rw [Place.plus_base] at he
    exact List.forall_mem_cons.2 ⟨he, hes⟩

theorem loadItems_ends : ∀ (ts : List Shape) (offs : List UInt32) (p : Place) (s : EmitState),
    Ends (loadItems ts offs p) s (fun es _ => ∀ e ∈ es, e.ReadsOnly p.base) Unsupported.NotShort
  | [], _, p, s => by
    rw [loadItems]
    · exact ends_pure (by simp)
    · simp
  | _ :: _, [], p, s => by
    rw [loadItems]
    · exact ends_pure (by simp)
    · simp
  | t :: ts, off :: offs, p, s => by
    rw [loadItems]
    refine ends_bind (load_ends t (p.plus off) s) fun e s₁ he => ?_
    refine ends_bind (loadItems_ends ts offs p s₁) fun es s₂ hes => ends_pure ?_
    rw [Place.plus_base] at he
    exact List.forall_mem_cons.2 ⟨he, hes⟩

theorem loadCases_ends (type : Bytes) : ∀ (cs : List (Bytes × Shape)) (p : Place) (s : EmitState),
    Ends (loadCases type cs p) s (fun es _ => ∀ e ∈ es, e.ReadsOnly p.base) Unsupported.NotShort
  | [], p, s => by
    rw [loadCases]
    exact ends_pure (by simp)
  | (c, t) :: cs, p, s => by
    rw [loadCases_cons]
    have hcase : Ends (loadCase type c t p) s (fun e _ => e.ReadsOnly p.base) Unsupported.NotShort :=
      ends_loadCase (fun _ => nofun) ((load_ends t p s).mono fun e _ h => by simpa only [Expr.ReadsOnly, Expr.reads] using h)
    refine ends_bind hcase fun e s₁ he => ?_
    refine ends_bind (loadCases_ends type cs p s₁) fun es s₂ hes => ends_pure ?_
    exact List.forall_mem_cons.2 ⟨he, hes⟩

end

/-! ## Writing to memory -/

mutual

theorem store_ends : ∀ (t : Shape) (v : Expr) (p : Place) (s : EmitState),
    Ends (store t v p) s (fun _ _ => True) Unsupported.NotShort
  | .blank, v, p, s | .errorContext, v, p, s | .option _, v, p, s | .result _ _, v, p, s
  | .variant _ _, v, p, s => by
    rw [store]
    · exact ends_throw (by simp [Unsupported.NotShort])
    all_goals simp
  | .alias _ t, v, p, s => by
    rw [store]
    exact store_ends t v p s
  | .prim k, v, p, s => by
    rw [store]
    exact ends_pure trivial
  | .string, v, p, s => by
    rw [store]
    exact ends_pure trivial
  | .record n fs, v, p, s => by
    rw [store]
    exact ends_bind (storeFields_ends fs _ v p s) fun _ _ _ => ends_pure trivial
  | .tuple ts, v, p, s => by
    rw [store]
    exact ends_bind (storeItems_ends ts _ 0 v p s) fun _ _ _ => ends_pure trivial
  | .enum n cs, v, p, s => by
    rw [store]
    exact ends_pure trivial
  | .flags n fs, v, p, s => by
    rw [store]
    split
    · exact ends_throw (by simp [Unsupported.NotShort])
    · exact ends_pure trivial
  | .list t, v, p, s => by
    rw [store]
    exact ends_fresh (ends_fresh (ends_bind (store_ends t _ _ _) fun _ _ _ => ends_pure trivial))

theorem storeFields_ends : ∀ (fs : List (Bytes × Shape)) (offs : List UInt32) (v : Expr) (p : Place)
    (s : EmitState), Ends (storeFields fs offs v p) s (fun _ _ => True) Unsupported.NotShort
  | [], _, v, p, s | _ :: _, [], v, p, s => by
    rw [storeFields]
    · exact ends_pure trivial
    · simp
  | (n, t) :: fs, off :: offs, v, p, s => by
    rw [storeFields]
    refine ends_bind (store_ends t _ _ s) fun _ s' _ => ?_
    exact ends_bind (storeFields_ends fs offs v p s') fun _ _ _ => ends_pure trivial

theorem storeItems_ends : ∀ (ts : List Shape) (offs : List UInt32) (i : Nat) (v : Expr) (p : Place)
    (s : EmitState), Ends (storeItems ts offs i v p) s (fun _ _ => True) Unsupported.NotShort
  | [], _, i, v, p, s | _ :: _, [], i, v, p, s => by
    rw [storeItems]
    · exact ends_pure trivial
    · simp
  | t :: ts, off :: offs, i, v, p, s => by
    rw [storeItems]
    refine ends_bind (store_ends t _ _ s) fun _ s' _ => ?_
    exact ends_bind (storeItems_ends ts offs (i + 1) v p s') fun _ _ _ => ends_pure trivial

end

/-! ## Lowering -/

/-- A dialect that spells the number of a value with at least one octet. -/
structure Dialect.Visible (d : Dialect) : Prop where
  lowerPrim : ∀ k e, e ≠ [] → d.lowerPrim k e ≠ []
  lowerEnum : ∀ t cs e, e ≠ [] → d.lowerEnum t cs e ≠ []
  lowerFlags : ∀ t e, e ≠ [] → d.lowerFlags t e ≠ []

theorem JavaScript.dialect_visible : JavaScript.dialect.Visible where
  lowerPrim k e h := by cases k <;> simp [JavaScript.dialect, JavaScript.lowerPrim, h]
  lowerEnum t cs e h := by simp [JavaScript.dialect, h]
  lowerFlags t e h := h

theorem Python.dialect_visible : Python.dialect.Visible where
  lowerPrim k e h := by cases k <;> simp [Python.dialect, Python.lowerPrim, h]
  lowerEnum t cs e h := by simp [Python.dialect, h]
  lowerFlags t e h := by simp [Python.dialect, h]

/-- `n` core numbers made of the host value `v`, all of them spelled out. -/
def LoweredTo (n : Nat) (v : Expr) (es : List Expr) : Prop :=
  es.length = n ∧ ∀ d : Dialect, d.Visible → v.print d ≠ [] → ∀ e ∈ es, e.print d ≠ []

theorem LoweredTo.nil {v : Expr} : LoweredTo 0 v [] := ⟨rfl, by simp⟩

theorem LoweredTo.append {m n : Nat} {v v' : Expr} {es es' : List Expr} (h : LoweredTo m v es)
    (h' : LoweredTo n v' es') (hv : ∀ d : Dialect, v'.print d ≠ [] → v.print d ≠ []) :
    LoweredTo (m + n) v' (es ++ es') := by
  refine ⟨by simp [h.1, h'.1], fun d hd hp e he => ?_⟩
  rcases List.mem_append.1 he with he | he
  · exact h.2 d hd (hv d hp) e he
  · exact h'.2 d hd hp e he

/-- A pointer and a length, bound by a statement, are two numbers. -/
theorem LoweredTo.pair {v : Expr} (i j : Bytes) :
    LoweredTo 2 v [.var (utf8 "ptr" ++ i), .var (utf8 "len" ++ j)] :=
  ⟨rfl, fun d _ _ e he => by
    simp only [List.mem_cons, List.not_mem_nil, or_false] at he
    rcases he with rfl | rfl <;> simp [Expr.print, utf8]⟩

mutual

/-- A value is lowered to as many numbers as its type flattens to. -/
theorem lower_ends : ∀ (t : Shape) (v : Expr) (s : EmitState),
    Ends (lower t v) s (fun es _ => LoweredTo t.flat.length v es) Unsupported.NotShort
  | .blank, v, s | .errorContext, v, s => by
    rw [lower]
    exact ends_throw (by simp [Unsupported.NotShort])
  | .option _, v, s | .result _ _, v, s | .variant _ _, v, s => by
    rw [lower]
    · exact ends_throw (by simp [Unsupported.NotShort])
    all_goals simp
  | .alias _ t, v, s => by
    rw [lower, Shape.flat]
    exact lower_ends t v s
  | .prim k, v, s => by
    rw [lower]
    refine ends_pure ⟨rfl, fun d hd hv e he => ?_⟩
    rw [List.mem_singleton.1 he, Expr.print]
    exact hd.lowerPrim k _ hv
  | .string, v, s => by
    rw [lower]
    exact ends_fresh (ends_fresh (ends_queue (ends_pure (LoweredTo.pair _ _))))
  | .record n fs, v, s => by
    rw [lower, Shape.flat]
    exact lowerFields_ends fs v s
  | .tuple ts, v, s => by
    rw [lower, Shape.flat]
    exact lowerItems_ends ts 0 v s
  | .enum n cs, v, s => by
    rw [lower]
    refine ends_pure ⟨rfl, fun d hd hv e he => ?_⟩
    rw [List.mem_singleton.1 he, Expr.print]
    exact hd.lowerEnum n cs _ hv
  | .flags n fs, v, s => by
    rw [lower, Shape.flat]
    split
    · exact ends_throw (by simp [Unsupported.NotShort])
    · refine ends_pure ⟨rfl, fun d hd hv e he => ?_⟩
      rw [List.mem_singleton.1 he, Expr.print]
      exact hd.lowerFlags n _ hv
  | .list t, v, s => by
    rw [lower]
    refine ends_fresh (ends_fresh (ends_bind (store_ends t _ _ _) fun _ s' _ => ?_))
    exact ends_fresh (ends_fresh (ends_queue (ends_pure (LoweredTo.pair _ _))))

theorem lowerFields_ends : ∀ (fs : List (Bytes × Shape)) (v : Expr) (s : EmitState),
    Ends (lowerFields fs v) s (fun es _ => LoweredTo (Shape.namedFlats fs).flatten.length v es)
      Unsupported.NotShort
  | [], v, s => by
    rw [lowerFields]
    exact ends_pure LoweredTo.nil
  | (n, t) :: fs, v, s => by
    rw [lowerFields, Shape.namedFlats, List.flatten_cons, List.length_append]
    refine ends_bind (lower_ends t (.field v n) s) fun es s₁ he => ?_
    refine ends_bind (lowerFields_ends fs v s₁) fun es' s₂ he' => ends_pure ?_
    exact he.append he' fun d h => by simp [Expr.print, h]

theorem lowerItems_ends : ∀ (ts : List Shape) (i : Nat) (v : Expr) (s : EmitState),
    Ends (lowerItems ts i v) s (fun es _ => LoweredTo (Shape.flats ts).flatten.length v es)
      Unsupported.NotShort
  | [], i, v, s => by
    rw [lowerItems]
    exact ends_pure LoweredTo.nil
  | t :: ts, i, v, s => by
    rw [lowerItems, Shape.flats, List.flatten_cons, List.length_append]
    refine ends_bind (lower_ends t (.nth v i) s) fun es s₁ he => ?_
    refine ends_bind (lowerItems_ends ts (i + 1) v s₁) fun es' s₂ he' => ends_pure ?_
    exact he.append he' fun d h => by simp [Expr.print, h]

end

/-! ## Lifting -/

/-- The code `e` was made of the first `n` of the numbers `vs`, in order, and `rest`
is what is left of them. -/
def LiftedFrom (n : Nat) (vs : List Expr) (reads : List Bytes) (rest : List Expr) : Prop :=
  ∃ used, vs = used ++ rest ∧ used.length = n ∧ reads = used.flatMap Expr.reads

theorem LiftedFrom.nil {vs : List Expr} : LiftedFrom 0 vs [] vs := ⟨[], rfl, rfl, rfl⟩

theorem LiftedFrom.append {m n : Nat} {vs vs₁ vs₂ : List Expr} {r₁ r₂ : List Bytes}
    (h₁ : LiftedFrom m vs r₁ vs₁) (h₂ : LiftedFrom n vs₁ r₂ vs₂) :
    LiftedFrom (m + n) vs (r₁ ++ r₂) vs₂ := by
  obtain ⟨used₁, rfl, rfl, rfl⟩ := h₁
  obtain ⟨used₂, rfl, rfl, rfl⟩ := h₂
  exact ⟨used₁ ++ used₂, by simp, by simp, by simp⟩

/-- Enough numbers are left for what comes next. -/
theorem LiftedFrom.length_rest {m n : Nat} {vs rest : List Expr} {r : List Bytes}
    (h : LiftedFrom m vs r rest) (hn : m + n ≤ vs.length) : n ≤ rest.length := by
  obtain ⟨used, rfl, rfl, rfl⟩ := h
  simpa using hn

theorem take1_ends (t : Shape) {vs : List Expr} (s : EmitState) (h : 1 ≤ vs.length) :
    Ends (take1 t vs) s (fun r _ => LiftedFrom 1 vs r.1.reads r.2) Unsupported.NotShort := by
  obtain ⟨v, vs, rfl⟩ := List.exists_cons_of_length_pos h
  exact ends_pure ⟨[v], rfl, rfl, by simp⟩

theorem take2_ends (t : Shape) {vs : List Expr} (s : EmitState) (h : 2 ≤ vs.length) :
    Ends (take2 t vs) s (fun r _ => LiftedFrom 2 vs (r.1.reads ++ r.2.1.reads) r.2.2)
      Unsupported.NotShort := by
  obtain ⟨a, vs, rfl⟩ := List.exists_cons_of_length_pos (Nat.lt_of_lt_of_le (by omega) h)
  obtain ⟨b, vs, rfl⟩ := List.exists_cons_of_length_pos (Nat.le_of_succ_le_succ h)
  exact ends_pure ⟨[a, b], rfl, rfl, by simp⟩

mutual

/-- A value is lifted from exactly as many numbers as its type flattens to, and is
never short of them. -/
theorem lift_ends : ∀ (t : Shape) (vs : List Expr) (s : EmitState), t.flat.length ≤ vs.length →
    Ends (lift t vs) s (fun r _ => LiftedFrom t.flat.length vs r.1.reads r.2) Unsupported.NotShort
  | .blank, vs, s, _ | .errorContext, vs, s, _ | .option _, vs, s, _ | .result _ _, vs, s, _
  | .variant _ _, vs, s, _ => by
    rw [lift]
    · exact ends_throw (by simp [Unsupported.NotShort])
    all_goals simp
  | .alias _ t, vs, s, h => by
    rw [lift, Shape.flat]
    exact lift_ends t vs s h
  | .prim k, vs, s, h => by
    rw [lift]
    exact ends_bind (take1_ends _ s h) fun r _ hr => ends_pure hr
  | .string, vs, s, h => by
    rw [lift]
    exact ends_bind (take2_ends _ s h) fun r _ hr => ends_pure hr
  | .record n fs, vs, s, h => by
    rw [lift, Shape.flat]
    refine ends_bind (liftFields_ends fs vs s h) fun r s' hr => ends_pure ?_
    simpa only [Expr.reads] using hr
  | .tuple ts, vs, s, h => by
    rw [lift, Shape.flat]
    refine ends_bind (liftItems_ends ts vs s h) fun r s' hr => ends_pure ?_
    simpa only [Expr.reads] using hr
  | .enum n cs, vs, s, h => by
    rw [lift]
    exact ends_bind (take1_ends _ s h) fun r _ hr => ends_pure hr
  | .flags n fs, vs, s, h => by
    rw [Shape.flat] at h ⊢
    rw [lift]
    split
    · exact ends_throw (by simp [Unsupported.NotShort])
    · rename_i hfs
      rw [if_neg hfs] at h
      exact ends_bind (take1_ends _ s h) fun r _ hr => ends_pure hr
  | .list t, vs, s, h => by
    rw [lift]
    refine ends_bind (take2_ends _ s h) fun r s₁ hr => ?_
    refine ends_fresh (ends_bind (load_ends t _ _) fun e s₂ he => ends_pure ?_)
    -- The code of an element reads only its own base.
    have hown : e.reads.filter (· ≠ utf8 "base" ++ Bytes.decimal s₁.next) = [] := by
      simpa [List.filter_eq_nil_iff, Expr.ReadsOnly] using he
    rw [Expr.reads, hown, List.append_nil]
    exact hr

theorem liftFields_ends : ∀ (fs : List (Bytes × Shape)) (vs : List Expr) (s : EmitState),
    (Shape.namedFlats fs).flatten.length ≤ vs.length →
    Ends (liftFields fs vs) s
      (fun r _ => LiftedFrom (Shape.namedFlats fs).flatten.length vs (Expr.fieldReads r.1) r.2)
      Unsupported.NotShort
  | [], vs, s, _ => by
    rw [liftFields]
    exact ends_pure LiftedFrom.nil
  | (n, t) :: fs, vs, s, h => by
    rw [Shape.namedFlats, List.flatten_cons, List.length_append] at h ⊢
    rw [liftFields]
    refine ends_bind (lift_ends t vs s (by omega)) fun r s₁ hr => ?_
    refine ends_bind (liftFields_ends fs r.2 s₁ (hr.length_rest h)) fun r' s₂ hr' => ends_pure ?_
    exact hr.append hr'

theorem liftItems_ends : ∀ (ts : List Shape) (vs : List Expr) (s : EmitState),
    (Shape.flats ts).flatten.length ≤ vs.length →
    Ends (liftItems ts vs) s
      (fun r _ => LiftedFrom (Shape.flats ts).flatten.length vs (Expr.allReads r.1) r.2)
      Unsupported.NotShort
  | [], vs, s, _ => by
    rw [liftItems]
    exact ends_pure LiftedFrom.nil
  | t :: ts, vs, s, h => by
    rw [Shape.flats, List.flatten_cons, List.length_append] at h ⊢
    rw [liftItems]
    refine ends_bind (lift_ends t vs s (by omega)) fun r s₁ hr => ?_
    refine ends_bind (liftItems_ends ts r.2 s₁ (hr.length_rest h)) fun r' s₂ hr' => ends_pure ?_
    exact hr.append hr'

end

/-! ## Calls -/

theorem lowerArgs_ends : ∀ (ts : List (Bytes × Shape)) (vs : List Expr) (s : EmitState),
    Ends (lowerArgs (ts.map (·.2)) vs) s
      (fun es _ => vs.length = ts.length → es.length = (Shape.namedFlats ts).flatten.length)
      Unsupported.NotShort
  | [], vs, s => by
    rw [List.map_nil, lowerArgs]
    · exact ends_pure fun _ => rfl
    · simp
  | _ :: _, [], s => by
    rw [lowerArgs]
    · exact ends_pure fun h => by simp at h
    · simp
  | (n, t) :: ts, v :: vs, s => by
    rw [List.map_cons, lowerArgs, Shape.namedFlats, List.flatten_cons, List.length_append]
    refine ends_bind (lower_ends t v s) fun es s₁ he => ?_
    refine ends_bind (lowerArgs_ends ts vs s₁) fun es' s₂ he' => ends_pure fun h => ?_
    rw [List.length_append, he.1, he' (by simpa using h)]

theorem liftArgs_ends : ∀ (ts : List (Bytes × Shape)) (vs : List Expr) (s : EmitState),
    (Shape.namedFlats ts).flatten.length = vs.length →
    Ends (liftArgs (ts.map (·.2)) vs) s
      (fun es _ => es.length = ts.length ∧ es.flatMap Expr.reads = vs.flatMap Expr.reads)
      Unsupported.NotShort
  | [], vs, s, h => by
    rw [List.map_nil, liftArgs]
    refine ends_pure ⟨rfl, ?_⟩
    rw [List.length_eq_zero_iff.1 (show vs.length = 0 from h.symm)]
  | (n, t) :: ts, vs, s, h => by
    rw [Shape.namedFlats, List.flatten_cons, List.length_append] at h
    rw [List.map_cons, liftArgs]
    refine ends_bind (lift_ends t vs s (by omega)) fun r s₁ hr => ?_
    obtain ⟨used, hvs, hn, hreads⟩ := hr
    have hrest : (Shape.namedFlats ts).flatten.length = r.2.length := by
      rw [hvs, List.length_append] at h
      omega
    refine ends_bind (liftArgs_ends ts r.2 s₁ hrest) fun es s₂ hes => ends_pure ⟨?_, ?_⟩
    · simp [hes.1]
    · rw [List.flatMap_cons, hreads, hes.2, hvs, List.flatMap_append]

theorem flats_map_snd (ts : List (Bytes × Shape)) :
    Shape.flats (ts.map (·.2)) = Shape.namedFlats ts := by
  induction ts with
  | nil => rfl
  | cons t ts ih => rw [List.map_cons, Shape.flats, Shape.namedFlats, ih]

/-- The results of a function flatten like the one type they are folded into. -/
theorem flat_resultShape (f : ShapedFunc) :
    (Shape.namedFlats f.results).flatten = ((resultShape? f).map Shape.flat).getD [] := by
  unfold resultShape?
  split
  · rename_i h
    rw [h]
    rfl
  · rename_i h
    rw [h]
    rfl
  · rename_i t _ h
    rw [h]
    simp [Shape.namedFlats]
  · rename_i rs _ _ _
    simp [Shape.flat, flats_map_snd]

/-- The steps behind the call of an exported function. -/
def exportSteps (f : ShapedFunc) (params : List Expr) : Emit (List Expr × Option Expr) := do
  let args ← lowerArgs (f.params.map (·.2)) params
  match resultShape? f with
  | none => return (args, none)
  | some t =>
    if (f.signature .exported).indirectResults then
      return (args, some (← load t { base := utf8 "ret" }))
    else
      let (e, _) ← lift t [.var (utf8 "ret")]
      return (args, some e)

theorem exportCall_eq (f : ShapedFunc) (params : List Expr) :
    exportCall f params =
      if (f.signature .exported).indirectParams then .error .manyParams
      else (exportSteps f params {}).map fun r =>
        { stmts := r.2.stmts, args := r.1.1, result := r.1.2,
          indirect := (f.signature .exported).indirectResults } := by
  rw [exportCall]
  cases (f.signature .exported).indirectParams with
  | true => rfl
  | false =>
    change (exportSteps f params {} >>= fun r => pure _) = _
    cases exportSteps f params {} <;> rfl

/-- The steps behind the wrapper of an imported function. -/
def importSteps (f : ShapedFunc) (direct : List Bytes) :
    Emit (List Expr × Option Expr × Option Expr) := do
  let args ← liftArgs (f.params.map (·.2)) (direct.map .var)
  match resultShape? f with
  | none => return (args, none, none)
  | some t =>
    if (f.signature .imported).indirectResults then
      return (args, none, some (← store t (.var (utf8 "result")) { base := utf8 "retptr" }))
    else
      match ← lower t (.var (utf8 "result")) with
      | [e] => return (args, some e, none)
      | _ => return (args, none, none)

theorem importCall_eq (f : ShapedFunc) :
    importCall f =
      if (f.signature .imported).indirectParams then .error .manyParams
      else
        let params := coreParams (f.signature .imported)
        let direct := if (f.signature .imported).indirectResults then params.dropLast else params
        (importSteps f direct {}).map fun r =>
          { params, args := r.1.1, stmts := r.2.stmts, lower := r.1.2.1, store := r.1.2.2 } := by
  rw [importCall]
  cases (f.signature .imported).indirectParams with
  | true => rfl
  | false =>
    change (importSteps f _ {} >>= fun r => pure _) = Except.map _ (importSteps f _ {})
    cases importSteps f _ {} <;> rfl

/-- The core numbers of the parameters, before the limits are applied. -/
def flatParams (f : ShapedFunc) : List CoreType := (Shape.namedFlats f.params).flatten

/-- The core numbers of the results, before the limits are applied. -/
def flatResults (f : ShapedFunc) : List CoreType := (Shape.namedFlats f.results).flatten

theorem signature_eq (f : ShapedFunc) (dir : Direction) :
    f.signature dir =
      { params := (if Signature.maxParams < (flatParams f).length then [.i32] else flatParams f)
          ++ (if dir = .imported ∧ Signature.maxResults < (flatResults f).length then [.i32] else [])
        results := if Signature.maxResults < (flatResults f).length then
            (if dir = .exported then [.i32] else [])
          else flatResults f
        indirectParams := decide (Signature.maxParams < (flatParams f).length)
        indirectResults := decide (Signature.maxResults < (flatResults f).length) } := by
  unfold ShapedFunc.signature
  simp only [show (Shape.namedFlats f.params).flatten = flatParams f from rfl,
    show (Shape.namedFlats f.results).flatten = flatResults f from rfl]
  cases dir <;> by_cases hr : Signature.maxResults < (flatResults f).length <;> simp [hr]

theorem signature_exported_params (f : ShapedFunc) (h : (f.signature .exported).indirectParams = false) :
    (f.signature .exported).params = flatParams f := by
  rw [signature_eq] at h ⊢
  have hp : ¬ Signature.maxParams < (flatParams f).length := by simpa using h
  simp [hp]

theorem signature_imported_params (f : ShapedFunc) (h : (f.signature .imported).indirectParams = false) :
    (f.signature .imported).params =
      flatParams f ++ if (f.signature .imported).indirectResults then [.i32] else [] := by
  rw [signature_eq] at h ⊢
  have hp : ¬ Signature.maxParams < (flatParams f).length := by simpa using h
  simp [hp]

theorem signature_imported_results (f : ShapedFunc) :
    (f.signature .imported).results =
      if (f.signature .imported).indirectResults then [] else flatResults f := by
  rw [signature_eq]
  simp

/-- A single result that travels directly is one number at most. -/
theorem flat_le_one (f : ShapedFunc) {dir : Direction} {t : Shape} (ht : resultShape? f = some t)
    (h : (f.signature dir).indirectResults = false) : t.flat.length ≤ 1 := by
  have hflat : flatResults f = t.flat := by
    rw [flatResults, flat_resultShape, ht]
    rfl
  rw [signature_eq, hflat] at h
  exact Nat.not_lt.1 (of_decide_eq_false h)

theorem exportSteps_ends (f : ShapedFunc) (params : List Expr) (s : EmitState) :
    Ends (exportSteps f params) s
      (fun r _ => params.length = f.params.length → r.1.length = (flatParams f).length)
      Unsupported.NotShort := by
  unfold exportSteps
  refine ends_bind (lowerArgs_ends f.params params s) fun args s₁ hargs => ?_
  split
  · exact ends_pure hargs
  · rename_i t ht
    split
    · exact ends_bind (load_ends t _ s₁) fun e s₂ _ => ends_pure hargs
    · rename_i hind
      have hone := flat_le_one f ht (by simpa using hind)
      exact ends_bind (lift_ends t _ s₁ hone) fun r s₂ _ => ends_pure hargs

/-- The text of an expression that may be missing. -/
def textOf (d : Dialect) (e : Option Expr) : Bytes := (e.map (Expr.print d)).getD []

theorem importSteps_ends (f : ShapedFunc) (direct : List Bytes) (s : EmitState)
    (h : (flatParams f).length = direct.length) :
    Ends (importSteps f direct) s
      (fun r _ => r.1.length = f.params.length ∧ r.1.flatMap Expr.reads = direct ∧
        ∀ d : Dialect, d.Visible →
          (textOf d r.2.1 ≠ [] ↔ (f.signature .imported).results.length = 1))
      Unsupported.NotShort := by
  have hreads : (direct.map Expr.var).flatMap Expr.reads = direct := by
    simp [List.flatMap_map, Expr.reads]
  have hres := signature_imported_results f
  have hflat : flatResults f = ((resultShape? f).map Shape.flat).getD [] := flat_resultShape f
  unfold importSteps
  refine ends_bind (liftArgs_ends f.params (direct.map .var) s (h.trans (by simp)))
    fun args s₁ hargs => ?_
  rw [hreads] at hargs
  split
  · rename_i hnone
    rw [hnone] at hflat
    refine ends_pure ⟨hargs.1, hargs.2, fun d _ => ?_⟩
    simp [textOf, hres, hflat]
  · rename_i t ht
    rw [ht] at hflat
    split
    · rename_i hind
      refine ends_bind (store_ends t _ _ s₁) fun e s₂ _ => ends_pure ⟨hargs.1, hargs.2, fun d _ => ?_⟩
      simp [textOf, hres, hind]
    · rename_i hind
      rw [if_neg hind, hflat] at hres
      refine ends_bind (lower_ends t _ s₁) fun es s₂ hes => ?_
      have hlen : (f.signature .imported).results.length = es.length := by
        rw [hres, hes.1]
        rfl
      split
      · rename_i e
        refine ends_pure ⟨hargs.1, hargs.2, fun d hd => iff_of_true ?_ hlen⟩
        exact hes.2 d hd (by simp [Expr.print, utf8]) e (by simp)
      · rename_i es hnot
        refine ends_pure ⟨hargs.1, hargs.2, fun d _ => iff_of_false (by simp [textOf]) fun hone => ?_⟩
        obtain ⟨e, he⟩ := List.length_eq_one_iff.1 (hlen.symm.trans hone)
        exact hnot e he

/-- The names of the core parameters: those of the flattened parameters, and behind
them the pointer to the results when they travel through memory. -/
theorem coreParams_eq (f : ShapedFunc) (h : (f.signature .imported).indirectParams = false) :
    coreParams (f.signature .imported) =
      (List.range (flatParams f).length).map paramName
        ++ if (f.signature .imported).indirectResults then [utf8 "retptr"] else [] := by
  unfold coreParams
  rw [signature_imported_params f h]
  split
  · simp [List.range_succ]
  · simp

/-- What a call of an exported function is made of. -/
theorem exportCall_ok {f : ShapedFunc} {params : List Expr} {call : ExportCall}
    (h : exportCall f params = .ok call) :
    (f.signature .exported).indirectParams = false ∧
      ∃ r s, exportSteps f params {} = .ok (r, s) ∧
        call = { stmts := s.stmts, args := r.1, result := r.2, indirect := (f.signature .exported).indirectResults } := by
  rw [exportCall_eq] at h
  split at h
  · cases h
  · rename_i hp
    obtain ⟨r, hr, rfl⟩ := map_eq_ok_iff.1 h
    exact ⟨by simpa using hp, r.1, r.2, hr, rfl⟩

theorem exportCall_notShort {f : ShapedFunc} {params : List Expr} {u : Unsupported}
    (h : exportCall f params = .error u) : u.NotShort := by
  rw [exportCall_eq] at h
  split at h
  · cases h
    simp [Unsupported.NotShort]
  · exact (exportSteps_ends f params {}).of_error (map_eq_error_iff.1 h)

/-- The core parameters in front of the pointer to the results. -/
def directParams (f : ShapedFunc) : List Bytes := (List.range (flatParams f).length).map paramName

theorem importCall_eq_direct {f : ShapedFunc} (h : (f.signature .imported).indirectParams = false) :
    importCall f = (importSteps f (directParams f) {}).map fun r =>
      { params := directParams f ++ if (f.signature .imported).indirectResults then [utf8 "retptr"] else []
        args := r.1.1, stmts := r.2.stmts, lower := r.1.2.1, store := r.1.2.2 } := by
  rw [importCall_eq, if_neg (by simp [h]), coreParams_eq f h]
  by_cases hr : (f.signature .imported).indirectResults = true <;> simp [hr, directParams]

/-- What the wrapper of an imported function is made of. -/
theorem importCall_ok {f : ShapedFunc} {call : ImportCall} (h : importCall f = .ok call) :
    (f.signature .imported).indirectParams = false ∧
      ∃ r s, importSteps f (directParams f) {} = .ok (r, s) ∧
        call =
          { params := directParams f ++ if (f.signature .imported).indirectResults then [utf8 "retptr"] else []
            args := r.1, stmts := s.stmts, lower := r.2.1, store := r.2.2 } := by
  cases hp : (f.signature .imported).indirectParams with
  | true =>
    rw [importCall_eq, if_pos hp] at h
    cases h
  | false =>
    rw [importCall_eq_direct hp] at h
    obtain ⟨r, hr, rfl⟩ := map_eq_ok_iff.1 h
    exact ⟨rfl, r.1, r.2, hr, rfl⟩

/-- A function of an interface is called by its shape. -/
theorem exportCallOf_eq_ok {i : Interface} {f : Func} {params : List Expr} {call : ExportCall} :
    exportCallOf i f params = .ok call ↔ ∃ sf, i.shapedFunc? f = some sf ∧ exportCall sf params = .ok call := by
  rw [exportCallOf]
  cases i.shapedFunc? f <;> simp

theorem importCallOf_eq_ok {i : Interface} {f : Func} {call : ImportCall} :
    importCallOf i f = .ok call ↔ ∃ sf, i.shapedFunc? f = some sf ∧ importCall sf = .ok call := by
  rw [importCallOf]
  cases i.shapedFunc? f <;> simp

/-- The core parameters of a wrapper are numbered, but for the pointer to the results. -/
theorem eq_of_mem_params {i : Interface} {f : Func} {call : ImportCall} (h : importCallOf i f = .ok call) {n : Bytes}
    (hn : n ∈ call.params) : (∃ k, n = paramName k) ∨ n = utf8 "retptr" := by
  obtain ⟨sf, -, hcall⟩ := importCallOf_eq_ok.1 h
  obtain ⟨-, r, s, -, rfl⟩ := importCall_ok hcall
  rcases List.mem_append.1 hn with hn | hn
  · obtain ⟨k, -, rfl⟩ := List.mem_map.1 hn
    exact .inl ⟨k, rfl⟩
  · split at hn
    · exact .inr (List.mem_singleton.1 hn)
    · cases hn

theorem importCall_notShort {f : ShapedFunc} {u : Unsupported} (h : importCall f = .error u) :
    u.NotShort := by
  cases hp : (f.signature .imported).indirectParams with
  | true =>
    rw [importCall_eq, if_pos hp] at h
    cases h
    simp [Unsupported.NotShort]
  | false =>
    rw [importCall_eq_direct hp] at h
    exact (importSteps_ends f _ {} (by simp [directParams])).of_error (map_eq_error_iff.1 h)

/-- **Calls fit the core signature.** The call of an exported function, given a host
value for every parameter, passes as many arguments as the signature has parameters.
The wrapper of an imported function takes as many; the host arguments read the core
parameters in front of the pointer to the results one after the other, each of them
once, and a core result is spelled out exactly when the signature has one. No call
fails for want of core values. -/
theorem calls_fit_signature (f : ShapedFunc) :
    (∀ params call, params.length = f.params.length → exportCall f params = .ok call →
      call.args.length = (f.signature .exported).params.length ∧
      call.indirect = (f.signature .exported).indirectResults) ∧
    (∀ call, importCall f = .ok call →
      call.params.length = (f.signature .imported).params.length ∧
      call.args.length = f.params.length ∧
      (∃ direct, call.params =
          direct ++ (if (f.signature .imported).indirectResults then [utf8 "retptr"] else []) ∧
        call.args.flatMap Expr.reads = direct) ∧
      ∀ d ∈ [JavaScript.dialect, Python.dialect],
        (textOf d call.lower ≠ [] ↔ (f.signature .imported).results.length = 1)) ∧
    (∀ params t n, exportCall f params ≠ .error (.coreValues t n)) ∧
    (∀ t n, importCall f ≠ .error (.coreValues t n)) := by
  refine ⟨fun params call hlen h => ?_, fun call h => ?_, fun params t n h => ?_, fun t n h => ?_⟩
  · obtain ⟨hp, r, s, hr, rfl⟩ := exportCall_ok h
    rw [signature_exported_params f hp]
    exact ⟨(exportSteps_ends f params {}).of_ok hr hlen, rfl⟩
  · obtain ⟨hp, r, s, hr, rfl⟩ := importCall_ok h
    obtain ⟨hlen, hreads, htext⟩ := (importSteps_ends f _ {} (by simp [directParams])).of_ok hr
    refine ⟨?_, hlen, ⟨directParams f, rfl, hreads⟩, ?_⟩
    · rw [signature_imported_params f hp]
      split <;> simp [directParams]
    · intro d hd
      simp only [List.mem_cons, List.not_mem_nil, or_false] at hd
      rcases hd with rfl | rfl
      · exact htext _ JavaScript.dialect_visible
      · exact htext _ Python.dialect_visible
  · exact exportCall_notShort h t n rfl
  · exact importCall_notShort h t n rfl

/-- `span: func(points: list<point>, unit: string) -> f64`, with two coordinates a point. -/
def spanFunc : ShapedFunc where
  name := utf8 "span"
  params := [(utf8 "points", .list (.record (utf8 "point") [(utf8 "x", .prim .f64), (utf8 "y", .prim .f64)])),
    (utf8 "unit", .string)]
  results := [([], .prim .f64)]

theorem calls_fit_signature_span :
    (∃ call, exportCall spanFunc [.var (utf8 "points"), .var (utf8 "unit")] = .ok call ∧
      call.args.length = (spanFunc.signature .exported).params.length) ∧
    ∃ call, importCall spanFunc = .ok call ∧ call.args.length = 2 ∧
      textOf JavaScript.dialect call.lower ≠ [] := by
  obtain ⟨call, hcall⟩ : ∃ call, exportCall spanFunc [.var (utf8 "points"), .var (utf8 "unit")] = .ok call :=
    ⟨_, rfl⟩
  obtain ⟨wrapper, hwrapper⟩ : ∃ call, importCall spanFunc = .ok call := ⟨_, rfl⟩
  have hout := (calls_fit_signature spanFunc).1 _ call rfl hcall
  have hin := (calls_fit_signature spanFunc).2.1 wrapper hwrapper
  exact ⟨⟨call, hcall, hout.1⟩, wrapper, hwrapper, hin.2.1, (hin.2.2.2 _ (by simp)).2 rfl⟩

end Bindery.Glue
