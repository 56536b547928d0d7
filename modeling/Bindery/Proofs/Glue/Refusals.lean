/-
Which values can be carried, and why the others cannot. `Shape.refusal` reads it off a type
and the way a value travels, without the code that is made and without the names in it.
The emitters are followed once more: each of them fails exactly for the reason that the type
gives, and otherwise queues as many statements as the type says (`load_decided`,
`store_decided`, `lower_decided`, `lift_decided`). So what becomes of a call is settled by the
types of its function (`exportCall_outcome`, `importCall_outcome`).
-/
import Bindery.Proofs.Glue.Callees

/-! ## What a type says -/

namespace Bindery.Glue

/-- The reason that a type is given for not being carried at all. -/
def Way.refuse : Way → Shape → Unsupported
  | .lower, t => .parameter t.text
  | _, t => .value t.text

end Bindery.Glue

namespace Bindery.Shape

open Glue

mutual

/-- Why a value of a type cannot be carried; none when it can. Of several reasons the first
one from the left counts. Options, results and variants are only ever read from memory,
where payloads that are blank take no code. -/
def refusal : Shape → Way → Option Unsupported
  | .blank, _ => some (.value (text .blank))
  | .errorContext, _ => some (.value (text .errorContext))
  | .prim _, _ | .string, _ | .enum _ _, _ => none
  | .alias _ t, w => t.refusal w
  | .record _ fs, w => namedRefusal fs w
  | .tuple ts, w => allRefusal ts w
  | .flags n fs, _ => if fs.length > 32 then some (.manyFlags n) else none
  | .list t, w => t.refusal w.element
  | .option t, .load => t.refusal .load
  | .result ok err, .load =>
    (if ok.isBlank then none else ok.refusal .load).or (if err.isBlank then none else err.refusal .load)
  | .variant n cs, .load => if cs.isEmpty then some (.emptyVariant n) else payloadRefusal cs
  | t, w => some (w.refuse t)

def namedRefusal : List (Bytes × Shape) → Way → Option Unsupported
  | [], _ => none
  | (_, t) :: fs, w => (t.refusal w).or (namedRefusal fs w)

def allRefusal : List Shape → Way → Option Unsupported
  | [], _ => none
  | t :: ts, w => (t.refusal w).or (allRefusal ts w)

def payloadRefusal : List (Bytes × Shape) → Option Unsupported
  | [] => none
  | (_, t) :: cs => (if t.isBlank then none else t.refusal .load).or (payloadRefusal cs)

end

mutual

/-- The number of statements that lowering a value queues: one for every string and every list
outside the elements of lists. -/
def queued : Shape → Nat
  | .string | .list _ => 1
  | .alias _ t => t.queued
  | .record _ fs => namedQueued fs
  | .tuple ts => allQueued ts
  | .blank | .prim _ | .errorContext | .enum _ _ | .flags _ _ | .variant _ _ | .option _ | .result _ _ => 0

def namedQueued : List (Bytes × Shape) → Nat
  | [] => 0
  | (_, t) :: fs => t.queued + namedQueued fs

def allQueued : List Shape → Nat
  | [] => 0
  | t :: ts => t.queued + allQueued ts

end

end Bindery.Shape

namespace Bindery.Glue

open Emit

variable {α β : Type} {s : EmitState} {r r' : Option Unsupported} {n n' : Nat}

/-! ## Steps whose end is known -/

/-- The step fails for the reason `r`; if there is none, it succeeds and queues `n` statements. -/
def Emit.Decided (m : Emit α) (s : EmitState) (r : Option Unsupported) (n : Nat) : Prop :=
  Ends m s (fun _ s' => r = none ∧ s'.stmts.length = s.stmts.length + n) fun u => r = some u

namespace Emit

theorem decided_pure (a : α) : Decided (pure a) s none 0 := ends_pure ⟨rfl, rfl⟩

theorem decided_throw (u : Unsupported) : Decided (throw u : Emit α) s (some u) n := ends_throw rfl

/-- One step after another fails for the reason of the first, or else of the second. -/
theorem decided_bind {m : Emit α} {f : α → Emit β} (hm : Decided m s r n)
    (hf : ∀ a s', m s = .ok (a, s') → Decided (f a) s' r' n') : Decided (m >>= f) s (r.or r') (n + n') := by
  unfold Decided Ends at hm ⊢
  simp only [bind, StateT.bind, Except.bind]
  cases hms : m s with
  | error u =>
    have hr : r = some u := by simpa only [hms] using hm
    rw [hr]
    rfl
  | ok a =>
    obtain ⟨hr, hlen⟩ : r = none ∧ a.2.stmts.length = s.stmts.length + n := by simpa only [hms] using hm
    have hrest := hf a.1 a.2 hms
    rw [hr, Option.none_or, ← Nat.add_assoc, ← hlen]
    exact hrest

/-- The first of the two steps queues nothing. -/
theorem Decided.seq {m : Emit α} {f : α → Emit β} (hm : Decided m s r 0)
    (hf : ∀ a s', m s = .ok (a, s') → Decided (f a) s' r' n) : Decided (m >>= f) s (r.or r') n := by
  simpa only [Nat.zero_add] using decided_bind hm hf

/-- The second of the two steps cannot fail and queues nothing. -/
theorem Decided.then {m : Emit α} {f : α → Emit β} (hm : Decided m s r n)
    (hf : ∀ a s', Decided (f a) s' none 0) : Decided (m >>= f) s r n := by
  simpa only [Option.or_none, Nat.add_zero] using decided_bind hm fun a s' _ => hf a s'

theorem decided_fresh {stem : String} {f : Bytes → Emit β}
    (h : Decided (f (utf8 stem ++ Bytes.decimal s.next)) { s with next := s.next + 1 } r n) :
    Decided (fresh stem >>= f) s r n := h

theorem decided_queue {stmt : Stmt} {f : Unit → Emit β}
    (h : Decided (f ()) { s with stmts := s.stmts ++ [stmt] } none 0) :
    Decided (queue stmt >>= f) s none 1 :=
  Ends.mono (ends_queue h) fun _ _ h => by simpa using h

end Emit

/-- The call is refused for the reason `r`; if there is none, it is made and is as `P` says. -/
def Outcome (x : Except Unsupported α) (r : Option Unsupported) (P : α → Prop) : Prop :=
  match r with
  | some u => x = .error u
  | none => ∃ a, x = .ok a ∧ P a

theorem Emit.Decided.outcome {m : Emit α} (h : Decided m s r n) :
    Outcome (m s) r fun a => a.2.stmts.length = s.stmts.length + n := by
  unfold Decided Ends at h
  cases hms : m s with
  | error u =>
    obtain rfl : r = some u := by simpa only [hms] using h
    rfl
  | ok a =>
    obtain ⟨rfl, hlen⟩ : r = none ∧ a.2.stmts.length = s.stmts.length + n := by simpa only [hms] using h
    exact ⟨a, rfl, hlen⟩

theorem Outcome.map {x : Except Unsupported α} {g : α → β} {P : α → Prop} {Q : β → Prop} (h : Outcome x r P)
    (hg : ∀ a, x = .ok a → P a → Q (g a)) : Outcome (x.map g) r Q := by
  cases r with
  | some u => exact map_eq_error_iff.2 h
  | none =>
    obtain ⟨a, ha, hP⟩ := h
    exact ⟨g a, map_eq_ok_iff.2 ⟨a, ha, rfl⟩, hg a ha hP⟩

theorem Outcome.eq_error_iff {x : Except Unsupported α} {P : α → Prop} {u : Unsupported} (h : Outcome x r P) :
    x = .error u ↔ r = some u := by
  cases r with
  | some v =>
    rw [show x = .error v from h, Except.error.injEq, Option.some.injEq]
  | none =>
    obtain ⟨a, rfl, -⟩ := h
    exact iff_of_false nofun nofun

/-! ## Reading from memory -/

theorem decided_loadPayload {t : Shape} {p : Place} (h : Decided (load t p) s r 0) :
    Decided (loadPayload t p) s (if t.isBlank then none else r) 0 := by
  unfold loadPayload
  split
  · exact decided_pure _
  · exact h

theorem decided_loadCase {type case : Bytes} {t : Shape} {p : Place} (h : Decided (load t p) s r 0) :
    Decided (loadCase type case t p) s (if t.isBlank then none else r) 0 := by
  unfold loadCase
  split
  · exact decided_pure _
  · rw [map_eq_pure_bind]
    exact h.then fun _ _ => decided_pure _

mutual

theorem load_decided : ∀ (t : Shape) (p : Place) (s : EmitState), Decided (load t p) s (t.refusal .load) 0
  | .blank, p, s | .errorContext, p, s => by
    rw [load, Shape.refusal]
    · exact decided_throw _
    all_goals simp
  | .alias _ t, p, s => by
    rw [load, Shape.refusal]
    exact load_decided t p s
  | .prim k, p, s | .string, p, s | .enum n cs, p, s => by
    rw [load, Shape.refusal]
    exact decided_pure _
  | .record n fs, p, s => by
    rw [load, Shape.refusal]
    exact (loadFields_decided fs _ p s (length_fieldOffsets fs)).then fun _ _ => decided_pure _
  | .tuple ts, p, s => by
    rw [load, Shape.refusal]
    exact (loadItems_decided ts _ p s (length_itemOffsets ts)).then fun _ _ => decided_pure _
  | .flags n fs, p, s => by
    rw [load, Shape.refusal]
    split
    · exact decided_throw _
    · exact decided_pure _
  | .list t, p, s => by
    rw [load, Shape.refusal]
    exact decided_fresh ((load_decided t _ _).then fun _ _ => decided_pure _)
  | .option t, p, s => by
    rw [load, Shape.refusal]
    exact (load_decided t _ s).then fun _ _ => decided_pure _
  | .result ok err, p, s => by
    rw [load_result, Shape.refusal]
    refine (decided_loadPayload (load_decided ok _ s)).seq fun _ s' _ => ?_
    exact (decided_loadPayload (load_decided err _ s')).then fun _ _ => decided_pure _
  | .variant n [], p, s => by
    rw [load_variant_nil, Shape.refusal]
    exact decided_throw _
  | .variant n (c :: cs), p, s => by
    rw [load_variant n (by simp), Shape.refusal]
    exact (loadCases_decided n (c :: cs) _ s).then fun _ _ => decided_pure _

theorem loadFields_decided : ∀ (fs : List (Bytes × Shape)) (offs : List UInt32) (p : Place) (s : EmitState),
    offs.length = fs.length → Decided (loadFields fs offs p) s (Shape.namedRefusal fs .load) 0
  | [], _, p, s, _ => by
    rw [loadFields, Shape.namedRefusal]
    · exact decided_pure _
    · simp
  | (n, t) :: fs, off :: offs, p, s, hlen => by
    rw [loadFields, Shape.namedRefusal]
    refine (load_decided t _ s).seq fun _ s' _ => ?_
    exact (loadFields_decided fs offs p s' (by simpa using hlen)).then fun _ _ => decided_pure _

theorem loadItems_decided : ∀ (ts : List Shape) (offs : List UInt32) (p : Place) (s : EmitState),
    offs.length = ts.length → Decided (loadItems ts offs p) s (Shape.allRefusal ts .load) 0
  | [], _, p, s, _ => by
    rw [loadItems, Shape.allRefusal]
    · exact decided_pure _
    · simp
  | t :: ts, off :: offs, p, s, hlen => by
    rw [loadItems, Shape.allRefusal]
    refine (load_decided t _ s).seq fun _ s' _ => ?_
    exact (loadItems_decided ts offs p s' (by simpa using hlen)).then fun _ _ => decided_pure _

theorem loadCases_decided (type : Bytes) : ∀ (cs : List (Bytes × Shape)) (p : Place) (s : EmitState),
    Decided (loadCases type cs p) s (Shape.payloadRefusal cs) 0
  | [], p, s => by
    rw [loadCases, Shape.payloadRefusal]
    exact decided_pure _
  | (c, t) :: cs, p, s => by
    rw [loadCases_cons, Shape.payloadRefusal]
    refine (decided_loadCase (load_decided t p s)).seq fun _ s' _ => ?_
    exact (loadCases_decided type cs p s').then fun _ _ => decided_pure _

end

/-! ## Writing to memory -/

mutual

theorem store_decided : ∀ (t : Shape) (v : Expr) (p : Place) (s : EmitState),
    Decided (store t v p) s (t.refusal .store) 0
  | .blank, v, p, s | .errorContext, v, p, s | .option _, v, p, s | .result _ _, v, p, s
  | .variant _ _, v, p, s => by
    rw [store, Shape.refusal]
    · exact decided_throw _
    all_goals simp
  | .alias _ t, v, p, s => by
    rw [store, Shape.refusal]
    exact store_decided t v p s
  | .prim k, v, p, s | .string, v, p, s | .enum n cs, v, p, s => by
    rw [store, Shape.refusal]
    exact decided_pure _
  | .record n fs, v, p, s => by
    rw [store, Shape.refusal]
    exact (storeFields_decided fs _ v p s (length_fieldOffsets fs)).then fun _ _ => decided_pure _
  | .tuple ts, v, p, s => by
    rw [store, Shape.refusal]
    exact (storeItems_decided ts _ 0 v p s (length_itemOffsets ts)).then fun _ _ => decided_pure _
  | .flags n fs, v, p, s => by
    rw [store, Shape.refusal]
    split
    · exact decided_throw _
    · exact decided_pure _
  | .list t, v, p, s => by
    rw [store, Shape.refusal]
    exact decided_fresh (decided_fresh ((store_decided t _ _ _).then fun _ _ => decided_pure _))

theorem storeFields_decided : ∀ (fs : List (Bytes × Shape)) (offs : List UInt32) (v : Expr) (p : Place)
    (s : EmitState), offs.length = fs.length →
    Decided (storeFields fs offs v p) s (Shape.namedRefusal fs .store) 0
  | [], _, v, p, s, _ => by
    rw [storeFields, Shape.namedRefusal]
    · exact decided_pure _
    · simp
  | (n, t) :: fs, off :: offs, v, p, s, hlen => by
    rw [storeFields, Shape.namedRefusal]
    refine (store_decided t _ _ s).seq fun _ s' _ => ?_
    exact (storeFields_decided fs offs v p s' (by simpa using hlen)).then fun _ _ => decided_pure _

theorem storeItems_decided : ∀ (ts : List Shape) (offs : List UInt32) (i : Nat) (v : Expr) (p : Place)
    (s : EmitState), offs.length = ts.length →
    Decided (storeItems ts offs i v p) s (Shape.allRefusal ts .store) 0
  | [], _, i, v, p, s, _ => by
    rw [storeItems, Shape.allRefusal]
    · exact decided_pure _
    · simp
  | t :: ts, off :: offs, i, v, p, s, hlen => by
    rw [storeItems, Shape.allRefusal]
    refine (store_decided t _ _ s).seq fun _ s' _ => ?_
    exact (storeItems_decided ts offs (i + 1) v p s' (by simpa using hlen)).then fun _ _ => decided_pure _

end

/-! ## Lowering -/

mutual

theorem lower_decided : ∀ (t : Shape) (v : Expr) (s : EmitState),
    Decided (lower t v) s (t.refusal .lower) t.queued
  | .blank, v, s | .errorContext, v, s => by
    rw [lower, Shape.refusal]
    exact decided_throw _
  | .option _, v, s | .result _ _, v, s | .variant _ _, v, s => by
    rw [lower, Shape.refusal]
    · exact decided_throw _
    all_goals simp
  | .alias _ t, v, s => by
    rw [lower, Shape.refusal, Shape.queued]
    exact lower_decided t v s
  | .prim k, v, s | .enum n cs, v, s => by
    rw [lower, Shape.refusal, Shape.queued]
    exact decided_pure _
  | .string, v, s => by
    rw [lower, Shape.refusal, Shape.queued]
    exact decided_fresh (decided_fresh (decided_queue (decided_pure _)))
  | .record n fs, v, s => by
    rw [lower, Shape.refusal, Shape.queued]
    exact lowerFields_decided fs v s
  | .tuple ts, v, s => by
    rw [lower, Shape.refusal, Shape.queued]
    exact lowerItems_decided ts 0 v s
  | .flags n fs, v, s => by
    rw [lower, Shape.refusal, Shape.queued]
    split
    · exact decided_throw _
    · exact decided_pure _
  | .list t, v, s => by
    rw [lower, Shape.refusal, Shape.queued]
    refine decided_fresh (decided_fresh ?_)
    rw [show t.refusal Way.lower.element = (t.refusal .store).or none from Option.or_none.symm]
    refine (store_decided t _ _ _).seq fun _ s' _ => ?_
    exact decided_fresh (decided_fresh (decided_queue (decided_pure _)))

theorem lowerFields_decided : ∀ (fs : List (Bytes × Shape)) (v : Expr) (s : EmitState),
    Decided (lowerFields fs v) s (Shape.namedRefusal fs .lower) (Shape.namedQueued fs)
  | [], v, s => by
    rw [lowerFields, Shape.namedRefusal, Shape.namedQueued]
    exact decided_pure _
  | (n, t) :: fs, v, s => by
    rw [lowerFields, Shape.namedRefusal, Shape.namedQueued]
    refine decided_bind (lower_decided t _ s) fun _ s' _ => ?_
    exact (lowerFields_decided fs v s').then fun _ _ => decided_pure _

theorem lowerItems_decided : ∀ (ts : List Shape) (i : Nat) (v : Expr) (s : EmitState),
    Decided (lowerItems ts i v) s (Shape.allRefusal ts .lower) (Shape.allQueued ts)
  | [], i, v, s => by
    rw [lowerItems, Shape.allRefusal, Shape.allQueued]
    exact decided_pure _
  | t :: ts, i, v, s => by
    rw [lowerItems, Shape.allRefusal, Shape.allQueued]
    refine decided_bind (lower_decided t _ s) fun _ s' _ => ?_
    exact (lowerItems_decided ts (i + 1) v s').then fun _ _ => decided_pure _

end

/-! ## Lifting -/

theorem decided_take1 (t : Shape) {vs : List Expr} (h : 1 ≤ vs.length) : Decided (take1 t vs) s none 0 := by
  obtain ⟨v, vs, rfl⟩ := List.exists_cons_of_length_pos h
  exact decided_pure _

theorem decided_take2 (t : Shape) {vs : List Expr} (h : 2 ≤ vs.length) : Decided (take2 t vs) s none 0 := by
  obtain ⟨a, vs, rfl⟩ := List.exists_cons_of_length_pos (Nat.lt_of_lt_of_le (by omega) h)
  obtain ⟨b, vs, rfl⟩ := List.exists_cons_of_length_pos (Nat.le_of_succ_le_succ h)
  exact decided_pure _

mutual

theorem lift_decided : ∀ (t : Shape) (vs : List Expr) (s : EmitState), t.flat.length ≤ vs.length →
    Decided (lift t vs) s (t.refusal .lift) 0
  | .blank, vs, s, _ | .errorContext, vs, s, _ | .option _, vs, s, _ | .result _ _, vs, s, _
  | .variant _ _, vs, s, _ => by
    rw [lift, Shape.refusal]
    · exact decided_throw _
    all_goals simp
  | .alias _ t, vs, s, h => by
    rw [lift, Shape.refusal]
    exact lift_decided t vs s h
  | .prim k, vs, s, h | .enum n cs, vs, s, h => by
    rw [lift, Shape.refusal]
    exact (decided_take1 _ h).then fun _ _ => decided_pure _
  | .string, vs, s, h => by
    rw [lift, Shape.refusal]
    exact (decided_take2 _ h).then fun _ _ => decided_pure _
  | .record n fs, vs, s, h => by
    rw [lift, Shape.refusal]
    exact (liftFields_decided fs vs s h).then fun _ _ => decided_pure _
  | .tuple ts, vs, s, h => by
    rw [lift, Shape.refusal]
    exact (liftItems_decided ts vs s h).then fun _ _ => decided_pure _
  | .flags n fs, vs, s, h => by
    rw [Shape.flat] at h
    rw [lift, Shape.refusal]
    split
    · exact decided_throw _
    · rename_i hfs
      rw [if_neg hfs] at h
      exact (decided_take1 _ h).then fun _ _ => decided_pure _
  | .list t, vs, s, h => by
    rw [lift, Shape.refusal]
    refine (decided_take2 _ h).seq fun _ s' _ => ?_
    exact decided_fresh ((load_decided t _ _).then fun _ _ => decided_pure _)

theorem liftFields_decided : ∀ (fs : List (Bytes × Shape)) (vs : List Expr) (s : EmitState),
    (Shape.namedFlats fs).flatten.length ≤ vs.length →
    Decided (liftFields fs vs) s (Shape.namedRefusal fs .lift) 0
  | [], vs, s, _ => by
    rw [liftFields, Shape.namedRefusal]
    exact decided_pure _
  | (n, t) :: fs, vs, s, h => by
    rw [Shape.namedFlats, List.flatten_cons, List.length_append] at h
    rw [liftFields, Shape.namedRefusal]
    refine (lift_decided t vs s (by omega)).seq fun r s' hr => ?_
    -- the numbers that are left are enough for the other fields
    have hrest := ((lift_ends t vs s (by omega)).of_ok hr).length_rest h
    exact (liftFields_decided fs r.2 s' hrest).then fun _ _ => decided_pure _

theorem liftItems_decided : ∀ (ts : List Shape) (vs : List Expr) (s : EmitState),
    (Shape.flats ts).flatten.length ≤ vs.length →
    Decided (liftItems ts vs) s (Shape.allRefusal ts .lift) 0
  | [], vs, s, _ => by
    rw [liftItems, Shape.allRefusal]
    exact decided_pure _
  | t :: ts, vs, s, h => by
    rw [Shape.flats, List.flatten_cons, List.length_append] at h
    rw [liftItems, Shape.allRefusal]
    refine (lift_decided t vs s (by omega)).seq fun r s' hr => ?_
    have hrest := ((lift_ends t vs s (by omega)).of_ok hr).length_rest h
    exact (liftItems_decided ts r.2 s' hrest).then fun _ _ => decided_pure _

end

/-! ## Calls -/

theorem lowerArgs_decided : ∀ (ts : List (Bytes × Shape)) (vs : List Expr) (s : EmitState),
    vs.length = ts.length →
    Decided (lowerArgs (ts.map (·.2)) vs) s (Shape.namedRefusal ts .lower) (Shape.namedQueued ts)
  | [], _, s, _ => by
    rw [List.map_nil, lowerArgs, Shape.namedRefusal, Shape.namedQueued]
    · exact decided_pure _
    · simp
  | (n, t) :: ts, v :: vs, s, h => by
    rw [List.map_cons, lowerArgs, Shape.namedRefusal, Shape.namedQueued]
    refine decided_bind (lower_decided t v s) fun _ s' _ => ?_
    exact (lowerArgs_decided ts vs s' (by simpa using h)).then fun _ _ => decided_pure _

theorem liftArgs_decided : ∀ (ts : List (Bytes × Shape)) (vs : List Expr) (s : EmitState),
    (Shape.namedFlats ts).flatten.length ≤ vs.length →
    Decided (liftArgs (ts.map (·.2)) vs) s (Shape.namedRefusal ts .lift) 0
  | [], vs, s, _ => by
    rw [List.map_nil, liftArgs, Shape.namedRefusal]
    exact decided_pure _
  | (n, t) :: ts, vs, s, h => by
    rw [Shape.namedFlats, List.flatten_cons, List.length_append] at h
    rw [List.map_cons, liftArgs, Shape.namedRefusal]
    refine (lift_decided t vs s (by omega)).seq fun r s' hr => ?_
    have hrest := ((lift_ends t vs s (by omega)).of_ok hr).length_rest h
    exact (liftArgs_decided ts r.2 s' hrest).then fun _ _ => decided_pure _

mutual

/-- Every statement that lowering queues binds two core numbers. -/
theorem queued_le_flat : ∀ t : Shape, 2 * t.queued ≤ t.flat.length
  | .blank | .errorContext | .prim _ | .enum _ _ | .flags _ _ | .variant _ _ | .option _ | .result _ _ => by
    rw [Shape.queued]
    exact Nat.zero_le _
  | .string | .list _ => by
    rw [Shape.queued, Shape.flat]
    exact Nat.le_refl 2
  | .alias _ t => by
    rw [Shape.queued, Shape.flat]
    exact queued_le_flat t
  | .record _ fs => by
    rw [Shape.queued, Shape.flat]
    exact namedQueued_le_flat fs
  | .tuple ts => by
    rw [Shape.queued, Shape.flat]
    exact allQueued_le_flat ts

theorem namedQueued_le_flat : ∀ fs : List (Bytes × Shape),
    2 * Shape.namedQueued fs ≤ (Shape.namedFlats fs).flatten.length
  | [] => by
    rw [Shape.namedQueued]
    exact Nat.zero_le _
  | (_, t) :: fs => by
    rw [Shape.namedQueued, Shape.namedFlats, List.flatten_cons, List.length_append, Nat.mul_add]
    exact Nat.add_le_add (queued_le_flat t) (namedQueued_le_flat fs)

theorem allQueued_le_flat : ∀ ts : List Shape, 2 * Shape.allQueued ts ≤ (Shape.flats ts).flatten.length
  | [] => by
    rw [Shape.allQueued]
    exact Nat.zero_le _
  | t :: ts => by
    rw [Shape.allQueued, Shape.flats, List.flatten_cons, List.length_append, Nat.mul_add]
    exact Nat.add_le_add (queued_le_flat t) (allQueued_le_flat ts)

end

/-- Why the results of a function cannot be carried. -/
def resultRefusal (f : ShapedFunc) (w : Way) : Option Unsupported := (resultShape? f).bind (·.refusal w)

/-- How the parameters of a function travel. -/
def Way.ofParams : Direction → Way
  | .exported => .lower
  | .imported => .lift

/-- How the results of a function travel, through memory or not. -/
def Way.ofResults : Direction → (indirect : Bool) → Way
  | .exported, true => .load
  | .exported, false => .lift
  | .imported, true => .store
  | .imported, false => .lower

/-- Why no call of a function can be made: too many parameters, or one that cannot be carried, or a
result that cannot. -/
def callRefusal (f : ShapedFunc) (dir : Direction) : Option Unsupported :=
  if (f.signature dir).indirectParams then some .manyParams
  else (Shape.namedRefusal f.params (.ofParams dir)).or
    (resultRefusal f (.ofResults dir (f.signature dir).indirectResults))

theorem exportSteps_decided (f : ShapedFunc) {params : List Expr} (s : EmitState)
    (h : params.length = f.params.length) :
    Decided (exportSteps f params) s
      ((Shape.namedRefusal f.params .lower).or
        (resultRefusal f (.ofResults .exported (f.signature .exported).indirectResults)))
      (Shape.namedQueued f.params) := by
  unfold exportSteps resultRefusal
  rw [← Nat.add_zero (Shape.namedQueued f.params)]
  refine decided_bind (lowerArgs_decided f.params params s h) fun args s' _ => ?_
  cases ht : resultShape? f with
  | none => exact decided_pure _
  | some t =>
    cases hind : (f.signature .exported).indirectResults with
    | true => exact (load_decided t _ s').then fun _ _ => decided_pure _
    | false =>
      have hone := flat_le_one f ht hind
      exact (lift_decided t [.var (utf8 "ret")] s' hone).then fun _ _ => decided_pure _

theorem importSteps_decided (f : ShapedFunc) {direct : List Bytes} (s : EmitState)
    (h : (flatParams f).length ≤ direct.length) :
    Decided (importSteps f direct) s
      ((Shape.namedRefusal f.params .lift).or
        (resultRefusal f (.ofResults .imported (f.signature .imported).indirectResults))) 0 := by
  unfold importSteps resultRefusal
  refine (liftArgs_decided f.params _ s (by rwa [List.length_map])).seq fun args s' _ => ?_
  cases ht : resultShape? f with
  | none => exact decided_pure _
  | some t =>
    cases hind : (f.signature .imported).indirectResults with
    | true => exact (store_decided t _ _ s').then fun _ _ => decided_pure _
    | false =>
      -- a result that is one number at most has no string or list to put into memory
      have hnone : t.queued = 0 := by
        have := flat_le_one f ht hind
        have := queued_le_flat t
        omega
      refine (hnone ▸ lower_decided t _ s').then fun es s'' => ?_
      split <;> exact decided_pure _

/-- What the call of an exported function is made of, in numbers. -/
structure ExportCall.Counts (call : ExportCall) (f : ShapedFunc) : Prop where
  stmts : call.stmts.length = Shape.namedQueued f.params
  args : call.args.length = (flatParams f).length
  result : call.result.isSome = (resultShape? f).isSome
  indirect : call.indirect = (f.signature .exported).indirectResults

/-- What the wrapper of an imported function is made of, in numbers. -/
structure ImportCall.Counts (call : ImportCall) (f : ShapedFunc) : Prop where
  params : call.params.length = (f.signature .imported).params.length
  args : call.args.length = f.params.length
  stmts : call.stmts = []

theorem exportSteps_result (f : ShapedFunc) (params : List Expr) (s : EmitState) :
    Ends (exportSteps f params) s (fun r _ => r.2.isSome = (resultShape? f).isSome) Unsupported.NotShort := by
  unfold exportSteps
  refine ends_bind (lowerArgs_ends f.params params s) fun args s' _ => ?_
  cases ht : resultShape? f with
  | none => exact ends_pure rfl
  | some t =>
    simp only
    split
    · exact ends_bind (load_ends t _ s') fun _ _ _ => ends_pure rfl
    · rename_i hind
      have hone := flat_le_one f ht (by simpa using hind)
      exact ends_bind (lift_ends t _ s' hone) fun _ _ _ => ends_pure rfl

/-- What becomes of the call of an exported function depends on its types alone, not on the host
values that it is given. -/
theorem exportCall_outcome (f : ShapedFunc) {params : List Expr} (h : params.length = f.params.length) :
    Outcome (exportCall f params) (callRefusal f .exported) (·.Counts f) := by
  rw [exportCall_eq, callRefusal]
  cases hp : (f.signature .exported).indirectParams with
  | true => rfl
  | false =>
    refine (exportSteps_decided f {} h).outcome.map fun r hr hstmts => ⟨?_, ?_, ?_, rfl⟩
    · exact hstmts.trans (Nat.zero_add _)
    · exact (exportSteps_ends f params {}).of_ok hr h
    · exact (exportSteps_result f params {}).of_ok hr

theorem importCall_outcome (f : ShapedFunc) : Outcome (importCall f) (callRefusal f .imported) (·.Counts f) := by
  rw [callRefusal]
  cases hp : (f.signature .imported).indirectParams with
  | true =>
    rw [importCall_eq, if_pos hp]
    rfl
  | false =>
    have hlen : (flatParams f).length = (directParams f).length := by simp [directParams]
    rw [importCall_eq_direct hp]
    refine (importSteps_decided f {} (Nat.le_of_eq hlen)).outcome.map fun r hr hstmts => ⟨?_, ?_, ?_⟩
    · rw [signature_imported_params f hp, List.length_append, List.length_append, hlen]
      split <;> rfl
    · exact ((importSteps_ends f _ {} hlen).of_ok hr).1
    · exact List.length_eq_zero_iff.1 hstmts

end Bindery.Glue
