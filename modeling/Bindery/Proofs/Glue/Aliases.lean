/-
Aliases are invisible in the code. Two steps of generating code agree (`Emit.Agree`) when
from every state they succeed alike, with the same code; the words of a refusal may differ,
since they spell the type as it is written. Agreement passes through sequences of steps
(`Agree.bind`), so each of the four emitters agrees with itself on a type and the same type
with aliases inside. With the layout and the core numbers, which aliases do not change
either, that is all a function has to do with a type (`aliases_transparent`).
-/
import Bindery.Proofs.Canonical.Aliases
import Bindery.Proofs.Glue.Ending

namespace Bindery.Glue

open Emit
open Shape (Aliased NamedAliased AllAliased)

variable {α β : Type}

/-! ## Steps that agree -/

namespace Emit

/-- From every state both steps fail, or both succeed with the same result and the same state. -/
def Agree (m m' : Emit α) : Prop := ∀ s, (m s).toOption = (m' s).toOption

theorem Agree.refl (m : Emit α) : Agree m m := fun _ => rfl

/-- Steps that fail agree, whatever their reasons. -/
theorem agree_throw (u u' : Unsupported) : Agree (throw u : Emit α) (throw u') := fun _ => rfl

theorem Agree.bind {m m' : Emit α} {f f' : α → Emit β} (hm : Agree m m') (hf : ∀ a, Agree (f a) (f' a)) :
    Agree (m >>= f) (m' >>= f') := by
  intro s
  have hms := hm s
  simp only [Bind.bind, StateT.bind, Except.bind]
  cases h : m s with
  | error u =>
    cases h' : m' s with
    | error u' => rfl
    | ok r' =>
      rw [h, h'] at hms
      cases hms
  | ok r =>
    cases h' : m' s with
    | error u' =>
      rw [h, h'] at hms
      cases hms
    | ok r' =>
      rw [h, h'] at hms
      obtain rfl := Option.some.inj hms
      exact hf r.1 r.2

theorem Agree.map {m m' : Emit α} (h : Agree m m') (f : α → β) : Agree (f <$> m) (f <$> m') := by
  rw [map_eq_pure_bind, map_eq_pure_bind]
  exact h.bind fun _ => .refl _

/-- Steps that only go on differently after the same one. -/
theorem Agree.after {m : Emit α} {f f' : α → Emit β} (hf : ∀ a, Agree (f a) (f' a)) : Agree (m >>= f) (m >>= f') :=
  (Agree.refl m).bind hf

/-- Steps that go on in the same way. -/
theorem Agree.then {m m' : Emit α} (hm : Agree m m') (f : α → Emit β) : Agree (m >>= f) (m' >>= f) :=
  hm.bind fun _ => .refl _

end Emit

/-! ## Writing to memory -/

mutual

theorem store_agree : ∀ {t t' : Shape}, Aliased t t' → ∀ (v : Expr) (p : Place), Agree (store t' v p) (store t v p)
  | _, _, .refl t, v, p => .refl _
  | _, _, .named n _ h, v, p => by
    rw [store]
    exact store_agree h v p
  | _, _, .alias n h, v, p => by
    rw [store, store]
    exact store_agree h v p
  | _, _, .record n h, v, p => by
    rw [store, store, h.layouts_eq]
    exact (storeFields_agree h _ v p).then _
  | _, _, .tuple h, v, p => by
    rw [store, store, h.layouts_eq]
    exact (storeItems_agree h _ 0 v p).then _
  | _, _, .list h, v, p => by
    rw [store, store, h.layout_eq]
    exact .after fun item => .after fun base => (store_agree h _ _).then _
  | _, _, .variant _ _, v, p | _, _, .option _, v, p | _, _, .result _ _, v, p => by
    rw [store, store]
    · exact agree_throw _ _
    all_goals simp

theorem storeFields_agree : ∀ {fs fs' : List (Bytes × Shape)}, NamedAliased fs fs' →
    ∀ (offs : List UInt32) (v : Expr) (p : Place), Agree (storeFields fs' offs v p) (storeFields fs offs v p)
  | _, _, .nil, offs, v, p => .refl _
  | _, _, .cons n h hs, [], v, p => by
    rw [storeFields, storeFields]
    · exact .refl _
    all_goals simp
  | _, _, .cons n h hs, off :: offs, v, p => by
    rw [storeFields, storeFields]
    exact (store_agree h _ _).bind fun e => (storeFields_agree hs offs v p).then _

theorem storeItems_agree : ∀ {ts ts' : List Shape}, AllAliased ts ts' →
    ∀ (offs : List UInt32) (i : Nat) (v : Expr) (p : Place),
      Agree (storeItems ts' offs i v p) (storeItems ts offs i v p)
  | _, _, .nil, offs, i, v, p => .refl _
  | _, _, .cons h hs, [], i, v, p => by
    rw [storeItems, storeItems]
    · exact .refl _
    all_goals simp
  | _, _, .cons h hs, off :: offs, i, v, p => by
    rw [storeItems, storeItems]
    exact (store_agree h _ _).bind fun e => (storeItems_agree hs offs (i + 1) v p).then _

end

/-! ## Reading from memory -/

theorem loadPayload_agree {t t' : Shape} (h : Aliased t t') {p : Place} (hload : Agree (load t' p) (load t p)) :
    Agree (loadPayload t' p) (loadPayload t p) := by
  rw [loadPayload, loadPayload, h.isBlank_eq]
  split
  · exact .refl _
  · exact hload

theorem loadCase_agree (type case : Bytes) {t t' : Shape} (h : Aliased t t') {p : Place}
    (hload : Agree (load t' p) (load t p)) : Agree (loadCase type case t' p) (loadCase type case t p) := by
  rw [loadCase, loadCase, h.isBlank_eq]
  split
  · exact .refl _
  · exact hload.map _

mutual

theorem load_agree : ∀ {t t' : Shape}, Aliased t t' → ∀ p : Place, Agree (load t' p) (load t p)
  | _, _, .refl t, p => .refl _
  | _, _, .named n _ h, p => by
    rw [load]
    exact load_agree h p
  | _, _, .alias n h, p => by
    rw [load, load]
    exact load_agree h p
  | _, _, .record n h, p => by
    rw [load, load, h.layouts_eq]
    exact (loadFields_agree h _ p).then _
  | _, _, .tuple h, p => by
    rw [load, load, h.layouts_eq]
    exact (loadItems_agree h _ p).then _
  | _, _, .list h, p => by
    rw [load, load, h.layout_eq]
    exact .after fun base => (load_agree h _).then _
  | _, _, .option h, p => by
    rw [load, load, h.layout_eq]
    exact (load_agree h _).then _
  | _, _, .result h h', p => by
    rw [load_result, load_result, h.layout_eq, h'.layout_eq]
    exact (loadPayload_agree h (load_agree h _)).bind fun ok => (loadPayload_agree h' (load_agree h' _)).then _
  | _, _, .variant n .nil, p => .refl _
  | _, _, .variant n (.cons c h hs), p => by
    rw [load_variant n (by simp), load_variant n (by simp), (hs.cons c h).layouts_eq, (hs.cons c h).length_eq]
    exact (loadCases_agree n (hs.cons c h) _).then _

theorem loadFields_agree : ∀ {fs fs' : List (Bytes × Shape)}, NamedAliased fs fs' →
    ∀ (offs : List UInt32) (p : Place), Agree (loadFields fs' offs p) (loadFields fs offs p)
  | _, _, .nil, offs, p => .refl _
  | _, _, .cons n h hs, [], p => by
    rw [loadFields, loadFields]
    · exact .refl _
    all_goals simp
  | _, _, .cons n h hs, off :: offs, p => by
    rw [loadFields, loadFields]
    exact (load_agree h _).bind fun e => (loadFields_agree hs offs p).then _

theorem loadItems_agree : ∀ {ts ts' : List Shape}, AllAliased ts ts' →
    ∀ (offs : List UInt32) (p : Place), Agree (loadItems ts' offs p) (loadItems ts offs p)
  | _, _, .nil, offs, p => .refl _
  | _, _, .cons h hs, [], p => by
    rw [loadItems, loadItems]
    · exact .refl _
    all_goals simp
  | _, _, .cons h hs, off :: offs, p => by
    rw [loadItems, loadItems]
    exact (load_agree h _).bind fun e => (loadItems_agree hs offs p).then _

theorem loadCases_agree (type : Bytes) : ∀ {cs cs' : List (Bytes × Shape)}, NamedAliased cs cs' →
    ∀ p : Place, Agree (loadCases type cs' p) (loadCases type cs p)
  | _, _, .nil, p => .refl _
  | _, _, .cons c h hs, p => by
    rw [loadCases_cons, loadCases_cons]
    exact (loadCase_agree type c h (load_agree h p)).bind fun e => (loadCases_agree type hs p).then _

end

/-! ## Core numbers -/

mutual

theorem lower_agree : ∀ {t t' : Shape}, Aliased t t' → ∀ v : Expr, Agree (lower t' v) (lower t v)
  | _, _, .refl t, v => .refl _
  | _, _, .named n _ h, v => by
    rw [lower]
    exact lower_agree h v
  | _, _, .alias n h, v => by
    rw [lower, lower]
    exact lower_agree h v
  | _, _, .record n h, v => by
    rw [lower, lower]
    exact lowerFields_agree h v
  | _, _, .tuple h, v => by
    rw [lower, lower]
    exact lowerItems_agree h 0 v
  | _, _, .list h, v => by
    rw [lower, lower, h.layout_eq]
    exact .after fun item => .after fun base => (store_agree h _ _).then _
  | _, _, .variant _ _, v | _, _, .option _, v | _, _, .result _ _, v => by
    rw [lower, lower]
    · exact agree_throw _ _
    all_goals simp

theorem lowerFields_agree : ∀ {fs fs' : List (Bytes × Shape)}, NamedAliased fs fs' →
    ∀ v : Expr, Agree (lowerFields fs' v) (lowerFields fs v)
  | _, _, .nil, v => .refl _
  | _, _, .cons n h hs, v => by
    rw [lowerFields, lowerFields]
    exact (lower_agree h _).bind fun es => (lowerFields_agree hs v).then _

theorem lowerItems_agree : ∀ {ts ts' : List Shape}, AllAliased ts ts' →
    ∀ (i : Nat) (v : Expr), Agree (lowerItems ts' i v) (lowerItems ts i v)
  | _, _, .nil, i, v => .refl _
  | _, _, .cons h hs, i, v => by
    rw [lowerItems, lowerItems]
    exact (lower_agree h _).bind fun es => (lowerItems_agree hs (i + 1) v).then _

end

/-- Taking core numbers for a type does not look at the type, except to name it. -/
theorem take2_agree (t t' : Shape) (vs : List Expr) : Agree (take2 t' vs) (take2 t vs) := by
  match vs with
  | [] | [_] => exact agree_throw _ _
  | _ :: _ :: _ => exact .refl _

mutual

theorem lift_agree : ∀ {t t' : Shape}, Aliased t t' → ∀ vs : List Expr, Agree (lift t' vs) (lift t vs)
  | _, _, .refl t, vs => .refl _
  | _, _, .named n _ h, vs => by
    rw [lift]
    exact lift_agree h vs
  | _, _, .alias n h, vs => by
    rw [lift, lift]
    exact lift_agree h vs
  | _, _, .record n h, vs => by
    rw [lift, lift]
    exact (liftFields_agree h vs).then _
  | _, _, .tuple h, vs => by
    rw [lift, lift]
    exact (liftItems_agree h vs).then _
  | _, _, .list h, vs => by
    rw [lift, lift, h.layout_eq]
    exact (take2_agree _ _ vs).bind fun r => .after fun base => (load_agree h _).then _
  | _, _, .variant _ _, vs | _, _, .option _, vs | _, _, .result _ _, vs => by
    rw [lift, lift]
    · exact agree_throw _ _
    all_goals simp

theorem liftFields_agree : ∀ {fs fs' : List (Bytes × Shape)}, NamedAliased fs fs' →
    ∀ vs : List Expr, Agree (liftFields fs' vs) (liftFields fs vs)
  | _, _, .nil, vs => .refl _
  | _, _, .cons n h hs, vs => by
    rw [liftFields, liftFields]
    exact (lift_agree h vs).bind fun r => (liftFields_agree hs r.2).then _

theorem liftItems_agree : ∀ {ts ts' : List Shape}, AllAliased ts ts' →
    ∀ vs : List Expr, Agree (liftItems ts' vs) (liftItems ts vs)
  | _, _, .nil, vs => .refl _
  | _, _, .cons h hs, vs => by
    rw [liftItems, liftItems]
    exact (lift_agree h vs).bind fun r => (liftItems_agree hs r.2).then _

end

/-! ## All of a type -/

/-- **Aliases are transparent.** With aliases inside it, or chains of them, a type has the layout and
the core numbers that it has without, and members and payloads lie where they lay. Code that
takes a value apart or puts one together, in core numbers or in memory, is generated from any
state just when it is generated without the aliases, and then it is the same code, which
each dialect only prints, and leaves the same state. -/
theorem aliases_transparent {t t' : Shape} (h : Aliased t t') :
    t'.layout = t.layout ∧ t'.flat = t.flat ∧
    (∀ v s, (lower t' v s).toOption = (lower t v s).toOption) ∧
    (∀ v p s, (store t' v p s).toOption = (store t v p s).toOption) ∧
    (∀ vs s, (lift t' vs s).toOption = (lift t vs s).toOption) ∧
    (∀ p s, (load t' p s).toOption = (load t p s).toOption) ∧
    ∀ ts ts', AllAliased ts ts' →
      Layout.offsets (Shape.layouts ts') = Layout.offsets (Shape.layouts ts) ∧
      Layout.payloadOffset (Shape.layouts ts') = Layout.payloadOffset (Shape.layouts ts) := by
  refine ⟨h.layout_eq, h.flat_eq, lower_agree h, store_agree h, lift_agree h, load_agree h, fun ts ts' hs => ?_⟩
  rw [hs.layouts_eq]
  exact ⟨rfl, rfl⟩

/-- A record under two names, with a name for one of its fields and for the elements of the other. -/
def namedEntry : Shape :=
  .alias (utf8 "row") (.alias (utf8 "entry") (.record (utf8 "item")
    [(utf8 "name", .alias (utf8 "label") .string), (utf8 "tags", .list (.alias (utf8 "tag") (.prim .u8)))]))

theorem aliases_transparent_entry :
    namedEntry.layout = ⟨16, 4⟩ ∧ namedEntry.flat = [.i32, .i32, .i32, .i32] ∧
    ∀ p, (load namedEntry p {}).toOption.isSome = true := by
  have hname : Aliased .string (.alias (utf8 "label") .string) := .named _ nofun (.refl _)
  have htags : Aliased (.list (.prim .u8)) (.list (.alias (utf8 "tag") (.prim .u8))) :=
    .list (.named _ nofun (.refl _))
  have hitem : Aliased (.record (utf8 "item") [(utf8 "name", .string), (utf8 "tags", .list (.prim .u8))]) namedEntry :=
    .named _ nofun (.named _ nofun (.record _ (.cons _ hname (.cons _ htags .nil))))
  obtain ⟨hlayout, hflat, -, -, -, hload, -⟩ := aliases_transparent hitem
  refine ⟨hlayout.trans rfl, hflat.trans rfl, fun p => ?_⟩
  rw [hload]
  rfl

end Bindery.Glue
