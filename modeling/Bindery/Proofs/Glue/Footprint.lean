/-
What is written is read back from the same places. `Expr.touches` lists what a piece of code
does in memory, step by step: the numbers, strings and lists it reads or writes, each by its
distance from one variable, and for a list what the code for its elements does.
`Shape.footprint` says what a value of a type takes up, from the type alone. Writing and
reading are two recursions that work out offsets, widths and strides each for itself; both
leave the footprint (`store_touches`, `load_touches`), so what can be written can be read
back (`writes_read_back`).
-/
import Bindery.Proofs.Glue.Refusals

namespace Bindery.Glue

open Emit

/-! ## What code touches -/

namespace Place

/-- The number of octets between the variable of a place and the place. -/
def offset (p : Place) : Nat := (p.steps.map UInt32.toNat).sum

/-- The distance of a place from a variable; none when it is found by another one. -/
def from? (base : Bytes) (p : Place) : Option Nat := if p.base = base then some p.offset else none

theorem from?_base (p : Place) : p.from? p.base = some p.offset := if_pos rfl

theorem offset_plus (p : Place) (off : UInt32) : (p.plus off).offset = p.offset + off.toNat := by
  unfold plus offset
  split
  · rename_i h
    rw [h]
    rfl
  · simp

end Place

/-- One step in memory. It stands at a distance from a variable, or where a core number says. -/
inductive Touch where
  | number (distance : Option Nat) (kind : MemKind)
  | string (distance : Option Nat)
  /-- `element` is done once an element, at distances from its address, and the next address is
  `stride` further on -/
  | list (distance : Option Nat) (stride : UInt32) (element : List Touch)
  deriving Repr

namespace Expr

mutual

/-- What an expression does in memory, one step after the other. -/
def touches : Expr → Bytes → List Touch
  | .var _, _ | .null, _ | .caseOnly _ _, _ => []
  | .field e _, b | .nth e _, b | .lowerPrim _ e, b | .liftPrim _ e, b | .lowerEnum _ _ e, b
  | .liftEnum _ _ e, b | .lowerFlags _ e, b | .liftFlags _ e, b | .ok e, b | .err e, b | .caseOf _ _ e, b =>
    e.touches b
  | .load k p, b => [.number (p.from? b) k]
  | .store k p e, b => e.touches b ++ [.number (p.from? b) k]
  | .loadString p, b => [.string (p.from? b)]
  | .storeString p e, b => e.touches b ++ [.string (p.from? b)]
  | .decodeString ptr len, b => ptr.touches b ++ len.touches b ++ [.string none]
  | .liftList ptr len stride base elem, b =>
    ptr.touches b ++ len.touches b ++ [.list none stride (elem.touches base)]
  | .loadList p stride base elem, b => [.list (p.from? b) stride (elem.touches base)]
  | .storeList p e stride _ _ base elem, b => e.touches b ++ [.list (p.from? b) stride (elem.touches base)]
  | .record _ fs, b => fieldTouches fs b
  | .tuple es, b | .steps es, b => allTouches es b
  | .whenTag k p _ yes no, b => .number (p.from? b) k :: (yes.touches b ++ no.touches b)

def allTouches : List Expr → Bytes → List Touch
  | [], _ => []
  | e :: es, b => e.touches b ++ allTouches es b

def fieldTouches : List (Bytes × Expr) → Bytes → List Touch
  | [], _ => []
  | (_, e) :: fs, b => e.touches b ++ fieldTouches fs b

end

end Expr

/-- What a statement does in memory. -/
def Stmt.touches : Stmt → Bytes → List Touch
  | .encodeString _ _ v, b => v.touches b ++ [.string none]
  | .lowerList _ _ v stride _ _ base elem, b => v.touches b ++ [.list none stride (elem.touches base)]

end Bindery.Glue

namespace Bindery.Shape

open Glue

mutual

/-- What a value of a type takes up, from an offset on. A type that cannot be written has no
footprint. -/
def footprint : Shape → Nat → List Touch
  | .prim k, o => [.number (some o) (.ofPrim k)]
  | .string, o => [.string (some o)]
  | .alias _ t, o => t.footprint o
  | .record _ fs, o => fieldFootprints fs (Layout.offsets (namedLayouts fs)) o
  | .tuple ts, o => itemFootprints ts (Layout.offsets (layouts ts)) o
  | .enum _ cs, o => [.number (some o) (.discriminant cs.length)]
  | .flags _ fs, o => [.number (some o) (.ofSize (Layout.ofFlags fs.length).size)]
  | .list t, o => [.list (some o) t.layout.size (t.footprint 0)]
  | .blank, _ | .errorContext, _ | .variant _ _, _ | .option _, _ | .result _ _, _ => []

def fieldFootprints : List (Bytes × Shape) → List UInt32 → Nat → List Touch
  | (_, t) :: fs, off :: offs, o => t.footprint (o + off.toNat) ++ fieldFootprints fs offs o
  | _, _, _ => []

def itemFootprints : List Shape → List UInt32 → Nat → List Touch
  | t :: ts, off :: offs, o => t.footprint (o + off.toNat) ++ itemFootprints ts offs o
  | _, _, _ => []

end

end Bindery.Shape

namespace Bindery.Glue

open Emit

/-- Each of the steps `xs` with the value `v` made before it. -/
def making (v : Expr) (base : Bytes) (xs : List Touch) : List Touch := xs.flatMap fun x => v.touches base ++ [x]

/-- A value that does nothing in memory adds no steps. -/
theorem making_of_idle {v : Expr} {base : Bytes} (h : v.touches base = []) (xs : List Touch) :
    making v base xs = xs := by
  simp [making, h]

theorem making_append (v : Expr) (base : Bytes) (xs ys : List Touch) :
    making v base (xs ++ ys) = making v base xs ++ making v base ys := List.flatMap_append

theorem making_singleton (v : Expr) (base : Bytes) (x : Touch) : making v base [x] = v.touches base ++ [x] :=
  List.flatMap_singleton ..

/-! ## Writing -/

mutual

/-- Writing a value leaves its footprint. -/
theorem store_touches : ∀ (t : Shape) (v : Expr) (p : Place) (s : EmitState),
    Ends (store t v p) s (fun e _ => e.touches p.base = making v p.base (t.footprint p.offset)) fun _ => True
  | .blank, v, p, s | .errorContext, v, p, s | .option _, v, p, s | .result _ _, v, p, s
  | .variant _ _, v, p, s => by
    rw [store]
    · exact ends_throw trivial
    all_goals simp
  | .alias _ t, v, p, s => by
    rw [store, Shape.footprint]
    exact store_touches t v p s
  | .prim k, v, p, s | .enum _ _, v, p, s => by
    rw [store, Shape.footprint]
    refine ends_pure ?_
    rw [Expr.touches, Expr.touches, Place.from?_base, making_singleton]
  | .string, v, p, s => by
    rw [store, Shape.footprint]
    refine ends_pure ?_
    rw [Expr.touches, Place.from?_base, making_singleton]
  | .record n fs, v, p, s => by
    rw [store, Shape.footprint]
    refine ends_bind (storeFields_touches fs _ v p s) fun es _ h => ends_pure ?_
    rwa [Expr.touches]
  | .tuple ts, v, p, s => by
    rw [store, Shape.footprint]
    refine ends_bind (storeItems_touches ts _ 0 v p s) fun es _ h => ends_pure ?_
    rwa [Expr.touches]
  | .flags n fs, v, p, s => by
    rw [store, Shape.footprint]
    split
    · exact ends_throw trivial
    · refine ends_pure ?_
      rw [Expr.touches, Expr.touches, Place.from?_base, making_singleton]
  | .list t, v, p, s => by
    rw [store, Shape.footprint]
    refine ends_fresh (ends_fresh (ends_bind (store_touches t _ _ _) fun e _ h => ends_pure ?_))
    rw [making_of_idle (by rw [Expr.touches])] at h
    rw [Expr.touches, Place.from?_base, making_singleton, h]
    rfl

theorem storeFields_touches : ∀ (fs : List (Bytes × Shape)) (offs : List UInt32) (v : Expr) (p : Place)
    (s : EmitState),
    Ends (storeFields fs offs v p) s
      (fun es _ => Expr.allTouches es p.base = making v p.base (Shape.fieldFootprints fs offs p.offset))
      fun _ => True
  | [], _, v, p, s | _ :: _, [], v, p, s => by
    rw [storeFields, Shape.fieldFootprints]
    · exact ends_pure (by rw [Expr.allTouches]; rfl)
    all_goals simp
  | (n, t) :: fs, off :: offs, v, p, s => by
    rw [storeFields, Shape.fieldFootprints, making_append]
    refine ends_bind (store_touches t _ (p.plus off) s) fun e s₁ he => ?_
    refine ends_bind (storeFields_touches fs offs v p s₁) fun es _ hes => ends_pure ?_
    rw [Place.plus_base, Place.offset_plus, making, Expr.touches] at he
    rw [Expr.allTouches, he, hes]
    rfl

theorem storeItems_touches : ∀ (ts : List Shape) (offs : List UInt32) (i : Nat) (v : Expr) (p : Place)
    (s : EmitState),
    Ends (storeItems ts offs i v p) s
      (fun es _ => Expr.allTouches es p.base = making v p.base (Shape.itemFootprints ts offs p.offset))
      fun _ => True
  | [], _, i, v, p, s | _ :: _, [], i, v, p, s => by
    rw [storeItems, Shape.itemFootprints]
    · exact ends_pure (by rw [Expr.allTouches]; rfl)
    all_goals simp
  | t :: ts, off :: offs, i, v, p, s => by
    rw [storeItems, Shape.itemFootprints, making_append]
    refine ends_bind (store_touches t _ (p.plus off) s) fun e s₁ he => ?_
    refine ends_bind (storeItems_touches ts offs (i + 1) v p s₁) fun es _ hes => ends_pure ?_
    rw [Place.plus_base, Place.offset_plus, making, Expr.touches] at he
    rw [Expr.allTouches, he, hes]
    rfl

end

/-! ## Reading -/

mutual

/-- A value of a type that can be written is read from its footprint, and nothing can go wrong. -/
theorem load_touches : ∀ (t : Shape) (p : Place) (s : EmitState), t.refusal .store = none →
    Ends (load t p) s (fun e _ => e.touches p.base = t.footprint p.offset) fun _ => False
  | .blank, p, s, h | .errorContext, p, s, h | .option _, p, s, h | .result _ _, p, s, h
  | .variant _ _, p, s, h => by simp [Shape.refusal] at h
  | .alias _ t, p, s, h => by
    rw [Shape.refusal] at h
    rw [load, Shape.footprint]
    exact load_touches t p s h
  | .prim k, p, s, _ | .enum _ _, p, s, _ => by
    rw [load, Shape.footprint]
    refine ends_pure ?_
    rw [Expr.touches, Expr.touches, Place.from?_base]
  | .string, p, s, _ => by
    rw [load, Shape.footprint]
    refine ends_pure ?_
    rw [Expr.touches, Place.from?_base]
  | .record n fs, p, s, h => by
    rw [Shape.refusal] at h
    rw [load, Shape.footprint]
    refine ends_bind (loadFields_touches fs _ p s h) fun es _ hes => ends_pure ?_
    rwa [Expr.touches]
  | .tuple ts, p, s, h => by
    rw [Shape.refusal] at h
    rw [load, Shape.footprint]
    refine ends_bind (loadItems_touches ts _ p s h) fun es _ hes => ends_pure ?_
    rwa [Expr.touches]
  | .flags n fs, p, s, h => by
    rw [Shape.refusal] at h
    rw [load, Shape.footprint]
    split
    · rename_i hfs
      rw [if_pos hfs] at h
      cases h
    · refine ends_pure ?_
      rw [Expr.touches, Expr.touches, Place.from?_base]
  | .list t, p, s, h => by
    rw [Shape.refusal] at h
    rw [load, Shape.footprint]
    refine ends_fresh (ends_bind (load_touches t _ _ h) fun e _ he => ends_pure ?_)
    rw [Expr.touches, Place.from?_base, he]
    rfl

theorem loadFields_touches : ∀ (fs : List (Bytes × Shape)) (offs : List UInt32) (p : Place) (s : EmitState),
    Shape.namedRefusal fs .store = none →
    Ends (loadFields fs offs p) s
      (fun es _ => Expr.fieldTouches es p.base = Shape.fieldFootprints fs offs p.offset) fun _ => False
  | [], _, p, s, _ | _ :: _, [], p, s, _ => by
    rw [loadFields, Shape.fieldFootprints]
    · exact ends_pure (by rw [Expr.fieldTouches])
    all_goals simp
  | (n, t) :: fs, off :: offs, p, s, h => by
    rw [Shape.namedRefusal, Option.or_eq_none_iff] at h
    rw [loadFields, Shape.fieldFootprints]
    refine ends_bind (load_touches t (p.plus off) s h.1) fun e s₁ he => ?_
    refine ends_bind (loadFields_touches fs offs p s₁ h.2) fun es _ hes => ends_pure ?_
    rw [Place.plus_base, Place.offset_plus] at he
    rw [Expr.fieldTouches, he, hes]

theorem loadItems_touches : ∀ (ts : List Shape) (offs : List UInt32) (p : Place) (s : EmitState),
    Shape.allRefusal ts .store = none →
    Ends (loadItems ts offs p) s
      (fun es _ => Expr.allTouches es p.base = Shape.itemFootprints ts offs p.offset) fun _ => False
  | [], _, p, s, _ | _ :: _, [], p, s, _ => by
    rw [loadItems, Shape.itemFootprints]
    · exact ends_pure (by rw [Expr.allTouches])
    all_goals simp
  | t :: ts, off :: offs, p, s, h => by
    rw [Shape.allRefusal, Option.or_eq_none_iff] at h
    rw [loadItems, Shape.itemFootprints]
    refine ends_bind (load_touches t (p.plus off) s h.1) fun e s₁ he => ?_
    refine ends_bind (loadItems_touches ts offs p s₁ h.2) fun es _ hes => ends_pure ?_
    rw [Place.plus_base, Place.offset_plus] at he
    rw [Expr.allTouches, he, hes]

end

/-! ## Lists as core numbers -/

/-- What is done in memory for a list when a core number says where the elements are. -/
def listTouches (t : Shape) : List Touch := [.list none t.layout.size (t.footprint 0)]

/-- Lowering a list queues one statement, which writes the elements. -/
theorem lowerList_touches (t : Shape) (v : Expr) (s : EmitState) :
    Ends (lower (.list t) v) s
      (fun _ s' => ∃ stmt, s'.stmts = s.stmts ++ [stmt] ∧ ∀ b, stmt.touches b = v.touches b ++ listTouches t)
      fun _ => True := by
  have hstore := fun item p s =>
    (store_touches t (.var item) p s).and (store_carries t (.var item) p s (Expr.quiet_var item))
  rw [lower]
  refine ends_fresh (ends_fresh (ends_bind (hstore _ _ _) fun e s' he => ?_))
  obtain ⟨he, -, hs⟩ := he
  rw [making_of_idle (by rw [Expr.touches])] at he
  refine ends_fresh (ends_fresh (ends_queue (ends_pure ⟨_, congrArg (· ++ _) hs, fun b => ?_⟩)))
  rw [Stmt.touches, he]
  rfl

/-- Lifting a list reads the elements, if they can be written. -/
theorem liftList_touches {t : Shape} (ptr len : Expr) (rest : List Expr) (s : EmitState)
    (h : t.refusal .store = none) :
    Ends (lift (.list t) (ptr :: len :: rest)) s
      (fun r _ => r.2 = rest ∧ ∀ b, r.1.touches b = ptr.touches b ++ len.touches b ++ listTouches t)
      fun _ => False := by
  have htake : Ends (take2 (.list t) (ptr :: len :: rest)) s (fun r _ => r = (ptr, len, rest)) fun _ => False :=
    ends_pure rfl
  rw [lift]
  refine ends_bind htake fun r s' hr => ?_
  subst hr
  refine ends_fresh (ends_bind (load_touches t _ _ h) fun e _ he => ends_pure ⟨rfl, fun b => ?_⟩)
  rw [Expr.touches, he]
  rfl

/-- **What is written can be read back.** If a value of a type can be written at a place, it can be
read from that place, and both do the same in memory, one step after the other, but for what the
value itself does when it is made: numbers of the same kinds, strings and lists at the same
offsets, and lists at the same stride with the same done for their elements. And if a list can be
lowered it can be lifted, its elements being read as they were written. -/
theorem writes_read_back (t : Shape) (v : Expr) (p : Place) (s : EmitState) :
    (∀ e s', store t v p s = .ok (e, s') → ∀ s₁, ∃ e' s₂, load t p s₁ = .ok (e', s₂) ∧
      e.touches p.base = making v p.base (e'.touches p.base) ∧ e'.touches p.base = t.footprint p.offset) ∧
    (∀ es s', lower (.list t) v s = .ok (es, s') → ∃ stmt, s'.stmts = s.stmts ++ [stmt] ∧
      (∀ b, stmt.touches b = v.touches b ++ listTouches t) ∧
      ∀ ptr len rest s₁, ∃ e s₂, lift (.list t) (ptr :: len :: rest) s₁ = .ok ((e, rest), s₂) ∧
        ∀ b, e.touches b = ptr.touches b ++ len.touches b ++ listTouches t) := by
  refine ⟨fun e s' he s₁ => ?_, fun es s' hes => ?_⟩
  · have hcan := ((store_decided t v p s).of_ok he).1
    have hwritten := (store_touches t v p s).of_ok he
    obtain ⟨e', s₂, he', hread⟩ := (load_touches t p s₁ hcan).exists_ok
    refine ⟨e', s₂, he', ?_, hread⟩
    rw [hwritten, hread]
  · have hcan : t.refusal .store = none := by
      have h := ((lower_decided (.list t) v s).of_ok hes).1
      rwa [Shape.refusal] at h
    obtain ⟨stmt, hstmts, hwritten⟩ := (lowerList_touches t v s).of_ok hes
    refine ⟨stmt, hstmts, hwritten, fun ptr len rest s₁ => ?_⟩
    obtain ⟨⟨e, _⟩, s₂, he, rfl, hread⟩ := (liftList_touches ptr len rest s₁ hcan).exists_ok
    exact ⟨e, s₂, he, hread⟩

/-- A record with a text and a list of marks, each of them a flag set beside a number of 16 bits. -/
def noteShape : Shape :=
  .record (utf8 "note") [(utf8 "id", .prim .u8), (utf8 "text", .string),
    (utf8 "marks", .list (.tuple [.flags (utf8 "style") [utf8 "bold", utf8 "plain"], .prim .u16]))]

theorem writes_read_back_note :
    (∃ e s' e' s₂, store noteShape (.var (utf8 "v")) { base := utf8 "p", steps := [8] } {} = .ok (e, s') ∧
      load noteShape { base := utf8 "p", steps := [8] } { next := 5 } = .ok (e', s₂) ∧
      e.touches (utf8 "p") = e'.touches (utf8 "p") ∧
      e'.touches (utf8 "p") = [.number (some 8) .u8, .string (some 12),
        .list (some 20) 4 [.number (some 0) .u8, .number (some 2) .u16]]) ∧
    ∃ e s₂, lift (.list noteShape) [.var (utf8 "arg0"), .var (utf8 "arg1")] {} = .ok ((e, []), s₂) ∧
      e.touches (utf8 "p") = [.list none 20 (noteShape.footprint 0)] := by
  obtain ⟨hstore, hlist⟩ := writes_read_back noteShape (.var (utf8 "v")) { base := utf8 "p", steps := [8] } {}
  obtain ⟨e', s₂, he', hsame, hfoot⟩ := hstore _ _ rfl { next := 5 }
  obtain ⟨stmt, -, -, hlift⟩ := hlist _ _ rfl
  obtain ⟨e, s₃, he, htouches⟩ := hlift (.var (utf8 "arg0")) (.var (utf8 "arg1")) [] {}
  rw [making_of_idle (by rw [Expr.touches])] at hsame
  exact ⟨⟨_, _, e', s₂, rfl, he', hsame, hfoot⟩, e, s₃, he, htouches _⟩

end Bindery.Glue
