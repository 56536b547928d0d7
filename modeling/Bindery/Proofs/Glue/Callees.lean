/-
Which functions of the runtime a piece of code calls. `Expr.callees` reads them off the
code, `Expr.binders` the names that the code binds itself, and `Shape.calls` says from the
type alone what carrying a value needs. The emitters are followed once: their code calls what
the type needs and nothing else, and binds no name that does not end in a number
(`load_uses`, `store_uses`, `lift_uses`, `lower_uses`, `importCall_uses`).
-/
import Bindery.Proofs.Glue.Arity
import Bindery.Proofs.Glue.Bounds

namespace Bindery.Glue

open Emit

/-- A function of the runtime that code may call. -/
inductive Callee where
  | helper (h : Helper)
  /-- makes a signed number of an unsigned one -/
  | signed
  deriving DecidableEq, Repr

/-- The name of a function of the runtime. Only Python has the one for signed numbers. -/
def Callee.word (d : Dialect) : Callee → Bytes
  | .helper h => d.helper h
  | .signed => utf8 "_signed"

/-- The calls that a dialect makes of its own accord: to make a host value of a number, and to turn
a case of an enum into its number and back. -/
structure OwnCalls where
  liftPrim : Prim → List Callee
  lowerEnum : List Callee
  liftEnum : List Callee

def JavaScript.ownCalls : OwnCalls where
  liftPrim _ := []
  lowerEnum := [.helper .lowerEnum]
  liftEnum := [.helper .liftEnum]

def Python.ownCalls : OwnCalls where
  liftPrim
    | .s8 | .s16 => [.signed]
    | _ => []
  lowerEnum := []
  liftEnum := []

namespace Expr

mutual

/-- The functions of the runtime that an expression calls. -/
def callees (own : OwnCalls) : Expr → List Callee
  | .var _ | .null | .caseOnly _ _ => []
  | .field e _ | .nth e _ | .lowerPrim _ e | .lowerFlags _ e | .liftFlags _ e | .ok e | .err e
  | .caseOf _ _ e => e.callees own
  | .liftPrim p e => own.liftPrim p ++ e.callees own
  | .lowerEnum _ _ e => own.lowerEnum ++ e.callees own
  | .liftEnum _ _ e => own.liftEnum ++ e.callees own
  | .load _ _ => [.helper .load]
  | .store _ _ e => .helper .store :: e.callees own
  | .loadString _ => [.helper .loadString]
  | .storeString _ e => .helper .storeString :: e.callees own
  | .decodeString ptr len => .helper .decodeString :: (ptr.callees own ++ len.callees own)
  | .liftList ptr len _ _ elem =>
    .helper .liftList :: (ptr.callees own ++ len.callees own ++ elem.callees own)
  | .loadList _ _ _ elem => .helper .loadList :: elem.callees own
  | .storeList _ e _ _ _ _ elem => .helper .storeList :: (e.callees own ++ elem.callees own)
  | .record _ fs => fieldCallees own fs
  | .tuple es | .steps es => allCallees own es
  | .whenTag _ _ _ yes no => .helper .load :: (yes.callees own ++ no.callees own)

def allCallees (own : OwnCalls) : List Expr → List Callee
  | [] => []
  | e :: es => e.callees own ++ allCallees own es

def fieldCallees (own : OwnCalls) : List (Bytes × Expr) → List Callee
  | [] => []
  | (_, e) :: fs => e.callees own ++ fieldCallees own fs

end

mutual

/-- The names that an expression binds: the parameters of the code for the elements of lists. -/
def binders : Expr → List Bytes
  | .var _ | .null | .caseOnly _ _ | .load _ _ | .loadString _ => []
  | .field e _ | .nth e _ | .lowerPrim _ e | .liftPrim _ e | .lowerEnum _ _ e | .liftEnum _ _ e
  | .lowerFlags _ e | .liftFlags _ e | .ok e | .err e | .caseOf _ _ e | .store _ _ e
  | .storeString _ e => e.binders
  | .decodeString ptr len => ptr.binders ++ len.binders
  | .liftList ptr len _ base elem => base :: (ptr.binders ++ len.binders ++ elem.binders)
  | .loadList _ _ base elem => base :: elem.binders
  | .storeList _ e _ _ item base elem => item :: base :: (e.binders ++ elem.binders)
  | .record _ fs => fieldBinders fs
  | .tuple es | .steps es => allBinders es
  | .whenTag _ _ _ yes no => yes.binders ++ no.binders

def allBinders : List Expr → List Bytes
  | [] => []
  | e :: es => e.binders ++ allBinders es

def fieldBinders : List (Bytes × Expr) → List Bytes
  | [] => []
  | (_, e) :: fs => e.binders ++ fieldBinders fs

end

theorem allCallees_append (own : OwnCalls) (es es' : List Expr) :
    allCallees own (es ++ es') = allCallees own es ++ allCallees own es' := by
  induction es with
  | nil => simp [allCallees]
  | cons e es ih => simp [allCallees, ih]

theorem allBinders_append (es es' : List Expr) : allBinders (es ++ es') = allBinders es ++ allBinders es' := by
  induction es with
  | nil => simp [allBinders]
  | cons e es ih => simp [allBinders, ih]

/-- Code that neither calls nor binds anything. -/
structure Silent (own : OwnCalls) (e : Expr) : Prop where
  callees : e.callees own = []
  binders : e.binders = []

theorem silent_var (own : OwnCalls) (n : Bytes) : (Expr.var n).Silent own := ⟨by simp [Expr.callees], by simp [Expr.binders]⟩

theorem Silent.field {own : OwnCalls} {e : Expr} (h : e.Silent own) (n : Bytes) : (e.field n).Silent own :=
  ⟨by simp [Expr.callees, h.callees], by simp [Expr.binders, h.binders]⟩

theorem Silent.nth {own : OwnCalls} {e : Expr} (h : e.Silent own) (i : Nat) : (e.nth i).Silent own :=
  ⟨by simp [Expr.callees, h.callees], by simp [Expr.binders, h.binders]⟩

end Expr

/-- The functions of the runtime that a statement calls. -/
def Stmt.callees (own : OwnCalls) : Stmt → List Callee
  | .encodeString _ _ v => .helper .encodeString :: v.callees own
  | .lowerList _ _ v _ _ _ _ elem => .helper .lowerList :: (v.callees own ++ elem.callees own)

/-- The names that a statement binds. -/
def Stmt.binders : Stmt → List Bytes
  | .encodeString ptr len v => ptr :: len :: v.binders
  | .lowerList ptr len v _ _ item base elem => ptr :: len :: item :: base :: (v.binders ++ elem.binders)

/-! ## What a type needs -/

/-- How a value is carried: through memory or as core numbers, to the host or from it. -/
inductive Way where
  | load
  | store
  | lift
  | lower
  deriving DecidableEq, Repr

namespace Way

/-- What moves a number: nothing when it is a core number already. -/
def number : Way → List Callee
  | .load => [.helper .load]
  | .store => [.helper .store]
  | .lift | .lower => []

/-- What makes a primitive value of a number. -/
def prim (own : OwnCalls) : Way → Prim → List Callee
  | .load, k | .lift, k => own.liftPrim k
  | .store, _ | .lower, _ => []

/-- What turns the number of a case into the case, or back. -/
def enum (own : OwnCalls) : Way → List Callee
  | .load | .lift => own.liftEnum
  | .store | .lower => own.lowerEnum

def string : Way → Helper
  | .load => .loadString
  | .store => .storeString
  | .lift => .decodeString
  | .lower => .encodeString

def list : Way → Helper
  | .load => .loadList
  | .store => .storeList
  | .lift => .liftList
  | .lower => .lowerList

/-- How the elements of a list are carried, which lie in memory. -/
def element : Way → Way
  | .load | .lift => .load
  | .store | .lower => .store

end Way

end Bindery.Glue

namespace Bindery.Shape

open Glue

mutual

/-- The functions of the runtime that carrying a value of a type needs. Options, results and
variants are only ever read from memory. -/
def calls (own : OwnCalls) (w : Way) : Shape → List Callee
  | .blank | .errorContext => []
  | .alias _ t => t.calls own w
  | .prim k => w.number ++ w.prim own k
  | .string => [.helper w.string]
  | .record _ fs => namedCalls own w fs
  | .tuple ts => allCalls own w ts
  | .enum _ _ => w.number ++ w.enum own
  | .flags _ _ => w.number
  | .list t => .helper w.list :: t.calls own w.element
  | .option t => .helper .load :: t.calls own w
  | .result ok err => .helper .load :: (ok.calls own w ++ err.calls own w)
  -- the last case is taken without a look at the tag
  | .variant _ cs => (if cs.length ≤ 1 then [] else [.helper .load]) ++ namedCalls own w cs

def namedCalls (own : OwnCalls) (w : Way) : List (Bytes × Shape) → List Callee
  | [] => []
  | (_, t) :: fs => t.calls own w ++ namedCalls own w fs

def allCalls (own : OwnCalls) (w : Way) : List Shape → List Callee
  | [] => []
  | t :: ts => t.calls own w ++ allCalls own w ts

end

end Bindery.Shape

namespace Bindery.Glue

open Emit

/-! ## What code uses -/

/-- A name that ends in a number. -/
def Numbered (n : Bytes) : Prop := ∃ stem k, n = stem ++ Bytes.decimal k

/-- What is called is what is needed, and names that are bound end in a number. -/
structure Uses (callees : List Callee) (binders : List Bytes) (needs : List Callee) : Prop where
  calls : ∀ c, c ∈ callees ↔ c ∈ needs
  binds : ∀ n ∈ binders, Numbered n

namespace Uses

variable {cs cs' ns ns' : List Callee} {bs bs' : List Bytes}

theorem none : Uses [] [] [] := ⟨by simp, by simp⟩

theorem append (h : Uses cs bs ns) (h' : Uses cs' bs' ns') : Uses (cs ++ cs') (bs ++ bs') (ns ++ ns') where
  calls c := by rw [List.mem_append, List.mem_append, h.calls, h'.calls]
  binds n hn := (List.mem_append.1 hn).elim (h.binds n) (h'.binds n)

/-- One more call. -/
theorem call (h : Uses cs bs ns) (c : Callee) : Uses (c :: cs) bs (c :: ns) where
  calls c' := by rw [List.mem_cons, List.mem_cons, h.calls]
  binds := h.binds

/-- One more name. -/
theorem bind (h : Uses cs bs ns) (stem : Bytes) (k : Nat) : Uses cs ((stem ++ Bytes.decimal k) :: bs) ns where
  calls := h.calls
  binds := List.forall_mem_cons.2 ⟨⟨stem, k, rfl⟩, h.binds⟩

end Uses

variable {own : OwnCalls}

/-! ## Reading from memory -/

/-- A choice among values calls what they call, and reads the tag when there are several. -/
theorem mem_callees_choose {kind : MemKind} {p : Place} {c : Callee} : ∀ (i : Nat) (es : List Expr),
    c ∈ (choose kind p i es).callees own ↔
      c ∈ (if es.length ≤ 1 then [] else [Callee.helper .load]) ++ Expr.allCallees own es
  | _, [] => by simp [choose, Expr.callees, Expr.allCallees]
  | _, [e] => by simp [choose, Expr.allCallees]
  | i, e :: e' :: es => by
    have hrest := @mem_callees_choose kind p c (i + 1) (e' :: es)
    have hmany : ¬(e :: e' :: es).length ≤ 1 := by simp
    rw [choose, Expr.callees, Expr.allCallees, if_neg hmany, List.mem_cons, List.mem_append, List.mem_append, hrest,
      List.mem_append, List.mem_append, List.mem_singleton]
    · split <;> grind
    · simp

theorem binders_choose {kind : MemKind} {p : Place} : ∀ (i : Nat) (es : List Expr),
    (choose kind p i es).binders = Expr.allBinders es
  | _, [] => by simp [choose, Expr.binders, Expr.allBinders]
  | _, [e] => by simp [choose, Expr.allBinders]
  | i, e :: e' :: es => by
    rw [choose, Expr.binders, binders_choose (i + 1) (e' :: es)]
    · simp only [Expr.allBinders]
    · simp

/-- A step that ends in code with the given calls, binders and needs, and queues nothing. -/
def CodeUses (own : OwnCalls) (s : EmitState) (needs : List Callee) (e : Expr) (s' : EmitState) : Prop :=
  Uses (e.callees own) e.binders needs ∧ s'.stmts = s.stmts

mutual

theorem load_uses : ∀ (t : Shape) (p : Place) (s : EmitState),
    Ends (load t p) s (CodeUses own s (t.calls own .load)) fun _ => True
  | .blank, p, s | .errorContext, p, s => by
    rw [load]
    · exact ends_throw trivial
    all_goals simp
  | .alias _ t, p, s => by
    rw [load, Shape.calls]
    exact load_uses t p s
  | .prim k, p, s => by
    rw [load, Shape.calls]
    refine ends_pure ⟨⟨fun c => ?_, by simp [Expr.binders]⟩, rfl⟩
    simp only [Expr.callees, Way.number, Way.prim, List.mem_append]
    exact or_comm
  | .string, p, s => by
    rw [load, Shape.calls]
    exact ends_pure ⟨by simpa [Expr.callees, Expr.binders, Way.string] using Uses.none.call _, rfl⟩
  | .record n fs, p, s => by
    rw [load, Shape.calls]
    refine ends_bind (loadFields_uses fs _ p s (Nat.le_of_eq (length_fieldOffsets fs).symm)) fun es s' h => ends_pure ?_
    simpa only [CodeUses, Expr.callees, Expr.binders] using h
  | .tuple ts, p, s => by
    rw [load, Shape.calls]
    refine ends_bind (loadItems_uses ts _ p s (Nat.le_of_eq (length_itemOffsets ts).symm)) fun es s' h => ends_pure ?_
    simpa only [CodeUses, Expr.callees, Expr.binders] using h
  | .enum n cs, p, s => by
    rw [load, Shape.calls]
    refine ends_pure ⟨⟨fun c => ?_, by simp [Expr.binders]⟩, rfl⟩
    simp only [Expr.callees, Way.number, Way.enum, List.mem_append]
    exact or_comm
  | .flags n fs, p, s => by
    rw [load, Shape.calls]
    split
    · exact ends_throw trivial
    · exact ends_pure ⟨by simpa [Expr.callees, Expr.binders, Way.number] using Uses.none.call _, rfl⟩
  | .list t, p, s => by
    rw [load, Shape.calls]
    refine ends_fresh (ends_bind (load_uses t _ _) fun e s' h => ends_pure ⟨?_, h.2⟩)
    rw [Expr.callees, Expr.binders]
    exact (h.1.call _).bind _ _
  | .option t, p, s => by
    rw [load, Shape.calls]
    refine ends_bind (load_uses t _ s) fun e s' h => ends_pure ⟨?_, h.2⟩
    simpa [Expr.callees, Expr.binders] using h.1.call _
  | .result ok err, p, s => by
    rw [load_result, Shape.calls]
    refine ends_bind (ends_loadPayload (fun hb => ?_) (load_uses ok _ s)) fun e s₁ he => ?_
    · rw [hb]
      exact ⟨by simpa [Expr.callees, Expr.binders, Shape.calls] using Uses.none, rfl⟩
    refine ends_bind (ends_loadPayload (fun hb => ?_) (load_uses err _ s₁)) fun e' s₂ he' => ends_pure ⟨?_, ?_⟩
    · rw [hb]
      exact ⟨by simpa [Expr.callees, Expr.binders, Shape.calls] using Uses.none, rfl⟩
    · simpa only [Expr.callees, Expr.binders] using (he.1.append he'.1).call _
    · exact he'.2.trans he.2
  | .variant n [], p, s => by
    rw [load_variant_nil]
    exact ends_throw trivial
  | .variant n (c :: cs), p, s => by
    rw [load_variant n (by simp), Shape.calls]
    refine ends_bind (loadCases_uses n (c :: cs) _ s) fun es s' h => ends_pure ⟨⟨fun c => ?_, ?_⟩, h.2.1⟩
    · rw [mem_callees_choose, h.2.2, List.mem_append, List.mem_append, h.1.calls]
    · rw [binders_choose]
      exact h.1.binds

theorem loadFields_uses : ∀ (fs : List (Bytes × Shape)) (offs : List UInt32) (p : Place) (s : EmitState),
    fs.length ≤ offs.length →
    Ends (loadFields fs offs p) s
      (fun es s' => Uses (Expr.fieldCallees own es) (Expr.fieldBinders es) (Shape.namedCalls own .load fs) ∧
        s'.stmts = s.stmts) fun _ => True
  | [], _, p, s, _ => by
    rw [loadFields, Shape.namedCalls]
    · exact ends_pure ⟨by simpa [Expr.fieldCallees, Expr.fieldBinders] using Uses.none, rfl⟩
    · simp
  | (n, t) :: fs, off :: offs, p, s, hlen => by
    rw [loadFields, Shape.namedCalls]
    refine ends_bind (load_uses t _ s) fun e s₁ he => ?_
    refine ends_bind (loadFields_uses fs offs p s₁ (by simpa using hlen)) fun es s₂ hes => ends_pure ⟨?_, hes.2.trans he.2⟩
    rw [Expr.fieldCallees, Expr.fieldBinders]
    exact he.1.append hes.1

theorem loadItems_uses : ∀ (ts : List Shape) (offs : List UInt32) (p : Place) (s : EmitState),
    ts.length ≤ offs.length →
    Ends (loadItems ts offs p) s
      (fun es s' => Uses (Expr.allCallees own es) (Expr.allBinders es) (Shape.allCalls own .load ts) ∧
        s'.stmts = s.stmts) fun _ => True
  | [], _, p, s, _ => by
    rw [loadItems, Shape.allCalls]
    · exact ends_pure ⟨by simpa [Expr.allCallees, Expr.allBinders] using Uses.none, rfl⟩
    · simp
  | t :: ts, off :: offs, p, s, hlen => by
    rw [loadItems, Shape.allCalls]
    refine ends_bind (load_uses t _ s) fun e s₁ he => ?_
    refine ends_bind (loadItems_uses ts offs p s₁ (by simpa using hlen)) fun es s₂ hes => ends_pure ⟨?_, hes.2.trans he.2⟩
    rw [Expr.allCallees, Expr.allBinders]
    exact he.1.append hes.1

theorem loadCases_uses (type : Bytes) : ∀ (cs : List (Bytes × Shape)) (p : Place) (s : EmitState),
    Ends (loadCases type cs p) s
      (fun es s' => Uses (Expr.allCallees own es) (Expr.allBinders es) (Shape.namedCalls own .load cs) ∧
        s'.stmts = s.stmts ∧ es.length = cs.length) fun _ => True
  | [], p, s => by
    rw [loadCases, Shape.namedCalls]
    exact ends_pure ⟨by simpa [Expr.allCallees, Expr.allBinders] using Uses.none, rfl, rfl⟩
  | (c, t) :: cs, p, s => by
    rw [loadCases_cons, Shape.namedCalls]
    have hcase : Ends (loadCase type c t p) s (CodeUses own s (t.calls own .load)) fun _ => True := by
      refine ends_loadCase (fun hb => ?_) ((load_uses t p s).mono fun e s' h => ?_)
      · rw [hb]
        exact ⟨by simpa [Expr.callees, Expr.binders, Shape.calls] using Uses.none, rfl⟩
      · simpa only [CodeUses, Expr.callees, Expr.binders] using h
    refine ends_bind hcase fun e s₁ he => ?_
    refine ends_bind (loadCases_uses type cs p s₁) fun es s₂ hes => ends_pure ⟨?_, hes.2.1.trans he.2, by simp [hes.2.2]⟩
    rw [Expr.allCallees, Expr.allBinders]
    exact he.1.append hes.1

end

/-! ## Writing to memory -/

mutual

theorem store_uses : ∀ (t : Shape) (v : Expr) (p : Place) (s : EmitState), v.Silent own →
    Ends (store t v p) s (CodeUses own s (t.calls own .store)) fun _ => True
  | .blank, v, p, s, _ | .errorContext, v, p, s, _ | .option _, v, p, s, _ | .result _ _, v, p, s, _
  | .variant _ _, v, p, s, _ => by
    rw [store]
    · exact ends_throw trivial
    all_goals simp
  | .alias _ t, v, p, s, hv => by
    rw [store, Shape.calls]
    exact store_uses t v p s hv
  | .prim k, v, p, s, hv => by
    rw [store, Shape.calls]
    refine ends_pure ⟨?_, rfl⟩
    simpa [Expr.callees, Expr.binders, hv.callees, hv.binders, Way.number, Way.prim] using Uses.none.call _
  | .string, v, p, s, hv => by
    rw [store, Shape.calls]
    refine ends_pure ⟨?_, rfl⟩
    simpa [Expr.callees, Expr.binders, hv.callees, hv.binders, Way.string] using Uses.none.call _
  | .record n fs, v, p, s, hv => by
    rw [store, Shape.calls]
    refine ends_bind (storeFields_uses fs _ v p s (Nat.le_of_eq (length_fieldOffsets fs).symm) hv) fun es s' h => ends_pure ?_
    simpa only [CodeUses, Expr.callees, Expr.binders] using h
  | .tuple ts, v, p, s, hv => by
    rw [store, Shape.calls]
    refine ends_bind (storeItems_uses ts _ 0 v p s (Nat.le_of_eq (length_itemOffsets ts).symm) hv) fun es s' h => ends_pure ?_
    simpa only [CodeUses, Expr.callees, Expr.binders] using h
  | .enum n cs, v, p, s, hv => by
    rw [store, Shape.calls]
    refine ends_pure ⟨⟨fun c => ?_, by simp [Expr.binders, hv.binders]⟩, rfl⟩
    simp [Expr.callees, hv.callees, Way.number, Way.enum]
  | .flags n fs, v, p, s, hv => by
    rw [store, Shape.calls]
    split
    · exact ends_throw trivial
    · refine ends_pure ⟨?_, rfl⟩
      simpa [Expr.callees, Expr.binders, hv.callees, hv.binders, Way.number] using Uses.none.call _
  | .list t, v, p, s, hv => by
    rw [store, Shape.calls]
    refine ends_fresh (ends_fresh (ends_bind (store_uses t _ _ _ (Expr.silent_var own _)) fun e s' h => ends_pure ⟨?_, h.2⟩))
    rw [Expr.callees, Expr.binders, hv.callees, hv.binders, List.nil_append, List.nil_append]
    exact ((h.1.call _).bind _ _).bind _ _

theorem storeFields_uses : ∀ (fs : List (Bytes × Shape)) (offs : List UInt32) (v : Expr) (p : Place) (s : EmitState),
    fs.length ≤ offs.length → v.Silent own →
    Ends (storeFields fs offs v p) s
      (fun es s' => Uses (Expr.allCallees own es) (Expr.allBinders es) (Shape.namedCalls own .store fs) ∧
        s'.stmts = s.stmts) fun _ => True
  | [], _, v, p, s, _, _ => by
    rw [storeFields, Shape.namedCalls]
    · exact ends_pure ⟨by simpa [Expr.allCallees, Expr.allBinders] using Uses.none, rfl⟩
    · simp
  | (n, t) :: fs, off :: offs, v, p, s, hlen, hv => by
    rw [storeFields, Shape.namedCalls]
    refine ends_bind (store_uses t _ _ s (hv.field n)) fun e s₁ he => ?_
    refine ends_bind (storeFields_uses fs offs v p s₁ (by simpa using hlen) hv) fun es s₂ hes =>
      ends_pure ⟨?_, hes.2.trans he.2⟩
    rw [Expr.allCallees, Expr.allBinders]
    exact he.1.append hes.1

theorem storeItems_uses : ∀ (ts : List Shape) (offs : List UInt32) (i : Nat) (v : Expr) (p : Place) (s : EmitState),
    ts.length ≤ offs.length → v.Silent own →
    Ends (storeItems ts offs i v p) s
      (fun es s' => Uses (Expr.allCallees own es) (Expr.allBinders es) (Shape.allCalls own .store ts) ∧
        s'.stmts = s.stmts) fun _ => True
  | [], _, i, v, p, s, _, _ => by
    rw [storeItems, Shape.allCalls]
    · exact ends_pure ⟨by simpa [Expr.allCallees, Expr.allBinders] using Uses.none, rfl⟩
    · simp
  | t :: ts, off :: offs, i, v, p, s, hlen, hv => by
    rw [storeItems, Shape.allCalls]
    refine ends_bind (store_uses t _ _ s (hv.nth i)) fun e s₁ he => ?_
    refine ends_bind (storeItems_uses ts offs (i + 1) v p s₁ (by simpa using hlen) hv) fun es s₂ hes =>
      ends_pure ⟨?_, hes.2.trans he.2⟩
    rw [Expr.allCallees, Expr.allBinders]
    exact he.1.append hes.1

end

/-! ## Lifting -/

/-- Code made of core numbers, and the numbers left over, which are as silent as before. -/
def LiftUses (own : OwnCalls) (s : EmitState) (callees : List Callee) (binders : List Bytes) (needs : List Callee)
    (rest : List Expr) (s' : EmitState) : Prop :=
  Uses callees binders needs ∧ (∀ v ∈ rest, v.Silent own) ∧ s'.stmts = s.stmts

mutual

theorem lift_uses : ∀ (t : Shape) (vs : List Expr) (s : EmitState), (∀ v ∈ vs, v.Silent own) →
    Ends (lift t vs) s (fun r => LiftUses own s (r.1.callees own) r.1.binders (t.calls own .lift) r.2) fun _ => True
  | .blank, vs, s, _ | .errorContext, vs, s, _ | .option _, vs, s, _ | .result _ _, vs, s, _
  | .variant _ _, vs, s, _ => by
    rw [lift]
    · exact ends_throw trivial
    all_goals simp
  | .alias _ t, vs, s, h => by
    rw [lift, Shape.calls]
    exact lift_uses t vs s h
  | .prim k, vs, s, h => by
    rw [lift, Shape.calls]
    refine ends_bind (ends_take1 h) fun r s' ⟨hr, hrest, hs⟩ => ends_pure ⟨⟨fun c => ?_, ?_⟩, hrest, by rw [hs]⟩
    · simp [Expr.callees, hr.callees, Way.number, Way.prim]
    · simp [Expr.binders, hr.binders]
  | .string, vs, s, h => by
    rw [lift, Shape.calls]
    refine ends_bind (ends_take2 h) fun r s' ⟨hptr, hlen, hrest, hs⟩ => ends_pure ⟨?_, hrest, by rw [hs]⟩
    simpa [Expr.callees, Expr.binders, hptr.callees, hlen.callees, hptr.binders, hlen.binders, Way.string]
      using Uses.none.call _
  | .record n fs, vs, s, h => by
    rw [lift, Shape.calls]
    refine ends_bind (liftFields_uses fs vs s h) fun r s' hr => ends_pure ?_
    simpa only [Expr.callees, Expr.binders] using hr
  | .tuple ts, vs, s, h => by
    rw [lift, Shape.calls]
    refine ends_bind (liftItems_uses ts vs s h) fun r s' hr => ends_pure ?_
    simpa only [Expr.callees, Expr.binders] using hr
  | .enum n cs, vs, s, h => by
    rw [lift, Shape.calls]
    refine ends_bind (ends_take1 h) fun r s' ⟨hr, hrest, hs⟩ => ends_pure ⟨⟨fun c => ?_, ?_⟩, hrest, by rw [hs]⟩
    · simp [Expr.callees, hr.callees, Way.number, Way.enum]
    · simp [Expr.binders, hr.binders]
  | .flags n fs, vs, s, h => by
    rw [lift, Shape.calls]
    split
    · exact ends_throw trivial
    · refine ends_bind (ends_take1 h) fun r s' ⟨hr, hrest, hs⟩ => ends_pure ⟨?_, hrest, by rw [hs]⟩
      simpa [Expr.callees, Expr.binders, hr.callees, hr.binders, Way.number] using Uses.none
  | .list t, vs, s, h => by
    rw [lift, Shape.calls]
    refine ends_bind (ends_take2 h) fun r s₁ ⟨hptr, hlen, hrest, hs⟩ => ?_
    refine ends_fresh (ends_bind (@load_uses own t _ _) fun e s₂ he => ends_pure ⟨?_, hrest, he.2.trans (by rw [hs])⟩)
    rw [Expr.callees, Expr.binders, hptr.callees, hlen.callees, hptr.binders, hlen.binders]
    exact (he.1.call _).bind _ _

theorem liftFields_uses : ∀ (fs : List (Bytes × Shape)) (vs : List Expr) (s : EmitState),
    (∀ v ∈ vs, v.Silent own) →
    Ends (liftFields fs vs) s
      (fun r => LiftUses own s (Expr.fieldCallees own r.1) (Expr.fieldBinders r.1) (Shape.namedCalls own .lift fs) r.2)
      fun _ => True
  | [], vs, s, h => by
    rw [liftFields, Shape.namedCalls]
    exact ends_pure ⟨by simpa [Expr.fieldCallees, Expr.fieldBinders] using Uses.none, h, rfl⟩
  | (n, t) :: fs, vs, s, h => by
    rw [liftFields, Shape.namedCalls]
    refine ends_bind (lift_uses t vs s h) fun r s₁ ⟨huses, hrest, hs₁⟩ => ?_
    refine ends_bind (liftFields_uses fs r.2 s₁ hrest) fun r' s₂ ⟨huses', hrest', hs₂⟩ =>
      ends_pure ⟨?_, hrest', hs₂.trans hs₁⟩
    rw [Expr.fieldCallees, Expr.fieldBinders]
    exact huses.append huses'

theorem liftItems_uses : ∀ (ts : List Shape) (vs : List Expr) (s : EmitState), (∀ v ∈ vs, v.Silent own) →
    Ends (liftItems ts vs) s
      (fun r => LiftUses own s (Expr.allCallees own r.1) (Expr.allBinders r.1) (Shape.allCalls own .lift ts) r.2)
      fun _ => True
  | [], vs, s, h => by
    rw [liftItems, Shape.allCalls]
    exact ends_pure ⟨by simpa [Expr.allCallees, Expr.allBinders] using Uses.none, h, rfl⟩
  | t :: ts, vs, s, h => by
    rw [liftItems, Shape.allCalls]
    refine ends_bind (lift_uses t vs s h) fun r s₁ ⟨huses, hrest, hs₁⟩ => ?_
    refine ends_bind (liftItems_uses ts r.2 s₁ hrest) fun r' s₂ ⟨huses', hrest', hs₂⟩ =>
      ends_pure ⟨?_, hrest', hs₂.trans hs₁⟩
    rw [Expr.allCallees, Expr.allBinders]
    exact huses.append huses'

end

theorem liftArgs_uses : ∀ (ts : List Shape) (vs : List Expr) (s : EmitState), (∀ v ∈ vs, v.Silent own) →
    Ends (liftArgs ts vs) s
      (fun es s' => Uses (Expr.allCallees own es) (Expr.allBinders es) (Shape.allCalls own .lift ts) ∧
        s'.stmts = s.stmts) fun _ => True
  | [], vs, s, _ => by
    rw [liftArgs, Shape.allCalls]
    exact ends_pure ⟨by simpa [Expr.allCallees, Expr.allBinders] using Uses.none, rfl⟩
  | t :: ts, vs, s, h => by
    rw [liftArgs, Shape.allCalls]
    refine ends_bind (lift_uses t vs s h) fun r s₁ ⟨huses, hrest, hs₁⟩ => ?_
    refine ends_bind (liftArgs_uses ts r.2 s₁ hrest) fun es s₂ hes => ends_pure ⟨?_, hes.2.trans hs₁⟩
    rw [Expr.allCallees, Expr.allBinders]
    exact huses.append hes.1

/-! ## Lowering -/

/-- The queued statements and the core numbers together call what is needed. A statement binds a
pointer and a length, so there are at least two numbers for each. -/
def LowerUses (own : OwnCalls) (s : EmitState) (needs : List Callee) (es : List Expr) (s' : EmitState) : Prop :=
  ∃ new, s'.stmts = s.stmts ++ new ∧ 2 * new.length ≤ es.length ∧
    Uses (new.flatMap (Stmt.callees own) ++ Expr.allCallees own es)
      (new.flatMap Stmt.binders ++ Expr.allBinders es) needs

namespace LowerUses

variable {s s' s'' : EmitState} {ns ns' : List Callee} {es es' : List Expr}

theorem nil : LowerUses own s [] [] s := ⟨[], by simp, by simp, by simpa [Expr.allCallees, Expr.allBinders] using Uses.none⟩

/-- A single number that needs no statement. -/
theorem single {e : Expr} (h : Uses (e.callees own) e.binders ns) : LowerUses own s ns [e] s :=
  ⟨[], by simp, by simp, by simpa [Expr.allCallees, Expr.allBinders] using h⟩

/-- A statement whose pointer and length are the numbers. -/
theorem queued {stmt : Stmt} {ptr len : Bytes} (h : Uses (stmt.callees own) stmt.binders ns)
    (hs : s'.stmts = s.stmts ++ [stmt]) : LowerUses own s ns [.var ptr, .var len] s' := by
  refine ⟨[stmt], hs, by simp, ?_⟩
  simpa [Expr.allCallees, Expr.allBinders, Expr.callees, Expr.binders] using h

theorem append (h : LowerUses own s ns es s') (h' : LowerUses own s' ns' es' s'') :
    LowerUses own s (ns ++ ns') (es ++ es') s'' := by
  obtain ⟨new, hs, hlen, huses⟩ := h
  obtain ⟨new', hs', hlen', huses'⟩ := h'
  have hboth := huses.append huses'
  refine ⟨new ++ new', by rw [hs', hs, List.append_assoc], by simp only [List.length_append]; omega, ⟨fun c => ?_, fun n hn => ?_⟩⟩
  · rw [← hboth.calls, List.flatMap_append, Expr.allCallees_append]
    simp only [List.mem_append]
    tauto
  · refine hboth.binds n ?_
    rw [List.flatMap_append, Expr.allBinders_append] at hn
    simp only [List.mem_append] at hn ⊢
    tauto

end LowerUses

mutual

theorem lower_uses : ∀ (t : Shape) (v : Expr) (s : EmitState), v.Silent own →
    Ends (lower t v) s (LowerUses own s (t.calls own .lower)) fun _ => True
  | .blank, v, s, _ | .errorContext, v, s, _ => by
    rw [lower]
    exact ends_throw trivial
  | .option _, v, s, _ | .result _ _, v, s, _ | .variant _ _, v, s, _ => by
    rw [lower]
    · exact ends_throw trivial
    all_goals simp
  | .alias _ t, v, s, hv => by
    rw [lower, Shape.calls]
    exact lower_uses t v s hv
  | .prim k, v, s, hv => by
    rw [lower, Shape.calls]
    refine ends_pure (.single ?_)
    simpa [Expr.callees, Expr.binders, hv.callees, hv.binders, Way.number, Way.prim] using Uses.none
  | .string, v, s, hv => by
    rw [lower, Shape.calls]
    refine ends_fresh (ends_fresh (ends_queue (ends_pure (.queued ?_ rfl))))
    rw [Stmt.callees, Stmt.binders, hv.callees, hv.binders]
    exact ((Uses.none.call _).bind _ _).bind _ _
  | .record n fs, v, s, hv => by
    rw [lower, Shape.calls]
    exact lowerFields_uses fs v s hv
  | .tuple ts, v, s, hv => by
    rw [lower, Shape.calls]
    exact lowerItems_uses ts 0 v s hv
  | .enum n cs, v, s, hv => by
    rw [lower, Shape.calls]
    refine ends_pure (.single ⟨fun c => ?_, by simp [Expr.binders, hv.binders]⟩)
    simp [Expr.callees, hv.callees, Way.number, Way.enum]
  | .flags n fs, v, s, hv => by
    rw [lower, Shape.calls]
    split
    · exact ends_throw trivial
    · refine ends_pure (.single ?_)
      simpa [Expr.callees, Expr.binders, hv.callees, hv.binders, Way.number] using Uses.none
  | .list t, v, s, hv => by
    rw [lower, Shape.calls]
    refine ends_fresh (ends_fresh (ends_bind (store_uses t _ _ _ (Expr.silent_var own _)) fun e s' h => ?_))
    refine ends_fresh (ends_fresh (ends_queue (ends_pure (.queued ?_ (congrArg (· ++ [_]) h.2)))))
    rw [Stmt.callees, Stmt.binders, hv.callees, hv.binders]
    exact ((((h.1.call _).bind _ _).bind _ _).bind _ _).bind _ _

theorem lowerFields_uses : ∀ (fs : List (Bytes × Shape)) (v : Expr) (s : EmitState), v.Silent own →
    Ends (lowerFields fs v) s (LowerUses own s (Shape.namedCalls own .lower fs)) fun _ => True
  | [], v, s, _ => by
    rw [lowerFields, Shape.namedCalls]
    exact ends_pure .nil
  | (n, t) :: fs, v, s, hv => by
    rw [lowerFields, Shape.namedCalls]
    refine ends_bind (lower_uses t _ s (hv.field n)) fun es s₁ hes => ?_
    exact ends_bind (lowerFields_uses fs v s₁ hv) fun es' s₂ hes' => ends_pure (hes.append hes')

theorem lowerItems_uses : ∀ (ts : List Shape) (i : Nat) (v : Expr) (s : EmitState), v.Silent own →
    Ends (lowerItems ts i v) s (LowerUses own s (Shape.allCalls own .lower ts)) fun _ => True
  | [], i, v, s, _ => by
    rw [lowerItems, Shape.allCalls]
    exact ends_pure .nil
  | t :: ts, i, v, s, hv => by
    rw [lowerItems, Shape.allCalls]
    refine ends_bind (lower_uses t _ s (hv.nth i)) fun es s₁ hes => ?_
    exact ends_bind (lowerItems_uses ts (i + 1) v s₁ hv) fun es' s₂ hes' => ends_pure (hes.append hes')

end

/-! ## Wrappers of imported functions -/

namespace ImportCall

/-- The code of a wrapper after the arguments: statements, and what they are for. Statements
without a result to lower or store are not written. -/
def tail (call : ImportCall) : List Stmt × List Expr :=
  match call.store, call.lower with
  | some e, _ | none, some e => (call.stmts, [e])
  | none, none => ([], [])

/-- The functions of the runtime that a wrapper calls. -/
def callees (own : OwnCalls) (call : ImportCall) : List Callee :=
  Expr.allCallees own call.args ++ (call.tail.1.flatMap (Stmt.callees own) ++ Expr.allCallees own call.tail.2)

/-- The names that the code of a wrapper binds besides its parameters. -/
def binders (call : ImportCall) : List Bytes :=
  Expr.allBinders call.args ++ (call.tail.1.flatMap Stmt.binders ++ Expr.allBinders call.tail.2)

end ImportCall

/-- The functions of the runtime that the wrapper of an imported function needs: to lift its
parameters, and to store or lower its results. -/
def wrapperCalls (own : OwnCalls) (f : ShapedFunc) : List Callee :=
  Shape.allCalls own .lift (f.params.map (·.2)) ++
    match resultShape? f with
    | none => []
    | some t => t.calls own (if (f.signature .imported).indirectResults then .store else .lower)

/-- The steps behind a wrapper, started with no statement queued. -/
theorem importSteps_uses (f : ShapedFunc) (direct params : List Bytes) (s : EmitState) (hs : s.stmts = []) :
    Ends (importSteps f direct) s
      (fun r s' =>
        let call : ImportCall := { params, args := r.1, stmts := s'.stmts, lower := r.2.1, store := r.2.2 }
        Uses (call.callees own) call.binders (wrapperCalls own f))
      fun _ => True := by
  have hsilent : ∀ v ∈ direct.map Expr.var, v.Silent own := by
    intro v hv
    obtain ⟨n, -, rfl⟩ := List.mem_map.1 hv
    exact Expr.silent_var own n
  unfold importSteps wrapperCalls
  refine ends_bind (liftArgs_uses _ _ s hsilent) fun args s₁ ⟨hargs, hs₁⟩ => ?_
  rw [hs] at hs₁
  split
  · rename_i hnone
    refine ends_pure (hargs.append ?_)
    simpa [ImportCall.tail, Expr.allCallees, Expr.allBinders, hnone] using Uses.none
  · rename_i t ht
    split
    · rename_i hind
      refine ends_bind (store_uses t _ _ s₁ (Expr.silent_var own _)) fun e s₂ ⟨he, hs₂⟩ => ends_pure (hargs.append ?_)
      simpa [ImportCall.tail, hs₂, hs₁, Expr.allCallees, Expr.allBinders, ht, hind] using he
    · rename_i hind
      have hflat := flat_le_one f ht (by simpa using hind)
      refine ends_bind (Ends.and (lower_uses t _ s₁ (Expr.silent_var own _)) (lower_ends t _ s₁))
        fun es s₂ ⟨⟨new, hnew, htwo, huses⟩, hlen, _⟩ => ?_
      -- a statement would come with two numbers
      obtain rfl : new = [] := List.eq_nil_of_length_eq_zero (by omega)
      rw [hs₁, List.append_nil] at hnew
      split
      · refine ends_pure (hargs.append ?_)
        simpa [ImportCall.tail, hnew, ht, hind] using huses
      · rename_i hnot
        have hnone : es = [] := by
          rcases es with _ | ⟨e, _ | _⟩
          · rfl
          · exact absurd rfl (hnot e)
          · simp only [List.length_cons] at hlen
            omega
        subst hnone
        refine ends_pure (hargs.append ?_)
        simpa [ImportCall.tail, ht, hind] using huses

/-- A wrapper calls what the types of its function need, and binds numbered names only. -/
theorem importCall_uses {f : ShapedFunc} {call : ImportCall} (h : importCall f = .ok call) :
    Uses (call.callees own) call.binders (wrapperCalls own f) := by
  obtain ⟨-, r, s, hr, rfl⟩ := importCall_ok h
  exact (importSteps_uses f _ _ {} rfl).of_ok hr

end Bindery.Glue
