/-
The code that carries a value stays inside it. Offsets and sizes are laid down with
the types, the widths of the accesses are chosen with the code: `load_carries` and
`store_carries` go through both recursions and find that every access lies in a part
of the value at a multiple of its width, and that lists are run through at the size of
their elements.

The exception are sets of flags without members. `accesses_stay_inside` says that the
code stays inside the value exactly when there happens to be room for a word where
they stand.
-/
import Bindery.Proofs.Glue.Access
import Bindery.Proofs.Glue.Ending

namespace Bindery.Glue

open Emit
open Layout (Addressable)

/-! ## Code that carries a value -/

/-- The code for the elements `u` of a list touches what it should, and the next
element follows at once. -/
structure ElementCode.Fits (c : ElementCode) (u : Shape) : Prop where
  stride : c.stride = u.layout.size
  cover : Addressable u.extent.size → Cover c.body.accesses { base := c.base } u.extent u.memberless

/-- The code `e` touches what it should of the value `t` at `p`. -/
structure Carries (e : Expr) (t : Shape) (p : Place) : Prop where
  cover : Addressable t.extent.size → Cover e.accesses p t.extent t.memberless
  elements : List.Forall₂ ElementCode.Fits e.elementCode t.elements

/-- The accesses `as` and the code `codes` touch what they should of parts with the
extents `xs`, each at its offset behind `p`, in any value that holds those parts. -/
structure CarriesParts (as : List Access) (codes : List ElementCode) (p : Place) (offs : List UInt32)
    (xs : List Extent) (bare : List Nat) (us : List Shape) : Prop where
  cover : ∀ whole : Extent, Addressable whole.size →
    List.Forall₂ whole.Holds xs (offs.map UInt32.toNat) → Cover as p whole bare
  elements : List.Forall₂ ElementCode.Fits codes us

namespace CarriesParts

theorem nil {p : Place} {offs : List UInt32} : CarriesParts [] [] p offs [] [] [] :=
  ⟨fun _ _ _ => .nil, .nil⟩

theorem cons {e : Expr} {t : Shape} {p : Place} {off : UInt32} {offs : List UInt32} {as : List Access}
    {codes : List ElementCode} {xs : List Extent} {bare : List Nat} {us : List Shape}
    (h : Carries e t (p.plus off)) (hrest : CarriesParts as codes p offs xs bare us) :
    CarriesParts (e.accesses ++ as) (e.elementCode ++ codes) p (off :: offs) (t.extent :: xs)
      (t.memberless.map (off.toNat + ·) ++ bare) (t.elements ++ us) where
  cover whole hsize hholds := by
    rw [List.map_cons, List.forall₂_cons] at hholds
    have hle := hholds.1.room
    have ht : Addressable t.extent.size := by
      unfold Addressable at *
      omega
    exact ((h.cover ht).shift hholds.1).append (hrest.cover whole hsize hholds.2)
  elements := List.rel_append h.elements hrest.elements

/-- Parts that are members of a structure. -/
theorem struct {as : List Access} {codes : List ElementCode} {p : Place} {ls : List Layout}
    {xs : List Extent} {bare : List Nat → List Nat} {us : List Shape}
    (h : CarriesParts as codes p (Layout.offsets ls) xs (bare ((Layout.offsets ls).map UInt32.toNat)) us)
    (hxs : ∀ m ∈ xs, IsAlign m.align) (heq : (∀ m ∈ xs, Addressable m.size) → ls.map Layout.extent = xs)
    (hsize : Addressable (Extent.ofStruct xs).size) :
    Cover as p (Extent.ofStruct xs) (bare (Extent.offsetsFrom 0 xs)) := by
  have hoffs := (Layout.ofStruct_exact hxs heq hsize).2
  rw [hoffs] at h
  refine h.cover _ hsize ?_
  rw [hoffs]
  exact Extent.ofStruct_holds hxs

end CarriesParts

/-- Parts that share one place are held there when each is. -/
theorem holds_replicate {whole : Extent} {off : UInt32} : ∀ {xs : List Extent},
    (∀ m ∈ xs, whole.Holds m off.toNat) →
    List.Forall₂ whole.Holds xs ((List.replicate xs.length off).map UInt32.toNat)
  | [], _ => .nil
  | _ :: _, h => .cons (h _ (by simp)) (holds_replicate fun m hm => h m (by simp [hm]))

theorem length_offsetsFrom (ms : List Layout) (off : UInt32) :
    (Layout.offsetsFrom off ms).length = ms.length := by
  induction ms generalizing off with
  | nil => rfl
  | cons m ms ih => rw [Layout.offsetsFrom, List.length_cons, List.length_cons, ih]

/-- Every field has an offset, so none is left out. -/
theorem length_fieldOffsets (fs : List (Bytes × Shape)) :
    (Layout.offsets (Shape.namedLayouts fs)).length = fs.length := by
  rw [Layout.offsets, length_offsetsFrom, Shape.namedLayouts_eq_map, List.length_map]

theorem length_itemOffsets (ts : List Shape) : (Layout.offsets (Shape.layouts ts)).length = ts.length := by
  rw [Layout.offsets, length_offsetsFrom, Shape.layouts_eq_map, List.length_map]

theorem length_namedExtents (fs : List (Bytes × Shape)) : (Shape.namedExtents fs).length = fs.length := by
  rw [Shape.namedExtents_eq_map, List.length_map]

/-! ## Widths -/

theorem width_ofPrim (k : Prim) : (Layout.ofPrim k).extent = ⟨(MemKind.ofPrim k).width, (MemKind.ofPrim k).width⟩ := by
  cases k <;> rfl

theorem width_discriminant (n : Nat) : (MemKind.discriminant n).width = Extent.discriminantSize n := by
  unfold MemKind.discriminant Layout.discriminantSize Extent.discriminantSize
  split
  · rfl
  · split <;> rfl

theorem Extent.holds_self {x : Extent} : x.Holds x 0 :=
  ⟨by omega, Nat.dvd_zero _, Nat.dvd_refl _⟩

/-- Up to 32 flags are held in a number of their size, but for none. -/
theorem cover_flags {fs : List Bytes} (hfs : ¬fs.length > 32) (n : Bytes) (p : Place) :
    Cover [⟨.ofSize (Layout.ofFlags fs.length).size, p⟩] p (Extent.ofFlags fs.length)
      (Shape.memberless (.flags n fs)) := by
  cases fs with
  | nil =>
    refine ⟨fun a ha => .inr ⟨0, by simp [Shape.memberless], ?_⟩, fun o ho => ⟨_, List.mem_singleton_self _, ?_⟩⟩
    · rw [List.mem_singleton.1 ha]
      exact ⟨rfl, Place.behind_self p⟩
    · obtain rfl : o = 0 := by simpa [Shape.memberless] using ho
      exact ⟨rfl, Place.behind_self p⟩
  | cons f fs =>
    have hbare : Shape.memberless (.flags n (f :: fs)) = [] := by simp [Shape.memberless]
    have hwidth : ∀ k ≤ 32, k ≠ 0 → Extent.ofFlags k =
        ⟨(MemKind.ofSize (Layout.ofFlags k).size).width, (MemKind.ofSize (Layout.ofFlags k).size).width⟩ := by
      decide
    rw [hbare]
    refine Cover.start ?_
    rw [← hwidth _ (by omega) (by simp)]
    exact Extent.holds_self

/-- The number that says which case of a variant a value is lies inside it. -/
theorem inside_discriminant {xs : List Extent} (hxs : ∀ m ∈ xs, IsAlign m.align) (p : Place) :
    Access.Inside ⟨.discriminant xs.length, p⟩ p (Extent.ofVariant xs) := by
  have h := Extent.ofVariant_holds_discriminant hxs
  rw [← width_discriminant] at h
  exact ⟨0, Place.behind_self p, h⟩

/-- Parts that are the payloads of a variant, with its discriminant. -/
theorem CarriesParts.variant {as as' : List Access} {codes : List ElementCode} {p : Place}
    {ls : List Layout} {xs : List Extent} (bare : Nat → List Nat) {us : List Shape}
    (h : CarriesParts as codes p (List.replicate xs.length (Layout.payloadOffset ls)) xs
      (bare (Layout.payloadOffset ls).toNat) us)
    (hxs : ∀ m ∈ xs, IsAlign m.align) (heq : (∀ m ∈ xs, Addressable m.size) → ls.map Layout.extent = xs)
    (hold : ∀ a ∈ as, a ∈ as') (hnew : ∀ a ∈ as', a ∈ as ∨ a = ⟨.discriminant xs.length, p⟩)
    (hsize : Addressable (Extent.ofVariant xs).size) :
    Cover as' p (Extent.ofVariant xs) (bare (Extent.payloadOffset xs)) := by
  have hoff := (Layout.ofVariant_exact hxs heq hsize).2
  have hcover : Cover as p (Extent.ofVariant xs) (bare (Extent.payloadOffset xs)) := by
    rw [← hoff]
    refine h.cover _ hsize (holds_replicate fun m hm => ?_)
    rw [hoff]
    exact Extent.ofVariant_holds hxs hm
  refine hcover.extend hold fun a ha => (hnew a ha).imp_right fun ha => ?_
  rw [ha]
  exact inside_discriminant hxs p

/-! ## Reading -/

theorem elementCode_choose {kind : MemKind} {p : Place} : ∀ (i : Nat) (es : List Expr),
    (choose kind p i es).elementCode = Expr.allElementCode es
  | _, [] => rfl
  | _, [e] => by simp [choose, Expr.allElementCode]
  | i, e :: e' :: es => by
    rw [choose, Expr.elementCode, elementCode_choose (i + 1) (e' :: es)]
    · rfl
    · simp

/-- Choosing a case looks at its number and then at the cases. -/
theorem mem_accesses_choose {kind : MemKind} {p : Place} {a : Access} : ∀ (i : Nat) (es : List Expr),
    (a ∈ Expr.allAccesses es → a ∈ (choose kind p i es).accesses) ∧
      (a ∈ (choose kind p i es).accesses → a ∈ Expr.allAccesses es ∨ a = ⟨kind, p⟩)
  | _, [] => by simp [choose, Expr.accesses, Expr.allAccesses]
  | _, [e] => by
    rw [choose, Expr.allAccesses, Expr.allAccesses, List.append_nil]
    exact ⟨id, .inl⟩
  | i, e :: e' :: es => by
    obtain ⟨hold, hnew⟩ := @mem_accesses_choose kind p a (i + 1) (e' :: es)
    rw [choose, Expr.accesses, Expr.allAccesses]
    · simp only [List.mem_append, List.cons_append, List.mem_cons]
      grind
    · simp

theorem carries_blank {e : Expr} {t : Shape} {p : Place} (ht : t = .blank) (he : e.accesses = [])
    (hc : e.elementCode = []) : Carries e t p := by
  subst ht
  refine ⟨fun _ => ?_, ?_⟩
  · rw [he]
    exact .nil
  · rw [hc]
    exact .nil

/-- A number that says which of two cases a value is, and the cases. -/
theorem cover_pair {e e' : Expr} {t t' : Shape} {p : Place}
    (h : Carries e t (p.plus (Layout.payloadOffset [t.layout, t'.layout])))
    (h' : Carries e' t' (p.plus (Layout.payloadOffset [t.layout, t'.layout])))
    (hsize : Addressable (Extent.ofVariant (Shape.resultExtents t t')).size) :
    Cover (⟨.discriminant 2, p⟩ :: e.accesses ++ e'.accesses) p
      (Extent.ofVariant (Shape.resultExtents t t'))
      (t.memberless.map (Extent.payloadOffset (Shape.resultExtents t t') + ·)
        ++ t'.memberless.map (Extent.payloadOffset (Shape.resultExtents t t') + ·)) := by
  have hparts := CarriesParts.cons h (.cons h' (@CarriesParts.nil p []))
  simp only [List.append_nil] at hparts
  refine CarriesParts.variant (fun off => t.memberless.map (off + ·) ++ t'.memberless.map (off + ·)) hparts
    (Shape.isAlign_resultExtents t t') (fun hall => ?_) (fun a ha => ?_) (fun a ha => ?_) hsize
  · rw [List.map_cons, List.map_cons, Shape.layout_eq_extent t (hall _ (by simp)),
      Shape.layout_eq_extent t' (hall _ (by simp))]
    rfl
  · exact List.mem_cons_of_mem _ ha
  · exact (List.mem_cons.1 ha).symm

mutual

/-- Reading a value touches what it should of it. -/
theorem load_carries : ∀ (t : Shape) (p : Place) (s : EmitState),
    Ends (load t p) s (fun e _ => Carries e t p) fun _ => True
  | .blank, p, s | .errorContext, p, s => by
    rw [load]
    · exact ends_throw trivial
    all_goals simp
  | .alias _ t, p, s => by
    rw [load]
    exact (load_carries t p s).mono fun e _ h => ⟨h.cover, h.elements⟩
  | .prim k, p, s => by
    rw [load]
    refine ends_pure ⟨fun _ => ?_, .nil⟩
    refine Cover.start ?_
    rw [Shape.extent, width_ofPrim]
    exact Extent.holds_self
  | .string, p, s => by
    rw [load]
    exact ends_pure ⟨fun _ => Cover.slice p, .nil⟩
  | .record n fs, p, s => by
    rw [load]
    refine ends_bind (loadFields_carries fs _ p s (length_fieldOffsets fs)) fun es _ h => ends_pure ?_
    exact ⟨CarriesParts.struct h (Shape.isAlign_namedExtents fs) (Shape.namedLayouts_eq_extents fs),
      h.elements⟩
  | .tuple ts, p, s => by
    rw [load]
    refine ends_bind (loadItems_carries ts _ p s (length_itemOffsets ts)) fun es _ h => ends_pure ?_
    exact ⟨CarriesParts.struct h (Shape.isAlign_extents ts) (Shape.layouts_eq_extents ts), h.elements⟩
  | .enum n cs, p, s => by
    rw [load]
    refine ends_pure ⟨fun _ => ?_, .nil⟩
    refine Cover.start ?_
    rw [Shape.extent, width_discriminant]
    exact Extent.holds_self
  | .flags n fs, p, s => by
    rw [load]
    split
    · exact ends_throw trivial
    · rename_i hfs
      refine ends_pure ⟨fun _ => ?_, .nil⟩
      rw [Shape.extent]
      exact cover_flags hfs n p
  | .list t, p, s => by
    rw [load]
    refine ends_fresh (ends_bind (load_carries t _ _) fun e _ h => ends_pure ⟨fun _ => Cover.slice p, ?_⟩)
    exact .cons ⟨rfl, h.cover⟩ h.elements
  | .option t, p, s => by
    rw [load]
    refine ends_bind (load_carries t _ s) fun e _ h => ends_pure ⟨fun hsize => ?_, h.elements⟩
    -- the case without a value is laid out as a blank payload
    have hblank : Shape.blank.layout = .ofBlank := by rw [Shape.layout]
    have hxs : Shape.resultExtents .blank t = Shape.optionExtents t := by
      rw [Shape.resultExtents, Shape.extent]
    have hnull : Carries .null .blank (p.plus (Layout.payloadOffset [Shape.blank.layout, t.layout])) :=
      carries_blank rfl rfl rfl
    rw [← hblank] at h
    rw [Shape.extent] at hsize ⊢
    have hcover := cover_pair hnull h (by rwa [hxs])
    rw [hxs] at hcover
    simpa [Expr.accesses, Shape.memberless] using hcover
  | .result ok err, p, s => by
    have hok := fun q s => ends_loadPayload (s := s) (p := q) (fun h => carries_blank h rfl rfl)
      (load_carries ok q s)
    have herr := fun q s => ends_loadPayload (s := s) (p := q) (fun h => carries_blank h rfl rfl)
      (load_carries err q s)
    rw [load_result]
    refine ends_bind (hok _ s) fun e s₁ he => ?_
    refine ends_bind (herr _ s₁) fun e' s₂ he' => ends_pure ⟨?_, ?_⟩
    · intro hsize
      rw [Shape.extent] at hsize ⊢
      rw [Shape.memberless]
      simpa [Expr.accesses] using cover_pair he he' hsize
    · exact List.rel_append he.elements he'.elements
  | .variant n [], p, s => by
    rw [load_variant_nil]
    exact ends_throw trivial
  | .variant n (c :: cs), p, s => by
    rw [load_variant n (by simp)]
    refine ends_bind (loadCases_carries n (c :: cs) p _ s) fun es _ h => ends_pure ⟨?_, ?_⟩
    · rw [← length_namedExtents (c :: cs)] at h ⊢
      exact CarriesParts.variant _ h (Shape.isAlign_namedExtents _) (Shape.namedLayouts_eq_extents _)
        (fun a => (mem_accesses_choose 0 es).1) fun a => (mem_accesses_choose 0 es).2
    · rw [elementCode_choose]
      exact h.elements

theorem loadFields_carries : ∀ (fs : List (Bytes × Shape)) (offs : List UInt32) (p : Place) (s : EmitState),
    offs.length = fs.length →
    Ends (loadFields fs offs p) s
      (fun es _ => CarriesParts (Expr.fieldAccesses es) (Expr.fieldElementCode es) p offs
        (Shape.namedExtents fs) (Shape.memberlessFields fs (offs.map UInt32.toNat)) (Shape.namedElements fs))
      fun _ => True
  | [], _, p, s, _ => by
    rw [loadFields]
    · exact ends_pure .nil
    · simp
  | (n, t) :: fs, off :: offs, p, s, hlen => by
    rw [loadFields]
    refine ends_bind (load_carries t (p.plus off) s) fun e s₁ he => ?_
    refine ends_bind (loadFields_carries fs offs p s₁ (by simpa using hlen)) fun es _ hes => ends_pure ?_
    exact .cons he hes

theorem loadItems_carries : ∀ (ts : List Shape) (offs : List UInt32) (p : Place) (s : EmitState),
    offs.length = ts.length →
    Ends (loadItems ts offs p) s
      (fun es _ => CarriesParts (Expr.allAccesses es) (Expr.allElementCode es) p offs
        (Shape.extents ts) (Shape.memberlessItems ts (offs.map UInt32.toNat)) (Shape.allElements ts))
      fun _ => True
  | [], _, p, s, _ => by
    rw [loadItems]
    · exact ends_pure .nil
    · simp
  | t :: ts, off :: offs, p, s, hlen => by
    rw [loadItems]
    refine ends_bind (load_carries t (p.plus off) s) fun e s₁ he => ?_
    refine ends_bind (loadItems_carries ts offs p s₁ (by simpa using hlen)) fun es _ hes => ends_pure ?_
    exact .cons he hes

theorem loadCases_carries (type : Bytes) : ∀ (cs : List (Bytes × Shape)) (p : Place) (off : UInt32)
    (s : EmitState),
    Ends (loadCases type cs (p.plus off)) s
      (fun es _ => CarriesParts (Expr.allAccesses es) (Expr.allElementCode es) p
        (List.replicate cs.length off) (Shape.namedExtents cs) (Shape.memberlessCases cs off.toNat)
        (Shape.namedElements cs))
      fun _ => True
  | [], p, off, s => by
    rw [loadCases]
    exact ends_pure .nil
  | (c, t) :: cs, p, off, s => by
    rw [loadCases_cons]
    have hcase : Ends (loadCase type c t (p.plus off)) s (fun e _ => Carries e t (p.plus off)) fun _ => True :=
      ends_loadCase (fun ht => carries_blank ht rfl rfl)
        ((load_carries t (p.plus off) s).mono fun e _ h => ⟨h.cover, h.elements⟩)
    refine ends_bind hcase fun e s₁ he => ?_
    refine ends_bind (loadCases_carries type cs p off s₁) fun es _ hes => ends_pure ?_
    exact .cons he hes

end

/-! ## Writing -/

/-- A host value that is no code of its own. -/
def Expr.Quiet (v : Expr) : Prop := v.accesses = [] ∧ v.elementCode = []

theorem Expr.quiet_var (n : Bytes) : (Expr.var n).Quiet := ⟨rfl, rfl⟩

theorem Expr.Quiet.field {v : Expr} (h : v.Quiet) (n : Bytes) : (Expr.field v n).Quiet := by
  rwa [Expr.Quiet, Expr.accesses, Expr.elementCode]

theorem Expr.Quiet.nth {v : Expr} (h : v.Quiet) (i : Nat) : (Expr.nth v i).Quiet := by
  rwa [Expr.Quiet, Expr.accesses, Expr.elementCode]

mutual

/-- Writing a value touches what it should of it, and queues nothing. -/
theorem store_carries : ∀ (t : Shape) (v : Expr) (p : Place) (s : EmitState), v.Quiet →
    Ends (store t v p) s (fun e s' => Carries e t p ∧ s'.stmts = s.stmts) fun _ => True
  | .blank, v, p, s, _ | .errorContext, v, p, s, _ | .option _, v, p, s, _ | .result _ _, v, p, s, _
  | .variant _ _, v, p, s, _ => by
    rw [store]
    · exact ends_throw trivial
    all_goals simp
  | .alias _ t, v, p, s, hv => by
    rw [store]
    exact (store_carries t v p s hv).mono fun e _ h => ⟨⟨h.1.cover, h.1.elements⟩, h.2⟩
  | .prim k, v, p, s, hv => by
    rw [store]
    refine ends_pure ⟨⟨fun _ => ?_, ?_⟩, rfl⟩
    · rw [Expr.accesses, Expr.accesses, hv.1]
      refine Cover.start ?_
      rw [Shape.extent, width_ofPrim]
      exact Extent.holds_self
    · rw [Expr.elementCode, Expr.elementCode, hv.2]
      exact .nil
  | .string, v, p, s, hv => by
    rw [store]
    refine ends_pure ⟨⟨fun _ => ?_, ?_⟩, rfl⟩
    · rw [Expr.accesses, hv.1, List.append_nil]
      exact Cover.slice p
    · rw [Expr.elementCode, hv.2]
      exact .nil
  | .record n fs, v, p, s, hv => by
    rw [store]
    refine ends_bind (storeFields_carries fs _ v p s hv (length_fieldOffsets fs)) fun es _ ⟨h, hs⟩ => ends_pure ⟨⟨?_, ?_⟩, hs⟩
    · exact CarriesParts.struct h (Shape.isAlign_namedExtents fs) (Shape.namedLayouts_eq_extents fs)
    · exact h.elements
  | .tuple ts, v, p, s, hv => by
    rw [store]
    refine ends_bind (storeItems_carries ts _ 0 v p s hv (length_itemOffsets ts)) fun es _ ⟨h, hs⟩ => ends_pure ⟨⟨?_, ?_⟩, hs⟩
    · exact CarriesParts.struct h (Shape.isAlign_extents ts) (Shape.layouts_eq_extents ts)
    · exact h.elements
  | .enum n cs, v, p, s, hv => by
    rw [store]
    refine ends_pure ⟨⟨fun _ => ?_, ?_⟩, rfl⟩
    · rw [Expr.accesses, Expr.accesses, hv.1]
      refine Cover.start ?_
      rw [Shape.extent, width_discriminant]
      exact Extent.holds_self
    · rw [Expr.elementCode, Expr.elementCode, hv.2]
      exact .nil
  | .flags n fs, v, p, s, hv => by
    rw [store]
    split
    · exact ends_throw trivial
    · rename_i hfs
      refine ends_pure ⟨⟨fun _ => ?_, ?_⟩, rfl⟩
      · rw [Expr.accesses, Expr.accesses, hv.1, Shape.extent]
        exact cover_flags hfs n p
      · rw [Expr.elementCode, Expr.elementCode, hv.2]
        exact .nil
  | .list t, v, p, s, hv => by
    rw [store]
    refine ends_fresh (ends_fresh (ends_bind (store_carries t _ _ _ (Expr.quiet_var _)) fun e _ ⟨h, hs⟩ => ?_))
    refine ends_pure ⟨⟨fun _ => ?_, ?_⟩, hs⟩
    · rw [Expr.accesses, hv.1, List.append_nil]
      exact Cover.slice p
    · rw [Expr.elementCode, hv.2]
      exact .cons ⟨rfl, h.cover⟩ h.elements

theorem storeFields_carries : ∀ (fs : List (Bytes × Shape)) (offs : List UInt32) (v : Expr) (p : Place)
    (s : EmitState), v.Quiet → offs.length = fs.length →
    Ends (storeFields fs offs v p) s
      (fun es s' => CarriesParts (Expr.allAccesses es) (Expr.allElementCode es) p offs
        (Shape.namedExtents fs) (Shape.memberlessFields fs (offs.map UInt32.toNat)) (Shape.namedElements fs)
        ∧ s'.stmts = s.stmts)
      fun _ => True
  | [], _, v, p, s, _, _ => by
    rw [storeFields]
    · exact ends_pure ⟨.nil, rfl⟩
    · simp
  | (n, t) :: fs, off :: offs, v, p, s, hv, hlen => by
    rw [storeFields]
    refine ends_bind (store_carries t _ (p.plus off) s (hv.field n)) fun e s₁ ⟨he, hs₁⟩ => ?_
    refine ends_bind (storeFields_carries fs offs v p s₁ hv (by simpa using hlen)) fun es _ ⟨hes, hs₂⟩ => ?_
    exact ends_pure ⟨.cons he hes, hs₂.trans hs₁⟩

theorem storeItems_carries : ∀ (ts : List Shape) (offs : List UInt32) (i : Nat) (v : Expr) (p : Place)
    (s : EmitState), v.Quiet → offs.length = ts.length →
    Ends (storeItems ts offs i v p) s
      (fun es s' => CarriesParts (Expr.allAccesses es) (Expr.allElementCode es) p offs
        (Shape.extents ts) (Shape.memberlessItems ts (offs.map UInt32.toNat)) (Shape.allElements ts)
        ∧ s'.stmts = s.stmts)
      fun _ => True
  | [], _, i, v, p, s, _, _ => by
    rw [storeItems]
    · exact ends_pure ⟨.nil, rfl⟩
    · simp
  | t :: ts, off :: offs, i, v, p, s, hv, hlen => by
    rw [storeItems]
    refine ends_bind (store_carries t _ (p.plus off) s (hv.nth i)) fun e s₁ ⟨he, hs₁⟩ => ?_
    refine ends_bind (storeItems_carries ts offs (i + 1) v p s₁ hv (by simpa using hlen))
      fun es _ ⟨hes, hs₂⟩ => ?_
    exact ends_pure ⟨.cons he hes, hs₂.trans hs₁⟩

end

/-! ## Core numbers -/

/-- The statements queued from `s` to `s'` hold the code for the elements `us`. -/
def Queued (s s' : EmitState) (us : List Shape) : Prop :=
  ∃ stmts, s'.stmts = s.stmts ++ stmts ∧
    List.Forall₂ ElementCode.Fits (stmts.flatMap Stmt.elementCode) us

theorem Queued.nil {s : EmitState} : Queued s s [] := ⟨[], by simp, .nil⟩

theorem Queued.append {s₁ s₂ s₃ : EmitState} {us us' : List Shape} (h : Queued s₁ s₂ us)
    (h' : Queued s₂ s₃ us') : Queued s₁ s₃ (us ++ us') := by
  obtain ⟨stmts, hs, hus⟩ := h
  obtain ⟨stmts', hs', hus'⟩ := h'
  refine ⟨stmts ++ stmts', by rw [hs', hs, List.append_assoc], ?_⟩
  rw [List.flatMap_append]
  exact List.rel_append hus hus'

mutual

/-- Lowering a value queues the code for the elements of its lists. -/
theorem lower_queues : ∀ (t : Shape) (v : Expr) (s : EmitState), v.Quiet →
    Ends (lower t v) s (fun _ s' => Queued s s' t.elements) fun _ => True
  | .blank, v, s, _ | .errorContext, v, s, _ | .option _, v, s, _ | .result _ _, v, s, _
  | .variant _ _, v, s, _ => by
    rw [lower]
    · exact ends_throw trivial
    all_goals simp
  | .alias _ t, v, s, hv => by
    rw [lower]
    exact lower_queues t v s hv
  | .prim k, v, s, _ => by
    rw [lower]
    exact ends_pure .nil
  | .string, v, s, hv => by
    rw [lower]
    refine ends_fresh (ends_fresh (ends_queue (ends_pure ⟨_, rfl, ?_⟩)))
    rw [List.flatMap_singleton, Stmt.elementCode, hv.2]
    exact .nil
  | .record n fs, v, s, hv => by
    rw [lower]
    exact lowerFields_queues fs v s hv
  | .tuple ts, v, s, hv => by
    rw [lower]
    exact lowerItems_queues ts 0 v s hv
  | .enum n cs, v, s, _ => by
    rw [lower]
    exact ends_pure .nil
  | .flags n fs, v, s, _ => by
    rw [lower]
    split
    · exact ends_throw trivial
    · exact ends_pure .nil
  | .list t, v, s, hv => by
    rw [lower]
    refine ends_fresh (ends_fresh (ends_bind (store_carries t _ _ _ (Expr.quiet_var _)) fun e s' ⟨h, hs⟩ => ?_))
    refine ends_fresh (ends_fresh (ends_queue (ends_pure ⟨_, congrArg (· ++ _) hs, ?_⟩)))
    rw [List.flatMap_singleton, Stmt.elementCode, hv.2]
    exact .cons ⟨rfl, h.cover⟩ h.elements

theorem lowerFields_queues : ∀ (fs : List (Bytes × Shape)) (v : Expr) (s : EmitState), v.Quiet →
    Ends (lowerFields fs v) s (fun _ s' => Queued s s' (Shape.namedElements fs)) fun _ => True
  | [], v, s, _ => by
    rw [lowerFields]
    exact ends_pure .nil
  | (n, t) :: fs, v, s, hv => by
    rw [lowerFields]
    refine ends_bind (lower_queues t _ s (hv.field n)) fun _ s₁ h₁ => ?_
    exact ends_bind (lowerFields_queues fs v s₁ hv) fun _ s₂ h₂ => ends_pure (h₁.append h₂)

theorem lowerItems_queues : ∀ (ts : List Shape) (i : Nat) (v : Expr) (s : EmitState), v.Quiet →
    Ends (lowerItems ts i v) s (fun _ s' => Queued s s' (Shape.allElements ts)) fun _ => True
  | [], i, v, s, _ => by
    rw [lowerItems]
    exact ends_pure .nil
  | t :: ts, i, v, s, hv => by
    rw [lowerItems]
    refine ends_bind (lower_queues t _ s (hv.nth i)) fun _ s₁ h₁ => ?_
    exact ends_bind (lowerItems_queues ts (i + 1) v s₁ hv) fun _ s₂ h₂ => ends_pure (h₁.append h₂)

end

/-- The code of a lifted value holds the code for the elements `us`, and the numbers
that are left are no code. -/
def Lifted (codes : List ElementCode) (rest : List Expr) (us : List Shape) : Prop :=
  List.Forall₂ ElementCode.Fits codes us ∧ ∀ v ∈ rest, v.Quiet

mutual

/-- Lifting a value gives the code for the elements of its lists. -/
theorem lift_lifted : ∀ (t : Shape) (vs : List Expr) (s : EmitState), (∀ v ∈ vs, v.Quiet) →
    Ends (lift t vs) s (fun r _ => Lifted r.1.elementCode r.2 t.elements) fun _ => True
  | .blank, vs, s, _ | .errorContext, vs, s, _ | .option _, vs, s, _ | .result _ _, vs, s, _
  | .variant _ _, vs, s, _ => by
    rw [lift]
    · exact ends_throw trivial
    all_goals simp
  | .alias _ t, vs, s, hvs => by
    rw [lift]
    exact lift_lifted t vs s hvs
  | .prim k, vs, s, hvs => by
    rw [lift]
    refine ends_bind (ends_take1 hvs) fun r _ ⟨hv, hrest, _⟩ => ends_pure ⟨?_, hrest⟩
    rw [Expr.elementCode, hv.2]
    exact .nil
  | .string, vs, s, hvs => by
    rw [lift]
    refine ends_bind (ends_take2 hvs) fun r _ ⟨hptr, hlen, hrest, _⟩ => ends_pure ⟨?_, hrest⟩
    rw [Expr.elementCode, hptr.2, hlen.2]
    exact .nil
  | .record n fs, vs, s, hvs => by
    rw [lift]
    exact ends_bind (liftFields_lifted fs vs s hvs) fun r _ h => ends_pure h
  | .tuple ts, vs, s, hvs => by
    rw [lift]
    exact ends_bind (liftItems_lifted ts vs s hvs) fun r _ h => ends_pure h
  | .enum n cs, vs, s, hvs => by
    rw [lift]
    refine ends_bind (ends_take1 hvs) fun r _ ⟨hv, hrest, _⟩ => ends_pure ⟨?_, hrest⟩
    rw [Expr.elementCode, hv.2]
    exact .nil
  | .flags n fs, vs, s, hvs => by
    rw [lift]
    split
    · exact ends_throw trivial
    · refine ends_bind (ends_take1 hvs) fun r _ ⟨hv, hrest, _⟩ => ends_pure ⟨?_, hrest⟩
      rw [Expr.elementCode, hv.2]
      exact .nil
  | .list t, vs, s, hvs => by
    rw [lift]
    refine ends_bind (ends_take2 hvs) fun r s₁ ⟨hptr, hlen, hrest, _⟩ => ?_
    refine ends_fresh (ends_bind (load_carries t _ _) fun e _ h => ends_pure ⟨?_, hrest⟩)
    rw [Expr.elementCode, hptr.2, hlen.2]
    exact .cons ⟨rfl, h.cover⟩ h.elements

theorem liftFields_lifted : ∀ (fs : List (Bytes × Shape)) (vs : List Expr) (s : EmitState),
    (∀ v ∈ vs, v.Quiet) →
    Ends (liftFields fs vs) s
      (fun r _ => Lifted (Expr.fieldElementCode r.1) r.2 (Shape.namedElements fs)) fun _ => True
  | [], vs, s, hvs => by
    rw [liftFields]
    exact ends_pure ⟨.nil, hvs⟩
  | (n, t) :: fs, vs, s, hvs => by
    rw [liftFields]
    refine ends_bind (lift_lifted t vs s hvs) fun r s₁ ⟨he, hrest⟩ => ?_
    refine ends_bind (liftFields_lifted fs r.2 s₁ hrest) fun r' _ ⟨hes, hrest'⟩ => ?_
    exact ends_pure ⟨List.rel_append he hes, hrest'⟩

theorem liftItems_lifted : ∀ (ts : List Shape) (vs : List Expr) (s : EmitState), (∀ v ∈ vs, v.Quiet) →
    Ends (liftItems ts vs) s
      (fun r _ => Lifted (Expr.allElementCode r.1) r.2 (Shape.allElements ts)) fun _ => True
  | [], vs, s, hvs => by
    rw [liftItems]
    exact ends_pure ⟨.nil, hvs⟩
  | t :: ts, vs, s, hvs => by
    rw [liftItems]
    refine ends_bind (lift_lifted t vs s hvs) fun r s₁ ⟨he, hrest⟩ => ?_
    refine ends_bind (liftItems_lifted ts r.2 s₁ hrest) fun r' _ ⟨hes, hrest'⟩ => ?_
    exact ends_pure ⟨List.rel_append he hes, hrest'⟩

end

/-! ## The bounds of a value -/

/-- Every access of the code touches only octets of the value `t` at `p`, from a
multiple of its width on. -/
def Expr.StaysIn (e : Expr) (t : Shape) (p : Place) : Prop :=
  ∀ a ∈ e.accesses, a.Within p t.layout.size.toNat

/-- There is room for an aligned word where the value has a set of flags without members. -/
def WordsFit (t : Shape) : Prop := ∀ o ∈ t.memberless, o + 4 ≤ t.layout.size.toNat ∧ 4 ∣ o

instance (t : Shape) : Decidable (WordsFit t) :=
  inferInstanceAs (Decidable (∀ o ∈ t.memberless, o + 4 ≤ t.layout.size.toNat ∧ 4 ∣ o))

/-- The code for the elements `u` of a list is run at a stride of their size, and stays
inside an element if its flags let it. -/
structure ElementCode.Bounded (c : ElementCode) (u : Shape) : Prop where
  stride : c.stride = u.layout.size
  inside : Addressable u.extent.size → (c.body.StaysIn u { base := c.base } ↔ WordsFit u)

theorem Cover.staysIn_iff {e : Expr} {t : Shape} {p : Place} (hsize : Addressable t.extent.size)
    (h : Cover e.accesses p t.extent t.memberless) : e.StaysIn t p ↔ WordsFit t := by
  have hexact : t.layout.size.toNat = t.extent.size := congrArg Extent.size (t.layout_eq_extent hsize)
  unfold Expr.StaysIn WordsFit
  rw [hexact]
  exact h.within_iff

theorem ElementCode.Fits.bounded {c : ElementCode} {u : Shape} (h : c.Fits u) : c.Bounded u :=
  ⟨h.stride, fun hsize => (h.cover hsize).staysIn_iff hsize⟩

/-- **Accesses stay inside the value** exactly when an aligned word fits wherever the value
has a set of flags without members; in particular they do when there is no such set.
The same holds of the code for the elements of lists, each list being run through at
the size of its elements. -/
theorem accesses_stay_inside (t : Shape) (hsize : Addressable t.extent.size) (p : Place) (v : Bytes)
    (vs : List Bytes) (s : EmitState) :
    (∀ e s', load t p s = .ok (e, s') →
      (e.StaysIn t p ↔ WordsFit t) ∧ List.Forall₂ ElementCode.Bounded e.elementCode t.elements) ∧
    (∀ e s', store t (.var v) p s = .ok (e, s') →
      (e.StaysIn t p ↔ WordsFit t) ∧ List.Forall₂ ElementCode.Bounded e.elementCode t.elements) ∧
    (∀ e rest s', lift t (vs.map .var) s = .ok ((e, rest), s') →
      List.Forall₂ ElementCode.Bounded e.elementCode t.elements) ∧
    (∀ es s', lower t (.var v) s = .ok (es, s') → ∃ stmts, s'.stmts = s.stmts ++ stmts ∧
      List.Forall₂ ElementCode.Bounded (stmts.flatMap Stmt.elementCode) t.elements) := by
  have bounded : ∀ {codes us}, List.Forall₂ ElementCode.Fits codes us →
      List.Forall₂ ElementCode.Bounded codes us := List.Forall₂.imp fun _ _ h => h.bounded
  refine ⟨fun e s' he => ?_, fun e s' he => ?_, fun e rest s' he => ?_, fun es s' hes => ?_⟩
  · have h := (load_carries t p s).of_ok he
    exact ⟨(h.cover hsize).staysIn_iff hsize, bounded h.elements⟩
  · have h := ((store_carries t _ p s (Expr.quiet_var v)).of_ok he).1
    exact ⟨(h.cover hsize).staysIn_iff hsize, bounded h.elements⟩
  · have hquiet : ∀ e ∈ vs.map Expr.var, e.Quiet := by
      simpa using fun n _ => Expr.quiet_var n
    exact bounded ((lift_lifted t _ s hquiet).of_ok he).1
  · obtain ⟨stmts, hs, h⟩ := (lower_queues t _ s (Expr.quiet_var v)).of_ok hes
    exact ⟨stmts, hs, bounded h⟩

/-- A record with a small field, a list of strings and an option. -/
def rowShape : Shape :=
  .record (utf8 "row") [(utf8 "kind", .prim .u8), (utf8 "names", .list .string), (utf8 "at", .option (.prim .u64))]

theorem accesses_stay_inside_row : ∃ e s', load rowShape { base := utf8 "p" } {} = .ok (e, s') ∧
    e.StaysIn rowShape { base := utf8 "p" } ∧ e.elementCode.length = 1 := by
  have hsize : Addressable rowShape.extent.size := by decide
  have hwords : WordsFit rowShape := by decide
  have h := (accesses_stay_inside rowShape hsize { base := utf8 "p" } [] [] {}).1 _ _ rfl
  exact ⟨_, _, rfl, h.1.2 hwords, rfl⟩

/-- A set of flags without members takes no octet, and its code reads four. -/
theorem memberless_flags_leave_value :
    ∃ e s', load (.flags (utf8 "f") []) { base := utf8 "p" } {} = .ok (e, s') ∧
      Addressable (Shape.flags (utf8 "f") []).extent.size ∧
      ¬e.StaysIn (.flags (utf8 "f") []) { base := utf8 "p" } := by
  refine ⟨_, _, rfl, by decide, fun h => ?_⟩
  obtain ⟨o, -, hroom, -⟩ := h ⟨.u32, { base := utf8 "p" }⟩ (by simp [Expr.accesses]; decide)
  have hsize : (Shape.flags (utf8 "f") []).layout.size.toNat = 0 := rfl
  rw [hsize] at hroom
  simp [MemKind.width] at hroom

end Bindery.Glue
