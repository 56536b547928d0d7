/-
Which types can be written out. The shape of a declared name is looked for along chains of
names as long as the list of declarations. That is enough: where every name that is used is
declared, each declared name has a shape exactly when no declaration leads back to itself
(`Interface.isSome_shapeOf?_iff`).

A list keeps its elements elsewhere, so the size of a value and its core numbers do not
depend on them. `byValue` leaves the elements of lists out; what it leaves has the same
layout and the same core numbers (`Shape.layout_byValue`, `Shape.flat_byValue`).
-/
import Bindery.Canonical.Flat
import Mathlib.Data.List.Perm.Subperm
import Mathlib.Logic.Relation

namespace Bindery

/-! ## Names in types -/

mutual

/-- The declared names in a type. -/
def TypeExpr.names : TypeExpr → List Bytes
  | .blank | .prim _ | .string | .errorContext => []
  | .named n => [n]
  | .list t | .option t => t.names
  | .result ok err => ok.names ++ err.names
  | .tuple ts => TypeExpr.namesAll ts

def TypeExpr.namesAll : List TypeExpr → List Bytes
  | [] => []
  | t :: ts => t.names ++ TypeExpr.namesAll ts

end

theorem TypeExpr.mem_namesAll {n : Bytes} {ts : List TypeExpr} :
    n ∈ TypeExpr.namesAll ts ↔ ∃ t ∈ ts, n ∈ t.names := by
  induction ts with
  | nil => simp [TypeExpr.namesAll]
  | cons t ts ih => simp [TypeExpr.namesAll, ih]

/-- The types a declaration is made of. -/
def DeclBody.parts : DeclBody → List TypeExpr
  | .record fs => fs.map (·.2)
  | .variant cs => cs.map (·.2)
  | .union ts => ts
  | .alias t => [t]
  | .enum _ | .flags _ | .resource => []

/-- The types of the parameters and results of a function. -/
def Func.types (f : Func) : List TypeExpr := f.params.map (·.type) ++ f.results.map (·.type)

namespace Interface

/-- The declaration of `n` has the name `m` in it. -/
def Refers (i : Interface) (n m : Bytes) : Prop :=
  ∃ d, i.decl? n = some d ∧ ∃ t ∈ d.body.parts, m ∈ t.names

/-- Every name in a type is declared. -/
def Knows (i : Interface) (t : TypeExpr) : Prop := ∀ n ∈ t.names, (i.decl? n).isSome

/-- Every name that is used is declared. -/
structure Scoped (i : Interface) : Prop where
  types : ∀ d ∈ i.types, ∀ t ∈ d.body.parts, i.Knows t
  functions : ∀ f ∈ i.functions, ∀ t ∈ f.types, i.Knows t

theorem mem_types_of_decl? {i : Interface} {n : Bytes} {d : Decl} (h : i.decl? n = some d) :
    d ∈ i.types ∧ d.name = n := by
  refine ⟨List.mem_of_find?_eq_some h, ?_⟩
  simpa using List.find?_some h

theorem isSome_decl?_iff {i : Interface} {n : Bytes} : (i.decl? n).isSome ↔ n ∈ i.types.map (·.name) := by
  rw [decl?, List.find?_isSome]
  simp

end Interface

/-! ## When a type has a shape -/

theorem isSome_bind_some {α β : Type} (x : Option α) (f : α → β) : (x.bind fun a => some (f a)).isSome = x.isSome := by
  cases x <;> rfl

section shapes

variable {env : Bytes → Option Shape}

mutual

/-- A type can be written out when every name in it can. -/
theorem TypeExpr.isSome_shape? : ∀ t : TypeExpr, (t.shape? env).isSome ↔ ∀ n ∈ t.names, (env n).isSome
  | .blank | .prim _ | .string | .errorContext => by simp [TypeExpr.shape?, TypeExpr.names]
  | .named n => by simp [TypeExpr.shape?, TypeExpr.names]
  | .list t => by simpa [TypeExpr.shape?, TypeExpr.names, isSome_bind_some] using t.isSome_shape?
  | .option t => by simpa [TypeExpr.shape?, TypeExpr.names, isSome_bind_some] using t.isSome_shape?
  | .result ok err => by
    have hok := ok.isSome_shape?
    have herr := err.isSome_shape?
    simp only [TypeExpr.shape?, TypeExpr.names, List.forall_mem_append, ← hok, ← herr]
    cases ok.shape? env <;> simp [isSome_bind_some]
  | .tuple ts => by simpa [TypeExpr.shape?, TypeExpr.names, isSome_bind_some] using TypeExpr.isSome_shapes? ts

theorem TypeExpr.isSome_shapes? : ∀ ts : List TypeExpr,
    (TypeExpr.shapes? env ts).isSome ↔ ∀ n ∈ TypeExpr.namesAll ts, (env n).isSome
  | [] => by simp [TypeExpr.shapes?, TypeExpr.namesAll]
  | t :: ts => by
    have ht := t.isSome_shape?
    have hts := TypeExpr.isSome_shapes? ts
    simp only [TypeExpr.shapes?, TypeExpr.namesAll, List.forall_mem_append, ← ht, ← hts]
    cases t.shape? env <;> simp [isSome_bind_some]

end

theorem namedShapes?_cons (n : Bytes) (t : TypeExpr) (fs : List (Bytes × TypeExpr)) : namedShapes? env ((n, t) :: fs) =
    (t.shape? env).bind fun s => (namedShapes? env fs).bind fun ss => some ((n, s) :: ss) := by
  cases ht : t.shape? env <;> simp [namedShapes?, ht]

theorem isSome_namedShapes? (fs : List (Bytes × TypeExpr)) :
    (namedShapes? env fs).isSome ↔ ∀ t ∈ fs.map (·.2), ∀ n ∈ t.names, (env n).isSome := by
  induction fs with
  | nil => simp [namedShapes?]
  | cons f fs ih =>
    obtain ⟨n, t⟩ := f
    rw [List.map_cons, List.forall_mem_cons, ← ih, ← TypeExpr.isSome_shape?, namedShapes?_cons]
    cases t.shape? env <;> simp [isSome_bind_some]

theorem map_snd_unionCases (ts : List TypeExpr) : (unionCases ts).map (·.2) = ts := by
  rw [unionCases, List.map_map]
  exact List.zipIdx_map_fst 0 ts

/-- A declaration can be written out when every name in it can. -/
theorem Decl.isSome_shape? (d : Decl) :
    (d.shape? env).isSome ↔ ∀ t ∈ d.body.parts, ∀ n ∈ t.names, (env n).isSome := by
  rw [Decl.shape?]
  cases d.body with
  | record fs => simpa [DeclBody.parts, isSome_bind_some] using isSome_namedShapes? fs
  | variant cs => simpa [DeclBody.parts, isSome_bind_some] using isSome_namedShapes? cs
  | union ts =>
    have hcases : (namedShapes? env (unionCases ts)).isSome ↔ _ := isSome_namedShapes? (unionCases ts)
    rw [map_snd_unionCases] at hcases
    simpa [DeclBody.parts, isSome_bind_some] using hcases
  | «alias» t => simpa [DeclBody.parts, isSome_bind_some] using t.isSome_shape?
  | enum cs | flags fs | resource => simp [DeclBody.parts]

end shapes

namespace Interface

variable {i : Interface}

theorem isSome_shapesWithin_succ {depth : Nat} {n : Bytes} : (i.shapesWithin (depth + 1) n).isSome ↔
    (i.decl? n).isSome ∧ ∀ m, i.Refers n m → (i.shapesWithin depth m).isSome := by
  rw [shapesWithin]
  cases hd : i.decl? n with
  | none => simp
  | some d =>
    rw [Option.bind_eq_bind, Option.bind_some, d.isSome_shape?]
    constructor
    · rintro h
      refine ⟨rfl, fun m ⟨d', hd', t, ht, hm⟩ => ?_⟩
      obtain rfl : d = d' := Option.some.inj (hd.symm.trans hd')
      exact h t ht m hm
    · rintro ⟨-, h⟩ t ht m hm
      exact h m ⟨d, hd, t, ht, hm⟩

/-- A name that leads back to itself is followed without end. -/
theorem shapesWithin_of_cycle {n : Bytes} (hcycle : Relation.TransGen i.Refers n n) (depth : Nat) :
    i.shapesWithin depth n = none := by
  induction depth generalizing n with
  | zero => rfl
  | succ depth ih =>
    obtain ⟨m, hnm, hmn⟩ := Relation.TransGen.head'_iff.1 hcycle
    have hstuck := ih (Relation.TransGen.tail' hmn hnm)
    by_contra hsome
    have hm := (isSome_shapesWithin_succ.1 (Option.isSome_iff_ne_none.2 hsome)).2 m hnm
    simp [hstuck] at hm

/-- **A chain of names** longer than the list of declarations runs in a circle. `seen` are the
names on the way to `n`: all of them different, or there would be a circle. -/
theorem isSome_shapesWithin (hscope : ∀ d ∈ i.types, ∀ t ∈ d.body.parts, i.Knows t)
    (hacyclic : ∀ n, ¬Relation.TransGen i.Refers n n) :
    ∀ (depth : Nat) (seen : List Bytes) (n : Bytes), seen.Nodup → (∀ x ∈ seen, x ∈ i.types.map (·.name)) →
      (∀ x ∈ seen, Relation.TransGen i.Refers x n) → (i.decl? n).isSome → i.types.length ≤ seen.length + depth →
      (i.shapesWithin depth n).isSome := by
  intro depth
  induction depth with
  | zero =>
    intro seen n hnodup hseen hway hn hlength
    have hnew : n ∉ seen := fun h => hacyclic n (hway n h)
    have hsub : n :: seen ⊆ i.types.map (·.name) := List.cons_subset.2 ⟨isSome_decl?_iff.1 hn, hseen⟩
    have hle := (List.subperm_of_subset (List.nodup_cons.2 ⟨hnew, hnodup⟩) hsub).length_le
    rw [List.length_cons, List.length_map] at hle
    omega
  | succ depth ih =>
    intro seen n hnodup hseen hway hn hlength
    have hnew : n ∉ seen := fun h => hacyclic n (hway n h)
    refine isSome_shapesWithin_succ.2 ⟨hn, fun m hm => ?_⟩
    refine ih (n :: seen) m (List.nodup_cons.2 ⟨hnew, hnodup⟩) ?_ ?_ ?_ ?_
    · exact List.forall_mem_cons.2 ⟨isSome_decl?_iff.1 hn, hseen⟩
    · exact List.forall_mem_cons.2 ⟨.single hm, fun x hx => (hway x hx).tail hm⟩
    · obtain ⟨d, hd, t, ht, hmem⟩ := hm
      exact hscope d (mem_types_of_decl? hd).1 t ht m hmem
    · rw [List.length_cons]
      omega

/-- **Declared names have shapes** exactly when none of them leads back to itself. -/
theorem isSome_shapeOf?_iff (hscope : ∀ d ∈ i.types, ∀ t ∈ d.body.parts, i.Knows t) :
    (∀ n, (i.decl? n).isSome → (i.shapeOf? n).isSome) ↔ ∀ n, ¬Relation.TransGen i.Refers n n := by
  constructor
  · intro hshapes n hcycle
    obtain ⟨m, ⟨d, hd, -⟩, -⟩ := Relation.TransGen.head'_iff.1 hcycle
    have hsome := hshapes n (by simp [hd])
    rw [shapeOf?, shapesWithin_of_cycle hcycle] at hsome
    cases hsome
  · intro hacyclic n hn
    exact isSome_shapesWithin hscope hacyclic _ [] n List.nodup_nil (by simp) (by simp) hn (by simp)

end Interface

/-! ## Elements of lists left out -/

mutual

/-- The type without what its lists are lists of. -/
def TypeExpr.byValue : TypeExpr → TypeExpr
  | .list _ => .list .blank
  | .option t => .option t.byValue
  | .result ok err => .result ok.byValue err.byValue
  | .tuple ts => .tuple (TypeExpr.byValues ts)
  | .blank => .blank
  | .prim p => .prim p
  | .string => .string
  | .errorContext => .errorContext
  | .named n => .named n

def TypeExpr.byValues : List TypeExpr → List TypeExpr
  | [] => []
  | t :: ts => t.byValue :: TypeExpr.byValues ts

end

/-- The declaration without what its lists are lists of. -/
def DeclBody.byValue : DeclBody → DeclBody
  | .record fs => .record (fs.map fun f => (f.1, f.2.byValue))
  | .variant cs => .variant (cs.map fun c => (c.1, c.2.byValue))
  | .union ts => .union (ts.map TypeExpr.byValue)
  | .alias t => .alias t.byValue
  | .enum cs => .enum cs
  | .flags fs => .flags fs
  | .resource => .resource

mutual

/-- The shape without what its lists are lists of. -/
def Shape.byValue : Shape → Shape
  | .list _ => .list .blank
  | .alias n t => .alias n t.byValue
  | .record n fs => .record n (Shape.namedByValue fs)
  | .variant n cs => .variant n (Shape.namedByValue cs)
  | .option t => .option t.byValue
  | .result ok err => .result ok.byValue err.byValue
  | .tuple ts => .tuple (Shape.byValues ts)
  | .blank => .blank
  | .prim p => .prim p
  | .string => .string
  | .errorContext => .errorContext
  | .enum n cs => .enum n cs
  | .flags n fs => .flags n fs

def Shape.namedByValue : List (Bytes × Shape) → List (Bytes × Shape)
  | [] => []
  | (n, t) :: fs => (n, t.byValue) :: Shape.namedByValue fs

def Shape.byValues : List Shape → List Shape
  | [] => []
  | t :: ts => t.byValue :: Shape.byValues ts

end

namespace Shape

mutual

theorem layout_byValue : ∀ t : Shape, t.byValue.layout = t.layout
  | .blank | .prim _ | .string | .errorContext | .enum _ _ | .flags _ _ | .list _ => rfl
  | .alias _ t => t.layout_byValue
  | .option t => by simp only [byValue, layout, t.layout_byValue]
  | .result ok err => by simp only [byValue, layout, ok.layout_byValue, err.layout_byValue]
  | .record _ fs => by simp only [byValue, layout, namedLayouts_byValue fs]
  | .variant _ cs => by simp only [byValue, layout, namedLayouts_byValue cs]
  | .tuple ts => by simp only [byValue, layout, layouts_byValue ts]

theorem namedLayouts_byValue : ∀ fs : List (Bytes × Shape), namedLayouts (namedByValue fs) = namedLayouts fs
  | [] => rfl
  | (_, t) :: fs => by simp only [namedByValue, namedLayouts, t.layout_byValue, namedLayouts_byValue fs]

theorem layouts_byValue : ∀ ts : List Shape, layouts (byValues ts) = layouts ts
  | [] => rfl
  | t :: ts => by simp only [byValues, layouts, t.layout_byValue, layouts_byValue ts]

end

mutual

theorem flat_byValue : ∀ t : Shape, t.byValue.flat = t.flat
  | .blank | .prim _ | .string | .errorContext | .enum _ _ | .flags _ _ | .list _ => rfl
  | .alias _ t => t.flat_byValue
  | .option t => by simp only [byValue, flat, t.flat_byValue]
  | .result ok err => by simp only [byValue, flat, ok.flat_byValue, err.flat_byValue]
  | .record _ fs => by simp only [byValue, flat, namedFlats_byValue fs]
  | .variant _ cs => by simp only [byValue, flat, namedFlats_byValue cs]
  | .tuple ts => by simp only [byValue, flat, flats_byValue ts]

theorem namedFlats_byValue : ∀ fs : List (Bytes × Shape), namedFlats (namedByValue fs) = namedFlats fs
  | [] => rfl
  | (_, t) :: fs => by simp only [namedByValue, namedFlats, t.flat_byValue, namedFlats_byValue fs]

theorem flats_byValue : ∀ ts : List Shape, flats (byValues ts) = flats ts
  | [] => rfl
  | t :: ts => by simp only [byValues, flats, t.flat_byValue, flats_byValue ts]

end

theorem underlying_byValue : ∀ t : Shape, t.byValue.underlying = t.underlying.byValue
  | .alias _ t => t.underlying_byValue
  | .blank | .prim _ | .string | .errorContext | .enum _ _ | .flags _ _ | .list _ | .option _ | .result _ _
  | .record _ _ | .variant _ _ | .tuple _ => by simp only [byValue, underlying]

end Shape

/-! ## Types written out by value -/

mutual

theorem TypeExpr.mem_names_of_byValue {n : Bytes} : ∀ {t : TypeExpr}, n ∈ t.byValue.names → n ∈ t.names
  | .list t, h => by simp [TypeExpr.byValue, TypeExpr.names] at h
  | .option t, h => TypeExpr.mem_names_of_byValue (t := t) h
  | .result ok err, h => by
    rw [TypeExpr.byValue, TypeExpr.names, List.mem_append] at h
    rw [TypeExpr.names, List.mem_append]
    exact h.imp TypeExpr.mem_names_of_byValue TypeExpr.mem_names_of_byValue
  | .tuple ts, h => @TypeExpr.mem_namesAll_of_byValues _ ts h
  | .blank, h | .prim _, h | .string, h | .errorContext, h | .named _, h => h

theorem TypeExpr.mem_namesAll_of_byValues {n : Bytes} : ∀ {ts : List TypeExpr},
    n ∈ TypeExpr.namesAll (TypeExpr.byValues ts) → n ∈ TypeExpr.namesAll ts
  | [], h => h
  | t :: ts, h => by
    rw [TypeExpr.byValues, TypeExpr.namesAll, List.mem_append] at h
    rw [TypeExpr.namesAll, List.mem_append]
    exact h.imp TypeExpr.mem_names_of_byValue TypeExpr.mem_namesAll_of_byValues

end

section shapes

variable {env env' : Bytes → Option Shape}

mutual

theorem TypeExpr.shape?_byValue (henv : ∀ n s, env n = some s → env' n = some s.byValue) :
    ∀ {t : TypeExpr} {s : Shape}, t.shape? env = some s → t.byValue.shape? env' = some s.byValue
  | .list t, s, h => by
    obtain ⟨_, -, h⟩ := Option.bind_eq_some_iff.1 h
    cases h
    rfl
  | .option t, s, h => by
    obtain ⟨a, ha, h⟩ := Option.bind_eq_some_iff.1 h
    cases h
    simp [TypeExpr.byValue, TypeExpr.shape?, Shape.byValue, TypeExpr.shape?_byValue henv ha]
  | .result ok err, s, h => by
    obtain ⟨a, ha, h⟩ := Option.bind_eq_some_iff.1 h
    obtain ⟨b, hb, h⟩ := Option.bind_eq_some_iff.1 h
    cases h
    simp [TypeExpr.byValue, TypeExpr.shape?, Shape.byValue, TypeExpr.shape?_byValue henv ha,
      TypeExpr.shape?_byValue henv hb]
  | .tuple ts, s, h => by
    obtain ⟨as, has, h⟩ := Option.bind_eq_some_iff.1 h
    cases h
    simp [TypeExpr.byValue, TypeExpr.shape?, Shape.byValue, TypeExpr.shapes?_byValue henv has]
  | .named n, s, h => henv n s h
  | .blank, s, h | .prim _, s, h | .string, s, h | .errorContext, s, h => by
    cases h
    rfl

theorem TypeExpr.shapes?_byValue (henv : ∀ n s, env n = some s → env' n = some s.byValue) :
    ∀ {ts : List TypeExpr} {ss : List Shape}, TypeExpr.shapes? env ts = some ss →
      TypeExpr.shapes? env' (TypeExpr.byValues ts) = some (Shape.byValues ss)
  | [], ss, h => by
    cases h
    rfl
  | t :: ts, ss, h => by
    obtain ⟨a, ha, h⟩ := Option.bind_eq_some_iff.1 h
    obtain ⟨as, has, h⟩ := Option.bind_eq_some_iff.1 h
    cases h
    simp [TypeExpr.byValues, TypeExpr.shapes?, Shape.byValues, TypeExpr.shape?_byValue henv ha,
      TypeExpr.shapes?_byValue henv has]

end

theorem namedShapes?_byValue (henv : ∀ n s, env n = some s → env' n = some s.byValue) :
    ∀ {fs : List (Bytes × TypeExpr)} {ss : List (Bytes × Shape)}, namedShapes? env fs = some ss →
    namedShapes? env' (fs.map fun f => (f.1, f.2.byValue)) = some (Shape.namedByValue ss)
  | [], ss, h => by
    cases h
    rfl
  | (n, t) :: fs, ss, h => by
    rw [namedShapes?_cons] at h
    obtain ⟨a, ha, h⟩ := Option.bind_eq_some_iff.1 h
    obtain ⟨as, has, h⟩ := Option.bind_eq_some_iff.1 h
    cases h
    rw [List.map_cons, namedShapes?_cons, TypeExpr.shape?_byValue henv ha, namedShapes?_byValue henv has]
    rfl

theorem Decl.shape?_byValue (henv : ∀ n s, env n = some s → env' n = some s.byValue) {d : Decl} {s : Shape}
    (h : d.shape? env = some s) :
    Decl.shape? env' { d with body := d.body.byValue } = some s.byValue := by
  rw [Decl.shape?] at h ⊢
  cases hbody : d.body with
  | record fs =>
    rw [hbody] at h
    obtain ⟨ss, hss, h⟩ := Option.bind_eq_some_iff.1 h
    cases h
    simp [DeclBody.byValue, namedShapes?_byValue henv hss, Shape.byValue]
  | variant cs =>
    rw [hbody] at h
    obtain ⟨ss, hss, h⟩ := Option.bind_eq_some_iff.1 h
    cases h
    simp [DeclBody.byValue, namedShapes?_byValue henv hss, Shape.byValue]
  | union ts =>
    rw [hbody] at h
    obtain ⟨ss, hss, h⟩ := Option.bind_eq_some_iff.1 h
    cases h
    have hcases : unionCases (ts.map TypeExpr.byValue) = (unionCases ts).map fun c => (c.1, c.2.byValue) := by
      simp [unionCases, List.zipIdx_map]
    simp [DeclBody.byValue, hcases, namedShapes?_byValue henv hss, Shape.byValue]
  | «alias» t =>
    rw [hbody] at h
    obtain ⟨a, ha, h⟩ := Option.bind_eq_some_iff.1 h
    cases h
    simp [DeclBody.byValue, TypeExpr.shape?_byValue henv ha, Shape.byValue]
  | enum cs | flags fs | resource =>
    rw [hbody] at h
    cases h
    rfl

end shapes

namespace Interface

/-- The interface without what its lists are lists of. -/
def byValue (i : Interface) : Interface :=
  { i with types := i.types.map fun d => { d with body := d.body.byValue } }

/-- The shape of a type as far as its values reach: elements of lists are left out. -/
def valueShape? (i : Interface) (t : TypeExpr) : Option Shape := i.byValue.shape? t.byValue

/-- A value of the type `n` has a value of the type `m` in it: as what an alias stands for, a
field, a member, or a payload. The elements of a list are not in its value. -/
def Holds (i : Interface) (n m : Bytes) : Prop :=
  ∃ d, i.decl? n = some d ∧ ∃ t ∈ d.body.parts, m ∈ t.byValue.names

variable {i : Interface}

instance (n m : Bytes) : Decidable (i.Holds n m) :=
  decidable_of_iff (∃ d ∈ i.decl? n, ∃ t ∈ d.body.parts, m ∈ t.byValue.names) Iff.rfl

theorem decl?_byValue (n : Bytes) :
    i.byValue.decl? n = (i.decl? n).map fun d => { d with body := d.body.byValue } := by
  simp only [decl?, byValue, List.find?_map]
  rfl

theorem parts_byValue (b : DeclBody) : b.byValue.parts = b.parts.map TypeExpr.byValue := by
  cases b <;> simp [DeclBody.byValue, DeclBody.parts]

theorem refers_byValue : i.byValue.Refers = i.Holds := by
  funext n m
  simp only [Refers, Holds, decl?_byValue, eq_iff_iff]
  cases i.decl? n <;> simp [parts_byValue]

theorem Scoped.knows_byValue (h : i.Scoped) : ∀ d ∈ i.byValue.types, ∀ t ∈ d.body.parts, i.byValue.Knows t := by
  intro d hd t ht n hn
  obtain ⟨e, he, rfl⟩ := List.mem_map.1 hd
  rw [parts_byValue] at ht
  obtain ⟨u, hu, rfl⟩ := List.mem_map.1 ht
  rw [decl?_byValue, Option.isSome_map]
  exact h.types e he u hu n (TypeExpr.mem_names_of_byValue hn)

/-- **Values are finite** exactly when no type holds itself. -/
theorem isSome_valueShape?_iff (h : i.Scoped) :
    (∀ d ∈ i.types, (i.valueShape? (.named d.name)).isSome) ↔ ∀ n, ¬Relation.TransGen i.Holds n n := by
  rw [← refers_byValue, ← isSome_shapeOf?_iff h.knows_byValue]
  simp only [decl?_byValue, Option.isSome_map, isSome_decl?_iff, List.forall_mem_map]
  rfl

theorem isSome_valueShape? (h : i.Scoped) (hacyclic : ∀ n, ¬Relation.TransGen i.Holds n n) {t : TypeExpr}
    (ht : i.Knows t) : (i.valueShape? t).isSome := by
  rw [valueShape?, shape?, TypeExpr.isSome_shape?]
  intro n hn
  rw [← refers_byValue, ← isSome_shapeOf?_iff h.knows_byValue] at hacyclic
  refine hacyclic n ?_
  rw [decl?_byValue, Option.isSome_map]
  exact ht n (TypeExpr.mem_names_of_byValue hn)

theorem shapesWithin_byValue (depth : Nat) : ∀ n s, i.shapesWithin depth n = some s →
    i.byValue.shapesWithin depth n = some s.byValue := by
  induction depth with
  | zero => exact fun n s h => by cases h
  | succ depth ih =>
    intro n s h
    obtain ⟨d, hd, h⟩ := Option.bind_eq_some_iff.1 h
    rw [shapesWithin, decl?_byValue, hd]
    exact Decl.shape?_byValue ih h

/-- **The shape of a type** and the shape of its values agree, lists apart. -/
theorem valueShape?_of_shape? {t : TypeExpr} {s : Shape} (h : i.shape? t = some s) :
    i.valueShape? t = some s.byValue := by
  have henv : ∀ n s, i.shapeOf? n = some s → i.byValue.shapeOf? n = some s.byValue := by
    intro n s hn
    rw [shapeOf?, show i.byValue.types.length = i.types.length from List.length_map _]
    exact shapesWithin_byValue _ n s hn
  exact TypeExpr.shape?_byValue henv h

end Interface

end Bindery
