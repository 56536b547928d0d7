/-
Other names for types. `Shape.Aliased t t'` says that `t'` is `t` with names put in front of
some of its parts, anywhere inside it and one name in front of another. A name changes
neither the layout of a value nor the core numbers it is made of (`Aliased.layout_eq`,
`Aliased.flat_eq`).
-/
import Bindery.Canonical.Flat

namespace Bindery.Shape

mutual

/-- The second type is the first with aliases in place of some of its parts, each alias standing
for the part that it replaces. What is blank is no type and has no alias. -/
inductive Aliased : Shape → Shape → Prop
  | refl (t : Shape) : Aliased t t
  | named {t t' : Shape} (n : Bytes) : t ≠ .blank → Aliased t t' → Aliased t (.alias n t')
  | alias {t t' : Shape} (n : Bytes) : Aliased t t' → Aliased (.alias n t) (.alias n t')
  | record {fs fs' : List (Bytes × Shape)} (n : Bytes) : NamedAliased fs fs' →
    Aliased (.record n fs) (.record n fs')
  | variant {cs cs' : List (Bytes × Shape)} (n : Bytes) : NamedAliased cs cs' →
    Aliased (.variant n cs) (.variant n cs')
  | list {t t' : Shape} : Aliased t t' → Aliased (.list t) (.list t')
  | option {t t' : Shape} : Aliased t t' → Aliased (.option t) (.option t')
  | result {ok ok' err err' : Shape} : Aliased ok ok' → Aliased err err' →
    Aliased (.result ok err) (.result ok' err')
  | tuple {ts ts' : List Shape} : AllAliased ts ts' → Aliased (.tuple ts) (.tuple ts')

/-- Fields or cases of the same names, with aliases inside their types. -/
inductive NamedAliased : List (Bytes × Shape) → List (Bytes × Shape) → Prop
  | nil : NamedAliased [] []
  | cons {t t' : Shape} {fs fs' : List (Bytes × Shape)} (n : Bytes) : Aliased t t' → NamedAliased fs fs' →
    NamedAliased ((n, t) :: fs) ((n, t') :: fs')

/-- Types one by one with aliases inside them. -/
inductive AllAliased : List Shape → List Shape → Prop
  | nil : AllAliased [] []
  | cons {t t' : Shape} {ts ts' : List Shape} : Aliased t t' → AllAliased ts ts' →
    AllAliased (t :: ts) (t' :: ts')

end

theorem Aliased.isBlank_eq {t t' : Shape} (h : Aliased t t') : t'.isBlank = t.isBlank := by
  cases h with
  | named n ht _ => cases t <;> simp_all [isBlank]
  | _ => rfl

theorem NamedAliased.length_eq : ∀ {fs fs' : List (Bytes × Shape)}, NamedAliased fs fs' → fs'.length = fs.length
  | _, _, .nil => rfl
  | _, _, .cons _ _ hs => congrArg (· + 1) hs.length_eq

mutual

/-- Aliases do not change how a value lies in memory. -/
theorem Aliased.layout_eq : ∀ {t t' : Shape}, Aliased t t' → t'.layout = t.layout
  | _, _, .refl t => rfl
  | _, _, .named n _ h | _, _, .alias n h => by simp only [layout, h.layout_eq]
  | _, _, .record n h | _, _, .variant n h => by simp only [layout, h.layouts_eq]
  | _, _, .list _ => by simp only [layout]
  | _, _, .option h => by simp only [layout, h.layout_eq]
  | _, _, .result h h' => by simp only [layout, h.layout_eq, h'.layout_eq]
  | _, _, .tuple h => by simp only [layout, h.layouts_eq]

theorem NamedAliased.layouts_eq : ∀ {fs fs' : List (Bytes × Shape)}, NamedAliased fs fs' →
    namedLayouts fs' = namedLayouts fs
  | _, _, .nil => rfl
  | _, _, .cons n h hs => by rw [namedLayouts, namedLayouts, h.layout_eq, hs.layouts_eq]

theorem AllAliased.layouts_eq : ∀ {ts ts' : List Shape}, AllAliased ts ts' → layouts ts' = layouts ts
  | _, _, .nil => rfl
  | _, _, .cons h hs => by rw [layouts, layouts, h.layout_eq, hs.layouts_eq]

end

mutual

/-- Aliases do not change the core numbers of a value. -/
theorem Aliased.flat_eq : ∀ {t t' : Shape}, Aliased t t' → t'.flat = t.flat
  | _, _, .refl t => rfl
  | _, _, .named n _ h | _, _, .alias n h => by simp only [flat, h.flat_eq]
  | _, _, .record n h | _, _, .variant n h => by simp only [flat, h.flats_eq]
  | _, _, .list _ => by simp only [flat]
  | _, _, .option h => by simp only [flat, h.flat_eq]
  | _, _, .result h h' => by simp only [flat, h.flat_eq, h'.flat_eq]
  | _, _, .tuple h => by simp only [flat, h.flats_eq]

theorem NamedAliased.flats_eq : ∀ {fs fs' : List (Bytes × Shape)}, NamedAliased fs fs' →
    namedFlats fs' = namedFlats fs
  | _, _, .nil => rfl
  | _, _, .cons n h hs => by rw [namedFlats, namedFlats, h.flat_eq, hs.flats_eq]

theorem AllAliased.flats_eq : ∀ {ts ts' : List Shape}, AllAliased ts ts' → flats ts' = flats ts
  | _, _, .nil => rfl
  | _, _, .cons h hs => by rw [flats, flats, h.flat_eq, hs.flats_eq]

end

end Bindery.Shape
