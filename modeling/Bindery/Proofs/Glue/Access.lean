/-
Which places of the module's memory a piece of code touches. `Expr.accesses` lists the
loads and stores of an expression outside the code it gives for the elements of
lists, `Expr.elementCode` lists that code with the stride it is run at, and
`Shape.elements` the element types it should be for, both from the outside in and
from left to right.

A set of flags without members takes no room, and is still read and written as a
word of four octets. `Shape.memberless` says where in a value such sets lie, and
`Cover` that some accesses are inside a value except exactly for those.
-/
import Bindery.Glue.Emit
import Bindery.Proofs.Canonical.Extent

namespace Bindery.Glue

/-- A load or a store of one number. -/
structure Access where
  kind : MemKind
  place : Place
  deriving DecidableEq, Repr

/-- The pointer and the length of a string or a list. -/
def Access.slice (p : Place) : List Access := [⟨.u32, p⟩, ⟨.u32, p.plus 4⟩]

/-- The code for the elements of a list: it is run once an element, with `base` the
address of the element, and the next address is `stride` further on. -/
structure ElementCode where
  stride : UInt32
  base : Bytes
  body : Expr
  deriving Repr

namespace Expr

mutual

/-- The loads and stores of an expression, the code for the elements of lists apart. -/
def accesses : Expr → List Access
  | .var _ | .null | .caseOnly _ _ => []
  | .field e _ | .nth e _ | .lowerPrim _ e | .liftPrim _ e | .lowerEnum _ _ e | .liftEnum _ _ e
  | .lowerFlags _ e | .liftFlags _ e | .ok e | .err e | .caseOf _ _ e => e.accesses
  | .load k p => [⟨k, p⟩]
  | .store k p e => ⟨k, p⟩ :: e.accesses
  | .loadString p => Access.slice p
  | .storeString p e => Access.slice p ++ e.accesses
  | .decodeString ptr len => ptr.accesses ++ len.accesses
  | .liftList ptr len _ _ _ => ptr.accesses ++ len.accesses
  | .loadList p _ _ _ => Access.slice p
  | .storeList p e _ _ _ _ _ => Access.slice p ++ e.accesses
  | .record _ fs => fieldAccesses fs
  | .tuple es | .steps es => allAccesses es
  | .whenTag k p _ yes no => ⟨k, p⟩ :: yes.accesses ++ no.accesses

def allAccesses : List Expr → List Access
  | [] => []
  | e :: es => e.accesses ++ allAccesses es

def fieldAccesses : List (Bytes × Expr) → List Access
  | [] => []
  | (_, e) :: fs => e.accesses ++ fieldAccesses fs

end

mutual

/-- The code for the elements of lists in an expression, and inside that code. -/
def elementCode : Expr → List ElementCode
  | .var _ | .null | .caseOnly _ _ | .load _ _ | .loadString _ => []
  | .field e _ | .nth e _ | .lowerPrim _ e | .liftPrim _ e | .lowerEnum _ _ e | .liftEnum _ _ e
  | .lowerFlags _ e | .liftFlags _ e | .ok e | .err e | .caseOf _ _ e | .store _ _ e
  | .storeString _ e => e.elementCode
  | .decodeString ptr len => ptr.elementCode ++ len.elementCode
  | .liftList ptr len stride base elem =>
    ptr.elementCode ++ len.elementCode ++ ⟨stride, base, elem⟩ :: elem.elementCode
  | .loadList _ stride base elem => ⟨stride, base, elem⟩ :: elem.elementCode
  | .storeList _ e stride _ _ base elem => e.elementCode ++ ⟨stride, base, elem⟩ :: elem.elementCode
  | .record _ fs => fieldElementCode fs
  | .tuple es | .steps es => allElementCode es
  | .whenTag _ _ _ yes no => yes.elementCode ++ no.elementCode

def allElementCode : List Expr → List ElementCode
  | [] => []
  | e :: es => e.elementCode ++ allElementCode es

def fieldElementCode : List (Bytes × Expr) → List ElementCode
  | [] => []
  | (_, e) :: fs => e.elementCode ++ fieldElementCode fs

end

end Expr

/-- The code for the elements of lists in a statement. -/
def Stmt.elementCode : Stmt → List ElementCode
  | .encodeString _ _ v => v.elementCode
  | .lowerList _ _ v stride _ _ base elem => v.elementCode ++ ⟨stride, base, elem⟩ :: elem.elementCode

end Bindery.Glue

namespace Bindery.Shape

mutual

/-- The element types of the lists in a type, and inside those elements. -/
def elements : Shape → List Shape
  | .blank | .prim _ | .string | .errorContext | .enum _ _ | .flags _ _ => []
  | .alias _ t => t.elements
  | .record _ fs => namedElements fs
  | .variant _ cs => namedElements cs
  | .list t => t :: t.elements
  | .option t => t.elements
  | .result ok err => ok.elements ++ err.elements
  | .tuple ts => allElements ts

def namedElements : List (Bytes × Shape) → List Shape
  | [] => []
  | (_, t) :: fs => t.elements ++ namedElements fs

def allElements : List Shape → List Shape
  | [] => []
  | t :: ts => t.elements ++ allElements ts

end

mutual

/-- Where in a value its sets of flags without members lie. -/
def memberless : Shape → List Nat
  | .blank | .prim _ | .string | .errorContext | .enum _ _ | .list _ => []
  | .alias _ t => t.memberless
  | .record _ fs => memberlessFields fs (Extent.offsetsFrom 0 (namedExtents fs))
  | .flags _ fs => if fs.isEmpty then [0] else []
  | .variant _ cs => memberlessCases cs (Extent.payloadOffset (namedExtents cs))
  | .option t => t.memberless.map (Extent.payloadOffset (optionExtents t) + ·)
  | .result ok err =>
    ok.memberless.map (Extent.payloadOffset (resultExtents ok err) + ·)
      ++ err.memberless.map (Extent.payloadOffset (resultExtents ok err) + ·)
  | .tuple ts => memberlessItems ts (Extent.offsetsFrom 0 (extents ts))

def memberlessFields : List (Bytes × Shape) → List Nat → List Nat
  | (_, t) :: fs, off :: offs => t.memberless.map (off + ·) ++ memberlessFields fs offs
  | _, _ => []

def memberlessItems : List Shape → List Nat → List Nat
  | t :: ts, off :: offs => t.memberless.map (off + ·) ++ memberlessItems ts offs
  | _, _ => []

def memberlessCases : List (Bytes × Shape) → Nat → List Nat
  | [], _ => []
  | (_, t) :: cs, off => t.memberless.map (off + ·) ++ memberlessCases cs off

end

end Bindery.Shape

namespace Bindery.Glue

/-! ## Places -/

/-- `q` is the place `o` octets behind `p`. -/
def Place.Behind (q p : Place) (o : Nat) : Prop :=
  q.base = p.base ∧ ∃ steps, q.steps = p.steps ++ steps ∧ (steps.map UInt32.toNat).sum = o

namespace Place

theorem behind_self (p : Place) : p.Behind p 0 := ⟨rfl, [], by simp, rfl⟩

theorem behind_plus (p : Place) (off : UInt32) : (p.plus off).Behind p off.toNat := by
  unfold plus
  split
  · rename_i h
    rw [h]
    exact behind_self p
  · exact ⟨rfl, [off], rfl, by simp⟩

theorem Behind.trans {p q r : Place} {m n : Nat} (h : r.Behind q n) (h' : q.Behind p m) :
    r.Behind p (m + n) := by
  obtain ⟨hb, steps, hs, rfl⟩ := h
  obtain ⟨hb', steps', hs', rfl⟩ := h'
  exact ⟨hb.trans hb', steps' ++ steps, by rw [hs, hs', List.append_assoc], by simp⟩

/-- A place is behind another by one number of octets only. -/
theorem Behind.unique {p q : Place} {m n : Nat} (h : q.Behind p m) (h' : q.Behind p n) : m = n := by
  obtain ⟨-, steps, hs, rfl⟩ := h
  obtain ⟨-, steps', hs', rfl⟩ := h'
  rw [List.append_cancel_left (hs.symm.trans hs')]

end Place

/-! ## Accesses inside a value -/

namespace Access

/-- The access touches no octet outside the first `size` behind `p`, and stands at a
multiple of its width. -/
def Within (a : Access) (p : Place) (size : Nat) : Prop :=
  ∃ o, a.place.Behind p o ∧ o + a.kind.width ≤ size ∧ a.kind.width ∣ o

/-- The access lies in a value of the extent `x` at `p` as a member would. -/
def Inside (a : Access) (p : Place) (x : Extent) : Prop :=
  ∃ o, a.place.Behind p o ∧ x.Holds ⟨a.kind.width, a.kind.width⟩ o

/-- The access is one of a word `o` octets behind `p`. -/
def IsWordAt (a : Access) (p : Place) (o : Nat) : Prop := a.kind = .u32 ∧ a.place.Behind p o

end Access

end Bindery.Glue

namespace Bindery.Extent

/-- A member of a member is a member of the whole. -/
theorem Holds.trans {whole m k : Extent} {off o : Nat} (h : whole.Holds m off) (h' : m.Holds k o) :
    whole.Holds k (off + o) where
  room := by
    have := h.room
    have := h'.room
    omega
  aligned := Nat.dvd_add (Nat.dvd_trans h'.kept h.aligned) h'.aligned
  kept := Nat.dvd_trans h'.kept h.kept

end Bindery.Extent

namespace Bindery.Glue

/-- Every access lies inside the value, but for one of a word at each of the places
`bare`. -/
structure Cover (as : List Access) (p : Place) (x : Extent) (bare : List Nat) : Prop where
  inside : ∀ a ∈ as, a.Inside p x ∨ ∃ o ∈ bare, a.IsWordAt p o
  words : ∀ o ∈ bare, ∃ a ∈ as, a.IsWordAt p o

namespace Cover

theorem nil {p : Place} {x : Extent} : Cover [] p x [] := ⟨by simp, by simp⟩

theorem append {as as' : List Access} {p : Place} {x : Extent} {bare bare' : List Nat}
    (h : Cover as p x bare) (h' : Cover as' p x bare') : Cover (as ++ as') p x (bare ++ bare') where
  inside a ha := by
    rcases List.mem_append.1 ha with ha | ha
    · exact (h.inside a ha).imp_right fun ⟨o, ho, hw⟩ => ⟨o, List.mem_append_left _ ho, hw⟩
    · exact (h'.inside a ha).imp_right fun ⟨o, ho, hw⟩ => ⟨o, List.mem_append_right _ ho, hw⟩
  words o ho := by
    rcases List.mem_append.1 ho with ho | ho
    · obtain ⟨a, ha, hw⟩ := h.words o ho
      exact ⟨a, List.mem_append_left _ ha, hw⟩
    · obtain ⟨a, ha, hw⟩ := h'.words o ho
      exact ⟨a, List.mem_append_right _ ha, hw⟩

/-- What covers a member covers the whole, its places counted from the whole's start. -/
theorem shift {as : List Access} {p : Place} {off : UInt32} {x whole : Extent} {bare : List Nat}
    (h : Cover as (p.plus off) x bare) (hx : whole.Holds x off.toNat) :
    Cover as p whole (bare.map (off.toNat + ·)) where
  inside a ha := by
    rcases h.inside a ha with ⟨o, hb, hholds⟩ | ⟨o, ho, hkind, hb⟩
    · exact .inl ⟨_, hb.trans (Place.behind_plus p off), hx.trans hholds⟩
    · exact .inr ⟨_, List.mem_map_of_mem ho, hkind, hb.trans (Place.behind_plus p off)⟩
  words o ho := by
    obtain ⟨o', ho', rfl⟩ := List.mem_map.1 ho
    obtain ⟨a, ha, hkind, hb⟩ := h.words o' ho'
    exact ⟨a, ha, hkind, hb.trans (Place.behind_plus p off)⟩

theorem single {a : Access} {p : Place} {x : Extent} (h : a.Inside p x) : Cover [a] p x [] where
  inside a' ha' := by
    rw [List.mem_singleton.1 ha']
    exact .inl h
  words := by simp

/-- An access at the start of a value. -/
theorem start {k : MemKind} {p : Place} {x : Extent} (h : x.Holds ⟨k.width, k.width⟩ 0) :
    Cover [⟨k, p⟩] p x [] := single ⟨0, Place.behind_self p, h⟩

/-- A pointer and a length fill a value of eight octets. -/
theorem slice (p : Place) : Cover (Access.slice p) p ⟨8, 4⟩ [] := by
  have hptr : Extent.Holds ⟨8, 4⟩ ⟨4, 4⟩ 0 := ⟨by decide, by decide, by decide⟩
  have hlen : Extent.Holds ⟨8, 4⟩ ⟨4, 4⟩ 4 := ⟨by decide, by decide, by decide⟩
  exact (start hptr).append (single ⟨4, Place.behind_plus p 4, hlen⟩)

/-- Accesses that add nothing but some inside the value. -/
theorem extend {as as' : List Access} {p : Place} {x : Extent} {bare : List Nat} (h : Cover as p x bare)
    (hold : ∀ a ∈ as, a ∈ as') (hnew : ∀ a ∈ as', a ∈ as ∨ a.Inside p x) : Cover as' p x bare where
  inside a ha := by
    rcases hnew a ha with ha | ha
    · exact h.inside a ha
    · exact .inl ha
  words o ho := by
    obtain ⟨a, ha, hw⟩ := h.words o ho
    exact ⟨a, hold a ha, hw⟩

/-- All accesses stay within the value exactly when those of flags without members do. -/
theorem within_iff {as : List Access} {p : Place} {x : Extent} {bare : List Nat}
    (h : Cover as p x bare) :
    (∀ a ∈ as, a.Within p x.size) ↔ ∀ o ∈ bare, o + 4 ≤ x.size ∧ 4 ∣ o := by
  constructor
  · intro hall o ho
    obtain ⟨a, ha, hkind, hb⟩ := h.words o ho
    obtain ⟨o', hb', hroom, hdvd⟩ := hall a ha
    rw [hkind] at hroom hdvd
    rw [hb.unique hb']
    exact ⟨hroom, hdvd⟩
  · intro hbare a ha
    rcases h.inside a ha with ⟨o, hb, hholds⟩ | ⟨o, ho, hkind, hb⟩
    · exact ⟨o, hb, hholds.room, hholds.aligned⟩
    · refine ⟨o, hb, ?_⟩
      rw [hkind]
      exact hbare o ho

end Cover

end Bindery.Glue
