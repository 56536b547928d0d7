/-
Payloads laid over each other. A core number can carry the bits of another as `Carries`
says, which is a partial order, and `CoreType.join` is its least upper bound. A list of core
numbers is read slot by slot, with nothing at all below every type; overlaying then is the
least upper bound in each slot (`slot_overlay`), for lists of any lengths, and so is overlaying
all payloads of a variant (`slot_overlayAll_le_iff`). That settles how a variant is flattened,
in whatever order and however often its cases stand (`variant_flat_least`).
-/
import Bindery.Canonical.Flat
import Mathlib.Order.WithBot
import Mathlib.Order.Bounds.Basic

namespace Bindery

namespace CoreType

/-! ## What can carry what -/

/-- A number of the first type can carry the bits of one of the second: the types are the same, or
a float of 32 bits stands in an integer of as many, or the first has 64 bits for anything. -/
def Carries (a b : CoreType) : Prop := a = b ∨ (a = .i32 ∧ b = .f32) ∨ a = .i64

instance (a b : CoreType) : Decidable (a.Carries b) :=
  inferInstanceAs (Decidable (a = b ∨ (a = .i32 ∧ b = .f32) ∨ a = .i64))

/-- Types are ordered by what can carry them, and joined as payloads are. -/
instance : SemilatticeSup CoreType where
  le a b := b.Carries a
  sup := join
  le_refl a := .inl rfl
  le_trans a b c := by cases a <;> cases b <;> cases c <;> decide
  le_antisymm a b := by cases a <;> cases b <;> decide
  le_sup_left a b := by cases a <;> cases b <;> decide
  le_sup_right a b := by cases a <;> cases b <;> decide
  sup_le a b c := by cases a <;> cases b <;> cases c <;> decide

/-! ## Slots -/

/-- What stands in a slot of a list, `⊥` behind its end. -/
def slot (p : List CoreType) (k : Nat) : WithBot CoreType :=
  match p[k]? with
  | some a => a
  | none => ⊥

theorem slot_eq_coe {p : List CoreType} {k : Nat} {a : CoreType} : slot p k = a ↔ p[k]? = some a := by
  unfold slot
  cases p[k]? with
  | none => simp
  | some b => simp

/-- A list is what stands in its slots. -/
theorem eq_of_slot {p q : List CoreType} (h : ∀ k, slot p k = slot q k) : p = q := by
  refine List.ext_getElem? fun k => Option.ext fun a => ?_
  rw [← slot_eq_coe, ← slot_eq_coe, h k]

theorem slot_overlay : ∀ (p q : List CoreType) (k : Nat), slot (overlay p q) k = slot p k ⊔ slot q k
  | [], q, k => by
    rw [overlay]
    exact (bot_sup_eq _).symm
  | a :: p, [], k => by
    rw [overlay]
    · exact (sup_bot_eq _).symm
    · simp
  | a :: p, b :: q, 0 => by
    rw [overlay]
    rfl
  | a :: p, b :: q, k + 1 => by
    rw [overlay]
    exact slot_overlay p q k

theorem slot_foldl_overlay_le_iff {x : WithBot CoreType} {k : Nat} : ∀ {ps : List (List CoreType)} {p : List CoreType},
    slot (ps.foldl overlay p) k ≤ x ↔ slot p k ≤ x ∧ ∀ q ∈ ps, slot q k ≤ x
  | [], p => by simp
  | q :: ps, p => by
    rw [List.foldl_cons, slot_foldl_overlay_le_iff, slot_overlay, sup_le_iff, List.forall_mem_cons, and_assoc]

/-- **A slot of overlaid payloads is the least upper bound** of what they have there. -/
theorem slot_overlayAll_le_iff {ps : List (List CoreType)} {x : WithBot CoreType} {k : Nat} :
    slot (overlayAll ps) k ≤ x ↔ ∀ p ∈ ps, slot p k ≤ x := by
  rw [overlayAll, slot_foldl_overlay_le_iff]
  exact and_iff_right bot_le

/-- Payloads may stand in any order and any number of times. -/
theorem overlayAll_congr {ps qs : List (List CoreType)} (h : ∀ p, p ∈ ps ↔ p ∈ qs) : overlayAll ps = overlayAll qs :=
  eq_of_slot fun k => eq_of_forall_ge_iff fun x => by simp only [slot_overlayAll_le_iff, h]

theorem length_overlay : ∀ p q : List CoreType, (overlay p q).length = max p.length q.length
  | [], q => by rw [overlay, List.length_nil, Nat.zero_max]
  | a :: p, [] => by
    rw [overlay, List.length_nil, Nat.max_zero]
    simp
  | a :: p, b :: q => by
    rw [overlay, List.length_cons, List.length_cons, List.length_cons, length_overlay p q, Nat.succ_max_succ]

theorem length_foldl_overlay : ∀ (ps : List (List CoreType)) (p : List CoreType),
    (ps.foldl overlay p).length = (ps.map List.length).foldl max p.length
  | [], _ => rfl
  | q :: ps, p => by
    rw [List.foldl_cons, length_foldl_overlay ps, length_overlay, List.map_cons, List.foldl_cons]

theorem slot_le_coe_iff {p : List CoreType} {k : Nat} {t : CoreType} :
    slot p k ≤ t ↔ ∀ a, p[k]? = some a → t.Carries a := by
  simp only [← slot_eq_coe]
  cases slot p k with
  | bot => simp
  | coe b =>
    simp only [WithBot.coe_inj, forall_eq']
    exact WithBot.coe_le_coe

theorem exists_of_slot_overlayAll {ps : List (List CoreType)} {k : Nat} {s : CoreType}
    (h : (overlayAll ps)[k]? = some s) : ∃ p ∈ ps, ∃ a, p[k]? = some a := by
  by_contra hnone
  have hbot : slot (overlayAll ps) k ≤ ⊥ := by
    refine slot_overlayAll_le_iff.2 fun p hp => ?_
    unfold slot
    cases hk : p[k]? with
    | none => exact le_rfl
    | some a => exact absurd ⟨p, hp, a, hk⟩ hnone
  rw [slot_eq_coe.2 h] at hbot
  exact WithBot.coe_ne_bot (le_bot_iff.1 hbot)

end CoreType

namespace Shape

open CoreType

theorem namedFlats_eq (cs : List (Bytes × Shape)) : namedFlats cs = cs.map fun c => c.2.flat := by
  induction cs with
  | nil => rfl
  | cons c cs ih => rw [namedFlats, ih, List.map_cons]

/-- **A variant is flattened to its tag and the least upper bound of its cases in each slot.** As
many slots follow the tag as the longest case has, and neither the order of the cases nor their
number counts. The type in a slot can carry what each case has there, every type that can do so
can carry it, and when all cases that reach the slot have one type there it is that type. A
result is flattened as the variant of its two payloads, an option as that of nothing and its value. -/
theorem variant_flat_least (n : Bytes) (cs : List (Bytes × Shape)) :
    (Shape.variant n cs).flat = .i32 :: overlayAll (cs.map fun c => c.2.flat) ∧
    (overlayAll (cs.map fun c => c.2.flat)).length = (cs.map fun c => c.2.flat.length).foldl max 0 ∧
    (∀ n' cs', (∀ p, p ∈ cs'.map (fun c => c.2.flat) ↔ p ∈ cs.map fun c => c.2.flat) →
      (Shape.variant n' cs').flat = (Shape.variant n cs).flat) ∧
    (∀ (k : Nat) (s : CoreType), (overlayAll (cs.map fun c => c.2.flat))[k]? = some s →
      (∀ c ∈ cs, ∀ a, c.2.flat[k]? = some a → s.Carries a) ∧
      (∀ t : CoreType, (∀ c ∈ cs, ∀ a, c.2.flat[k]? = some a → t.Carries a) → t.Carries s) ∧
      ∀ a, (∀ c ∈ cs, ∀ b, c.2.flat[k]? = some b → b = a) → s = a) ∧
    (∀ (okName errName : Bytes) (ok err : Shape),
      (Shape.result ok err).flat = (Shape.variant n [(okName, ok), (errName, err)]).flat) ∧
    ∀ (noneName someName : Bytes) (t : Shape),
      (Shape.option t).flat = (Shape.variant n [(noneName, .blank), (someName, t)]).flat := by
  have hflat : ∀ n cs, (Shape.variant n cs).flat = .i32 :: overlayAll (cs.map fun c => c.2.flat) := by
    intro n cs
    rw [flat, namedFlats_eq]
  refine ⟨hflat n cs, ?_, fun n' cs' hsame => ?_, fun k s hs => ?_, fun _ _ ok err => ?_, fun _ _ t => ?_⟩
  · rw [overlayAll, length_foldl_overlay, List.map_map]
    rfl
  · rw [hflat, hflat, overlayAll_congr hsame]
  · have hbound : ∀ t : CoreType, t.Carries s ↔ ∀ c ∈ cs, ∀ a, c.2.flat[k]? = some a → t.Carries a := by
      intro t
      have hle : slot (overlayAll (cs.map fun c => c.2.flat)) k ≤ (t : WithBot CoreType) ↔ _ :=
        slot_overlayAll_le_iff
      rw [slot_eq_coe.2 hs, WithBot.coe_le_coe, List.forall_mem_map] at hle
      simp only [slot_le_coe_iff] at hle
      exact hle
    refine ⟨(hbound s).1 (.inl rfl), fun t => (hbound t).2, fun a ha => ?_⟩
    obtain ⟨p, hp, b, hb⟩ := exists_of_slot_overlayAll hs
    obtain ⟨c, hc, rfl⟩ := List.mem_map.1 hp
    have hcarried : a.Carries s := (hbound a).2 fun c hc b hb => .inl (ha c hc b hb).symm
    have hcarries : s.Carries a := ha c hc b hb ▸ (hbound s).1 (.inl rfl) c hc b hb
    exact le_antisymm hcarried hcarries
  · rw [hflat, flat]
    rfl
  · rw [hflat, flat]
    simp [overlayAll, overlay, flat]

/-- A float, a big number with a float behind it, and nothing; then in another order, one twice. -/
theorem variant_flat_least_number :
    (Shape.variant (utf8 "number") [(utf8 "small", .prim .f32), (utf8 "big", .tuple [.prim .s64, .prim .f32]),
      (utf8 "none", .blank)]).flat = [.i32, .i64, .f32] ∧
    (Shape.variant (utf8 "c") [(utf8 "c0", .blank), (utf8 "c1", .tuple [.prim .s64, .prim .f32]),
      (utf8 "c2", .prim .f32), (utf8 "c3", .blank)]).flat = [.i32, .i64, .f32] := by
  obtain ⟨hflat, -, hsame, -⟩ := variant_flat_least (utf8 "number")
    [(utf8 "small", .prim .f32), (utf8 "big", .tuple [.prim .s64, .prim .f32]), (utf8 "none", .blank)]
  refine ⟨hflat, (hsame _ _ fun p => ?_).trans hflat⟩
  simp only [List.map_cons, List.map_nil, List.mem_cons, List.not_mem_nil, or_false]
  tauto

end Shape

end Bindery
