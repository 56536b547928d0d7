/-
The names that code makes up. One counter numbers all of them, over the four recursions that
write the code of one function, so the code binds each number once (`Takes`; `store_takes`,
`load_takes`, `lower_takes`, `lift_takes`). A name that was made up is a letter and then a number.
No variable of a body ends so, and the parameters that are numbered by position have a stem of their
own. A parameter in snake case has an underscore between a letter and the digit behind it
(`CaseStyle.isChain_snake`), whatever it is called in the interface.

Main statement: nothing that is made up hides a parameter, a variable of the body or anything else
that is made up (`temporaries_apart`).
-/
import Bindery.Proofs.CaseStyle
import Bindery.Proofs.Glue.Shadowing
import Mathlib.Data.List.Chain
import Mathlib.Data.List.Perm.Basic

namespace Bindery

/-! ## Snake case -/

namespace CaseStyle

/-- Not a letter and then a digit. -/
def Parted (a b : UInt8) : Prop := Byte.isLetter a = true → ¬Byte.isDigit b = true

theorem parted_underscore (b : UInt8) : Parted 95 b := fun h => absurd h (by decide)

/-- The case of an octet does not make it a digit or a letter. -/
theorem snakePlain_class (b : UInt8) :
    (Byte.isDigit (snakePlain b) = true → Byte.isDigit b = true) ∧
      (Byte.isLetter (snakePlain b) = true → Byte.isLetter b = true) :=
  Byte.forall_octets (P := fun b =>
    (Byte.isDigit (snakePlain b) = true → Byte.isDigit b = true) ∧
      (Byte.isLetter (snakePlain b) = true → Byte.isLetter b = true)) (by decide +kernel) b

/-- What is written for an octet starts with a digit only for a digit. -/
theorem isDigit_of_head_snakeFrom {afterUpper : Bool} {b c : UInt8} {s : Bytes}
    (hc : c ∈ (snakeFrom afterUpper (b :: s)).head?) (hdigit : Byte.isDigit c = true) : Byte.isDigit b = true := by
  obtain ⟨front, back, -, -, hsnake⟩ := snakeFrom_cons afterUpper b s
  rw [hsnake] at hc
  cases front with
  | true =>
    obtain rfl : (95 : UInt8) = c := by simpa [gap] using hc
    exact absurd hdigit (by decide)
  | false =>
    obtain rfl : snakePlain b = c := by simpa [gap] using hc
    exact (snakePlain_class b).1 hdigit

theorem isChain_snakeFrom : ∀ (s : Bytes) (afterUpper : Bool), (snakeFrom afterUpper s).IsChain Parted
  | [], _ => by simp [snakeFrom]
  | [b], _ => by simp [snakeFrom]
  | b :: next :: s, afterUpper => by
    have hrest := isChain_snakeFrom (next :: s) (Byte.isUpper b)
    have hnext : ∀ c ∈ (snakeFrom (Byte.isUpper b) (next :: s)).head?, Byte.isDigit c = true → Byte.isDigit next = true :=
      fun c hc => isDigit_of_head_snakeFrom hc
    rw [snakeFrom]
    split
    · -- the last of the three parts is there whenever a digit follows
      rename_i hclass
      have hbehind : ((if Byte.isLower b || Byte.isDigit b || Byte.isDigit next then [95] else [])
          ++ snakeFrom (Byte.isUpper b) (next :: s)).IsChain Parted ∧
          ∀ c ∈ ((if Byte.isLower b || Byte.isDigit b || Byte.isDigit next then [95] else [])
            ++ snakeFrom (Byte.isUpper b) (next :: s)).head?, ¬Byte.isDigit c = true := by
        split
        · refine ⟨List.isChain_cons.2 ⟨fun c _ => parted_underscore c, hrest⟩, ?_⟩
          simp only [List.cons_append, List.head?_cons, Option.mem_def, Option.some.injEq, forall_eq']
          decide
        · rename_i hnone
          refine ⟨hrest, fun c hc hdigit => hnone ?_⟩
          rw [hnext c hc hdigit, Bool.or_true]
      have hletter : (Byte.lower b :: ((if Byte.isLower b || Byte.isDigit b || Byte.isDigit next then [95] else [])
          ++ snakeFrom (Byte.isUpper b) (next :: s))).IsChain Parted :=
        List.isChain_cons.2 ⟨fun c hc _ => hbehind.2 c hc, hbehind.1⟩
      simp only [List.append_assoc, List.singleton_append]
      split
      · exact List.isChain_cons.2 ⟨fun c _ => parted_underscore c, hletter⟩
      · exact hletter
    · rename_i hclass
      refine List.isChain_cons.2 ⟨fun c hc hletter hdigit => hclass ?_, hrest⟩
      have hb := (snakePlain_class b).2 hletter
      have hn := hnext c hc hdigit
      simp only [Byte.isLetter, Bool.or_eq_true] at hb
      rcases hb with hb | hb <;> simp [changesClass, hb, hn]

/-- **In snake case no digit follows a letter.** -/
theorem isChain_snake (s : Bytes) : (snake s).IsChain Parted := isChain_snakeFrom _ _

end CaseStyle

namespace Glue

open Emit

/-! ## Names that are made up -/

/-- The letters that made up names start with. -/
def stems : List Bytes := fixed ["e", "base", "ptr", "len"]

/-- A name that is made up when the counter stands at `k`. -/
def IsTemporary (n : Bytes) (k : Nat) : Prop := ∃ stem ∈ stems, n = stem ++ Bytes.decimal k

namespace IsTemporary

variable {n : Bytes} {k k' : Nat}

theorem numbered (h : IsTemporary n k) : Numbered n := by
  obtain ⟨stem, -, rfl⟩ := h
  exact ⟨stem, k, rfl⟩

/-- The digits at the end of a name. -/
theorem number_eq (h : IsTemporary n k) : n.reverse.takeWhile Byte.isDigit = (Bytes.decimal k).reverse := by
  obtain ⟨stem, hstem, rfl⟩ := h
  have hletter : stem.reverse.takeWhile Byte.isDigit = [] :=
    (show ∀ stem ∈ stems, stem.reverse.takeWhile Byte.isDigit = [] by decide) stem hstem
  rw [List.reverse_append, List.takeWhile_append_of_pos, hletter, List.append_nil]
  exact fun b hb => Bytes.isDigit_of_mem_decimal (List.mem_reverse.1 hb)

theorem unique (h : IsTemporary n k) (h' : IsTemporary n k') : k = k' :=
  Bytes.decimal_injective (List.reverse_injective (h.number_eq.symm.trans h'.number_eq))

/-- Parameters numbered by their position have another stem. -/
theorem ne_paramName (h : IsTemporary n k) (i : Nat) : n ≠ paramName i := by
  obtain ⟨stem, hstem, rfl⟩ := h
  have hother : ∀ stem ∈ stems, stem ≠ [] ∧ stem.head? ≠ some 97 := by decide
  obtain ⟨hne, hhead⟩ := hother stem hstem
  intro heq
  have hsame : (stem ++ Bytes.decimal k).head? = stem.head? := List.head?_append_of_ne_nil stem hne
  refine hhead ?_
  rw [← hsame, heq]
  rfl

/-- A name in snake case has no digit behind a letter. -/
theorem ne_snake (h : IsTemporary n k) (s : Bytes) : n ≠ CaseStyle.snake s := by
  obtain ⟨stem, hstem, rfl⟩ := h
  intro heq
  have hchain := CaseStyle.isChain_snake s
  rw [← heq, List.isChain_append] at hchain
  have hletter : ∀ stem ∈ stems, ∃ a ∈ stem.getLast?, Byte.isLetter a = true := by decide
  obtain ⟨a, ha, hletter⟩ := hletter stem hstem
  obtain ⟨d, hd⟩ := Option.ne_none_iff_exists'.1 (mt List.head?_eq_none_iff.1 (Bytes.decimal_ne_nil k))
  exact hchain.2.2 a ha d hd hletter (Bytes.isDigit_of_mem_decimal (List.mem_of_head? hd))

end IsTemporary

/-- The names take the numbers from `lo` up to `hi`, each of them once. -/
def Takes (lo hi : Nat) (ns : List Bytes) : Prop :=
  lo ≤ hi ∧ ∃ ks : List Nat, ks.Perm (List.range' lo (hi - lo)) ∧ List.Forall₂ IsTemporary ns ks

namespace Takes

variable {lo mid hi : Nat} {ns ms : List Bytes}

theorem nil (k : Nat) : Takes k k [] := ⟨Nat.le_refl k, [], by simp, .nil⟩

theorem one {stem : Bytes} (hstem : stem ∈ stems) (k : Nat) : Takes k (k + 1) [stem ++ Bytes.decimal k] :=
  ⟨Nat.le_succ k, [k], by simp, .cons ⟨stem, hstem, rfl⟩ .nil⟩

theorem append (h : Takes lo mid ns) (h' : Takes mid hi ms) : Takes lo hi (ns ++ ms) := by
  obtain ⟨hle, ks, hks, hns⟩ := h
  obtain ⟨hle', ks', hks', hms⟩ := h'
  refine ⟨Nat.le_trans hle hle', ks ++ ks', ?_, List.rel_append hns hms⟩
  have hrange : List.range' lo (hi - lo) = List.range' lo (mid - lo) ++ List.range' mid (hi - mid) := by
    obtain ⟨a, rfl⟩ := Nat.exists_eq_add_of_le hle
    obtain ⟨b, rfl⟩ := Nat.exists_eq_add_of_le hle'
    rw [Nat.add_sub_cancel_left, Nat.add_sub_cancel_left, List.range'_append_1]
    congr 1
    omega
  rw [hrange]
  exact hks.append hks'

/-- A name that is made up before others. -/
theorem bind {stem : Bytes} (h : Takes (lo + 1) hi ns) (hstem : stem ∈ stems) :
    Takes lo hi ((stem ++ Bytes.decimal lo) :: ns) := (one hstem lo).append h

theorem perm (h : Takes lo hi ns) (hperm : ns.Perm ms) : Takes lo hi ms := by
  obtain ⟨hle, ks, hks, hns⟩ := h
  obtain ⟨ks', hms, hks'⟩ := List.perm_comp_forall₂ hperm.symm hns
  exact ⟨hle, ks', hks'.trans hks, hms⟩

theorem isTemporary (h : Takes lo hi ns) {n : Bytes} (hn : n ∈ ns) : ∃ k, IsTemporary n k := by
  obtain ⟨-, ks, -, hns⟩ := h
  obtain ⟨k, -, hk⟩ := exists_of_mem_forall₂ hns.flip hn
  exact ⟨k, hk⟩

/-- Names with numbers of their own are different. -/
theorem nodup (h : Takes lo hi ns) : ns.Nodup := by
  obtain ⟨-, ks, hks, hns⟩ := h
  have hnodup : ks.Nodup := hks.nodup_iff.2 (List.nodup_range' 1)
  clear hks
  induction hns with
  | nil => exact List.nodup_nil
  | @cons n k ns ks hn hns ih =>
    obtain ⟨hk, hks⟩ := List.nodup_cons.1 hnodup
    refine List.nodup_cons.2 ⟨fun hmem => hk ?_, ih hks⟩
    obtain ⟨k', hk', hn'⟩ := exists_of_mem_forall₂ hns.flip hmem
    exact hn.unique hn' ▸ hk'

theorem length_eq (h : Takes lo hi ns) : ns.length = hi - lo := by
  obtain ⟨-, ks, hks, hns⟩ := h
  rw [hns.length_eq, hks.length_eq, List.length_range']

end Takes

/-- A step that queues nothing and binds each name that it makes up once. -/
def TakesNames (s : EmitState) (binders : List Bytes) (s' : EmitState) : Prop :=
  Takes s.next s'.next binders ∧ s'.stmts = s.stmts

namespace TakesNames

variable {s s' s'' : EmitState} {ns ms : List Bytes}

theorem nil (s : EmitState) : TakesNames s [] s := ⟨.nil _, rfl⟩

theorem append (h : TakesNames s ns s') (h' : TakesNames s' ms s'') : TakesNames s (ns ++ ms) s'' :=
  ⟨h.1.append h'.1, h'.2.trans h.2⟩

/-- A name that is made up before others. -/
theorem bind {stem : Bytes} (h : TakesNames { s with next := s.next + 1 } ns s') (hstem : stem ∈ stems) :
    TakesNames s ((stem ++ Bytes.decimal s.next) :: ns) s' := ⟨h.1.bind hstem, h.2⟩

end TakesNames

theorem base_mem_stems : utf8 "base" ∈ stems := by decide

theorem item_mem_stems : utf8 "e" ∈ stems := by decide

/-! ## Reading from memory -/

mutual

theorem load_takes : ∀ (t : Shape) (p : Place) (s : EmitState),
    Ends (load t p) s (fun e => TakesNames s e.binders) fun _ => True
  | .blank, p, s | .errorContext, p, s => by
    rw [load]
    · exact ends_throw trivial
    all_goals simp
  | .alias _ t, p, s => by
    rw [load]
    exact load_takes t p s
  | .prim _, p, s | .string, p, s | .enum _ _, p, s => by
    rw [load]
    exact ends_pure (by simpa only [Expr.binders] using .nil s)
  | .record n fs, p, s => by
    rw [load]
    refine ends_bind (loadFields_takes fs _ p s) fun es s' h => ends_pure ?_
    simpa only [Expr.binders] using h
  | .tuple ts, p, s => by
    rw [load]
    refine ends_bind (loadItems_takes ts _ p s) fun es s' h => ends_pure ?_
    simpa only [Expr.binders] using h
  | .flags n fs, p, s => by
    rw [load]
    split
    · exact ends_throw trivial
    · exact ends_pure (by simpa only [Expr.binders] using .nil s)
  | .list t, p, s => by
    rw [load]
    refine ends_fresh (ends_bind (load_takes t _ _) fun e s' h => ends_pure ?_)
    rw [Expr.binders]
    exact h.bind base_mem_stems
  | .option t, p, s => by
    rw [load]
    refine ends_bind (load_takes t _ s) fun e s' h => ends_pure ?_
    simpa only [Expr.binders, List.nil_append] using h
  | .result ok err, p, s => by
    rw [load_result]
    have hnull : ∀ s, TakesNames s Expr.null.binders s := fun s => by simpa only [Expr.binders] using .nil s
    refine ends_bind (ends_loadPayload (fun _ => hnull s) (load_takes ok _ s)) fun e s₁ he => ?_
    refine ends_bind (ends_loadPayload (fun _ => hnull s₁) (load_takes err _ s₁)) fun e' s₂ he' => ends_pure ?_
    simpa only [Expr.binders] using he.append he'
  | .variant n [], p, s => by
    rw [load_variant_nil]
    exact ends_throw trivial
  | .variant n (c :: cs), p, s => by
    rw [load_variant n (by simp)]
    refine ends_bind (loadCases_takes n (c :: cs) _ s) fun es s' h => ends_pure ?_
    rwa [binders_choose]

theorem loadFields_takes : ∀ (fs : List (Bytes × Shape)) (offs : List UInt32) (p : Place) (s : EmitState),
    Ends (loadFields fs offs p) s (fun es => TakesNames s (Expr.fieldBinders es)) fun _ => True
  | [], _, p, s | _ :: _, [], p, s => by
    rw [loadFields]
    · exact ends_pure (by simpa only [Expr.fieldBinders] using .nil s)
    · simp
  | (n, t) :: fs, off :: offs, p, s => by
    rw [loadFields]
    refine ends_bind (load_takes t _ s) fun e s₁ he => ?_
    refine ends_bind (loadFields_takes fs offs p s₁) fun es s₂ hes => ends_pure ?_
    rw [Expr.fieldBinders]
    exact he.append hes

theorem loadItems_takes : ∀ (ts : List Shape) (offs : List UInt32) (p : Place) (s : EmitState),
    Ends (loadItems ts offs p) s (fun es => TakesNames s (Expr.allBinders es)) fun _ => True
  | [], _, p, s | _ :: _, [], p, s => by
    rw [loadItems]
    · exact ends_pure (by simpa only [Expr.allBinders] using .nil s)
    · simp
  | t :: ts, off :: offs, p, s => by
    rw [loadItems]
    refine ends_bind (load_takes t _ s) fun e s₁ he => ?_
    refine ends_bind (loadItems_takes ts offs p s₁) fun es s₂ hes => ends_pure ?_
    rw [Expr.allBinders]
    exact he.append hes

theorem loadCases_takes (type : Bytes) : ∀ (cs : List (Bytes × Shape)) (p : Place) (s : EmitState),
    Ends (loadCases type cs p) s (fun es => TakesNames s (Expr.allBinders es)) fun _ => True
  | [], p, s => by
    rw [loadCases]
    exact ends_pure (by simpa only [Expr.allBinders] using .nil s)
  | (c, t) :: cs, p, s => by
    rw [loadCases_cons]
    have hcase : Ends (loadCase type c t p) s (fun e => TakesNames s e.binders) fun _ => True := by
      refine ends_loadCase (fun _ => ?_) ((load_takes t p s).mono fun e s' h => ?_)
      · simpa only [Expr.binders] using .nil s
      · simpa only [Expr.binders] using h
    refine ends_bind hcase fun e s₁ he => ?_
    refine ends_bind (loadCases_takes type cs p s₁) fun es s₂ hes => ends_pure ?_
    rw [Expr.allBinders]
    exact he.append hes

end

/-! ## Writing to memory -/

mutual

theorem store_takes : ∀ (t : Shape) (v : Expr) (p : Place) (s : EmitState), v.binders = [] →
    Ends (store t v p) s (fun e => TakesNames s e.binders) fun _ => True
  | .blank, v, p, s, _ | .errorContext, v, p, s, _ | .option _, v, p, s, _ | .result _ _, v, p, s, _
  | .variant _ _, v, p, s, _ => by
    rw [store]
    · exact ends_throw trivial
    all_goals simp
  | .alias _ t, v, p, s, hv => by
    rw [store]
    exact store_takes t v p s hv
  | .prim _, v, p, s, hv | .string, v, p, s, hv | .enum _ _, v, p, s, hv => by
    rw [store]
    exact ends_pure (by simpa only [Expr.binders, hv] using .nil s)
  | .record n fs, v, p, s, hv => by
    rw [store]
    refine ends_bind (storeFields_takes fs _ v p s hv) fun es s' h => ends_pure ?_
    simpa only [Expr.binders] using h
  | .tuple ts, v, p, s, hv => by
    rw [store]
    refine ends_bind (storeItems_takes ts _ 0 v p s hv) fun es s' h => ends_pure ?_
    simpa only [Expr.binders] using h
  | .flags n fs, v, p, s, hv => by
    rw [store]
    split
    · exact ends_throw trivial
    · exact ends_pure (by simpa only [Expr.binders, hv] using .nil s)
  | .list t, v, p, s, hv => by
    rw [store]
    refine ends_fresh (ends_fresh (ends_bind (store_takes t _ _ _ (by rw [Expr.binders])) fun e s' h => ends_pure ?_))
    rw [Expr.binders, hv, List.nil_append]
    exact (h.bind base_mem_stems).bind item_mem_stems

theorem storeFields_takes : ∀ (fs : List (Bytes × Shape)) (offs : List UInt32) (v : Expr) (p : Place) (s : EmitState),
    v.binders = [] →
    Ends (storeFields fs offs v p) s (fun es => TakesNames s (Expr.allBinders es)) fun _ => True
  | [], _, v, p, s, _ | _ :: _, [], v, p, s, _ => by
    rw [storeFields]
    · exact ends_pure (by simpa only [Expr.allBinders] using .nil s)
    · simp
  | (n, t) :: fs, off :: offs, v, p, s, hv => by
    rw [storeFields]
    refine ends_bind (store_takes t _ _ s (by rw [Expr.binders, hv])) fun e s₁ he => ?_
    refine ends_bind (storeFields_takes fs offs v p s₁ hv) fun es s₂ hes => ends_pure ?_
    rw [Expr.allBinders]
    exact he.append hes

theorem storeItems_takes : ∀ (ts : List Shape) (offs : List UInt32) (i : Nat) (v : Expr) (p : Place) (s : EmitState),
    v.binders = [] →
    Ends (storeItems ts offs i v p) s (fun es => TakesNames s (Expr.allBinders es)) fun _ => True
  | [], _, i, v, p, s, _ | _ :: _, [], i, v, p, s, _ => by
    rw [storeItems]
    · exact ends_pure (by simpa only [Expr.allBinders] using .nil s)
    · simp
  | t :: ts, off :: offs, i, v, p, s, hv => by
    rw [storeItems]
    refine ends_bind (store_takes t _ _ s (by rw [Expr.binders, hv])) fun e s₁ he => ?_
    refine ends_bind (storeItems_takes ts offs (i + 1) v p s₁ hv) fun es s₂ hes => ends_pure ?_
    rw [Expr.allBinders]
    exact he.append hes

end

/-! ## Lifting -/

/-- The numbers that are left bind nothing, as before. -/
def LiftTakes (s : EmitState) (binders : List Bytes) (rest : List Expr) (s' : EmitState) : Prop :=
  TakesNames s binders s' ∧ ∀ v ∈ rest, v.binders = []

mutual

theorem lift_takes : ∀ (t : Shape) (vs : List Expr) (s : EmitState), (∀ v ∈ vs, v.binders = []) →
    Ends (lift t vs) s (fun r => LiftTakes s r.1.binders r.2) fun _ => True
  | .blank, vs, s, _ | .errorContext, vs, s, _ | .option _, vs, s, _ | .result _ _, vs, s, _
  | .variant _ _, vs, s, _ => by
    rw [lift]
    · exact ends_throw trivial
    all_goals simp
  | .alias _ t, vs, s, h => by
    rw [lift]
    exact lift_takes t vs s h
  | .prim _, vs, s, h | .enum _ _, vs, s, h => by
    rw [lift]
    refine ends_bind (ends_take1 h) fun r s' ⟨hr, hrest, hs⟩ => ends_pure ⟨?_, hrest⟩
    rw [Expr.binders, hr, hs]
    exact .nil s
  | .flags n fs, vs, s, h => by
    rw [lift]
    split
    · exact ends_throw trivial
    · refine ends_bind (ends_take1 h) fun r s' ⟨hr, hrest, hs⟩ => ends_pure ⟨?_, hrest⟩
      rw [Expr.binders, hr, hs]
      exact .nil s
  | .string, vs, s, h => by
    rw [lift]
    refine ends_bind (ends_take2 h) fun r s' ⟨hptr, hlen, hrest, hs⟩ => ends_pure ⟨?_, hrest⟩
    rw [Expr.binders, hptr, hlen, hs]
    exact .nil s
  | .record n fs, vs, s, h => by
    rw [lift]
    refine ends_bind (liftFields_takes fs vs s h) fun r s' hr => ends_pure ?_
    simpa only [Expr.binders] using hr
  | .tuple ts, vs, s, h => by
    rw [lift]
    refine ends_bind (liftItems_takes ts vs s h) fun r s' hr => ends_pure ?_
    simpa only [Expr.binders] using hr
  | .list t, vs, s, h => by
    rw [lift]
    refine ends_bind (ends_take2 h) fun r s₁ ⟨hptr, hlen, hrest, hs⟩ => ?_
    subst hs
    refine ends_fresh (ends_bind (load_takes t _ _) fun e s₂ he => ends_pure ⟨?_, hrest⟩)
    rw [Expr.binders, hptr, hlen]
    exact he.bind base_mem_stems

theorem liftFields_takes : ∀ (fs : List (Bytes × Shape)) (vs : List Expr) (s : EmitState),
    (∀ v ∈ vs, v.binders = []) →
    Ends (liftFields fs vs) s (fun r => LiftTakes s (Expr.fieldBinders r.1) r.2) fun _ => True
  | [], vs, s, h => by
    rw [liftFields]
    exact ends_pure ⟨by simpa only [Expr.fieldBinders] using .nil s, h⟩
  | (n, t) :: fs, vs, s, h => by
    rw [liftFields]
    refine ends_bind (lift_takes t vs s h) fun r s₁ hr => ?_
    refine ends_bind (liftFields_takes fs r.2 s₁ hr.2) fun r' s₂ hr' => ends_pure ⟨?_, hr'.2⟩
    rw [Expr.fieldBinders]
    exact hr.1.append hr'.1

theorem liftItems_takes : ∀ (ts : List Shape) (vs : List Expr) (s : EmitState), (∀ v ∈ vs, v.binders = []) →
    Ends (liftItems ts vs) s (fun r => LiftTakes s (Expr.allBinders r.1) r.2) fun _ => True
  | [], vs, s, h => by
    rw [liftItems]
    exact ends_pure ⟨by simpa only [Expr.allBinders] using .nil s, h⟩
  | t :: ts, vs, s, h => by
    rw [liftItems]
    refine ends_bind (lift_takes t vs s h) fun r s₁ hr => ?_
    refine ends_bind (liftItems_takes ts r.2 s₁ hr.2) fun r' s₂ hr' => ends_pure ⟨?_, hr'.2⟩
    rw [Expr.allBinders]
    exact hr.1.append hr'.1

end

theorem liftArgs_takes : ∀ (ts : List Shape) (vs : List Expr) (s : EmitState), (∀ v ∈ vs, v.binders = []) →
    Ends (liftArgs ts vs) s (fun es => TakesNames s (Expr.allBinders es)) fun _ => True
  | [], vs, s, _ => by
    rw [liftArgs]
    exact ends_pure (by simpa only [Expr.allBinders] using .nil s)
  | t :: ts, vs, s, h => by
    rw [liftArgs]
    refine ends_bind (lift_takes t vs s h) fun r s₁ hr => ?_
    refine ends_bind (liftArgs_takes ts r.2 s₁ hr.2) fun es s₂ hes => ends_pure ?_
    rw [Expr.allBinders]
    exact hr.1.append hes

/-! ## Lowering -/

/-- All names that are made up are bound by the statements that are queued. -/
def LowerTakes (s : EmitState) (es : List Expr) (s' : EmitState) : Prop :=
  Expr.allBinders es = [] ∧ ∃ new, s'.stmts = s.stmts ++ new ∧ Takes s.next s'.next (new.flatMap Stmt.binders)

namespace LowerTakes

variable {s s' s'' : EmitState} {es es' : List Expr}

theorem nil (s : EmitState) : LowerTakes s [] s := ⟨by rw [Expr.allBinders], [], by simp, .nil _⟩

theorem single {e : Expr} (s : EmitState) (h : e.binders = []) : LowerTakes s [e] s :=
  ⟨by simp only [Expr.allBinders, h, List.append_nil], [], by simp, .nil _⟩

/-- A statement whose pointer and length are the numbers. -/
theorem queued {stmt : Stmt} {ptr len : Bytes} (h : Takes s.next s'.next stmt.binders)
    (hs : s'.stmts = s.stmts ++ [stmt]) : LowerTakes s [.var ptr, .var len] s' :=
  ⟨by simp only [Expr.allBinders, Expr.binders, List.append_nil], [stmt], hs,
    by simpa only [List.flatMap_cons, List.flatMap_nil, List.append_nil] using h⟩

theorem append (h : LowerTakes s es s') (h' : LowerTakes s' es' s'') : LowerTakes s (es ++ es') s'' := by
  obtain ⟨hes, new, hs, htakes⟩ := h
  obtain ⟨hes', new', hs', htakes'⟩ := h'
  refine ⟨by rw [Expr.allBinders_append, hes, hes', List.append_nil], new ++ new', ?_, ?_⟩
  · rw [hs', hs, List.append_assoc]
  · rw [List.flatMap_append]
    exact htakes.append htakes'

end LowerTakes

mutual

theorem lower_takes : ∀ (t : Shape) (v : Expr) (s : EmitState), v.binders = [] →
    Ends (lower t v) s (LowerTakes s) fun _ => True
  | .blank, v, s, _ | .errorContext, v, s, _ => by
    rw [lower]
    exact ends_throw trivial
  | .option _, v, s, _ | .result _ _, v, s, _ | .variant _ _, v, s, _ => by
    rw [lower]
    · exact ends_throw trivial
    all_goals simp
  | .alias _ t, v, s, hv => by
    rw [lower]
    exact lower_takes t v s hv
  | .prim _, v, s, hv | .enum _ _, v, s, hv => by
    rw [lower]
    exact ends_pure (.single s (by rw [Expr.binders, hv]))
  | .flags n fs, v, s, hv => by
    rw [lower]
    split
    · exact ends_throw trivial
    · exact ends_pure (.single s (by rw [Expr.binders, hv]))
  | .string, v, s, hv => by
    rw [lower]
    refine ends_fresh (ends_fresh (ends_queue (ends_pure (.queued ?_ rfl))))
    rw [Stmt.binders, hv]
    exact (Takes.one (by decide) _).bind (by decide)
  | .record n fs, v, s, hv => by
    rw [lower]
    exact lowerFields_takes fs v s hv
  | .tuple ts, v, s, hv => by
    rw [lower]
    exact lowerItems_takes ts 0 v s hv
  | .list t, v, s, hv => by
    rw [lower]
    refine ends_fresh (ends_fresh (ends_bind (store_takes t _ _ _ (by rw [Expr.binders])) fun e s' h => ?_))
    refine ends_fresh (ends_fresh (ends_queue (ends_pure (.queued ?_ (congrArg (· ++ [_]) h.2)))))
    rw [Stmt.binders, hv, List.nil_append]
    -- the pointer and the length come first in the statement, and are made up last
    exact (((h.bind base_mem_stems).bind item_mem_stems).1.append
      ((Takes.one (by decide) _).bind (by decide))).perm List.perm_append_comm

theorem lowerFields_takes : ∀ (fs : List (Bytes × Shape)) (v : Expr) (s : EmitState), v.binders = [] →
    Ends (lowerFields fs v) s (LowerTakes s) fun _ => True
  | [], v, s, _ => by
    rw [lowerFields]
    exact ends_pure (.nil s)
  | (n, t) :: fs, v, s, hv => by
    rw [lowerFields]
    refine ends_bind (lower_takes t _ s (by rw [Expr.binders, hv])) fun es s₁ hes => ?_
    exact ends_bind (lowerFields_takes fs v s₁ hv) fun es' s₂ hes' => ends_pure (hes.append hes')

theorem lowerItems_takes : ∀ (ts : List Shape) (i : Nat) (v : Expr) (s : EmitState), v.binders = [] →
    Ends (lowerItems ts i v) s (LowerTakes s) fun _ => True
  | [], i, v, s, _ => by
    rw [lowerItems]
    exact ends_pure (.nil s)
  | t :: ts, i, v, s, hv => by
    rw [lowerItems]
    refine ends_bind (lower_takes t _ s (by rw [Expr.binders, hv])) fun es s₁ hes => ?_
    exact ends_bind (lowerItems_takes ts (i + 1) v s₁ hv) fun es' s₂ hes' => ends_pure (hes.append hes')

end

theorem lowerArgs_takes : ∀ (ts : List Shape) (vs : List Expr) (s : EmitState), (∀ v ∈ vs, v.binders = []) →
    Ends (lowerArgs ts vs) s (LowerTakes s) fun _ => True
  | [], _, s, _ | _ :: _, [], s, _ => by
    rw [lowerArgs]
    · exact ends_pure (.nil s)
    · simp
  | t :: ts, v :: vs, s, h => by
    rw [List.forall_mem_cons] at h
    rw [lowerArgs]
    refine ends_bind (lower_takes t v s h.1) fun es s₁ hes => ?_
    exact ends_bind (lowerArgs_takes ts vs s₁ h.2) fun es' s₂ hes' => ends_pure (hes.append hes')

/-! ## Calls -/

/-- The names that are made up for the call of an exported function. -/
def ExportCall.temporaries (call : ExportCall) : List Bytes :=
  call.stmts.flatMap Stmt.binders ++ Expr.allBinders (call.args ++ call.result.toList)

/-- The names that are made up for the wrapper of an imported function. -/
def ImportCall.temporaries (call : ImportCall) : List Bytes :=
  call.stmts.flatMap Stmt.binders ++ Expr.allBinders (call.args ++ (call.lower.toList ++ call.store.toList))

theorem binders_of_map_var (ns : List Bytes) : ∀ v ∈ ns.map Expr.var, v.binders = [] := by
  intro v hv
  obtain ⟨n, -, rfl⟩ := List.mem_map.1 hv
  rw [Expr.binders]

/-- The steps behind the call of an exported function bind what they make up, in their statements or
in the result. -/
theorem exportSteps_takes (f : ShapedFunc) (params : List Expr) (s : EmitState) (hs : s.stmts = [])
    (hparams : ∀ v ∈ params, v.binders = []) :
    Ends (exportSteps f params) s
      (fun r s' => Takes s.next s'.next (s'.stmts.flatMap Stmt.binders ++ Expr.allBinders (r.1 ++ r.2.toList)))
      fun _ => True := by
  unfold exportSteps
  refine ends_bind (lowerArgs_takes _ _ s hparams) fun args s₁ ⟨hargs, new, hnew, htakes⟩ => ?_
  rw [hs, List.nil_append] at hnew
  subst hnew
  -- the arguments bind nothing, so what is left are the names of the result
  have hresult : ∀ {e : Expr} {s₂ : EmitState}, TakesNames s₁ e.binders s₂ →
      Takes s.next s₂.next (s₂.stmts.flatMap Stmt.binders ++ Expr.allBinders (args ++ (some e).toList)) := by
    intro e s₂ he
    rw [he.2, Expr.allBinders_append, hargs, Option.toList_some, Expr.allBinders, Expr.allBinders, List.nil_append,
      List.append_nil]
    exact htakes.append he.1
  split
  · refine ends_pure ?_
    rwa [Option.toList_none, List.append_nil, hargs, List.append_nil]
  · rename_i t _
    split
    · exact ends_bind (load_takes t _ s₁) fun e s₂ he => ends_pure (hresult he)
    · exact ends_bind (lift_takes t _ s₁ (binders_of_map_var [_])) fun r s₂ hr => ends_pure (hresult hr.1)

theorem exportCallOf_takes {i : Interface} {f : Func} {params : List Bytes} {call : ExportCall}
    (h : exportCallOf i f (params.map .var) = .ok call) : ∃ hi, Takes 0 hi call.temporaries := by
  obtain ⟨sf, -, hcall⟩ := exportCallOf_eq_ok.1 h
  obtain ⟨-, r, s, hr, rfl⟩ := exportCall_ok hcall
  exact ⟨_, (exportSteps_takes sf _ {} rfl (binders_of_map_var params)).of_ok hr⟩

/-- The steps behind a wrapper bind what they make up. -/
theorem importSteps_takes (f : ShapedFunc) (direct : List Bytes) (s : EmitState) (hs : s.stmts = []) :
    Ends (importSteps f direct) s
      (fun r s' => Takes s.next s'.next
        (s'.stmts.flatMap Stmt.binders ++ Expr.allBinders (r.1 ++ (r.2.1.toList ++ r.2.2.toList))))
      fun _ => True := by
  unfold importSteps
  refine ends_bind (liftArgs_takes _ _ s (binders_of_map_var direct)) fun args s₁ ⟨hargs, hs₁⟩ => ?_
  rw [hs] at hs₁
  split
  · refine ends_pure ?_
    simpa only [hs₁, List.flatMap_nil, List.nil_append, Option.toList_none, List.append_nil] using hargs
  · rename_i t _
    have hvar : (Expr.var (utf8 "result")).binders = [] := by rw [Expr.binders]
    split
    · refine ends_bind (store_takes t _ _ s₁ hvar) fun e s₂ he => ends_pure ?_
      rw [he.2, hs₁, Expr.allBinders_append]
      simpa only [List.flatMap_nil, List.nil_append, Option.toList_none, Option.toList_some, Expr.allBinders,
        List.append_nil] using hargs.append he.1
    · refine ends_bind (lower_takes t _ s₁ hvar) fun es s₂ ⟨hes, new, hnew, htakes⟩ => ?_
      rw [hs₁, List.nil_append] at hnew
      subst hnew
      -- the names of the arguments are made up first and are listed last
      have hboth : Takes s.next s₂.next (s₂.stmts.flatMap Stmt.binders ++ Expr.allBinders args) :=
        (hargs.append htakes).perm List.perm_append_comm
      split
      · refine ends_pure ?_
        rw [Option.toList_none, Option.toList_some, List.append_nil, Expr.allBinders_append, hes, List.append_nil]
        exact hboth
      · refine ends_pure ?_
        simpa only [Option.toList_none, List.append_nil] using hboth

theorem importCallOf_takes {i : Interface} {f : Func} {call : ImportCall} (h : importCallOf i f = .ok call) :
    ∃ hi, Takes 0 hi call.temporaries := by
  obtain ⟨sf, -, hcall⟩ := importCallOf_eq_ok.1 h
  obtain ⟨-, r, s, hr, rfl⟩ := importCall_ok hcall
  exact ⟨_, (importSteps_takes sf _ {} rfl).of_ok hr⟩

/-! ## What is around the code -/

/-- The variables of bodies, and the receiver of a method. -/
def bodyVars : List Bytes := fixed ["memory", "realloc", "ret", "result", "self"]

/-- Names that are made up for one body and hide nothing: they are numbered from zero on without a
repetition, and none is a parameter or a variable of the body. -/
structure Apart (names params : List Bytes) : Prop where
  numbered : Takes 0 names.length names
  nodup : names.Nodup
  params : ∀ n ∈ names, n ∉ params
  vars : ∀ n ∈ names, n ∉ bodyVars

theorem Takes.apart {hi : Nat} {names params : List Bytes} (h : Takes 0 hi names)
    (hparams : ∀ n k, IsTemporary n k → n ∉ params) : Apart names params where
  numbered := by rwa [h.length_eq]
  nodup := h.nodup
  params n hn := by
    obtain ⟨k, hk⟩ := h.isTemporary hn
    exact hparams n k hk
  vars n hn hvar := by
    obtain ⟨k, hk⟩ := h.isTemporary hn
    exact not_numbered_of_letter ((show ∀ v ∈ bodyVars, EndsInLetter v = true by decide) n hvar) hk.numbered

theorem not_mem_js_params (f : Func) (n : Bytes) (k : Nat) (h : IsTemporary n k) : n ∉ JavaScript.methodParams f := by
  intro hn
  obtain ⟨i, -, rfl⟩ := List.mem_map.1 hn
  exact h.ne_paramName i rfl

/-- A reserved word has an underscore behind it, and another name is in snake case. -/
theorem not_mem_python_params (f : Func) (n : Bytes) (k : Nat) (h : IsTemporary n k) : n ∉ Python.methodParams f := by
  intro hn
  obtain ⟨p, -, hp⟩ := List.mem_map.1 hn
  rw [Python.snakeIdent, Python.ident] at hp
  split at hp
  · obtain ⟨b, hb, hdigit⟩ := isDigit_of_numbered h.numbered
    rw [← hp, List.getLast?_append] at hb
    obtain rfl : (95 : UInt8) = b := Option.some.inj hb
    exact absurd hdigit (by decide)
  · exact h.ne_snake _ hp.symm

theorem not_mem_core_params {i : Interface} {f : Func} {call : ImportCall} (hcall : importCallOf i f = .ok call)
    (n : Bytes) (k : Nat) (h : IsTemporary n k) : n ∉ call.params := by
  intro hn
  rcases eq_of_mem_params hcall hn with ⟨j, rfl⟩ | rfl
  · exact h.ne_paramName j rfl
  · exact not_numbered_of_letter (by decide) h.numbered

/-- The variables of bodies are reserved words. -/
theorem not_mem_bodyVars (f : Func) : ∀ n ∈ Python.methodParams f, n ∉ bodyVars := by
  intro n hn hvar
  obtain ⟨p, -, rfl⟩ := List.mem_map.1 hn
  have hword : ∀ v ∈ bodyVars, EndsInLetter v = true ∧ Python.reserved.any fun w => utf8 w == v := by decide
  obtain ⟨hletter, hreserved⟩ := hword _ hvar
  rw [Python.snakeIdent, Python.ident] at hletter hreserved
  split at hletter
  · exact ne_underscore_of_letter hletter rfl
  · rename_i hplain
    exact hplain (by simpa only [if_neg hplain] using hreserved)

/-- **Made up names hide nothing.** The names that one counter numbers while the code of a function
is written are different from each other, from every parameter of the generated function and from
the variables of its body: in a method around an exported function, whose parameters JavaScript
numbers and Python spells in snake case, and in the wrapper of an imported one. No parameter in
Python is called like a variable of the body either. -/
theorem temporaries_apart (i : Interface) (f : Func) :
    (∀ call, exportCallOf i f ((JavaScript.methodParams f).map .var) = .ok call →
      Apart call.temporaries (JavaScript.methodParams f)) ∧
    (∀ call, exportCallOf i f ((Python.methodParams f).map .var) = .ok call →
      Apart call.temporaries (Python.methodParams f)) ∧
    (∀ call, importCallOf i f = .ok call → Apart call.temporaries call.params) ∧
    ∀ n ∈ Python.methodParams f, n ∉ bodyVars := by
  refine ⟨fun call h => ?_, fun call h => ?_, fun call h => ?_, not_mem_bodyVars f⟩
  · obtain ⟨hi, htakes⟩ := exportCallOf_takes h
    exact htakes.apart (not_mem_js_params f)
  · obtain ⟨hi, htakes⟩ := exportCallOf_takes h
    exact htakes.apart (not_mem_python_params f)
  · obtain ⟨hi, htakes⟩ := importCallOf_takes h
    exact htakes.apart (not_mem_core_params h)

/-- Parameters that are named like what is made up, and like a variable. -/
theorem temporaries_apart_ptr0 : ∃ i f js py call,
    Interface.parse (utf8 "shelf.wai")
      (utf8 "put: func(ptr0: list<string>, ret: string, e-1: list<list<u8>>) -> list<string>\n") = .ok i ∧
    f ∈ i.functions ∧ Python.methodParams f = fixed ["ptr_0", "ret_", "e_1"] ∧
    exportCallOf i f ((JavaScript.methodParams f).map .var) = .ok js ∧
    exportCallOf i f ((Python.methodParams f).map .var) = .ok py ∧ importCallOf i f = .ok call ∧
    utf8 "ptr2" ∈ py.temporaries ∧ utf8 "e1" ∉ py.temporaries ∧
    Apart js.temporaries (JavaScript.methodParams f) ∧ Apart py.temporaries (Python.methodParams f) ∧
    Apart call.temporaries call.params := by
  obtain ⟨i, hi, hcheck⟩ := Interface.exists_ok_of_check (r := Interface.parse (utf8 "shelf.wai")
    (utf8 "put: func(ptr0: list<string>, ret: string, e-1: list<list<u8>>) -> list<string>\n"))
    (fun i => i.functions.head?.any fun f =>
      Python.methodParams f == fixed ["ptr_0", "ret_", "e_1"]
        && (exportCallOf i f ((JavaScript.methodParams f).map .var)).toOption.any (fun _ => true)
        && (exportCallOf i f ((Python.methodParams f).map .var)).toOption.any (fun call =>
          call.temporaries.contains (utf8 "ptr2") && !call.temporaries.contains (utf8 "e1"))
        && (importCallOf i f).toOption.any (fun _ => true))
    (by rw [fixed, utf8_eq_toByteArray]; decide +kernel)
  obtain ⟨f, hf, hcheck⟩ := (Option.any_eq_true _ _).1 hcheck
  simp only [Bool.and_eq_true, beq_iff_eq] at hcheck
  obtain ⟨⟨⟨hparams, hjs⟩, hpy⟩, hcall⟩ := hcheck
  obtain ⟨js, hjs, -⟩ := Interface.exists_ok_of_check _ hjs
  obtain ⟨py, hpy, hnames⟩ := Interface.exists_ok_of_check _ hpy
  obtain ⟨call, hcall, -⟩ := Interface.exists_ok_of_check _ hcall
  obtain ⟨hapartJs, hapartPy, hapart, -⟩ := temporaries_apart i f
  simp only [Bool.and_eq_true, Bool.not_eq_true', List.contains_eq_mem, decide_eq_true_eq, decide_eq_false_iff_not] at hnames
  exact ⟨i, f, js, py, call, hi, List.mem_of_mem_head? hf, hparams, hjs, hpy, hcall, hnames.1, hnames.2, hapartJs js hjs,
    hapartPy py hpy, hapart call hcall⟩

end Glue
end Bindery
