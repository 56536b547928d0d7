/-
What a report tells in its two forms. Of failures one inside the other, the last of them perhaps
caused by a plain text (`nested`), the whole text is put together from the texts of the links, and
a phase and kind are found along the chain of causes when some failure has them
(`text_and_chain_agree`).
-/
import Bindery.Report

namespace Bindery.Report

/-- Failures from the outermost to the innermost, with a plain text behind them if there is one. -/
def nested (f : Failure) (fs : List Failure) (root : Option Bytes) : Report :=
  { outer := .own f, causes := fs.map .own ++ (root.map .plain).toList }

theorem nested_root (f : Failure) (text : Bytes) : nested f [] (some text) = because f { outer := .plain text } := rfl

theorem nested_cons (f g : Failure) (fs : List Failure) (root : Option Bytes) :
    nested f (g :: fs) root = because f (nested g fs root) := rfl

/-! ## The text and the chain -/

section because

variable (f : Failure) (r : Report)

theorem links_because : (because f r).links = .own f :: r.links := rfl

theorem render_because : (because f r).render = f.text ++ utf8 " (caused by: " ++ r.render ++ utf8 ")" := rfl

theorem chain_because : (because f r).chain = f.text :: r.chain := rfl

end because

/-- The text of a link whose cause is taken away. -/
def alone (l : Link) : Bytes := render { outer := l }

theorem chain_nested (f : Failure) (fs : List Failure) (root : Option Bytes) :
    (nested f fs root).chain = (nested f fs root).links.map alone := by
  induction fs generalizing f with
  | nil => cases root <;> rfl
  | cons g fs ih =>
    rw [nested_cons, chain_because, links_because, List.map_cons, ih]
    rfl

/-- The texts of links as one: each behind the words that lead to a cause, closed at the end. -/
def enclosed (texts : List Bytes) : Bytes :=
  Bytes.join (utf8 " (caused by: ") texts ++ Bytes.times (texts.length - 1) (utf8 ")")

/-- One text around others. -/
theorem enclosed_cons (t : Bytes) {texts : List Bytes} (h : texts ≠ []) :
    enclosed (t :: texts) = t ++ utf8 " (caused by: " ++ enclosed texts ++ utf8 ")" := by
  obtain ⟨u, texts, rfl⟩ := List.exists_cons_of_ne_nil h
  have hclose : Bytes.times (texts.length + 1) (utf8 ")") = Bytes.times texts.length (utf8 ")") ++ utf8 ")" := by
    rw [Bytes.times, List.replicate_succ', List.flatten_concat]
    rfl
  simp only [enclosed, List.length_cons, Nat.add_sub_cancel, Bytes.join, List.intercalate_cons_cons, hclose,
    List.append_assoc]

theorem chain_ne_nil (r : Report) : r.chain ≠ [] := by
  obtain ⟨outer, causes⟩ := r
  cases outer <;> cases causes <;> simp [chain, chainFrom]

theorem render_nested (f : Failure) (fs : List Failure) (root : Option Bytes) :
    (nested f fs root).render = enclosed (nested f fs root).chain := by
  induction fs generalizing f with
  | nil =>
    cases root with
    | none => simp [nested, render, renderFrom, chain, chainFrom, enclosed, Bytes.join, Bytes.times]
    | some text =>
      rw [nested_root, render_because, chain_because, enclosed_cons _ (chain_ne_nil _)]
      simp [render, renderFrom, chain, chainFrom, enclosed, Bytes.join, Bytes.times]
  | cons g fs ih => rw [nested_cons, render_because, chain_because, enclosed_cons _ (chain_ne_nil _), ih]

/-! ## Looking for a failure -/

/-- What is behind the outermost link. -/
def cause? (r : Report) : Option Report :=
  match r.causes with
  | [] => none
  | l :: ls => some { outer := l, causes := ls }

/-- The walk from cause to cause, up to a failure of a phase and kind. -/
inductive Meets (phase : Phase) (kind : Kind) : Report → Prop
  | here {r : Report} {f : Failure} : r.outer = .own f → f.phase = phase → f.kind = kind → Meets phase kind r
  | behind {r cause : Report} : r.cause? = some cause → Meets phase kind cause → Meets phase kind r

section meets

variable {phase : Phase} {kind : Kind}

theorem mentions_iff {r : Report} :
    r.mentions phase kind = true ↔ ∃ f, .own f ∈ r.links ∧ f.phase = phase ∧ f.kind = kind := by
  rw [mentions, List.any_eq_true]
  constructor
  · rintro ⟨l, hl, h⟩
    cases l with
    | own f => exact ⟨f, hl, by simpa using h⟩
    | plain | foreign => cases h
  · rintro ⟨f, hf, h⟩
    exact ⟨.own f, hf, by simpa using h⟩

/-- The walk comes by every link. -/
theorem meets_iff {r : Report} : Meets phase kind r ↔ ∃ f, .own f ∈ r.links ∧ f.phase = phase ∧ f.kind = kind := by
  constructor
  · intro h
    induction h with
    | here houter hphase hkind => exact ⟨_, by simp [links, houter], hphase, hkind⟩
    | @behind r cause hcause _ ih =>
      obtain ⟨f, hf, h⟩ := ih
      obtain ⟨outer, _ | ⟨l, ls⟩⟩ := r
      · cases hcause
      · cases hcause
        exact ⟨f, List.mem_cons_of_mem outer hf, h⟩
  · rintro ⟨f, hf, hphase, hkind⟩
    obtain ⟨outer, causes⟩ := r
    induction causes generalizing outer with
    | nil => exact .here (List.mem_singleton.1 hf).symm hphase hkind
    | cons l ls ih =>
      rcases List.mem_cons.1 hf with rfl | hf
      · exact .here rfl hphase hkind
      · exact .behind rfl (ih l hf)

end meets

theorem own_mem_nested {f g : Failure} {fs : List Failure} {root : Option Bytes} :
    .own g ∈ (nested f fs root).links ↔ g ∈ f :: fs := by
  cases root <;> simp [nested, links]

/-- **The text and the chain of a report tell the same.** Of failures one inside the other,
with or without a plain text behind the last, the chain has one entry for each link, which is the text of the link
alone, the whole text is the entries enclosed one in the other, and walking from cause to cause
meets a phase and kind just when some failure has both, which is what `mentions` answers. -/
theorem text_and_chain_agree (f : Failure) (fs : List Failure) (root : Option Bytes) :
    (nested f fs root).chain = (nested f fs root).links.map alone ∧
    (nested f fs root).render = Bytes.join (utf8 " (caused by: ") (nested f fs root).chain
      ++ Bytes.times ((nested f fs root).chain.length - 1) (utf8 ")") ∧
    ∀ phase kind, (Meets phase kind (nested f fs root) ↔ ∃ g ∈ f :: fs, g.phase = phase ∧ g.kind = kind) ∧
      ((nested f fs root).mentions phase kind = true ↔ Meets phase kind (nested f fs root)) := by
  refine ⟨chain_nested f fs root, render_nested f fs root, fun phase kind => ⟨?_, mentions_iff.trans meets_iff.symm⟩⟩
  rw [meets_iff]
  simp only [own_mem_nested]

end Bindery.Report
