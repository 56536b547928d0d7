/-
Quoting for a docstring. A field of a template stands on a line of its own in a literal, spliced in as
it is or quoted for it. The literal is read for what its fields mean, and closed where it was closed,
exactly when every field holds (`docstring?_eq_iff`): a quoted one does whenever it is a text without
carriage returns (`Quoted.read`), a spliced one only when it is inert.
-/
import Bindery.Proofs.Distribution.Docstring

namespace Bindery

open Glue (Line unlines unlines_cons)
open Pip (fence docstring)

namespace Docstring

variable {named : Bytes → Option Char} {s t d D : Bytes}

/-! ## Texts -/

theorem text_around {x : UInt8} (hx : x < 0x80) : Utf8.Text (s ++ x :: t) ↔ Utf8.Text s ∧ Utf8.Text t :=
  ⟨fun h => h.cut hx rfl, fun h => h.1.append (.one hx h.2)⟩

theorem text_cons {x : UInt8} (hx : x < 0x80) : Utf8.Text (x :: t) ↔ Utf8.Text t := by
  simpa [Utf8.Text.nil] using text_around (s := []) (t := t) hx

theorem isSource_iff : IsSource s ↔ Utf8.Text s ∧ (0 : UInt8) ∉ s :=
  ⟨fun h => ⟨Utf8.valid_iff_text.1 h.valid, h.noNul⟩, fun h => ⟨Utf8.valid_iff_text.2 h.1, h.2⟩⟩

theorem isSource_line : IsSource (s ++ 10 :: t) ↔ IsSource s ∧ IsSource t := by
  have hfeed : (0 : UInt8) ≠ 10 := by decide
  rw [isSource_iff, isSource_iff, isSource_iff, text_around (by decide), List.mem_append, List.mem_cons,
    or_iff_right hfeed, not_or, and_and_and_comm]

theorem isSource_unlines {ls : List Line} : IsSource (unlines ls ++ t) ↔ (∀ l ∈ ls, IsSource l) ∧ IsSource t := by
  induction ls with
  | nil => simp [unlines]
  | cons l ls ih =>
    rw [unlines_cons, List.append_assoc, List.cons_append, isSource_line, ih, List.forall_mem_cons, and_assoc]

/-! ## Line ends -/

/-- What reading line ends leaves of a text that a line feed follows. -/
def settle : Bytes → Bytes
  | [] => []
  | b :: s => if b = 13 then (if (s ++ [(10 : UInt8)]).head? = some 10 then settle s else 10 :: settle s) else b :: settle s

theorem newlines_line (s t : Bytes) : newlines (s ++ 10 :: t) = settle s ++ 10 :: newlines t := by
  induction s with
  | nil => rfl
  | cons b s ih =>
    have hhead : (s ++ 10 :: t).head? = (s ++ [10]).head? := by cases s <;> rfl
    rw [List.cons_append, newlines, settle, hhead, ih]
    split
    · split <;> rfl
    · rfl

theorem newlines_unlines (ls : List Line) (t : Bytes) :
    newlines (unlines ls ++ t) = unlines (ls.map settle) ++ newlines t := by
  induction ls with
  | nil => rfl
  | cons l ls ih =>
    rw [unlines_cons, List.append_assoc, List.cons_append, newlines_line, ih, List.map_cons, unlines_cons,
      List.append_assoc, List.cons_append]

theorem newlines_of_not_mem (h : (13 : UInt8) ∉ s) : newlines s = s := by
  induction s with
  | nil => rfl
  | cons b s ih =>
    obtain ⟨hb, hs⟩ := List.ne_and_not_mem_of_not_mem_cons h
    rw [newlines, if_neg (Ne.symm hb), ih hs]

theorem settle_of_not_mem (h : (13 : UInt8) ∉ s) : settle s = s := by
  induction s with
  | nil => rfl
  | cons b s ih =>
    obtain ⟨hb, hs⟩ := List.ne_and_not_mem_of_not_mem_cons h
    rw [settle, if_neg (Ne.symm hb), ih hs]

theorem return_not_mem_settle (s : Bytes) : (13 : UInt8) ∉ settle s := by
  induction s with
  | nil => simp [settle]
  | cons b s ih =>
    rw [settle]
    split
    · split
      · exact ih
      · simpa using ih
    · rename_i hb
      simpa using ⟨Ne.symm hb, ih⟩

theorem length_settle_le (s : Bytes) : (settle s).length ≤ s.length := by
  induction s with
  | nil => exact Nat.le_refl 0
  | cons b s ih =>
    rw [settle]
    split
    · split <;> simp <;> omega
    · simpa using ih

/-! ## Quoted texts -/

/-- Where quotes come from quotes, three of them in a row come from three. -/
theorem fence_prefix_of_related {R : Bytes → Bytes → Prop}
    (hR : ∀ {d X : Bytes}, R d (34 :: X) → ∃ d', d = 34 :: d' ∧ R d' X) {b : UInt8} (h : R d D)
    (hfence : fence <+: b :: D) : fence <+: b :: d := by
  obtain ⟨X, hX⟩ := hfence
  obtain ⟨rfl, rfl⟩ := List.cons.inj (show 34 :: 34 :: 34 :: X = b :: D from hX)
  obtain ⟨d₁, rfl, h₁⟩ := hR h
  obtain ⟨d₂, rfl, -⟩ := hR h₁
  exact ⟨d₂, rfl⟩

theorem exists_of_settle {X : Bytes} (h : settle s = 34 :: X) : ∃ s', s = 34 :: s' ∧ settle s' = X := by
  cases s with
  | nil => cases h
  | cons b s =>
    rw [settle] at h
    split at h
    · split at h
      · rename_i hfeed
        cases s with
        | nil => cases h
        | cons c s =>
          obtain rfl : c = 10 := by simpa using hfeed
          exact absurd (List.cons.inj h).1 (by decide)
      · exact absurd (List.cons.inj h).1 (by decide)
    · obtain ⟨rfl, rfl⟩ := List.cons.inj h
      exact ⟨s, rfl, rfl⟩

/-- A text and what it is quoted as: backslashes and, from the left, every three quotes in a row have
backslashes put in front of them. -/
inductive Quoted : Bytes → Bytes → Prop
  | nil : Quoted [] []
  | backslash {d D : Bytes} : Quoted d D → Quoted (92 :: d) (92 :: 92 :: D)
  | quotes {d D : Bytes} : Quoted d D → Quoted (34 :: 34 :: 34 :: d) (92 :: 34 :: 92 :: 34 :: 92 :: 34 :: D)
  | own {b : UInt8} {d D : Bytes} : b ≠ 92 → ¬fence <+: b :: d → Quoted d D → Quoted (b :: d) (b :: D)

/-- Doubled backslashes. -/
def doubled (s : Bytes) : Bytes := Bytes.replaceFrom [92] [92, 92] 0 s

theorem doubled_cons (b : UInt8) (s : Bytes) :
    doubled (b :: s) = if b = 92 then 92 :: 92 :: doubled s else b :: doubled s := by
  by_cases hb : b = 92
  · subst hb
    rfl
  · have hne : ([92] : Bytes).isPrefixOf (b :: s) = false := by simp [List.isPrefixOf, Ne.symm hb]
    rw [doubled, Bytes.replaceFrom, hne, if_neg hb]
    rfl

theorem exists_of_doubled {X : Bytes} (h : doubled s = 34 :: X) : ∃ s', s = 34 :: s' ∧ doubled s' = X := by
  cases s with
  | nil => cases h
  | cons b s =>
    rw [doubled_cons] at h
    split at h
    · exact absurd (List.cons.inj h).1 (by decide)
    · obtain ⟨rfl, rfl⟩ := List.cons.inj h
      exact ⟨s, rfl, rfl⟩

theorem quoted_docstring (s : Bytes) : Quoted s (docstring s) := by
  change Quoted s (Bytes.replaceFrom fence [92, 34, 92, 34, 92, 34] 0 (doubled s))
  induction hn : s.length using Nat.strongRecOn generalizing s with
  | _ n ih =>
    cases s with
    | nil => exact .nil
    | cons b s =>
      by_cases hb : b = 92
      · subst hb
        exact .backslash (ih s.length (by simp [← hn]) s rfl)
      · by_cases hfence : fence <+: b :: s
        · obtain ⟨s', hs'⟩ := hfence
          obtain ⟨rfl, rfl⟩ := List.cons.inj (show 34 :: 34 :: 34 :: s' = b :: s from hs')
          exact .quotes (ih s'.length (by simp [← hn]; omega) s' rfl)
        · have hnot : fence.isPrefixOf (b :: doubled s) = false := by
            rw [Bool.eq_false_iff]
            intro h
            exact hfence (fence_prefix_of_related (R := (doubled · = ·)) exists_of_doubled rfl (List.isPrefixOf_iff_prefix.1 h))
          rw [doubled_cons, if_neg hb, Bytes.replaceFrom, hnot]
          exact .own hb hfence (ih s.length (by simp [← hn]) s rfl)

namespace Quoted

theorem of_quote {X : Bytes} (h : Quoted d (34 :: X)) : ∃ d', d = 34 :: d' ∧ Quoted d' X := by
  cases h with
  | own _ _ h => exact ⟨_, rfl, h⟩

/-- Quotes that were left alone do not come together. -/
theorem not_fence (h : Quoted d D) {b : UInt8} (hb : ¬fence <+: b :: d) : ¬fence <+: b :: D :=
  fun hin => hb (fence_prefix_of_related of_quote h hin)

/-- **A quoted line is read for the text** that it was made from. -/
theorem read (h : Quoted d D) (t : Bytes) :
    readFrom named 0 (D ++ 10 :: t) = (readFrom named 0 t).map (put (d ++ [10])) := by
  have hquote (X : Bytes) : readFrom named 0 (92 :: 34 :: X) = (readFrom named 0 X).map (put [34]) := by
    rw [read_backslash]
    rfl
  induction h with
  | nil => exact read_feed t
  | @backslash d D _ ih =>
    have hslash : readFrom named 0 (92 :: 92 :: (D ++ 10 :: t)) = (readFrom named 0 (D ++ 10 :: t)).map (put [92]) := by
      rw [read_backslash]
      rfl
    rw [List.cons_append, List.cons_append, hslash, ih, map_put_append, List.singleton_append, List.cons_append]
  | @quotes d D _ ih =>
    simp only [List.cons_append, hquote, ih, map_put_append]
    rfl
  | @own b d D hb hfence hD ih =>
    have hline : ¬fence <+: b :: (D ++ 10 :: t) := fun hin => hD.not_fence hfence (fence_prefix_line.1 hin)
    rw [List.cons_append, read_own hb hline, ih, map_put_append, List.singleton_append, List.cons_append]

theorem mem_iff (h : Quoted d D) {x : UInt8} (hx : x ≠ 92) : x ∈ D ↔ x ∈ d := by
  induction h with
  | nil => rfl
  | backslash _ ih => simp [hx, ih]
  | quotes _ ih => simp [hx, ih]
  | own _ _ _ ih => simp [ih]

theorem head_feed_iff (h : Quoted d D) : (D ++ [10]).head? = some 10 ↔ (d ++ [10]).head? = some 10 := by
  cases h <;> simp

/-- Line ends are read before anything else, which does not undo the quoting. -/
theorem settle (h : Quoted d D) : Quoted (settle d) (settle D) := by
  induction h with
  | nil => exact .nil
  | backslash _ ih => exact .backslash ih
  | quotes _ ih => exact .quotes ih
  | @own b d D hb hfence hD ih =>
    simp only [Docstring.settle, hD.head_feed_iff]
    split
    · split
      · exact ih
      · exact .own (by decide) (not_fence_of_head (by decide)) ih
    · exact .own hb (fun hin => hfence (fence_prefix_of_related exists_of_settle rfl hin)) ih

theorem text_iff (h : Quoted d D) : ∀ front : Bytes, Utf8.Text (front ++ D) ↔ Utf8.Text (front ++ d) := by
  have hslash : (92 : UInt8) < 0x80 := by decide
  have hquote : (34 : UInt8) < 0x80 := by decide
  induction h with
  | nil => exact fun front => Iff.rfl
  | backslash _ ih =>
    intro front
    rw [text_around hslash, text_around hslash, text_cons hslash]
    exact and_congr_right fun _ => ih []
  | quotes _ ih =>
    intro front
    rw [text_around hslash, text_around hquote]
    simp only [text_cons hslash, text_cons hquote]
    exact and_congr_right fun _ => ih []
  | @own b d D _ _ _ ih =>
    intro front
    simpa using ih (front ++ [b])

theorem isSource_iff (h : Quoted d D) : IsSource D ↔ IsSource d := by
  rw [Docstring.isSource_iff, Docstring.isSource_iff, h.mem_iff (by decide)]
  exact and_congr_left fun _ => h.text_iff []

end Quoted

/-! ## Literals made of fields -/

/-- A field of a template, on a line of its own in a literal. -/
inductive Field where
  /-- put in as it is -/
  | spliced (text : Bytes)
  /-- put in as it is quoted -/
  | quoted (text : Bytes)

namespace Field

/-- What stands in the file. -/
def source : Field → Line
  | .spliced s => s
  | .quoted s => docstring s

/-- What is meant. -/
def value : Field → Line
  | .spliced s | .quoted s => s

/-- The field is read for what is meant. -/
def Holds : Field → Prop
  | .spliced s => Inert s
  | .quoted s => IsText s

/-- The field is as a literal can hold it. -/
def Literal : Field → Prop
  | .spliced s => (13 : UInt8) ∉ s ∧ Unescaped s
  | .quoted s => (13 : UInt8) ∉ s

theorem isSource_iff (f : Field) : IsSource f.source ↔ IsSource f.value := by
  cases f with
  | spliced s => rfl
  | quoted s => exact (quoted_docstring s).isSource_iff

theorem holds_iff (f : Field) : f.Holds ↔ IsSource f.value ∧ f.Literal := by
  cases f with
  | spliced s =>
    exact ⟨fun h => ⟨h.toIsSource, h.noReturn, h.toUnescaped⟩, fun h => ⟨⟨h.1, h.2.1⟩, h.2.2⟩⟩
  | quoted s => exact ⟨fun h => ⟨h.toIsSource, h.noReturn⟩, fun h => ⟨h.1, h.2⟩⟩

/-- **A field that holds** is read for what is meant. -/
theorem read {f : Field} (h : f.Literal) (t : Bytes) :
    readFrom named 0 (Docstring.settle f.source ++ 10 :: t) = (readFrom named 0 t).map (put (f.value ++ [10])) := by
  cases f with
  | spliced s =>
    rw [source, settle_of_not_mem h.1]
    exact read_unescaped h.2 t
  | quoted s =>
    have hquoted := (quoted_docstring s).settle
    rw [settle_of_not_mem h] at hquoted
    exact hquoted.read t

/-- Whatever a field is read for is no longer than what is meant, and is not that unless the field
holds. -/
theorem of_read {f : Field} {w r : Bytes} (hr : r.length ≤ t.length)
    (h : readFrom named 0 (Docstring.settle f.source ++ 10 :: t) = some (w, r)) :
    ∃ v w', w = v ++ w' ∧ readFrom named 0 t = some (w', r) ∧ v.length ≤ f.value.length + 1 ∧
      (v = f.value ++ [10] → f.Literal) := by
  cases f with
  | spliced s =>
    obtain ⟨v, w', rfl, ht, hv⟩ := read_spliced hr h
    have hshort := length_settle_le s
    have hvalue := hv.length_le
    refine ⟨v, w', rfl, ht, hvalue.trans (Nat.succ_le_succ hshort), fun heq => ?_⟩
    have hlength : v.length = s.length + 1 := by simp [heq, value]
    obtain ⟨hwhole, hs⟩ := hv.whole (by rw [source] at hvalue ⊢; omega)
    have hsame : s = Docstring.settle s := List.append_cancel_right (heq.symm.trans hwhole)
    rw [source, ← hsame] at hs
    exact ⟨hsame ▸ return_not_mem_settle s, hs⟩
  | quoted s =>
    have hread : readFrom named 0 (Docstring.settle (docstring s) ++ 10 :: t) = _ := (quoted_docstring s).settle.read t
    obtain ⟨w', rfl, ht⟩ := map_put_eq_some.1 (hread.symm.trans h)
    refine ⟨_, w', rfl, ht, by simpa [value] using length_settle_le s, fun heq => ?_⟩
    have hsame : Docstring.settle s = s := List.append_cancel_right heq
    exact hsame ▸ return_not_mem_settle s

end Field

section fields

variable {fs : List Field} {code : Bytes}

theorem read_fields (h : ∀ f ∈ fs, f.Literal) :
    readFrom named 0 (unlines (fs.map fun f => settle f.source) ++ (fence ++ code))
      = some (unlines (fs.map Field.value), code) := by
  induction fs with
  | nil => exact read_fence code
  | cons f fs ih =>
    obtain ⟨hf, hfs⟩ := List.forall_mem_cons.1 h
    rw [List.map_cons, List.map_cons, unlines_cons, unlines_cons, List.append_assoc, List.cons_append,
      Field.read hf, ih hfs]
    simp [put]

/-- The value of a literal is no longer than what its fields mean, and is not that unless all of them
hold. -/
theorem of_read_fields {w : Bytes}
    (h : readFrom named 0 (unlines (fs.map fun f => settle f.source) ++ (fence ++ code)) = some (w, code)) :
    w.length ≤ (unlines (fs.map Field.value)).length ∧ (w = unlines (fs.map Field.value) → ∀ f ∈ fs, f.Literal) := by
  induction fs generalizing w with
  | nil =>
    obtain rfl : [] = w := (Prod.mk.inj (Option.some.inj ((read_fence code).symm.trans h))).1
    exact ⟨Nat.zero_le _, by simp⟩
  | cons f fs ih =>
    rw [List.map_cons, unlines_cons, List.append_assoc, List.cons_append] at h
    have hcode : code.length ≤ (unlines (fs.map fun f => settle f.source) ++ (fence ++ code)).length := by
      simp only [List.length_append]
      omega
    obtain ⟨v, w', rfl, ht, hv, hwhole⟩ := Field.of_read hcode h
    obtain ⟨hw', hrest⟩ := ih ht
    rw [List.map_cons, unlines_cons]
    refine ⟨?_, fun heq => ?_⟩
    · rw [List.length_append, List.length_append, List.length_cons]
      omega
    · have hsplit : v ++ w' = (f.value ++ [10]) ++ unlines (fs.map Field.value) := by simpa using heq
      have hlength := congrArg List.length hsplit
      rw [List.length_append, List.length_append, List.length_append, List.length_singleton] at hlength
      obtain ⟨hv, hw'⟩ := List.append_inj hsplit (by rw [List.length_append, List.length_singleton]; omega)
      exact List.forall_mem_cons.2 ⟨hwhole hv, hrest hw'⟩

/-- **A literal made of fields is read for what they mean, and closed where it was closed,** exactly when
every field holds. -/
theorem docstring?_eq_iff (hcode : IsText code) :
    docstring? named (fence ++ (unlines (fs.map Field.source) ++ (fence ++ code)))
      = some (unlines (fs.map Field.value), code) ↔ ∀ f ∈ fs, f.Holds := by
  have hlines : newlines (fence ++ (unlines (fs.map Field.source) ++ (fence ++ code)))
      = fence ++ (unlines (fs.map fun f => settle f.source) ++ (fence ++ code)) := by
    have hfence (s : Bytes) : newlines (fence ++ s) = fence ++ newlines s := rfl
    rw [hfence, newlines_unlines, hfence, newlines_of_not_mem hcode.noReturn, List.map_map]
    rfl
  have hfence (s : Bytes) : IsSource (fence ++ s) ↔ IsSource s := by
    change IsSource (34 :: 34 :: 34 :: s) ↔ _
    simp [isSource_iff, text_cons (show (34 : UInt8) < 0x80 by decide)]
  have hsource : IsSource (fence ++ (unlines (fs.map Field.source) ++ (fence ++ code))) ↔
      ∀ f ∈ fs, IsSource f.value := by
    rw [hfence, isSource_unlines, hfence, List.forall_mem_map, and_iff_left hcode.toIsSource]
    exact forall₂_congr fun f _ => f.isSource_iff
  have hread : docstring? named (fence ++ (unlines (fs.map Field.source) ++ (fence ++ code)))
      = if ∀ f ∈ fs, IsSource f.value then
          readFrom named 0 (unlines (fs.map fun f => settle f.source) ++ (fence ++ code)) else none := by
    rw [docstring?, hlines, readFrom_skip, List.drop_left]
    simp only [hsource, List.prefix_append, and_true]
  rw [hread]
  constructor
  · intro h
    split at h
    · rename_i hsources
      intro f hf
      exact f.holds_iff.2 ⟨hsources f hf, (of_read_fields h).2 rfl f hf⟩
    · cases h
  · intro h
    rw [if_pos fun f hf => (f.holds_iff.1 (h f hf)).1]
    exact read_fields fun f hf => (f.holds_iff.1 (h f hf)).2

end fields

end Docstring

end Bindery
