/-
Comments of interface files, said on their own: a source text is read from left to right as octets
that stand for themselves and comments that are taken as a whole (`Scanned`). Every text can be read so
(`exists_scanned`), and stripping overwrites just the comments (`Scanned.strip_eq`). So positions and lines
stay (`Overwrites`), no comment is left to open, and a text without one is not changed.
-/
import Bindery.Proofs.Interface.Following
import Bindery.Proofs.Interface.Marked

namespace Bindery.Interface

/-! ## Overwriting -/

/-- Octets overwritten with spaces, line feeds apart. -/
def Overwrites (s t : Bytes) : Prop := List.Forall₂ (fun b c => c = b ∨ b ≠ 10 ∧ c = 32) s t

theorem Overwrites.refl (s : Bytes) : Overwrites s s := List.forall₂_same.2 fun _ _ => .inl rfl

theorem Overwrites.trans {s t u : Bytes} (hst : Overwrites s t) (htu : Overwrites t u) : Overwrites s u := by
  induction hst generalizing u with
  | nil => exact htu
  | cons hbc _ ih =>
    cases htu with
    | cons hcd htu =>
      refine .cons ?_ (ih htu)
      rcases hbc with rfl | ⟨hb, rfl⟩
      · exact hcd
      · rcases hcd with rfl | ⟨-, rfl⟩ <;> exact .inr ⟨hb, rfl⟩

theorem overwrites_blanked (s : Bytes) : Overwrites s (s.map blanked) := by
  rw [Overwrites, List.forall₂_map_right_iff]
  refine List.forall₂_same.2 fun b _ => ?_
  by_cases hb : b = 10
  · exact .inl (by rw [blanked, if_pos hb, hb])
  · exact .inr ⟨hb, by rw [blanked, if_neg hb]⟩

section overwrites

variable {s t : Bytes}

/-- Octet by octet: the same one, or a space for an octet that ends no line. -/
theorem Overwrites.get? (h : Overwrites s t) {i : Nat} {b : UInt8} (hb : s[i]? = some b) :
    t[i]? = some b ∨ b ≠ 10 ∧ t[i]? = some 32 := by
  have hi : i < s.length := (List.getElem?_eq_some_iff.1 hb).1
  have hget := List.Forall₂.get h hi (List.Forall₂.length_eq h ▸ hi)
  simp only [List.get_eq_getElem] at hget
  rw [List.getElem?_eq_getElem hi, Option.some.injEq] at hb
  rw [List.getElem?_eq_getElem (List.Forall₂.length_eq h ▸ hi), Option.some.injEq, Option.some.injEq, ← hb]
  exact hget

/-- An octet that is no space was there before. -/
theorem Overwrites.of_get? (h : Overwrites s t) {i : Nat} {c : UInt8} (hc : t[i]? = some c) (hspace : c ≠ 32) :
    s[i]? = some c := by
  have hi : i < s.length := List.Forall₂.length_eq h ▸ (List.getElem?_eq_some_iff.1 hc).1
  have hb := List.getElem?_eq_getElem hi
  rcases h.get? hb with ht | ⟨-, ht⟩
  · rw [hb, ← ht, hc]
  · exact absurd (Option.some.inj (hc.symm.trans ht)) hspace

/-- Lines stay where they are. -/
theorem Overwrites.lineOf_eq (h : Overwrites s t) (i : Nat) : lineOf t i = lineOf s i := by
  have hcount : ∀ {s t : Bytes}, Overwrites s t → t.count 10 = s.count 10 := by
    intro s t h
    induction h with
    | nil => rfl
    | @cons b c s t hbc _ ih =>
      rcases hbc with rfl | ⟨hb, rfl⟩
      · rw [List.count_cons, List.count_cons, ih]
      · rw [List.count_cons_of_ne (by decide), List.count_cons_of_ne hb, ih]
  rw [lineOf, lineOf, hcount (List.forall₂_take i h)]

end overwrites

/-! ## Reading comments -/

/-- A part of a source text: an octet that stands for itself, or a whole comment. -/
inductive Stretch where
  | own (b : UInt8)
  | comment (text : Bytes)

def Stretch.source : Stretch → Bytes
  | .own b => [b]
  | .comment text => text

/-- What of a stretch is left: of a comment, spaces and line feeds. -/
def Stretch.left : Stretch → Bytes
  | .own b => [b]
  | .comment text => text.map blanked

/-- No comment begins where the text does. -/
def NoOpener (s : Bytes) : Prop := ¬utf8 "//" <+: s ∧ ¬utf8 "/*" <+: s

/-- A source text read from left to right. A comment goes from `//` up to the end of its line, or
from `/*` through the first `*/` behind it, and to the end of the text when there is none. -/
inductive Scanned : Bytes → List Stretch → Prop
  | nil : Scanned [] []
  | own {b : UInt8} {s : Bytes} {ps : List Stretch} : NoOpener (b :: s) → Scanned s ps → Scanned (b :: s) (.own b :: ps)
  | line {t s : Bytes} {ps : List Stretch} : 10 ∉ t → AtEnd s → Scanned s ps →
    Scanned (utf8 "//" ++ t ++ s) (.comment (utf8 "//" ++ t) :: ps)
  | block {t s : Bytes} {ps : List Stretch} : ¬utf8 "*/" <:+: t → Scanned s ps →
    Scanned (utf8 "/*" ++ t ++ utf8 "*/" ++ s) (.comment (utf8 "/*" ++ t ++ utf8 "*/") :: ps)
  | unclosed {t : Bytes} : ¬utf8 "*/" <:+: t → Scanned (utf8 "/*" ++ t) [.comment (utf8 "/*" ++ t)]

/-- A text is free of another or goes up to the first place where it stands. -/
theorem exists_first {sep : Bytes} (hsep : sep ≠ []) :
    ∀ s : Bytes, ¬sep <:+: s ∨ ∃ t u, s = t ++ sep ++ u ∧ ¬sep <:+: t
  | [] => .inl (by simpa using hsep)
  | b :: s => by
    by_cases h : sep <+: b :: s
    · obtain ⟨u, hu⟩ := h
      exact .inr ⟨[], u, hu.symm, by simpa using hsep⟩
    · rcases exists_first hsep s with hs | ⟨t, u, rfl, ht⟩
      · exact .inl fun hin => (List.infix_cons_iff.1 hin).elim h hs
      · refine .inr ⟨b :: t, u, rfl, fun hin => (List.infix_cons_iff.1 hin).elim (fun hpre => h ?_) ht⟩
        rw [List.append_assoc, ← List.cons_append]
        exact hpre.trans (List.prefix_append _ _)

/-- **Every text is read** from left to right. -/
theorem exists_scanned (s : Bytes) : ∃ ps, Scanned s ps := by
  induction hlength : s.length using Nat.strong_induction_on generalizing s with
  | _ length ih =>
  subst hlength
  by_cases hline : utf8 "//" <+: s
  · obtain ⟨r, rfl⟩ := hline
    have hrest : AtEnd (r.dropWhile (· != 10)) := fun b hb => by
      have hstop := List.head?_dropWhile_not (· != 10) r
      rw [Option.mem_def.1 hb] at hstop
      simpa using hstop
    have hshort : (r.dropWhile (· != 10)).length < (utf8 "//" ++ r).length := by
      rw [List.length_append]
      exact Nat.lt_of_le_of_lt (List.dropWhile_sublist _).length_le (Nat.lt_add_of_pos_left (by decide))
    obtain ⟨ps, hps⟩ := ih _ hshort _ rfl
    have hfeed : 10 ∉ r.takeWhile (· != 10) := fun h => by simpa using List.mem_takeWhile_imp h
    have h := Scanned.line hfeed hrest hps
    rw [List.append_assoc, List.takeWhile_append_dropWhile] at h
    exact ⟨_, h⟩
  by_cases hblock : utf8 "/*" <+: s
  · obtain ⟨r, rfl⟩ := hblock
    rcases exists_first (show utf8 "*/" ≠ [] by decide) r with hr | ⟨t, u, rfl, ht⟩
    · exact ⟨_, .unclosed hr⟩
    · have hshort : u.length < (utf8 "/*" ++ (t ++ utf8 "*/" ++ u)).length := by
        have hopener : 0 < (utf8 "/*").length := by decide
        simp only [List.length_append]
        omega
      obtain ⟨ps, hps⟩ := ih _ hshort u rfl
      have h := Scanned.block ht hps
      simp only [List.append_assoc] at h ⊢
      exact ⟨_, h⟩
  cases s with
  | nil => exact ⟨[], .nil⟩
  | cons b s =>
    obtain ⟨ps, hps⟩ := ih s.length (Nat.lt_succ_self _) s rfl
    exact ⟨_, .own ⟨hline, hblock⟩ hps⟩

theorem Scanned.source_eq {s : Bytes} {ps : List Stretch} (h : Scanned s ps) : ps.flatMap Stretch.source = s := by
  induction h with
  | nil => rfl
  | own _ _ ih => rw [List.flatMap_cons, ih]; rfl
  | line _ _ _ ih => rw [List.flatMap_cons, ih]; rfl
  | block _ _ ih => rw [List.flatMap_cons, ih]; rfl
  | unclosed _ => simp [Stretch.source]

/-! ## Stripping -/

theorem stripFrom_own {b : UInt8} {s : Bytes} (h : NoOpener (b :: s)) :
    stripFrom .outside (b :: s) = b :: stripFrom .outside s := by
  cases s with
  | nil => rfl
  | cons c s =>
    have hline : ¬(b = 47 ∧ c = 47) := fun ⟨hb, hc⟩ => h.1 ⟨s, by rw [hb, hc]; rfl⟩
    have hblock : ¬(b = 47 ∧ c = 42) := fun ⟨hb, hc⟩ => h.2 ⟨s, by rw [hb, hc]; rfl⟩
    rw [stripFrom, if_neg hline, if_neg hblock]

theorem stripFrom_line {t s : Bytes} (ht : 10 ∉ t) (hs : AtEnd s) :
    stripFrom .line (t ++ s) = t.map blanked ++ stripFrom .outside s := by
  induction t with
  | nil =>
    cases s with
    | nil => rfl
    | cons b s =>
      obtain rfl : b = 10 := hs b rfl
      rw [List.nil_append, stripFrom, if_pos rfl, stripFrom_outside (by decide)]
      rfl
  | cons b t ih =>
    obtain ⟨hb, ht⟩ := List.ne_and_not_mem_of_not_mem_cons ht
    rw [List.cons_append, stripFrom, if_neg hb.symm, ih ht, List.map_cons, blanked, if_neg hb.symm, List.cons_append]

/-- An octet that does not close the comment. -/
theorem stripFrom_inside {b : UInt8} {s : Bytes} (h : ¬utf8 "*/" <+: b :: s) :
    stripFrom .block (b :: s) = blanked b :: stripFrom .block s := by
  cases s with
  | nil => rfl
  | cons c s =>
    have hclose : ¬(b = 42 ∧ c = 47) := fun ⟨hb, hc⟩ => h ⟨s, by rw [hb, hc]; rfl⟩
    rw [stripFrom, if_neg hclose]

theorem stripFrom_unclosed {t : Bytes} (ht : ¬utf8 "*/" <:+: t) : stripFrom .block t = t.map blanked := by
  induction t with
  | nil => rfl
  | cons b t ih =>
    rw [List.infix_cons_iff, not_or] at ht
    rw [stripFrom_inside ht.1, ih ht.2, List.map_cons]

theorem stripFrom_block_closed {t : Bytes} (ht : ¬utf8 "*/" <:+: t) (s : Bytes) :
    stripFrom .block (t ++ utf8 "*/" ++ s) = (t ++ utf8 "*/").map blanked ++ stripFrom .outside s := by
  induction t with
  | nil => rfl
  | cons b t ih =>
    rw [List.infix_cons_iff, not_or] at ht
    have hinside : ¬utf8 "*/" <+: b :: (t ++ utf8 "*/" ++ s) := by
      cases t with
      | nil => exact fun h => absurd (List.cons_prefix_cons.1 (List.cons_prefix_cons.1 h).2).1 (by decide)
      | cons c t =>
        rintro ⟨u, hu⟩
        obtain ⟨rfl, htail⟩ := List.cons.inj hu
        obtain ⟨rfl, -⟩ := List.cons.inj htail
        exact ht.1 ⟨t, rfl⟩
    rw [List.cons_append, List.cons_append, stripFrom_inside hinside, ih ht.2, List.map_cons, List.cons_append]

/-- **Stripping overwrites the comments** and nothing else. -/
theorem Scanned.strip_eq {s : Bytes} {ps : List Stretch} (h : Scanned s ps) :
    stripComments s = ps.flatMap Stretch.left := by
  rw [stripComments]
  induction h with
  | nil => rfl
  | own hb _ ih => rw [stripFrom_own hb, ih, List.flatMap_cons]; rfl
  | @line t s ps ht hs _ ih =>
    have hstrip : stripFrom .outside (utf8 "//" ++ t ++ s) = 32 :: 32 :: stripFrom .line (t ++ s) := rfl
    rw [hstrip, stripFrom_line ht hs, ih, List.flatMap_cons]
    rfl
  | @block t s ps ht _ ih =>
    have hstrip : stripFrom .outside (utf8 "/*" ++ t ++ utf8 "*/" ++ s) =
        32 :: 32 :: stripFrom .block (t ++ utf8 "*/" ++ s) := rfl
    rw [hstrip, stripFrom_block_closed ht, ih, List.flatMap_cons]
    rfl
  | @unclosed t ht =>
    have hstrip : stripFrom .outside (utf8 "/*" ++ t) = 32 :: 32 :: stripFrom .block t := rfl
    rw [hstrip, stripFrom_unclosed ht, List.flatMap_cons, List.flatMap_nil, List.append_nil]
    rfl

theorem overwrites_stripComments (s : Bytes) : Overwrites s (stripComments s) := by
  obtain ⟨ps, hps⟩ := exists_scanned s
  have hone : ∀ ps : List Stretch, Overwrites (ps.flatMap Stretch.source) (ps.flatMap Stretch.left) := by
    intro ps
    induction ps with
    | nil => exact .nil
    | cons p ps ih =>
      rw [List.flatMap_cons, List.flatMap_cons]
      refine List.rel_append ?_ ih
      cases p with
      | own b => exact Overwrites.refl [b]
      | comment text => exact overwrites_blanked text
  rw [hps.strip_eq]
  conv => arg 1; rw [← hps.source_eq]
  exact hone ps

/-! ## What is left -/

/-- No comment begins anywhere. -/
def CommentFree (s : Bytes) : Prop := ¬utf8 "//" <:+: s ∧ ¬utf8 "/*" <:+: s

theorem commentFree_cons {b : UInt8} {s : Bytes} : CommentFree (b :: s) ↔ NoOpener (b :: s) ∧ CommentFree s := by
  simp only [CommentFree, NoOpener, List.infix_cons_iff, not_or]
  exact ⟨fun ⟨⟨h₁, h₂⟩, h₃, h₄⟩ => ⟨⟨h₁, h₃⟩, h₂, h₄⟩, fun ⟨⟨h₁, h₃⟩, h₂, h₄⟩ => ⟨⟨h₁, h₂⟩, h₃, h₄⟩⟩

/-- An octet in front of a text that is overwritten opens no comment it did not open before. -/
theorem NoOpener.overwrites {b : UInt8} {s t : Bytes} (h : NoOpener (b :: s)) (hst : Overwrites s t) :
    NoOpener (b :: t) := by
  have hmark : ∀ c : UInt8, c ≠ 32 → [b, c] <+: b :: t → [b, c] <+: b :: s := by
    intro c hc hpre
    obtain ⟨u, hu⟩ := hpre
    have hget : t[0]? = some c := by rw [← (List.cons.inj hu).2]; rfl
    have hbefore := hst.of_get? hget hc
    cases s with
    | nil => cases hbefore
    | cons d s =>
      cases hbefore
      exact ⟨s, rfl⟩
  constructor
  · intro hpre
    obtain rfl : 47 = b := (List.cons_prefix_cons.1 hpre).1
    exact h.1 (hmark 47 (by decide) hpre)
  · intro hpre
    obtain rfl : 47 = b := (List.cons_prefix_cons.1 hpre).1
    exact h.2 (hmark 42 (by decide) hpre)

theorem CommentFree.append {s : Bytes} (hs : CommentFree s) : ∀ {u : Bytes}, 47 ∉ u → CommentFree (u ++ s)
  | [], _ => hs
  | b :: u, hu => by
    obtain ⟨hb, hu⟩ := List.ne_and_not_mem_of_not_mem_cons hu
    have hopener : NoOpener (b :: (u ++ s)) :=
      ⟨fun h => hb (List.cons_prefix_cons.1 h).1, fun h => hb (List.cons_prefix_cons.1 h).1⟩
    exact commentFree_cons.2 ⟨hopener, hs.append hu⟩

theorem slash_not_mem_blanked (s : Bytes) : 47 ∉ s.map blanked := by
  simp only [List.mem_map, not_exists, not_and]
  intro b _ h
  rw [blanked] at h
  split at h <;> cases h

/-- **No comment is left** where comments are stripped. -/
theorem commentFree_stripComments (s : Bytes) : CommentFree (stripComments s) := by
  obtain ⟨ps, hps⟩ := exists_scanned s
  induction hps with
  | nil => exact ⟨by decide, by decide⟩
  | @own b s ps hb hps ih =>
    have hstrip : stripComments (b :: s) = b :: stripComments s := stripFrom_own hb
    rw [hstrip]
    -- what follows the octet is overwritten with spaces only, so it opens nothing that it did not before
    exact commentFree_cons.2 ⟨hb.overwrites (overwrites_stripComments s), ih⟩
  | line ht hs hps ih =>
    rw [(Scanned.line ht hs hps).strip_eq, List.flatMap_cons, ← hps.strip_eq]
    exact ih.append (slash_not_mem_blanked _)
  | block ht hps ih =>
    rw [(Scanned.block ht hps).strip_eq, List.flatMap_cons, ← hps.strip_eq]
    exact ih.append (slash_not_mem_blanked _)
  | unclosed ht =>
    rw [(Scanned.unclosed ht).strip_eq, List.flatMap_cons]
    exact CommentFree.append ⟨by decide, by decide⟩ (slash_not_mem_blanked _)

/-- A text without comments is not changed. -/
theorem CommentFree.strip_eq : ∀ {s : Bytes}, CommentFree s → stripComments s = s
  | [], _ => rfl
  | b :: s, h => by
    obtain ⟨hb, hs⟩ := commentFree_cons.1 h
    have ih := hs.strip_eq
    rw [stripComments] at ih ⊢
    rw [stripFrom_own hb, ih]

end Bindery.Interface
