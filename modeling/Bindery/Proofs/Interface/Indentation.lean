/-
Indenting the lines of an interface file. Declarations, aliases and functions are found after
blanks, so indentation says nothing (`parse_indent`), but for two places: a declaration without a
body takes the white space behind it, and with it the indentation of the next line, whose
declaration is then not found (`indented_declaration_lost`); and the name of a case that goes over a line
takes up the indentation.
-/
import Bindery.Proofs.Interface.Following

namespace Bindery.Interface

/-- Blanks put in behind the line feeds of a text that starts at an offset. -/
def indentFrom (pad : Nat → Bytes) : Nat → Bytes → Bytes
  | _, [] => []
  | n, b :: s => b :: ((if b = 10 then pad (n + 1) else []) ++ indentFrom pad (n + 1) s)

/-- A text with its lines indented: `pad n` is put before the line that starts at offset `n`. -/
def indent (pad : Nat → Bytes) (s : Bytes) : Bytes := pad 0 ++ indentFrom pad 0 s

section marks

variable {free : Nat → Prop} {pad : Nat → Bytes}

theorem Laid.put {n : Nat} {w : Marked} (hw : Laid free n true w) : ∀ {p : Bytes}, (∀ b ∈ p, isGap b = true) →
    (p ≠ [] → free n) → ∃ v, before v = before w ∧ after v = p ++ after w ∧ Laid free n true v
  | [], _, _ => ⟨w, rfl, rfl, hw⟩
  | b :: p, hp, hfree => by
    obtain ⟨hb, hp⟩ := List.forall_mem_cons.1 hp
    obtain ⟨v, hbefore, hafter, hv⟩ := hw.put hp fun _ => hfree (by simp)
    exact ⟨(b, false) :: v, hbefore, congrArg (b :: ·) hafter, rfl, hfree (by simp), hb, hv⟩

/-- The marks of an indented text. -/
theorem exists_marked (hpad : ∀ n, ∀ b ∈ pad n, isGap b = true) (s : Bytes) :
    ∃ w, before w = s ∧ after w = indent pad s ∧ Laid (fun n => pad n ≠ []) 0 true w := by
  have hfrom : ∀ (s : Bytes) (n : Nat) (fresh : Bool), ∃ w, before w = s ∧ after w = indentFrom pad n s ∧
      Laid (fun n => pad n ≠ []) n fresh w := by
    intro s
    induction s with
    | nil => exact fun _ _ => ⟨[], rfl, rfl, trivial⟩
    | cons b s ih =>
      intro n fresh
      obtain ⟨w, hbefore, hafter, hw⟩ := ih (n + 1) (b == 10)
      rw [indentFrom]
      by_cases hb : b = 10
      · subst hb
        obtain ⟨v, hbefore', hafter', hv⟩ := hw.put (hpad (n + 1)) id
        refine ⟨(10, true) :: v, ?_, ?_, hv⟩
        · rw [before_own, hbefore', hbefore]
        · rw [after_cons, hafter', hafter, if_pos rfl]
      · refine ⟨(b, true) :: w, ?_, ?_, hw⟩
        · rw [before_own, hbefore]
        · rw [after_cons, hafter, if_neg hb, List.nil_append]
  obtain ⟨w, hbefore, hafter, hw⟩ := hfrom s 0 true
  obtain ⟨v, hbefore', hafter', hv⟩ := hw.put (hpad 0) id
  exact ⟨v, by rw [hbefore', hbefore], by rw [hafter', hafter, indent], hv⟩

end marks

/-! ## Readings -/

section reading

variable {free : Nat → Prop} {w : Marked} {ss : List Site} {types : List Decl} {fs : List Func}

/-- Sites that differ in where they are and in blanks behind the line feeds of their texts. -/
def Site.Alike (s s' : Site) : Prop := s'.name = s.name ∧ s'.kind = s.kind ∧ SpacedAt 10 False s.text s'.text

theorem declSite_alike {d d' : Found DeclText} {s : Site} (hd : DeclText.Alike d.value d'.value) (h : declSite d = .ok s) :
    ∃ s', declSite d' = .ok s' ∧ s.Alike s' := by
  obtain ⟨hkind, hname, hbody⟩ := hd
  unfold declSite at h ⊢
  dsimp only at h ⊢
  rw [hkind, hname]
  generalize d.value.body = o, d'.value.body = o' at hbody h ⊢
  cases hbody with
  | none =>
    dsimp only at h ⊢
    split at h
    · rename_i hresource
      cases h
      exact ⟨_, if_pos hresource, rfl, rfl, .nil⟩
    · cases h
  | some hbody =>
    cases h
    exact ⟨_, rfl, rfl, rfl, hbody⟩

theorem declSites_alike {founds founds' : List (Found DeclText)}
    (hfounds : List.Forall₂ (Match w DeclText.Alike) founds founds') {ds : List Site}
    (hds : List.Forall₂ (fun d s => declSite d = .ok s) founds ds) : ∃ ds',
      List.Forall₂ (fun d s => declSite d = .ok s) founds' ds' ∧ List.Forall₂ Site.Alike ds ds' := by
  induction hfounds generalizing ds with
  | nil =>
    cases hds
    exact ⟨[], .nil, .nil⟩
  | cons hd _ ih =>
    cases hds with
    | cons hs hds =>
      obtain ⟨s', hs', halike⟩ := declSite_alike hd.value hs
      obtain ⟨ds', hds', hall⟩ := ih hds
      exact ⟨s' :: ds', .cons hs' hds', .cons halike hall⟩

theorem aliasSites_alike {founds founds' : List (Found (Bytes × Bytes))} (h : List.Forall₂ (Match w Eq) founds founds') :
    List.Forall₂ Site.Alike (founds.map aliasSite) (founds'.map aliasSite) := by
  rw [List.forall₂_map_left_iff, List.forall₂_map_right_iff]
  refine h.imp fun a a' ha => ?_
  rw [Site.Alike, aliasSite, aliasSite, ha.value]
  exact ⟨rfl, rfl, .refl _⟩

theorem namesOf_alike {ss' : List Site} (h : List.Forall₂ Site.Alike ss ss') : namesOf ss' = namesOf ss :=
  (map_eq_map_of_forall₂ h fun _ _ hs => by rw [hs.1, hs.2.1]).symm

/-- **An indented text has the same reading**, given that no declaration starts on an indented line
right where another one ends, and that no name of a case goes over a line. -/
theorem Reading.indented (h : Reading (before w) ss types fs) (hw : Laid free 0 true w)
    (hapart : Apart free (scan declText? (before w))) (hcases : ∀ d ∈ types, ∀ n ∈ d.body.caseNames, 44 ∉ n) :
    ∃ ss', Reading (after w) ss' types fs := by
  have hdecls := scan_marked follows_declText hw (.inr hapart)
  have haliases := scan_marked follows_aliasText hw (.inl rfl)
  obtain ⟨u, hu, hbefore, hafter⟩ := withoutDecls_marked hdecls haliases
  have hfuncs := scan_marked follows_funcText (hu.laid hw) (.inl rfl)
  rw [hbefore, hafter] at hfuncs
  obtain ⟨ds, hds, rfl⟩ := h.sites
  obtain ⟨ds', hds', halike⟩ := declSites_alike hdecls hds
  have hall : List.Forall₂ Site.Alike (ds ++ (scan aliasText? (before w)).map aliasSite)
      (ds' ++ (scan aliasText? (after w)).map aliasSite) := List.rel_append halike (aliasSites_alike haliases)
  have hnames := namesOf_alike hall
  have hidents : (namesOf (ds ++ (scan aliasText? (before w)).map aliasSite)).AreIdents := by
    intro n hn
    have hmem := isSome_kind?_iff.1 hn
    rw [map_fst_namesOf] at hmem
    obtain ⟨s, hs, rfl⟩ := List.mem_map.1 hmem
    exact h.ident_site s hs
  refine ⟨_, ⟨ds', hds', rfl⟩, ?_, h.funcNames, ?_, ?_⟩
  · rw [← map_eq_map_of_forall₂ hall fun _ _ hs => hs.1.symm]
    exact h.siteNames
  · rw [hnames]
    refine forall₂_of_step hall (fun s s' d hd hs hread => ?_) h.types
    rw [hs.1, hs.2.1]
    exact ⟨hread.1, declBody_spaced hidents hs.2.2 hread.2 (hcases d hd)⟩
  · rw [hnames]
    refine forall₂_of_step hfuncs (fun d d' f _ hd hread => ?_) h.functions
    obtain ⟨params, heq, hparams⟩ := hd.value
    rw [heq]
    exact func_spaced hidents hparams hread

end reading

/-! ## Indented files -/

/-- **Indentation says nothing** in an accepted file: with any blanks before its lines it is read as
the same interface. Excepted are the lines on which a declaration starts right where another one
ends, which is one without a body, and names of cases with a comma, which may go over a line. -/
theorem parse_indent {path source : Bytes} {i : Interface} (h : parse path source = .ok i) {pad : Nat → Bytes}
    (hpad : ∀ n, ∀ b ∈ pad n, isGap b = true)
    (hapart : ∀ d ∈ scan declText? (stripComments source), ∀ e ∈ scan declText? (stripComments source),
      e.start = d.start + d.length → pad e.start = [])
    (hcases : ∀ d ∈ i.types, ∀ n ∈ d.body.caseNames, 44 ∉ n) : parse path (indent pad source) = .ok i := by
  obtain ⟨hname, hpath, ss, hread⟩ := parse_eq_ok.1 h
  obtain ⟨w, hbefore, hafter, hw⟩ := exists_marked hpad source
  obtain ⟨v, hv, hv', hlaid⟩ := hw.strip .outside
  rw [hbefore, ← stripComments] at hv
  rw [hafter, ← stripComments] at hv'
  rw [← hv] at hread hapart
  obtain ⟨ss', hread'⟩ := hread.indented hlaid (fun d hd e he heq hfree => hfree (hapart d hd e he heq)) hcases
  rw [hv'] at hread'
  exact parse_eq_ok.2 ⟨hname, hpath, ss', hread'⟩

/-- Members and parameters over lines, and a declaration that keeps its place behind one without a
body. -/
def layoutText : Bytes :=
  utf8 "record point \x7b\n  x: list<\nu8>\n\x7d\nresource a\n\nresource b\nshow: func(\np: point) -> own<a>\n"

theorem parse_indent_layout : ∃ i, parse (utf8 "m.wai") layoutText = .ok i ∧
    i.types.map Decl.name = [utf8 "point", utf8 "a", utf8 "b"] ∧ i.functions.map Func.name = [utf8 "show"] ∧
    parse (utf8 "m.wai") (indent (fun n => if n = 44 then [] else utf8 " \t") layoutText) = .ok i := by
  obtain ⟨i, hi, hcheck⟩ := exists_ok_of_check (r := parse (utf8 "m.wai") layoutText)
    (fun i => i.types.map Decl.name == [utf8 "point", utf8 "a", utf8 "b"] &&
      i.functions.map Func.name == [utf8 "show"] && i.types.all (·.body.caseNames.isEmpty))
    (by rw [layoutText, utf8_eq_toByteArray]; decide +kernel)
  simp only [Bool.and_eq_true, beq_iff_eq, List.all_eq_true, List.isEmpty_iff] at hcheck
  obtain ⟨⟨htypes, hfuncs⟩, hcases⟩ := hcheck
  refine ⟨i, hi, htypes, hfuncs, parse_indent hi (fun n b hb => ?_) ?_ fun d hd n hn => ?_⟩
  · have hpad : ∀ b ∈ utf8 " \t", isGap b = true := by decide +kernel
    split at hb
    · cases hb
    · exact hpad b hb
  · rw [layoutText, utf8_eq_toByteArray]
    decide +kernel
  · rw [hcases d hd] at hn
    cases hn

/-- A declaration without a body takes the indentation of the next line: the declaration there is lost. -/
theorem indented_declaration_lost : ∃ i j, parse (utf8 "m.wai") (utf8 "resource a\nresource b\n") = .ok i ∧
    i.types.map Decl.name = [utf8 "a", utf8 "b"] ∧
    indent (fun n => if n = 11 then utf8 "  " else []) (utf8 "resource a\nresource b\n") =
      utf8 "resource a\n  resource b\n" ∧
    parse (utf8 "m.wai") (utf8 "resource a\n  resource b\n") = .ok j ∧ j.types.map Decl.name = [utf8 "a"] := by
  obtain ⟨i, hi, hcheck⟩ := exists_ok_of_check (r := parse (utf8 "m.wai") (utf8 "resource a\nresource b\n"))
    (fun i => i.types.map Decl.name == [utf8 "a", utf8 "b"]) (by decide +kernel)
  obtain ⟨j, hj, hcheck'⟩ := exists_ok_of_check (r := parse (utf8 "m.wai") (utf8 "resource a\n  resource b\n"))
    (fun i => i.types.map Decl.name == [utf8 "a"]) (by decide +kernel)
  exact ⟨i, j, hi, by simpa using hcheck, by decide +kernel, hj, by simpa using hcheck'⟩

end Bindery.Interface
