/-
What an accepted text was read from. Reading goes through declarations, aliases and functions
and stops at the first problem; where there is none, the order of the checks does not show, and
what is left is one statement for each thing that was found (`Reading`). A text is accepted
exactly when there is such a reading (`parse_eq_ok`).
-/
import Bindery.Proofs.Interface.Scope

namespace Bindery

/-- A fold that adds one element at a time, if its key is new, stands for all of them with no key
twice. -/
theorem foldlM_add_eq_ok {ε α β κ : Type} {add : List β → α → Except ε (List β)} {R : α → β → Prop} {key : β → κ}
    (hadd : ∀ bs a bs', add bs a = .ok bs' ↔ ∃ b, R a b ∧ key b ∉ bs.map key ∧ bs' = bs ++ [b]) :
    ∀ {as : List α} {bs bs' : List β}, (bs.map key).Nodup →
      (as.foldlM add bs = .ok bs' ↔ ∃ new, List.Forall₂ R as new ∧ bs' = bs ++ new ∧ (bs'.map key).Nodup)
  | [], bs, bs', hbs => by
    simp only [List.foldlM_nil, List.forall₂_nil_left_iff, exists_eq_left, List.append_nil]
    exact ⟨fun h => Except.ok.inj h ▸ ⟨rfl, hbs⟩, fun h => h.1 ▸ rfl⟩
  | a :: as, bs, bs', hbs => by
    have hconcat : ∀ {b}, key b ∉ bs.map key → ((bs ++ [b]).map key).Nodup := by
      intro b hnew
      rw [List.map_append, List.perm_append_comm.nodup_iff]
      exact List.nodup_cons.2 ⟨hnew, hbs⟩
    rw [List.foldlM_cons, bind_eq_ok]
    simp only [hadd, List.forall₂_cons_left_iff]
    constructor
    · rintro ⟨_, ⟨b, hb, hnew, rfl⟩, hrest⟩
      obtain ⟨new, hnews, rfl, hnodup⟩ := (foldlM_add_eq_ok hadd (hconcat hnew)).1 hrest
      exact ⟨b :: new, ⟨b, new, hb, hnews, rfl⟩, by simp, hnodup⟩
    · rintro ⟨_, ⟨b, new, hb, hnews, rfl⟩, rfl, hnodup⟩
      have hnew : key b ∉ bs.map key := by
        rw [List.map_append, List.nodup_append] at hnodup
        exact fun hmem => hnodup.2.2 _ hmem _ (by simp) rfl
      rw [List.append_cons] at hnodup ⊢
      exact ⟨_, ⟨b, hb, hnew, rfl⟩, (foldlM_add_eq_ok hadd (hconcat hnew)).2 ⟨new, hnews, rfl, hnodup⟩⟩

theorem foldlM_add_nil {ε α β κ : Type} {add : List β → α → Except ε (List β)} {R : α → β → Prop} {key : β → κ}
    (hadd : ∀ bs a bs', add bs a = .ok bs' ↔ ∃ b, R a b ∧ key b ∉ bs.map key ∧ bs' = bs ++ [b]) {as : List α}
    {bs : List β} : as.foldlM add [] = .ok bs ↔ List.Forall₂ R as bs ∧ (bs.map key).Nodup := by
  have hall := @foldlM_add_eq_ok ε α β κ add R key hadd as [] bs (show (List.map key []).Nodup from List.nodup_nil)
  rw [hall]
  exact ⟨fun ⟨_, h, heq, hnodup⟩ => ⟨heq ▸ h, hnodup⟩, fun ⟨h, hnodup⟩ => ⟨bs, h, rfl, hnodup⟩⟩

namespace Interface

/-! ## Taking the checks apart -/

theorem at?_eq_ok {α : Type} {start : Nat} {r : Except Problem α} {a : α} : at? start r = .ok a ↔ r = .ok a :=
  ⟨ok_of_at?, fun h => h ▸ rfl⟩

theorem addSite_eq_ok {ss ss' : List Site} {s : Site} :
    addSite ss s = .ok ss' ↔ s.name ∉ ss.map Site.name ∧ ss' = ss ++ [s] := by
  have hany : (ss.any fun s' => s'.name == s.name) = true ↔ s.name ∈ ss.map Site.name := by
    simp [List.any_eq_true]
  rw [addSite]
  split
  · rename_i h
    simp [hany.1 h]
  · rename_i h
    simp only [mt hany.2 h, not_false_eq_true, true_and, Except.ok.injEq]
    exact eq_comm

theorem addFunc_eq_ok {names : Names} {fs fs' : List Func} {found : Found FuncText} : addFunc names fs found = .ok fs' ↔
    ∃ f, func names found.value = .ok f ∧ f.name ∉ fs.map Func.name ∧ fs' = fs ++ [f] := by
  rw [addFunc, bind_eq_ok]
  simp only [at?_eq_ok]
  refine exists_congr fun f => and_congr_right fun _ => ?_
  have hany : (fs.any fun f' => f'.name == f.name) = true ↔ f.name ∈ fs.map Func.name := by
    simp [List.any_eq_true]
  split
  · rename_i h
    refine iff_of_false (fun h => ?_) fun hnew => hnew.1 (hany.1 h)
    cases h
  · rename_i h
    rw [and_iff_right (mt hany.2 h)]
    exact ⟨fun h => (Except.ok.inj h).symm, fun h => h ▸ rfl⟩

/-- The declared names as types are read with. -/
def namesOf (ss : List Site) : Names := ss.map fun s => (s.name, s.kind)

theorem map_fst_namesOf (ss : List Site) : (namesOf ss).map (·.1) = ss.map Site.name := by
  rw [namesOf, List.map_map]
  rfl

/-- The text in which functions are looked for. -/
def remaining (text : Bytes) : Bytes := withoutDecls (scan declText? text) (scan aliasText? text) text

/-- A text and what was read from it: a site for everything that is declared, declarations before
aliases, what each site declares, and every function in the rest of the text. -/
structure Reading (text : Bytes) (ss : List Site) (types : List Decl) (functions : List Func) : Prop where
  sites : ∃ ds, List.Forall₂ (fun found s => declSite found = .ok s) (scan declText? text) ds ∧
    ss = ds ++ (scan aliasText? text).map aliasSite
  siteNames : (ss.map Site.name).Nodup
  funcNames : (functions.map Func.name).Nodup
  types : List.Forall₂ (fun s d => d.name = s.name ∧ declBody (namesOf ss) s.name s.text s.kind = .ok d.body) ss types
  functions : List.Forall₂ (fun found f => func (namesOf ss) found.value = .ok f) (scan funcText? (remaining text))
    functions

theorem sites_eq_ok {decls : List (Found DeclText)} {aliases : List (Found (Bytes × Bytes))} {ss : List Site} :
    sites decls aliases = .ok ss ↔
      (∃ ds, List.Forall₂ (fun found s => declSite found = .ok s) decls ds ∧ ss = ds ++ aliases.map aliasSite) ∧
        (ss.map Site.name).Nodup := by
  have hdecls : ∀ (ds : List Site) (d : Found DeclText) (ds' : List Site), (do addSite ds (← declSite d)) = .ok ds' ↔
      ∃ s, declSite d = .ok s ∧ s.name ∉ ds.map Site.name ∧ ds' = ds ++ [s] := by
    intro ds d ds'
    rw [bind_eq_ok]
    simp only [addSite_eq_ok]
  have haliases : ∀ (ds : List Site) (a : Found (Bytes × Bytes)) (ds' : List Site),
      addSite ds (aliasSite a) = .ok ds' ↔ ∃ s, s = aliasSite a ∧ s.name ∉ ds.map Site.name ∧ ds' = ds ++ [s] := by
    intro ds a ds'
    simp [addSite_eq_ok]
  have hmap : ∀ new, List.Forall₂ (fun a s => s = aliasSite a) aliases new ↔ new = aliases.map aliasSite := by
    intro new
    rw [← List.forall₂_eq_eq_eq, List.forall₂_map_right_iff]
    exact ⟨List.Forall₂.flip, List.Forall₂.flip⟩
  rw [sites, bind_eq_ok]
  constructor
  · rintro ⟨ds, hds, hrest⟩
    obtain ⟨hread, hnodup⟩ := (foldlM_add_nil hdecls).1 hds
    obtain ⟨new, hnew, rfl, hall⟩ := (foldlM_add_eq_ok haliases hnodup).1 hrest
    obtain rfl := (hmap new).1 hnew
    exact ⟨⟨_, hread, rfl⟩, hall⟩
  · rintro ⟨⟨ds, hread, rfl⟩, hall⟩
    have hnodup : (ds.map Site.name).Nodup := by
      rw [List.map_append] at hall
      exact (List.nodup_append.1 hall).1
    exact ⟨ds, (foldlM_add_nil hdecls).2 ⟨hread, hnodup⟩,
      (foldlM_add_eq_ok haliases hnodup).2 ⟨_, (hmap _).2 rfl, rfl, hall⟩⟩

theorem types_eq_ok {names : Names} {ss : List Site} {types : List Decl} : (ss.mapM fun s => do
      return (⟨s.name, ← at? s.start (declBody names s.name s.text s.kind)⟩ : Decl)) = .ok types ↔
    List.Forall₂ (fun s d => d.name = s.name ∧ declBody names s.name s.text s.kind = .ok d.body) ss types := by
  have hone : ∀ (s : Site) (d : Decl),
      ((do return (⟨s.name, ← at? s.start (declBody names s.name s.text s.kind)⟩ : Decl)) = Except.ok d ↔
        d.name = s.name ∧ declBody names s.name s.text s.kind = .ok d.body) := by
    intro s d
    rw [bind_eq_ok]
    simp only [at?_eq_ok]
    constructor
    · rintro ⟨b, hb, h⟩
      cases h
      exact ⟨rfl, hb⟩
    · rintro ⟨hname, hb⟩
      exact ⟨d.body, hb, hname ▸ rfl⟩
  rw [mapM_eq_ok]
  simp only [hone]

theorem functions_eq_ok {names : Names} {found : List (Found FuncText)} {fs : List Func} :
    found.foldlM (addFunc names) [] = .ok fs ↔
      List.Forall₂ (fun found f => func names found.value = .ok f) found fs ∧ (fs.map Func.name).Nodup := by
  have hadd : ∀ (fs : List Func) (found : Found FuncText) (fs' : List Func), addFunc names fs found = .ok fs' ↔
      ∃ f, func names found.value = .ok f ∧ f.name ∉ fs.map Func.name ∧ fs' = fs ++ [f] :=
    fun _ _ _ => addFunc_eq_ok
  exact foldlM_add_nil hadd

/-- **A text is read** exactly when it has a reading. -/
theorem contents_eq_ok {text : Bytes} {types : List Decl} {functions : List Func} :
    contents text = .ok (types, functions) ↔ ∃ ss, Reading text ss types functions := by
  rw [contents]
  simp only [bind_eq_ok, sites_eq_ok, functions_eq_ok]
  refine exists_congr fun ss => ?_
  constructor
  · rintro ⟨⟨hsites, hnames⟩, ds, hds, fs, ⟨hfs, hfuncs⟩, h⟩
    cases h
    exact ⟨hsites, hnames, hfuncs, types_eq_ok.1 hds, hfs⟩
  · rintro ⟨hsites, hnames, hfuncs, htypes, hfs⟩
    exact ⟨⟨hsites, hnames⟩, types, types_eq_ok.2 htypes, functions, ⟨hfs, hfuncs⟩, rfl⟩

/-- **A file is accepted** exactly when its text without comments has a reading. -/
theorem parse_eq_ok {path source : Bytes} {i : Interface} : parse path source = .ok i ↔
    i.name = nameOfPath path ∧ i.path = path ∧ ∃ ss, Reading (stripComments source) ss i.types i.functions := by
  rw [parse, ← contents_eq_ok]
  cases hcontents : contents (stripComments source) with
  | error e => simp
  | ok c =>
    obtain ⟨types, functions⟩ := c
    constructor
    · intro h
      cases h
      exact ⟨rfl, rfl, rfl⟩
    · rintro ⟨hname, hpath, hc⟩
      cases hc
      dsimp only
      rw [← hname, ← hpath]

end Interface

end Bindery
