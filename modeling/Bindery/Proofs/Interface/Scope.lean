/-
What an accepted interface file promises about its names. Reading a type fails on a name
that is not declared (`Interface.typeWithin_knows`), so every name of an accepted file is
declared (`Interface.scoped_of_parse`). Reading looks no further than one alias for a
type that holds itself; the accepted files whose values are all finite are those where no
type holds itself by any way (`Interface.values_finite_iff`).
-/
import Bindery.Interface.Parser
import Bindery.Proofs.Bytes.Octets
import Bindery.Proofs.Canonical.Unfolding
import Bindery.Proofs.Outcome

namespace Bindery.Interface

/-! ## Names in what is read -/

/-- Every name in a type is one of the declared names. -/
def Names.Knows (names : Names) (t : TypeExpr) : Prop := ∀ n ∈ t.names, (names.kind? n).isSome

section read

variable {names : Names}

theorem knows_of_names_nil {t : TypeExpr} (h : t.names = []) : names.Knows t := by simp [Names.Knows, h]

theorem handle_knows {text : Bytes} {t : TypeExpr} (h : handle names text = .ok t) : names.Knows t := by
  unfold handle at h
  dsimp only at h
  split at h
  · rename_i hkind
    cases h
    simp [Names.Knows, TypeExpr.names, hkind]
  · cases h

theorem applyCtor_knows {ctor : Bytes} {args : List TypeExpr} {t : TypeExpr} (h : applyCtor ctor args = .ok t)
    (hargs : ∀ a ∈ args, names.Knows a) : names.Knows t := by
  unfold applyCtor at h
  split at h
  · split at h
    · cases h
      simpa [Names.Knows, TypeExpr.names] using hargs
    · cases h
  · split at h
    · split at h
      · cases h
        simpa [Names.Knows, TypeExpr.names] using hargs
      · cases h
    · split at h
      · split at h
        · cases h
          simpa [Names.Knows, TypeExpr.names] using hargs
        · cases h
          intro n hn
          rcases List.mem_append.1 hn with hn | hn
          · exact hargs _ (by simp) n hn
          · exact hargs _ (by simp) n hn
        · cases h
      · split at h
        · cases h
          intro n hn
          obtain ⟨a, ha, hn⟩ := TypeExpr.mem_namesAll.1 hn
          exact hargs a ha n hn
        · cases h

theorem builtin?_names {s : Bytes} {t : TypeExpr} (h : builtin? s = some t) : t.names = [] := by
  unfold builtin? at h
  split at h
  · cases h; rfl
  · split at h
    · cases h; rfl
    · split at h
      · cases h; rfl
      · cases h

theorem basic?_names {s : Bytes} {t : TypeExpr} (h : basic? s = some t) : t.names = [] := by
  unfold basic? at h
  split at h
  · cases h; rfl
  · split at h
    · cases h; rfl
    · obtain ⟨p, -, rfl⟩ := Option.map_eq_some_iff.1 h
      rfl

/-- **A type that is read** has declared names only. -/
theorem typeWithin_knows : ∀ (depth : Nat) {s : Bytes} {t : TypeExpr}, typeWithin names depth s = .ok t → names.Knows t
  | 0, s, t, h => by cases h
  | depth + 1, s, t, h => by
    unfold typeWithin at h
    dsimp only at h
    split at h
    · cases h
      exact knows_of_names_nil rfl
    split at h
    · split at h
      · split at h
        · exact handle_knows h
        · cases h
      · obtain ⟨args, hargs, h⟩ := bind_eq_ok.1 h
        refine applyCtor_knows h fun a ha => ?_
        obtain ⟨s, -, hs⟩ := exists_of_mem_mapM hargs ha
        exact typeWithin_knows depth hs
    · split at h
      · rename_i hbuiltin
        cases h
        exact knows_of_names_nil (builtin?_names hbuiltin)
      split at h
      · exact handle_knows h
      split at h
      · rename_i hbasic
        cases h
        exact knows_of_names_nil (basic?_names hbasic)
      split at h
      · rename_i hkind
        cases h
        simpa [Names.Knows, TypeExpr.names] using hkind
      · cases h

theorem typeExpr_knows {s : Bytes} {t : TypeExpr} (h : typeExpr names s = .ok t) : names.Knows t :=
  typeWithin_knows _ h

theorem namedType_knows {item : Bytes} {f : Bytes × TypeExpr} (h : namedType names item = .ok f) :
    names.Knows f.2 := by
  unfold namedType at h
  split at h
  · cases h
  · dsimp only at h
    split at h
    · cases h
    · obtain ⟨t, ht, h⟩ := bind_eq_ok.1 h
      split at h
      · cases h
      · cases h
        exact typeExpr_knows ht

theorem variantCase_knows {item : Bytes} {c : Bytes × TypeExpr} (h : variantCase names item = .ok c) :
    names.Knows c.2 := by
  unfold variantCase at h
  split at h
  · cases h
    exact knows_of_names_nil rfl
  · split at h
    · obtain ⟨t, ht, h⟩ := bind_eq_ok.1 h
      cases h
      exact typeExpr_knows ht
    · cases h

/-- What a declaration says has declared names only, and an alias does not stand for itself. -/
theorem declBody_knows {name text : Bytes} {kind : DeclKind} {b : DeclBody}
    (h : declBody names name text kind = .ok b) :
    (∀ t ∈ b.parts, names.Knows t) ∧ b ≠ .alias (.named name) := by
  cases kind with
  | record =>
    obtain ⟨fs, hfs, h⟩ := bind_eq_ok.1 h
    cases h
    refine ⟨fun t ht => ?_, by simp⟩
    obtain ⟨f, hf, rfl⟩ := List.mem_map.1 ht
    obtain ⟨_, -, hitem⟩ := exists_of_mem_mapM hfs hf
    exact namedType_knows hitem
  | variant =>
    obtain ⟨cs, hcs, h⟩ := bind_eq_ok.1 h
    cases h
    refine ⟨fun t ht => ?_, by simp⟩
    obtain ⟨c, hc, rfl⟩ := List.mem_map.1 ht
    obtain ⟨_, -, hitem⟩ := exists_of_mem_mapM hcs hc
    exact variantCase_knows hitem
  | union =>
    obtain ⟨ts, hts, h⟩ := bind_eq_ok.1 h
    cases h
    refine ⟨fun t ht => ?_, by simp⟩
    obtain ⟨_, -, hitem⟩ := exists_of_mem_mapM hts ht
    exact typeExpr_knows hitem
  | «alias» =>
    obtain ⟨t, ht, h⟩ := bind_eq_ok.1 h
    have hknows := typeExpr_knows ht
    split at h
    · cases h
    · split at h
      · cases h
      · rename_i hne
        cases h
        simpa [DeclBody.parts, hne] using hknows
    · rename_i hother
      cases h
      refine ⟨by simpa [DeclBody.parts] using hknows, fun heq => ?_⟩
      exact hother name (by simpa using heq)
  | enum | flags | resource =>
    cases h
    simp [DeclBody.parts]

theorem resultItem_knows {item : Bytes} {p : Param} (h : resultItem names item = .ok p) : names.Knows p.type := by
  unfold resultItem at h
  split at h
  · obtain ⟨f, hf, h⟩ := bind_eq_ok.1 h
    cases h
    exact namedType_knows hf
  · obtain ⟨t, ht, h⟩ := bind_eq_ok.1 h
    cases h
    exact typeExpr_knows ht

theorem resultList_knows {text : Bytes} {ps : List Param} (h : resultList names text = .ok ps) :
    ∀ p ∈ ps, names.Knows p.type := by
  unfold resultList at h
  dsimp only at h
  split at h
  · cases h
    simp
  · split at h
    · intro p hp
      obtain ⟨_, -, hitem⟩ := exists_of_mem_mapM h hp
      exact resultItem_knows hitem
    · obtain ⟨t, ht, h⟩ := bind_eq_ok.1 h
      cases h
      simpa using typeExpr_knows ht

theorem func_knows {text : FuncText} {f : Func} (h : func names text = .ok f) : ∀ t ∈ f.types, names.Knows t := by
  obtain ⟨fs, hfs, h⟩ := bind_eq_ok.1 h
  have hparams : ∀ f ∈ fs, names.Knows f.2 := by
    intro f hf
    obtain ⟨_, -, hitem⟩ := exists_of_mem_mapM hfs hf
    exact namedType_knows hitem
  have hall : ∀ rs : List Param, (∀ r ∈ rs, names.Knows r.type) →
      ∀ t ∈ Func.types ⟨bareName text.name, fs.map fun f => { name := f.1, type := f.2 }, rs⟩, names.Knows t := by
    intro rs hresults t ht
    rcases List.mem_append.1 ht with ht | ht
    · obtain ⟨p, hp, rfl⟩ := List.mem_map.1 ht
      obtain ⟨f, hf, rfl⟩ := List.mem_map.1 hp
      exact hparams f hf
    · obtain ⟨r, hr, rfl⟩ := List.mem_map.1 ht
      exact hresults r hr
  dsimp only at h
  split at h
  · cases h
    exact hall [] (by simp)
  · obtain ⟨rs, hrs, h⟩ := bind_eq_ok.1 h
    cases h
    exact hall rs (resultList_knows hrs)

end read

/-! ## Accepted files -/

theorem ok_of_at? {α : Type} {start : Nat} {r : Except Problem α} {a : α} (h : at? start r = .ok a) : r = .ok a := by
  cases r with
  | ok b => exact congrArg Except.ok (Except.ok.inj h)
  | error p => cases h

/-- What every declaration and function of a text was read with. -/
structure ReadWith (names : Names) (types : List Decl) (functions : List Func) : Prop where
  declared : types.map (·.name) = names.map (·.1)
  types : ∀ d ∈ types, (∀ t ∈ d.body.parts, names.Knows t) ∧ d.body ≠ .alias (.named d.name)
  functions : ∀ f ∈ functions, ∀ t ∈ f.types, names.Knows t

theorem readWith_of_read {names : Names} {ss : List Site} {types : List Decl} {found : List (Found FuncText)}
    {functions : List Func} (hnames : names.map (·.1) = ss.map (·.name))
    (htypes : (ss.mapM fun s => do
      return (⟨s.name, ← at? s.start (declBody names s.name s.text s.kind)⟩ : Decl)) = .ok types)
    (hfunctions : found.foldlM (addFunc names) [] = .ok functions) : ReadWith names types functions := by
  refine ⟨?_, fun d hd => ?_, ?_⟩
  · rw [hnames]
    have hsteps := mapM_eq_ok.1 htypes
    clear htypes hnames
    induction hsteps with
    | nil => rfl
    | cons hstep _ ih =>
      obtain ⟨b, -, hstep⟩ := bind_eq_ok.1 hstep
      cases hstep
      rw [List.map_cons, List.map_cons, ih]
  · obtain ⟨s, -, hs⟩ := exists_of_mem_mapM htypes hd
    obtain ⟨b, hb, hs⟩ := bind_eq_ok.1 hs
    cases hs
    exact declBody_knows (ok_of_at? hb)
  · refine foldlM_induct (fun fs => ∀ f ∈ fs, ∀ t ∈ f.types, names.Knows t) ?_ hfunctions (by simp)
    intro fs found fs' hfs hadd
    obtain ⟨f, hf, hadd⟩ := bind_eq_ok.1 hadd
    split at hadd
    · cases hadd
    · cases hadd
      intro g hg
      rcases List.mem_append.1 hg with hg | hg
      · exact hfs g hg
      · obtain rfl := List.mem_singleton.1 hg
        exact func_knows (ok_of_at? hf)

theorem readWith_of_contents {text : Bytes} {types : List Decl} {functions : List Func}
    (h : contents text = .ok (types, functions)) : ∃ names, ReadWith names types functions := by
  obtain ⟨ss, -, h⟩ := bind_eq_ok.1 h
  obtain ⟨ds, hds, h⟩ := bind_eq_ok.1 h
  obtain ⟨fs, hfs, h⟩ := bind_eq_ok.1 h
  cases h
  exact ⟨_, readWith_of_read (by simp [Function.comp_def]) hds hfs⟩

theorem isSome_kind?_iff {names : Names} {n : Bytes} : (names.kind? n).isSome ↔ n ∈ names.map (·.1) := by
  rw [Names.kind?, Option.isSome_map, List.find?_isSome]
  simp

/-- **Every name in an accepted file is declared.** -/
theorem scoped_of_parse {path source : Bytes} {i : Interface} (h : parse path source = .ok i) :
    i.Scoped ∧ ∀ d ∈ i.types, d.body ≠ .alias (.named d.name) := by
  unfold parse at h
  dsimp only at h
  split at h
  · rename_i types functions hcontents
    cases h
    obtain ⟨names, hread⟩ := readWith_of_contents hcontents
    have hknows : ∀ t, names.Knows t → Knows { name := nameOfPath path, path, types, functions } t := by
      intro t ht n hn
      rw [isSome_decl?_iff]
      exact hread.declared ▸ isSome_kind?_iff.1 (ht n hn)
    refine ⟨⟨fun d hd t ht => hknows t ((hread.types d hd).1 t ht), fun f hf t ht => ?_⟩, fun d hd => ?_⟩
    · exact hknows t (hread.functions f hf t ht)
    · exact (hread.types d hd).2
  · cases h

/-! ## Finite values -/

/-- **Accepted files with finite values.** In an accepted file every name is declared and no
alias stands for itself. Every type over its names can be written out by value, so that its
underlying type, its layout and its core numbers are found, exactly when no type holds itself
by any way; a type that does is followed without end. Where a type can be written out with
the elements of its lists too, both ways give the same. -/
theorem values_finite_iff {path source : Bytes} {i : Interface} (h : parse path source = .ok i) :
    i.Scoped ∧ (∀ d ∈ i.types, d.body ≠ .alias (.named d.name)) ∧
    ((∀ d ∈ i.types, ∃ v, i.valueShape? (.named d.name) = some v) ↔ ∀ n, ¬Relation.TransGen i.Holds n n) ∧
    ((∀ n, ¬Relation.TransGen i.Holds n n) → ∀ t, i.Knows t → ∃ v, i.valueShape? t = some v) ∧
    (∀ n, Relation.TransGen i.Holds n n → ∀ depth, i.byValue.shapesWithin depth n = none) ∧
    ∀ t s, i.shape? t = some s → ∃ v, i.valueShape? t = some v ∧ v.underlying = s.underlying.byValue ∧
      v.layout = s.layout ∧ v.flat = s.flat := by
  obtain ⟨hscoped, halias⟩ := scoped_of_parse h
  refine ⟨hscoped, halias, ?_, fun hacyclic t ht => ?_, fun n hcycle => ?_, fun t s hs => ?_⟩
  · simp only [← isSome_valueShape?_iff hscoped, Option.isSome_iff_exists]
  · exact Option.isSome_iff_exists.1 (isSome_valueShape? hscoped hacyclic ht)
  · rw [← refers_byValue] at hcycle
    exact shapesWithin_of_cycle hcycle
  · exact ⟨s.byValue, valueShape?_of_shape? hs, s.underlying_byValue, s.layout_byValue, s.flat_byValue⟩

/-- What was checked of the outcome of a computation. -/
theorem exists_ok_of_check {ε α : Type} {r : Except ε α} (check : α → Bool) (h : r.toOption.any check = true) :
    ∃ a, r = .ok a ∧ check a = true := by
  cases r with
  | ok a => exact ⟨a, rfl, h⟩
  | error e => cases h

/-- A record may hold a list of itself: its values are finite. -/
theorem values_finite_tree : ∃ i,
    parse (utf8 "tree.wai") (utf8 "record tree { label: id, kids: list<tree> }\ntype id = u8\n") = .ok i ∧
    i.shapeOf? (utf8 "tree") = none ∧ (∀ n, ¬Relation.TransGen i.Holds n n) ∧
    ∃ v, i.valueShape? (.named (utf8 "tree")) = some v ∧ v.layout = ⟨12, 4⟩ := by
  obtain ⟨i, hi, hcheck⟩ := exists_ok_of_check (r := parse (utf8 "tree.wai")
    (utf8 "record tree { label: id, kids: list<tree> }\ntype id = u8\n"))
    (fun i => (i.shapeOf? (utf8 "tree")).isNone && i.types.all (fun d => (i.valueShape? (.named d.name)).isSome)
      && (i.valueShape? (.named (utf8 "tree"))).any (·.layout == ⟨12, 4⟩))
    (by rw [utf8_eq_toByteArray]; decide +kernel)
  simp only [Bool.and_eq_true, Option.isNone_iff_eq_none, List.all_eq_true, Option.isSome_iff_exists,
    Option.any_eq_true, beq_iff_eq] at hcheck
  obtain ⟨⟨hshape, hvalues⟩, hlayout⟩ := hcheck
  exact ⟨i, hi, hshape, (values_finite_iff hi).2.2.1.1 hvalues, hlayout⟩

/-- Two aliases may stand for each other: what they stand for is never found. -/
theorem aliases_may_hold_themselves : ∃ i, parse (utf8 "m.wai") (utf8 "type a = b\ntype b = a\n") = .ok i ∧
    Relation.TransGen i.Holds (utf8 "a") (utf8 "a") ∧ i.valueShape? (.named (utf8 "a")) = none := by
  obtain ⟨i, hi, hcheck⟩ := exists_ok_of_check (r := parse (utf8 "m.wai") (utf8 "type a = b\ntype b = a\n"))
    (fun i => decide (i.Holds (utf8 "a") (utf8 "b")) && decide (i.Holds (utf8 "b") (utf8 "a"))
      && (i.valueShape? (.named (utf8 "a"))).isNone) (by decide +kernel)
  simp only [Bool.and_eq_true, Option.isNone_iff_eq_none, decide_eq_true_eq] at hcheck
  obtain ⟨⟨hab, hba⟩, hnone⟩ := hcheck
  exact ⟨i, hi, .tail (.single hab) hba, hnone⟩

end Bindery.Interface
