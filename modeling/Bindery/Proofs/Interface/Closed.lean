/-
Accepted interface files are closed and unambiguous. Every name that is declared, every function
and every parameter is named by an identifier (`Reading.ident_site`, `func_signature`), no name
is declared twice, and a declaration says what its keyword announces (`declBody_admits`). So a
declared type that is reachable from a function or a declaration is that of exactly one
declaration (`closed_of_parse`).
-/
import Bindery.Proofs.Interface.Reading
import Bindery.Proofs.Interface.RoundTrip

namespace Bindery

/-! ## What a declaration stands for -/

/-- What a declared name stands for, whatever the form of its declaration. -/
inductive Definition where
  | record (fields : List (Bytes × TypeExpr))
  | enum (cases : List Bytes)
  | flags (names : List Bytes)
  | variant (cases : List (Bytes × TypeExpr))
  /-- a number, or another type -/
  | type (t : TypeExpr)

/-- A union is a variant, and a resource the number that it is known by. -/
def DeclBody.definition : DeclBody → Definition
  | .record fs => .record fs
  | .enum cs => .enum cs
  | .flags fs => .flags fs
  | .variant cs => .variant cs
  | .union ts => .variant (unionCases ts)
  | .resource => .type (.prim .u32)
  | .alias t => .type t

namespace Definition

/-- The types a definition is made of. -/
def parts : Definition → List TypeExpr
  | .record fs => fs.map (·.2)
  | .variant cs => cs.map (·.2)
  | .type t => [t]
  | .enum _ | .flags _ => []

/-- Writes a definition out under a name. -/
def shape? (env : Bytes → Option Shape) (name : Bytes) : Definition → Option Shape
  | .record fs => do return .record name (← namedShapes? env fs)
  | .enum cs => some (.enum name cs)
  | .flags fs => some (.flags name fs)
  | .variant cs => do return .variant name (← namedShapes? env cs)
  | .type t => do return .alias name (← t.shape? env)

end Definition

/-- A declaration is written out by what it stands for. -/
theorem Decl.shape?_eq (env : Bytes → Option Shape) (d : Decl) :
    d.shape? env = d.body.definition.shape? env d.name := by
  obtain ⟨n, b⟩ := d
  cases b with
  | resource => simp [Decl.shape?, DeclBody.definition, Definition.shape?, TypeExpr.shape?]
  | _ => rfl

theorem DeclBody.parts_definition (b : DeclBody) : ∀ t ∈ b.definition.parts, t ∈ b.parts ∨ t = .prim .u32 := by
  cases b with
  | union ts =>
    intro t ht
    rw [DeclBody.definition, Definition.parts, map_snd_unionCases] at ht
    exact .inl ht
  | resource => simp [DeclBody.definition, Definition.parts]
  | _ => exact fun t ht => .inl ht

/-- What may be declared by a keyword under a name. -/
inductive DeclKind.Admits (name : Bytes) : DeclKind → Definition → Prop
  | record (fs : List (Bytes × TypeExpr)) : Admits name .record (.record fs)
  | enum (cs : List Bytes) : Admits name .enum (.enum cs)
  | flags (fs : List Bytes) : Admits name .flags (.flags fs)
  | variant (cs : List (Bytes × TypeExpr)) : Admits name .variant (.variant cs)
  /-- the cases of a union are `c0`, `c1` and so on -/
  | union {cs : List (Bytes × TypeExpr)} (h : ∀ k : Nat, ∀ c ∈ cs[k]?, c.1 = utf8 "c" ++ Bytes.decimal k) :
    Admits name .union (.variant cs)
  | resource : Admits name .resource (.type (.prim .u32))
  /-- an alias stands for a type, and not for itself -/
  | alias {t : TypeExpr} (hset : t ≠ .blank) (hself : t ≠ .named name) : Admits name .alias (.type t)

/-- A type that a constructor makes; it has no name. -/
def TypeExpr.isAnonymous : TypeExpr → Bool
  | .list _ | .option _ | .result _ _ | .tuple _ => true
  | _ => false

/-- A type with a definition of its own, and not one of the words for types. -/
def TypeExpr.isDefined : TypeExpr → Bool
  | .named _ => true
  | t => t.isAnonymous

/-- The types that a constructor makes a type of. -/
def TypeExpr.arguments : TypeExpr → List TypeExpr
  | .list t | .option t => [t]
  | .result ok err => [ok, err]
  | .tuple ts => ts
  | _ => []

theorem TypeExpr.names_of_argument {t u : TypeExpr} (hu : u ∈ t.arguments) : ∀ n ∈ u.names, n ∈ t.names := by
  cases t with
  | list t | option t =>
    obtain rfl := List.mem_singleton.1 hu
    exact fun n hn => hn
  | result ok err =>
    intro n hn
    rcases List.mem_pair.1 hu with rfl | rfl
    · exact List.mem_append_left _ hn
    · exact List.mem_append_right _ hn
  | tuple ts => exact fun n hn => TypeExpr.mem_namesAll.2 ⟨u, hu, hn⟩
  | _ => cases hu

namespace Interface

/-! ## Identifiers -/

theorem bareName_signed {n : Bytes} (hn : isIdent n = true) : bareName (37 :: n) = n := by
  have hitem := (isTypeText_ident hn).toIsItem
  have hascii : Bytes.IsAscii (37 :: n) := List.forall_mem_cons.2 ⟨by decide, hitem.ascii⟩
  have htight : Bytes.IsTight (37 :: n) := by
    refine ⟨by simp [Blank.isBlankByte], fun b hb => hitem.tight.last b ?_⟩
    obtain ⟨c, n, rfl⟩ := List.exists_cons_of_ne_nil hitem.ne_nil
    simpa using hb
  rw [bareName, Bytes.trim_of_tight hascii htight]
  rfl

/-- What is taken for a name is one, once its sign is dropped. -/
theorem isIdent_of_ident? {s n rest : Bytes} (h : ident? s = some (n, rest)) : isIdent (bareName n) = true := by
  have hsign : (s.takeWhile (· == 37)).take 1 = [] ∨ (s.takeWhile (· == 37)).take 1 = [37] := by
    cases s with
    | nil => exact .inl rfl
    | cons b s => by_cases hb : b = 37 <;> simp [hb]
  have hident : ∀ {b : UInt8} {t : Bytes}, Byte.isLetter b = true → isIdent (b :: t.takeWhile isIdentByte) = true := by
    intro b t hb
    rw [isIdent, hb, Bool.true_and, List.all_eq_true]
    exact fun c hc => List.mem_takeWhile_imp hc
  rw [ident?] at h
  split at h
  · cases h
  · split at h
    · rename_i hb
      obtain ⟨rfl, -⟩ := Prod.mk.inj (Option.some.inj h)
      rcases hsign with hsign | hsign
      · rw [hsign, List.nil_append, bareName_of_ident (hident hb)]
        exact hident hb
      · rw [hsign, List.singleton_append, bareName_signed (hident hb)]
        exact hident hb
    · cases h

/-- What was found was recognised somewhere. -/
theorem exists_of_mem_scan {α : Type} {recognise : Bytes → Option (α × Bytes)} {s : Bytes} {found : Found α}
    (h : found ∈ scan recognise s) : ∃ t rest, recognise t = some (found.value, rest) := by
  have hfrom : ∀ (s : Bytes) (skip : Nat) (fresh : Bool) (pos : Nat), found ∈ scanFrom recognise skip fresh pos s →
      ∃ t rest, recognise t = some (found.value, rest) := by
    intro s
    induction s with
    | nil => simp [scanFrom]
    | cons b s ih =>
      intro skip fresh pos h
      cases skip with
      | succ skip => exact ih _ _ _ h
      | zero =>
        cases fresh with
        | false => exact ih _ _ _ h
        | true =>
          rw [scanFrom] at h
          split at h
          · rename_i value rest hvalue
            rcases List.mem_cons.1 h with rfl | h
            · exact ⟨b :: s, rest, hvalue⟩
            · exact ih _ _ _ h
          · exact ih _ _ _ h
  exact hfrom s 0 true 0 h

theorem declText?_ident {s rest : Bytes} {d : DeclText} (h : declText? s = some (d, rest)) :
    isIdent (bareName d.name) = true := by
  simp only [declText?, Option.bind_eq_bind, Option.bind_eq_some_iff, Prod.exists] at h
  obtain ⟨_, _, -, _, -, n, t, hident, h⟩ := h
  obtain ⟨rfl, -⟩ := Prod.mk.inj (Option.some.inj h)
  exact isIdent_of_ident? hident

theorem aliasText?_ident {s rest : Bytes} {a : Bytes × Bytes} (h : aliasText? s = some (a, rest)) :
    isIdent (bareName a.1) = true := by
  simp only [aliasText?, Option.bind_eq_bind, Option.bind_eq_some_iff, Prod.exists] at h
  obtain ⟨_, -, _, -, n, t, hident, _, -, _, _, -, h⟩ := h
  obtain ⟨rfl, -⟩ := Prod.mk.inj (Option.some.inj h)
  exact isIdent_of_ident? hident

theorem funcBody?_ident {s rest : Bytes} {f : FuncText} (h : funcBody? s = some (f, rest)) :
    isIdent (bareName f.name) = true := by
  simp only [funcBody?, Option.bind_eq_bind, Option.bind_eq_some_iff, Prod.exists] at h
  obtain ⟨n, t, hident, _, -, _, -, _, -, _, _, -, h⟩ := h
  split at h
  · obtain ⟨rfl, -⟩ := Prod.mk.inj (Option.some.inj h)
    exact isIdent_of_ident? hident
  · obtain ⟨rfl, -⟩ := Prod.mk.inj (Option.some.inj h)
    exact isIdent_of_ident? hident

theorem funcText?_ident {s rest : Bytes} {f : FuncText} (h : funcText? s = some (f, rest)) :
    isIdent (bareName f.name) = true := by
  simp only [funcText?, Option.orElse_eq_orElse, Option.orElse_eq_or, Option.or_eq_some_iff, Option.bind_eq_bind,
    Option.bind_eq_some_iff] at h
  rcases h with ⟨_, _, _, _, h⟩ | ⟨-, h⟩
  · exact funcBody?_ident h
  · exact funcBody?_ident h

/-! ## Members -/

section read

variable {names : Names}

theorem namedType_ok {item : Bytes} {f : Bytes × TypeExpr} (h : namedType names item = .ok f) :
    isIdent f.1 = true ∧ f.2 ≠ .blank := by
  unfold namedType at h
  split at h
  · cases h
  · dsimp only at h
    split at h
    · cases h
    · rename_i hident
      obtain ⟨t, -, h⟩ := bind_eq_ok.1 h
      split at h
      · cases h
      · rename_i hblank
        cases h
        exact ⟨by simpa using hident, hblank⟩

/-- Every name in a list of members is an identifier and has a type. -/
theorem namedTypes_ok {items : List Bytes} {fs : List (Bytes × TypeExpr)} (h : items.mapM (namedType names) = .ok fs) :
    ∀ f ∈ fs, isIdent f.1 = true ∧ f.2 ≠ .blank := by
  intro f hf
  obtain ⟨_, -, hitem⟩ := exists_of_mem_mapM h hf
  exact namedType_ok hitem

/-- **A declaration says what its keyword announces.** -/
theorem declBody_admits {name text : Bytes} {kind : DeclKind} {b : DeclBody}
    (h : declBody names name text kind = .ok b) : b.kind = kind ∧ kind.Admits name b.definition ∧
      ∀ fs, b = .record fs → ∀ f ∈ fs, isIdent f.1 = true ∧ f.2 ≠ .blank := by
  cases kind with
  | record =>
    obtain ⟨fs, hfs, h⟩ := bind_eq_ok.1 h
    cases h
    refine ⟨rfl, .record fs, ?_⟩
    rintro _ ⟨⟩
    exact namedTypes_ok hfs
  | variant =>
    obtain ⟨cs, -, h⟩ := bind_eq_ok.1 h
    cases h
    exact ⟨rfl, .variant cs, nofun⟩
  | union =>
    obtain ⟨ts, -, h⟩ := bind_eq_ok.1 h
    cases h
    refine ⟨rfl, .union fun k c hc => ?_, nofun⟩
    rw [getElem?_unionCases] at hc
    obtain ⟨t, -, rfl⟩ := Option.map_eq_some_iff.1 hc
    rfl
  | enum =>
    cases h
    exact ⟨rfl, .enum _, nofun⟩
  | flags =>
    cases h
    exact ⟨rfl, .flags _, nofun⟩
  | resource =>
    cases h
    exact ⟨rfl, .resource, nofun⟩
  | «alias» =>
    obtain ⟨t, -, h⟩ := bind_eq_ok.1 h
    split at h
    · cases h
    · split at h
      · cases h
      · rename_i hself
        cases h
        exact ⟨rfl, .alias (by simp) (by simpa using hself), nofun⟩
    · rename_i hblank hnamed
      cases h
      exact ⟨rfl, .alias hblank (hnamed name), nofun⟩

/-- A result has a name and a type, or no name. -/
theorem resultItem_ok {item : Bytes} {r : Param} (h : resultItem names item = .ok r) :
    r.name = [] ∨ isIdent r.name = true ∧ r.type ≠ .blank := by
  unfold resultItem at h
  split at h
  · obtain ⟨f, hf, h⟩ := bind_eq_ok.1 h
    cases h
    exact .inr (namedType_ok hf)
  · obtain ⟨t, -, h⟩ := bind_eq_ok.1 h
    cases h
    exact .inl rfl

theorem resultList_ok {text : Bytes} {rs : List Param} (h : resultList names text = .ok rs) :
    ∀ r ∈ rs, r.name = [] ∨ isIdent r.name = true ∧ r.type ≠ .blank := by
  unfold resultList at h
  dsimp only at h
  split at h
  · cases h
    simp
  · split at h
    · intro r hr
      obtain ⟨_, -, hitem⟩ := exists_of_mem_mapM h hr
      exact resultItem_ok hitem
    · obtain ⟨t, -, h⟩ := bind_eq_ok.1 h
      cases h
      simp

/-- The names in the signature of a function are identifiers, and every parameter has a type; a
result may be without a name. -/
structure Signed (f : Func) : Prop where
  params : ∀ p ∈ f.params, isIdent p.name = true ∧ p.type ≠ .blank
  results : ∀ r ∈ f.results, r.name = [] ∨ isIdent r.name = true ∧ r.type ≠ .blank

theorem func_signed {text : FuncText} {f : Func} (h : func names text = .ok f) : f.name = bareName text.name ∧ Signed f := by
  obtain ⟨fs, hfs, h⟩ := bind_eq_ok.1 h
  have hparams : ∀ p ∈ fs.map (fun f => (⟨f.1, f.2⟩ : Param)), isIdent p.name = true ∧ p.type ≠ .blank :=
    List.forall_mem_map.2 (namedTypes_ok hfs)
  dsimp only at h
  split at h
  · cases h
    exact ⟨rfl, hparams, by simp⟩
  · obtain ⟨rs, hrs, h⟩ := bind_eq_ok.1 h
    cases h
    exact ⟨rfl, hparams, resultList_ok hrs⟩

theorem declSite_ok {found : Found DeclText} {s : Site} (h : declSite found = .ok s) :
    s.name = bareName found.value.name ∧ s.kind = found.value.kind := by
  unfold declSite at h
  dsimp only at h
  split at h
  · cases h
    exact ⟨rfl, rfl⟩
  · split at h
    · rename_i hkind
      cases h
      exact ⟨rfl, hkind.symm⟩
    · cases h

end read

/-! ## Accepted files -/

section reading

variable {text : Bytes} {ss : List Site} {types : List Decl} {functions : List Func}

theorem Reading.ident_site (h : Reading text ss types functions) : ∀ s ∈ ss, isIdent s.name = true := by
  obtain ⟨ds, hds, rfl⟩ := h.sites
  intro s hs
  rcases List.mem_append.1 hs with hs | hs
  · obtain ⟨found, hfound, hsite⟩ := exists_of_mem_forall₂ hds hs
    obtain ⟨_, _, hdecl⟩ := exists_of_mem_scan hfound
    rw [(declSite_ok hsite).1]
    exact declText?_ident hdecl
  · obtain ⟨found, hfound, rfl⟩ := List.mem_map.1 hs
    obtain ⟨_, _, halias⟩ := exists_of_mem_scan hfound
    exact aliasText?_ident halias

theorem Reading.names_eq (h : Reading text ss types functions) : types.map Decl.name = ss.map Site.name :=
  (map_eq_map_of_forall₂ h.types fun _ _ h => h.1.symm).symm

theorem Reading.ident_type (h : Reading text ss types functions) : ∀ d ∈ types, isIdent d.name = true := by
  intro d hd
  obtain ⟨s, hs, hname, -⟩ := exists_of_mem_forall₂ h.types hd
  rw [hname]
  exact h.ident_site s hs

theorem Reading.signed (h : Reading text ss types functions) : ∀ f ∈ functions, isIdent f.name = true ∧ Signed f := by
  intro f hf
  obtain ⟨found, hfound, hfunc⟩ := exists_of_mem_forall₂ h.functions hf
  obtain ⟨hname, hsigned⟩ := func_signed hfunc
  obtain ⟨_, _, htext⟩ := exists_of_mem_scan hfound
  rw [hname]
  exact ⟨funcText?_ident htext, hsigned⟩

end reading

/-! ## Looking names up -/

/-- The types that are met when those of functions and declarations are followed. -/
inductive Reachable (i : Interface) : TypeExpr → Prop
  | function {f : Func} {t : TypeExpr} (hf : f ∈ i.functions) (ht : t ∈ f.types) : Reachable i t
  | declared {d : Decl} (hd : d ∈ i.types) : Reachable i (.named d.name)
  | behind {n : Bytes} {d : Decl} {t : TypeExpr} (h : Reachable i (.named n)) (hd : i.decl? n = some d)
    (ht : t ∈ d.body.definition.parts) : Reachable i t
  | inside {t u : TypeExpr} (h : Reachable i t) (hu : u ∈ t.arguments) : Reachable i u

/-- An interface whose names are unambiguous and lead to what they are declared for. -/
structure Closed (i : Interface) : Prop where
  typeNames : (i.types.map Decl.name).Nodup
  funcNames : (i.functions.map Func.name).Nodup
  /-- what a declaration stands for is set, and is what its keyword announces -/
  admitted : ∀ d ∈ i.types, d.body.kind.Admits d.name d.body.definition
  /-- what is defined and reachable has one declaration, or no name -/
  reachable : ∀ t, i.Reachable t → t.isDefined = true →
    (∃! d, d ∈ i.types ∧ t = .named d.name) ∨ t.isAnonymous = true
  /-- a declaration is found by its name, and its name by its type -/
  declared : ∀ d ∈ i.types, i.decl? d.name = some d ∧ i.nameOf? (.named d.name) = some d.name
  named : ∀ t n, i.nameOf? t = some n → t = .named n ∧ ∃ d ∈ i.types, d.name = n ∧ i.decl? n = some d
  function : ∀ f n, i.function? n = some f ↔ f ∈ i.functions ∧ f.name = n
  params : ∀ f ∈ i.functions, ∀ p ∈ f.params, isIdent p.name = true ∧ p.type ≠ .blank
  fields : ∀ d ∈ i.types, ∀ fs, d.body = .record fs → ∀ f ∈ fs, isIdent f.1 = true ∧ f.2 ≠ .blank

section lookup

variable {i : Interface}

theorem decl?_of_nodup (hi : (i.types.map Decl.name).Nodup) {d : Decl} (hd : d ∈ i.types) : i.decl? d.name = some d := by
  obtain ⟨d', hd'⟩ := Option.isSome_iff_exists.1 (isSome_decl?_iff.2 (List.mem_map_of_mem hd))
  obtain ⟨hmem, hname⟩ := mem_types_of_decl? hd'
  rw [hd', List.inj_on_of_nodup_map hi hmem hd hname]

theorem function?_eq_some (hi : (i.functions.map Func.name).Nodup) (f : Func) (n : Bytes) :
    i.function? n = some f ↔ f ∈ i.functions ∧ f.name = n := by
  constructor
  · intro h
    exact ⟨List.mem_of_find?_eq_some h, by simpa using List.find?_some h⟩
  · rintro ⟨hf, rfl⟩
    obtain ⟨g, hg⟩ : ∃ g, i.function? f.name = some g := by
      rw [← Option.isSome_iff_exists, function?, List.find?_isSome]
      exact ⟨f, hf, by simp⟩
    have hname : g.name = f.name := by simpa using List.find?_some hg
    rw [hg, List.inj_on_of_nodup_map hi (List.mem_of_find?_eq_some hg) hf hname]

/-- Where every name that is used is declared, every name that is met is. -/
theorem Scoped.knows_reachable (hi : i.Scoped) {t : TypeExpr} (ht : i.Reachable t) : i.Knows t := by
  induction ht with
  | function hf ht => exact hi.functions _ hf _ ht
  | declared hd =>
    intro n hn
    obtain rfl := List.mem_singleton.1 hn
    exact isSome_decl?_iff.2 (List.mem_map_of_mem hd)
  | @behind _ d t _ hd ht _ =>
    rcases d.body.parts_definition t ht with ht | rfl
    · exact hi.types d (mem_types_of_decl? hd).1 t ht
    · simp [Knows, TypeExpr.names]
  | inside _ hu ih => exact fun n hn => ih n (TypeExpr.names_of_argument hu n hn)

end lookup

/-- **Accepted files are closed and unambiguous.** Every declaration of an accepted file was found
in its text under its name and keyword, and no two have one name; what it stands for, which is
what the rest of the program reads, is set and is what the keyword announces. A declared type
that is reachable from a function or a declaration is that of exactly one declaration; every
other type with a definition is a list, an option, a result or a tuple. Declarations and their
types, functions and their names find each other, and every parameter and every field has a type
and an identifier for its name. -/
theorem closed_of_parse {path source : Bytes} {i : Interface} (h : parse path source = .ok i) :
    (∃ ss, sites (scan declText? (stripComments source)) (scan aliasText? (stripComments source)) = .ok ss ∧
      List.Forall₂ (fun s d => d.name = s.name ∧ d.body.kind = s.kind) ss i.types) ∧
    (∀ env, ∀ d ∈ i.types, d.shape? env = d.body.definition.shape? env d.name) ∧
    i.Closed := by
  obtain ⟨-, -, ss, hread⟩ := parse_eq_ok.1 h
  have hscoped := (scoped_of_parse h).1
  have hbody : ∀ d ∈ i.types, d.body.kind.Admits d.name d.body.definition ∧
      ∀ fs, d.body = .record fs → ∀ f ∈ fs, isIdent f.1 = true ∧ f.2 ≠ .blank := by
    intro d hd
    obtain ⟨s, -, hname, hs⟩ := exists_of_mem_forall₂ hread.types hd
    obtain ⟨hkind, hadmits, hfields⟩ := declBody_admits hs
    rw [hkind, hname]
    exact ⟨hadmits, hfields⟩
  have hnames : (i.types.map Decl.name).Nodup := hread.names_eq ▸ hread.siteNames
  refine ⟨⟨ss, sites_eq_ok.2 ⟨hread.sites, hread.siteNames⟩, ?_⟩, fun env d _ => d.shape?_eq env, ?_⟩
  · exact hread.types.imp fun s d hd => ⟨hd.1, (declBody_admits hd.2).1⟩
  · refine ⟨hnames, hread.funcNames, fun d hd => (hbody d hd).1, fun t ht hdefined => ?_, fun d hd => ?_, ?_,
      function?_eq_some hread.funcNames, fun f hf => (hread.signed f hf).2.params, fun d hd => (hbody d hd).2⟩
    · cases t with
      | named n =>
        obtain ⟨d, hd⟩ := Option.isSome_iff_exists.1 (hscoped.knows_reachable ht n (by simp [TypeExpr.names]))
        obtain ⟨hmem, rfl⟩ := mem_types_of_decl? hd
        refine .inl ⟨d, ⟨hmem, rfl⟩, fun d' hd' => ?_⟩
        exact List.inj_on_of_nodup_map hnames hd'.1 hmem (TypeExpr.named.inj hd'.2).symm
      | _ => exact .inr hdefined
    · have hdecl := decl?_of_nodup hnames hd
      exact ⟨hdecl, by rw [nameOf?, hdecl]; rfl⟩
    · intro t n hn
      cases t with
      | named m =>
        obtain ⟨d, hd, rfl⟩ := Option.map_eq_some_iff.1 hn
        obtain ⟨hmem, rfl⟩ := mem_types_of_decl? hd
        exact ⟨rfl, d, hmem, rfl, hd⟩
      | _ => cases hn

/-- An alias inside an enumeration, and types that are used before they are declared. -/
def formsText : Bytes :=
  utf8 "use: func(c: shade) -> list<%spot>\ntype shade = color\n"
    ++ utf8 "enum color \x7b red,\ntype deep = tuple<spot>\n\x7d\nunion value \x7b s32, shade \x7d\nresource spot\n"

theorem closed_of_parse_forms : ∃ i, parse (utf8 "paint.wai") formsText = .ok i ∧ i.Closed ∧
    i.types.map Decl.name = [utf8 "color", utf8 "value", utf8 "spot", utf8 "shade", utf8 "deep"] := by
  obtain ⟨i, hi, hcheck⟩ := exists_ok_of_check (r := parse (utf8 "paint.wai") formsText)
    (fun i => i.types.map Decl.name == [utf8 "color", utf8 "value", utf8 "spot", utf8 "shade", utf8 "deep"])
    (by rw [formsText, utf8_eq_toByteArray]; decide +kernel)
  exact ⟨i, hi, (closed_of_parse hi).2.2, by simpa using hcheck⟩

end Interface

end Bindery
