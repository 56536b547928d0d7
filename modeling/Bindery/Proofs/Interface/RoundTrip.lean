/-
Reading the canonical text of an interface. Each line is recognised for what it is
(`scan_decls`, `scan_aliases`), what is left when the declarations are blanked are the lines
of functions (`withoutDecls_spell`), and every declared name is known before the first type
is read, so declarations and functions may come in any order (`parse_spell`).
-/
import Bindery.Proofs.Interface.Recognise
import Bindery.Proofs.Interface.Scope
import Mathlib.Data.List.Nodup

namespace Bindery.Interface

open Entry (spell declared)

/-! ## Lines of entries -/

/-- The declaration with a keyword on a line. -/
def Entry.keyword? (e : Entry) : Option Decl := e.decl?.filter fun d => !d.body.isAlias

/-- The alias on a line. -/
def Entry.alias? (e : Entry) : Option Decl := e.decl?.filter fun d => d.body.isAlias

/-- What is found of some lines: a value and the length of its stretch for each of them. -/
def pickBy {ε β α : Type} (select : ε → Option β) (value : β → α) (length : β → Nat) (e : ε) : Option (α × Nat) :=
  (select e).map fun b => (value b, length b)

def pickDecl : Entry → Option (DeclText × Nat) := pickBy Entry.keyword? declTextOf declLength

def pickAlias : Entry → Option ((Bytes × Bytes) × Nat) :=
  pickBy Entry.alias? (fun d => (d.name, siteText d.body)) fun d => d.text.length

def pickFunc : Entry → Option (FuncText × Nat) := pickBy Entry.func? funcTextOf fun f => f.text.length

/-- The width of a line. -/
def lineWidth (e : Entry) : Nat := e.text.length + 1

/-- What is found are the values of the lines that were selected, with what is known of these. -/
theorem forall₂_founds {ε β α : Type} {select : ε → Option β} {value : β → α} {length : β → Nat} {width : ε → Nat}
    {P : β → Prop} : ∀ {es : List ε} (pos : Nat), (∀ b ∈ es.filterMap select, P b) →
      List.Forall₂ (fun f b => f.value = value b ∧ P b) (foundsIn width (pickBy select value length) pos es)
        (es.filterMap select)
  | [], _, _ => .nil
  | e :: es, pos, hP => by
    rw [foundsIn, pickBy]
    cases hsel : select e with
    | none =>
      rw [List.filterMap_cons_none hsel] at hP ⊢
      exact forall₂_founds _ hP
    | some b =>
      rw [List.filterMap_cons_some hsel] at hP ⊢
      obtain ⟨hb, hP⟩ := List.forall_mem_cons.1 hP
      exact .cons ⟨rfl, hb⟩ (forall₂_founds _ hP)

/-- What is known of a single entry among others. -/
structure Entry.IsPlain (declared : List Bytes) (e : Entry) : Prop where
  decl : ∀ d ∈ e.decl?, d.isPlain declared = true
  func : ∀ f ∈ e.func?, f.isPlain declared = true

theorem Entry.WellFormed.isPlain {es : List Entry} (h : Entry.WellFormed es) :
    ∀ e ∈ es, e.IsPlain (declared es) := by
  intro e he
  exact ⟨fun d hd => h.decls d (List.mem_filterMap.2 ⟨e, he, hd⟩),
    fun f hf => h.funcs f (List.mem_filterMap.2 ⟨e, he, hf⟩)⟩

/-- A text on one line, without a comment. -/
structure IsLine (s : Bytes) : Prop where
  feed : 10 ∉ s
  slash : 47 ∉ s

theorem IsLine.append {s t : Bytes} (hs : IsLine s) (ht : IsLine t) : IsLine (s ++ t) :=
  ⟨by simp [hs.feed, ht.feed], by simp [hs.slash, ht.slash]⟩

theorem IsItem.isLine {s : Bytes} (h : IsItem s) : IsLine s :=
  ⟨fun hb => (isMemberByte_spec 10 (h.plain 10 hb)).2 (by decide),
    fun hb => (isMemberByte_spec 47 (h.plain 47 hb)).2 (by decide)⟩

theorem isLine_join {ms : List Bytes} (h : ∀ m ∈ ms, IsItem m) : IsLine (Bytes.join (utf8 ", ") ms) :=
  ⟨not_mem_members h (by decide), not_mem_members h (by decide)⟩

/-- The line of a function. -/
theorem isLine_function {n : Bytes} {ms : List Bytes} {results : Option Bytes} (hn : isIdent n = true)
    (hms : ∀ m ∈ ms, IsItem m) (hresults : ∀ t ∈ results, IsItem t) :
    IsLine (n ++ 58 :: (utf8 " func(" ++ (Bytes.join (utf8 ", ") ms ++ 41 :: arrowTo results))) := by
  have harrow : IsLine (41 :: arrowTo results) := by
    cases results with
    | none => exact ⟨by decide, by decide⟩
    | some t => exact IsLine.append (s := utf8 ") -> ") ⟨by decide, by decide⟩ (hresults t rfl).isLine
  refine (isTypeText_ident hn).isLine.append ?_
  exact IsLine.append (s := utf8 ": func(") ⟨by decide, by decide⟩ ((isLine_join hms).append harrow)

section entry

variable {declared : List Bytes} (hident : ∀ n ∈ declared, isIdent n = true)

include hident

theorem isLine_decl {d : Decl} (hd : d.isPlain declared = true) : IsLine d.text := by
  obtain ⟨hn, -, hb, -⟩ := isPlain_decl hd
  obtain ⟨n, b⟩ := d
  have hhead : IsLine (b.kind.word ++ utf8 " " ++ n) :=
    ((isTypeText_ident (isIdent_word b.kind)).isLine.append ⟨by decide, by decide⟩).append (isTypeText_ident hn).isLine
  refine hhead.append ?_
  have hmembers := isLine_join (isItem_member hident hb)
  cases b with
  | resource => exact ⟨by simp [DeclBody.text], by simp [DeclBody.text]⟩
  | «alias» t => exact IsLine.append ⟨by decide, by decide⟩ (isTypeText_text hident t (.inr hb)).isLine
  | record fs | enum ns | flags ns | variant cs | union ts =>
    exact (IsLine.append ⟨by decide, by decide⟩ hmembers).append ⟨by decide, by decide⟩

theorem isLine_func {f : Func} (hf : f.isPlain declared = true) : IsLine f.text := by
  obtain ⟨hn, hps, hrs⟩ := isPlain_func hf
  have hline := isLine_function hn (isItem_params hident hps) (isItem_arrowText hident hrs)
  rwa [← resultsText_eq, ← List.append_nil (resultsText f.results), ← func_text_append, List.append_nil] at hline

theorem isLine_entry {e : Entry} (he : e.IsPlain declared) : IsLine e.text := by
  cases e with
  | decl d => exact isLine_decl hident (he.decl d rfl)
  | func f => exact isLine_func hident (he.func f rfl)

omit hident in
/-- Every line starts with a letter. -/
theorem starts_entry {e : Entry} (he : e.IsPlain declared) : e.text ≠ [] ∧ Starts Byte.isLetter e.text := by
  have hstart : ∀ {n x : Bytes}, isIdent n = true → n ++ x ≠ [] ∧ Starts Byte.isLetter (n ++ x) := by
    intro n x hn
    exact ⟨by simp [(isIdentByte_of_isIdent hn).1], starts_ident hn x⟩
  cases e with
  | decl d =>
    have htext := text_append d []
    rw [List.append_nil] at htext
    rw [Entry.text, htext]
    exact hstart (isIdent_word d.body.kind)
  | func f =>
    have htext := func_text_append f []
    rw [List.append_nil] at htext
    rw [Entry.text, htext]
    exact hstart (isPlain_func (he.func f rfl)).1

/-- **Keywords**: a line is recognised as a declaration just when it is one. -/
theorem recognises_pickDecl {e : Entry} (he : e.IsPlain declared) :
    Recognises declText? Byte.isLetter e.text (pickDecl e) := by
  cases e with
  | decl d =>
    have hd := he.decl d rfl
    cases halias : d.body.isAlias with
    | false =>
      have hpick : pickDecl (.decl d) = some (declTextOf d, declLength d) := by
        simp [pickDecl, pickBy, Entry.keyword?, Entry.decl?, halias]
      rw [hpick]
      exact recognises_decl hident hd (by simpa [DeclBody.isAlias] using halias)
    | true =>
      have hpick : pickDecl (.decl d) = none := by
        simp [pickDecl, pickBy, Entry.keyword?, Entry.decl?, halias]
      have hkind : d.body.kind = .alias := by simpa [DeclBody.isAlias] using halias
      rw [hpick]
      intro rest _
      rw [Entry.text, text_append, hkind]
      exact declText?_alias _
  | func f =>
    intro rest _
    rw [Entry.text, func_text_append]
    exact declText?_name (isPlain_func (he.func f rfl)).1 _

/-- **Aliases**: a line is recognised as an alias just when it is one. -/
theorem recognises_pickAlias {e : Entry} (he : e.IsPlain declared) (first : UInt8 → Bool) :
    Recognises aliasText? first e.text (pickAlias e) := by
  cases e with
  | decl d =>
    obtain ⟨hn, -, hb, -⟩ := isPlain_decl (he.decl d rfl)
    obtain ⟨n, b⟩ := d
    cases b with
    | «alias» t => exact recognises_alias hident hn hb first
    | record fs | enum ns | flags ns | variant cs | union ts | resource =>
      intro rest _
      rw [Entry.text, text_append]
      exact aliasText?_keyword (by simp [DeclBody.kind]) _
  | func f =>
    intro rest _
    rw [Entry.text, func_text_append]
    exact aliasText?_name (isPlain_func (he.func f rfl)).1 _

end entry

/-! ## What is left without declarations -/

/-- A line on which a declaration was blanked. -/
def leftText (e : Entry) : Bytes :=
  match e with
  | .decl d => List.replicate d.text.length 32
  | .func f => f.text

/-- A blanked line, with or without its line feed in the stretch. -/
theorem blankOut_line {s : Bytes} (hs : 10 ∉ s) {n : Nat} (hn : n = s.length ∨ n = s.length + 1) :
    blankOut 0 n s.line = Bytes.line (List.replicate s.length 32) := by
  have hmap : s.map (fun b => if b = 10 then (10 : UInt8) else 32) = List.replicate s.length 32 :=
    List.map_eq_replicate_iff.2 fun b hb => if_neg fun h : b = 10 => hs (h ▸ hb)
  rcases hn with rfl | rfl
  · simp [blankOut, Bytes.line, hmap]
  · simp [blankOut, Bytes.line, hmap, List.take_of_length_le]

/-- Blanking declarations and then aliases leaves the lines of functions. -/
theorem blankedLine_entry {declared : List Bytes} (hident : ∀ n ∈ declared, isIdent n = true) {e : Entry}
    (he : e.IsPlain declared) :
    blankedLine pickAlias (blankedLine pickDecl fun e => e.text.line) e = (leftText e).line := by
  have hline := (isLine_entry hident he).feed
  cases e with
  | decl d =>
    obtain ⟨n, b⟩ := d
    cases b with
    | «alias» t => exact blankOut_line hline (.inl rfl)
    | resource => exact blankOut_line hline (.inr rfl)
    | record fs | enum ns | flags ns | variant cs | union ts => exact blankOut_line hline (.inl rfl)
  | func f => rfl

theorem recognises_pickFunc {declared : List Bytes} (hident : ∀ n ∈ declared, isIdent n = true) {e : Entry}
    (he : e.IsPlain declared) (first : UInt8 → Bool) : Recognises funcText? first (leftText e) (pickFunc e) := by
  cases e with
  | decl d =>
    intro rest _
    have hdrop : (List.replicate d.text.length 32 ++ 10 :: rest).dropWhile isGap = 10 :: rest := by
      rw [List.dropWhile_append_of_pos]
      · rfl
      · intro b hb
        rw [List.eq_of_mem_replicate hb]
        rfl
    rw [leftText, funcText?, hdrop]
    rfl
  | func f => exact recognises_func hident (he.func f rfl) first

/-! ## Scanning -/

section scan

variable {es : List Entry} (hwf : Entry.WellFormed es)

include hwf

theorem Entry.WellFormed.ident : ∀ n ∈ declared es, isIdent n = true := by
  intro n hn
  obtain ⟨d, hd, rfl⟩ := List.mem_map.1 hn
  exact (isPlain_decl (hwf.decls d hd)).1

/-- Any recogniser finds in the text what it makes of each of its lines. -/
theorem scan_spell {α : Type} {recognise : Bytes → Option (α × Bytes)} {pick : Entry → Option (α × Nat)}
    (hpick : ∀ e ∈ es, Recognises recognise Byte.isLetter e.text (pick e)) :
    scan recognise (spell es) = foundsIn lineWidth pick 0 es :=
  scanFrom_lines 0 (fun e he => starts_entry (hwf.isPlain e he))
    (fun e he => (isLine_entry hwf.ident (hwf.isPlain e he)).feed) hpick

theorem scan_decls : scan declText? (spell es) = foundsIn lineWidth pickDecl 0 es :=
  scan_spell hwf fun e he => recognises_pickDecl hwf.ident (hwf.isPlain e he)

theorem scan_aliases : scan aliasText? (spell es) = foundsIn lineWidth pickAlias 0 es :=
  scan_spell hwf fun e he => recognises_pickAlias hwf.ident (hwf.isPlain e he) _

/-- **Without declarations** the lines of functions are left, each where it was. -/
theorem withoutDecls_spell :
    withoutDecls (foundsIn lineWidth pickDecl 0 es) (foundsIn lineWidth pickAlias 0 es) (spell es) =
      es.flatMap fun e => (leftText e).line := by
  have hwidth : ∀ e ∈ es, lineWidth e = e.text.line.length := by simp [lineWidth, Bytes.line]
  have hdecls : (foundsIn lineWidth pickDecl 0 es).foldl (fun t f => blankOut f.start f.length t) (spell es) =
      es.flatMap (blankedLine pickDecl fun e => e.text.line) :=
    blankOut_found [] hwidth fun e he => (recognises_pickDecl hwf.ident (hwf.isPlain e he)).length_le
  have haliases : (foundsIn lineWidth pickAlias 0 es).foldl (fun t f => blankOut f.start f.length t)
      (es.flatMap (blankedLine pickDecl fun e => e.text.line)) =
      es.flatMap (blankedLine pickAlias (blankedLine pickDecl fun e => e.text.line)) := by
    refine blankOut_found [] (fun e he => ?_) fun e he => ?_
    · rw [length_blankedLine, hwidth e he]
    · rw [length_blankedLine]
      exact (recognises_pickAlias hwf.ident (hwf.isPlain e he) Byte.isLetter).length_le
  rw [withoutDecls, hdecls, haliases]
  exact List.flatMap_congr fun e he => blankedLine_entry hwf.ident (hwf.isPlain e he)

/-- The functions of the text are found in what is left. -/
theorem scan_funcs : scan funcText? (es.flatMap fun e => (leftText e).line) =
    foundsIn (fun e => (leftText e).length + 1) pickFunc 0 es := by
  have hleft : ∀ e ∈ es, (leftText e ≠ [] ∧ Starts (fun _ => true) (leftText e)) ∧ 10 ∉ leftText e := by
    intro e he
    have hne := (starts_entry (hwf.isPlain e he)).1
    have hline := (isLine_entry hwf.ident (hwf.isPlain e he)).feed
    cases e with
    | decl d => exact ⟨⟨by simpa [leftText, Entry.text] using hne, fun _ _ => rfl⟩, by simp [leftText]⟩
    | func f => exact ⟨⟨hne, fun _ _ => rfl⟩, hline⟩
  exact scanFrom_lines 0 (fun e he => (hleft e he).1) (fun e he => (hleft e he).2)
    fun e he => recognises_pickFunc hwf.ident (hwf.isPlain e he) _

end scan

/-! ## Sites -/

/-- A site at which a declaration was found. -/
structure Site.Of (s : Site) (d : Decl) : Prop where
  name : s.name = d.name
  kind : s.kind = d.body.kind
  text : s.text = siteText d.body

theorem Site.names_of {ss : List Site} {ds : List Decl} (h : List.Forall₂ Site.Of ss ds) :
    ss.map (·.name) = ds.map (·.name) := by
  induction h with
  | nil => rfl
  | cons h _ ih => rw [List.map_cons, List.map_cons, h.name, ih]

theorem addSite_new {ss : List Site} {ds : List Decl} (hss : List.Forall₂ Site.Of ss ds) {s : Site} {d : Decl}
    (hs : s.Of d) (hnew : d.name ∉ ds.map (·.name)) : addSite ss s = .ok (ss ++ [s]) := by
  rw [← Site.names_of hss, ← hs.name] at hnew
  rw [addSite, if_neg]
  simpa using hnew

/-- A declaration with a keyword is found with all it says. -/
theorem declSite_found {f : Found DeclText} {d : Decl} (hn : isIdent d.name = true) (hf : f.value = declTextOf d) :
    ∃ s, declSite f = .ok s ∧ s.Of d := by
  have hbare := bareName_of_ident hn
  obtain ⟨n, b⟩ := d
  rw [declSite, hf]
  cases b <;> exact ⟨_, rfl, hbare, rfl, rfl⟩

theorem aliasSite_found {f : Found (Bytes × Bytes)} {d : Decl} (hn : isIdent d.name = true)
    (halias : d.body.isAlias = true) (hf : f.value = (d.name, siteText d.body)) : (aliasSite f).Of d := by
  have hkind : d.body.kind = .alias := by simpa [DeclBody.isAlias] using halias
  rw [aliasSite, hf]
  exact ⟨bareName_of_ident hn, hkind.symm, rfl⟩

theorem addFunc_new {names : Names} {declared : List Bytes} (hnames : names.Covers declared) {fs : List Func}
    {found : Found FuncText} {f : Func} (hfound : found.value = funcTextOf f) (hf : f.isPlain declared = true)
    (hnew : f.name ∉ fs.map (·.name)) : addFunc names fs found = .ok (fs ++ [f]) := by
  have hread : at? found.start (func names found.value) = .ok f := by
    rw [hfound, func_text hnames hf]
    rfl
  have hfresh : fs.any (·.name == f.name) = false := by simpa using hnew
  refine bind_eq_ok.2 ⟨f, hread, ?_⟩
  rw [hfresh]
  rfl

/-- **Declarations** are read for what they are. -/
theorem types_of_sites {names : Names} {declared : List Bytes} (hnames : names.Covers declared) {ss : List Site}
    {ds : List Decl} (hss : List.Forall₂ Site.Of ss ds) (hds : ∀ d ∈ ds, d.isPlain declared = true) :
    (ss.mapM fun s => do return (⟨s.name, ← at? s.start (declBody names s.name s.text s.kind)⟩ : Decl)) = .ok ds := by
  rw [mapM_eq_ok]
  induction hss with
  | nil => exact .nil
  | cons hs _ ih =>
    obtain ⟨hd, hds⟩ := List.forall_mem_cons.1 hds
    refine .cons ?_ (ih hds)
    rw [hs.name, hs.kind, hs.text, declBody_text hnames hd]
    rfl

theorem filterMap_keyword? (es : List Entry) :
    es.filterMap Entry.keyword? = (Entry.decls es).filter fun d => !d.body.isAlias :=
  List.filter_filterMap.symm

theorem filterMap_alias? (es : List Entry) : es.filterMap Entry.alias? = (Entry.decls es).filter (·.body.isAlias) :=
  List.filter_filterMap.symm

/-- The types of an interface are the declared ones, in another order. -/
theorem types_perm (path : Bytes) (es : List Entry) : (ofEntries path es).types.Perm (Entry.decls es) := by
  simpa [ofEntries] using List.filter_append_perm (fun d => !d.body.isAlias) (Entry.decls es)

section contents

variable {es : List Entry} (hwf : Entry.WellFormed es) (path : Bytes)

include hwf

theorem nodup_types : ((ofEntries path es).types.map (·.name)).Nodup :=
  ((types_perm path es).map _).nodup_iff.2 hwf.typeNames

/-- A declared name stands for its own declaration. -/
theorem decl?_of_mem {d : Decl} (hd : d ∈ Entry.decls es) : (ofEntries path es).decl? d.name = some d := by
  have hmem := (types_perm path es).mem_iff.2 hd
  obtain ⟨d', hd'⟩ := Option.isSome_iff_exists.1 (isSome_decl?_iff.2 (List.mem_map_of_mem hmem))
  obtain ⟨hmem', hname⟩ := mem_types_of_decl? hd'
  rw [hd', List.inj_on_of_nodup_map (nodup_types hwf path) hmem' hmem hname]

/-- **Sites**: every declaration is found once, aliases after all others. -/
theorem sites_spell : ∃ ss, sites (foundsIn lineWidth pickDecl 0 es) (foundsIn lineWidth pickAlias 0 es) = .ok ss ∧
    List.Forall₂ Site.Of ss (ofEntries path es).types := by
  have hplain : ∀ d ∈ Entry.decls es, isIdent d.name = true := fun d hd => (isPlain_decl (hwf.decls d hd)).1
  have hnodup := nodup_types hwf path
  have hdecls : List.Forall₂ (fun f d => f.value = declTextOf d ∧ isIdent d.name = true)
      (foundsIn lineWidth pickDecl 0 es) ((Entry.decls es).filter fun d => !d.body.isAlias) := by
    rw [← filterMap_keyword?]
    refine forall₂_founds 0 ?_
    rw [filterMap_keyword?]
    exact fun d hd => hplain d (List.mem_of_mem_filter hd)
  have haliases : List.Forall₂
      (fun f d => f.value = (d.name, siteText d.body) ∧ isIdent d.name = true ∧ d.body.isAlias = true)
      (foundsIn lineWidth pickAlias 0 es) ((Entry.decls es).filter (·.body.isAlias)) := by
    rw [← filterMap_alias?]
    refine forall₂_founds 0 ?_
    rw [filterMap_alias?]
    exact fun d hd => ⟨hplain d (List.mem_of_mem_filter hd), (List.mem_filter.1 hd).2⟩
  have hkeyword : (((Entry.decls es).filter fun d => !d.body.isAlias).map (·.name)).Nodup := by
    rw [ofEntries, List.map_append] at hnodup
    exact (List.nodup_append.1 hnodup).1
  -- what is found holds for the declarations one by one, so the two folds run through
  obtain ⟨ss, hss, hof⟩ := foldlM_eq_ok_of_nodup Decl.name (S := Site.Of)
    (f := fun ss d => do addSite ss (← declSite d)) (fun hss hf hnew => by
      obtain ⟨s, hs, hof⟩ := declSite_found hf.2 hf.1
      exact ⟨s, bind_eq_ok.2 ⟨s, hs, addSite_new hss hof hnew⟩, hof⟩) hdecls .nil hkeyword
  obtain ⟨ss', hss', hof'⟩ := foldlM_eq_ok_of_nodup Decl.name (S := Site.Of)
    (f := fun ss a => addSite ss (aliasSite a)) (fun hss hf hnew => by
      have hof := aliasSite_found hf.2.1 hf.2.2 hf.1
      exact ⟨_, addSite_new hss hof hnew, hof⟩) haliases hof hnodup
  exact ⟨ss', bind_eq_ok.2 ⟨ss, hss, hss'⟩, hof'⟩

/-- Every declared name is known before the first type is read. -/
theorem covers_sites {ss : List Site} (hss : List.Forall₂ Site.Of ss (ofEntries path es).types) :
    Names.Covers (ss.map fun s => (s.name, s.kind)) (declared es) := by
  refine ⟨hwf.ident, fun n hn => ?_, fun n hn => ?_⟩
  · obtain ⟨d, hd, rfl⟩ := List.mem_map.1 hn
    exact (isPlain_decl (hwf.decls d hd)).2.1
  · have hmem := (((types_perm path es).map (·.name)).mem_iff).2 hn
    rw [isSome_kind?_iff, List.map_map]
    exact Site.names_of hss ▸ hmem

/-- **Functions** are read for what they are. -/
theorem functions_spell {names : Names} (hnames : names.Covers (declared es)) :
    (foundsIn (fun e => (leftText e).length + 1) pickFunc 0 es).foldlM (addFunc names) [] = .ok (Entry.funcs es) := by
  have hfounds : List.Forall₂ (fun found f => found.value = funcTextOf f ∧ f.isPlain (declared es) = true)
      (foundsIn (fun e => (leftText e).length + 1) pickFunc 0 es) (Entry.funcs es) := forall₂_founds 0 hwf.funcs
  obtain ⟨fs, hfs, hsame⟩ := foldlM_eq_ok_of_nodup Func.name (S := Eq) (f := addFunc names)
    (fun hsame hf hnew => by
      rw [List.forall₂_eq_eq_eq] at hsame
      exact ⟨_, addFunc_new hnames hf.1 hf.2 (hsame ▸ hnew), rfl⟩) hfounds .nil hwf.funcNames
  rw [List.forall₂_eq_eq_eq] at hsame
  exact hfs.trans (congrArg Except.ok hsame)

theorem contents_spell : contents (spell es) = .ok ((ofEntries path es).types, Entry.funcs es) := by
  obtain ⟨ss, hsites, hss⟩ := sites_spell hwf path
  have hnames := covers_sites hwf path hss
  have hplain : ∀ d ∈ (ofEntries path es).types, d.isPlain (declared es) = true := fun d hd =>
    hwf.decls d ((types_perm path es).mem_iff.1 hd)
  rw [contents, scan_decls hwf, scan_aliases hwf, withoutDecls_spell hwf, scan_funcs hwf]
  exact bind_eq_ok.2 ⟨ss, hsites, bind_eq_ok.2 ⟨_, types_of_sites hnames hss hplain,
    bind_eq_ok.2 ⟨_, functions_spell hwf hnames, rfl⟩⟩⟩

end contents

/-! ## Comments -/

/-- A text without slashes has no comments. -/
theorem stripComments_of_not_mem : ∀ {s : Bytes}, 47 ∉ s → stripComments s = s
  | [], _ => rfl
  | [b], _ => rfl
  | a :: b :: s, h => by
    obtain ⟨ha, hrest⟩ := List.ne_and_not_mem_of_not_mem_cons h
    have ih := stripComments_of_not_mem hrest
    rw [stripComments] at ih ⊢
    rw [stripFrom, if_neg fun h => ha h.1.symm, if_neg fun h => ha h.1.symm, ih]

theorem not_mem_spell {es : List Entry} (hwf : Entry.WellFormed es) : 47 ∉ spell es := by
  intro hmem
  obtain ⟨e, he, hmem⟩ := List.mem_flatMap.1 hmem
  have hline := (isLine_entry hwf.ident (hwf.isPlain e he)).slash
  simp [Bytes.line, hline] at hmem

/-! ## The round trip -/

/-- The cases of a union are named for their positions. -/
theorem getElem?_unionCases (ts : List TypeExpr) (k : Nat) :
    (unionCases ts)[k]? = ts[k]?.map fun t => (utf8 "c" ++ Bytes.decimal k, t) := by
  simp [unionCases, unionCase, List.getElem?_zipIdx, Function.comp_def]

/-- **Reading what was written.** The canonical text of well-formed entries, in whatever order,
is accepted, and the interface read from it has all declarations, aliases after the others, and
all functions in the order of the text. Every name in it is declared and stands for its own
declaration, before or after its uses, and the cases of a union are `c0`, `c1` and so on. -/
theorem parse_spell (path : Bytes) {es : List Entry} (hwf : Entry.WellFormed es) :
    parse path (spell es) = .ok (ofEntries path es) ∧ (ofEntries path es).Scoped ∧
    (∀ d ∈ Entry.decls es, (ofEntries path es).decl? d.name = some d) ∧
    ∀ d ∈ Entry.decls es, ∀ ts, d.body = .union ts →
      ∀ k : Nat, (unionCases ts)[k]? = ts[k]?.map fun t => (utf8 "c" ++ Bytes.decimal k, t) := by
  have hparse : parse path (spell es) = .ok (ofEntries path es) := by
    rw [parse, stripComments_of_not_mem (not_mem_spell hwf), contents_spell hwf path]
    rfl
  exact ⟨hparse, (scoped_of_parse hparse).1, fun d hd => decl?_of_mem hwf path hd,
    fun d _ ts _ => getElem?_unionCases ts⟩

/-- A function and an alias before the types they use, and every form of declaration. -/
def sampleEntries : List Entry :=
  [.func ⟨utf8 "export", [⟨utf8 "at", .named (utf8 "spot")⟩], [⟨[], .result (.named (utf8 "value")) .blank⟩]⟩,
    .decl ⟨utf8 "spot", .alias (.list (.named (utf8 "point")))⟩,
    .decl ⟨utf8 "point", .record [(utf8 "x", .prim .f64), (utf8 "tag", .option (.named (utf8 "color")))]⟩,
    .decl ⟨utf8 "canvas", .resource⟩,
    .decl ⟨utf8 "color", .enum [utf8 "red", utf8 "blue"]⟩,
    .func ⟨utf8 "record", [], [⟨utf8 "a", .prim .u8⟩, ⟨[], .tuple [.string, .named (utf8 "mask")]⟩]⟩,
    .decl ⟨utf8 "mask", .flags []⟩,
    .decl ⟨utf8 "value", .union [.prim .s32, .named (utf8 "shape")]⟩,
    .decl ⟨utf8 "shape", .variant [(utf8 "none", .blank), (utf8 "on", .named (utf8 "canvas"))]⟩]

/-- Every form of declaration at once, used before and after it is declared. -/
theorem parse_spell_sample : Entry.WellFormed sampleEntries ∧
    parse (utf8 "lib/paint.wai") (spell sampleEntries) = .ok (ofEntries (utf8 "lib/paint.wai") sampleEntries) ∧
    ((ofEntries (utf8 "lib/paint.wai") sampleEntries).types.map (·.name)) =
      [utf8 "point", utf8 "canvas", utf8 "color", utf8 "mask", utf8 "value", utf8 "shape", utf8 "spot"] := by
  have hwf : Entry.WellFormed sampleEntries := by decide +kernel
  exact ⟨hwf, (parse_spell (utf8 "lib/paint.wai") hwf).1, by decide +kernel⟩

end Bindery.Interface
