/-
Reading the canonical texts of fields, cases, declarations and functions. Each reader gives
back what was written, given the names the types are over (`declBody_text`, `func_text`).
-/
import Bindery.Proofs.Interface.TypeText

namespace Bindery.Interface

/-! ## Members -/

section members

variable {names : Names} {declared : List Bytes}

/-- A type behind any gap. -/
theorem typeExpr_text_iff {t : TypeExpr} (ht : names.Spells t) {a : Bytes} (ha : IsGap a) :
    typeExpr names (a ++ t.text) = .ok t ↔ t.isReadable = true := by
  have hitem := (isTypeText_of_names t fun n hn => (ht n hn).1).toIsItem
  have htrim : Bytes.trim (a ++ t.text) = t.text := by
    simpa using hitem.trim_between ha (c := []) (by simp [IsGap])
  exact typeWithin_text_iff _ t _ ht htrim (by rw [List.length_append]; omega)

theorem typeExpr_text (hnames : names.Covers declared) {t : TypeExpr} (ht : IsArgument declared t) {a : Bytes}
    (ha : IsGap a) : typeExpr names (a ++ t.text) = .ok t :=
  (typeExpr_text_iff (hnames.spells ht).1 ha).2 (hnames.spells ht).2

theorem isItem_named {n : Bytes} (hn : isIdent n = true) {t : Bytes} (ht : IsTypeText t) :
    IsItem (n ++ utf8 ": " ++ t) := by
  have hident := isTypeText_ident hn
  refine ⟨by simp [hident.ne_nil], ?_, ⟨fun b hb => hident.tight.head b ?_, fun b hb => ht.tight.last b ?_⟩,
    (hident.passes.append passes_colon).append ht.passes⟩
  · simp only [List.forall_mem_append]
    exact ⟨⟨hident.plain, plain_colon⟩, ht.plain⟩
  · obtain ⟨c, n, rfl⟩ := List.exists_cons_of_ne_nil hident.ne_nil
    simpa using hb
  · rwa [List.getLast?_append_of_ne_nil _ ht.ne_nil] at hb

theorem namedType_text_iff {n : Bytes} (hn : isIdent n = true) {t : TypeExpr} (ht : names.Spells t) (hblank : t ≠ .blank) :
    namedType names (Param.text ⟨n, t⟩) = .ok (n, t) ↔ t.isReadable = true := by
  have hcolon : (58 : UInt8) ∉ n := not_mem_of_isTypeText (isTypeText_ident hn) (by decide)
  have hcut : Bytes.cut 58 (Param.text ⟨n, t⟩) = some (n, [32] ++ t.text) := by
    rw [Param.text, List.append_assoc]
    exact Bytes.cut_append_sep hcolon _
  rw [← typeExpr_text_iff ht (a := [32]) (by simp [IsGap]), namedType, hcut]
  dsimp only
  rw [bareName_of_ident hn, hn]
  refine bind_eq_ok.trans ?_
  constructor
  · rintro ⟨u, hu, h⟩
    cases u with
    | blank => cases h
    | _ =>
      cases h
      exact hu
  · intro h
    refine ⟨t, h, ?_⟩
    cases t with
    | blank => exact absurd rfl hblank
    | _ => rfl

theorem namedType_text (hnames : names.Covers declared) {n : Bytes} (hn : isIdent n = true) {t : TypeExpr}
    (ht : t.isPlain declared = true) : namedType names (Param.text ⟨n, t⟩) = .ok (n, t) := by
  obtain ⟨hspells, hreadable⟩ := hnames.spells (.inr ht)
  refine (namedType_text_iff hn hspells ?_).2 hreadable
  rintro rfl
  simp [TypeExpr.isPlain] at ht

theorem caseText_payload {n : Bytes} {t : TypeExpr} (ht : t.isPlain declared = true) :
    caseText (n, t) = n ++ 40 :: (t.text ++ [41]) := by
  have hcase : caseText (n, t) = n ++ utf8 "(" ++ t.text ++ utf8 ")" := by
    cases t with
    | blank => simp [TypeExpr.isPlain] at ht
    | _ => rfl
  rw [hcase]
  simp only [List.append_assoc]
  rfl

theorem isItem_case (hident : ∀ n ∈ declared, isIdent n = true) {n : Bytes} (hn : isIdent n = true) {t : TypeExpr}
    (ht : IsArgument declared t) : IsItem (caseText (n, t)) := by
  have hname := isTypeText_ident hn
  have htext := isTypeText_text hident t ht
  rcases ht with ht | ht
  · cases t with
    | blank => exact hname.toIsItem
    | _ => cases ht
  · rw [caseText_payload ht]
    have hpayload : Passes 0 (40 :: t.text ++ [41]) := Passes.bracket rfl rfl (htext.passes.mono (by decide))
    refine ⟨by simp, ?_, ⟨fun b hb => hname.tight.head b ?_, fun b hb => ?_⟩, hname.passes.append hpayload⟩
    · simp only [List.forall_mem_append, List.forall_mem_cons]
      exact ⟨hname.plain, rfl, htext.plain, rfl, by simp⟩
    · obtain ⟨c, n, rfl⟩ := List.exists_cons_of_ne_nil hname.ne_nil
      simpa using hb
    · rw [← List.cons_append, ← List.append_assoc, List.getLast?_concat] at hb
      obtain rfl : 41 = b := by simpa using hb
      rfl

theorem variantCase_text (hnames : names.Covers declared) {n : Bytes} (hn : isIdent n = true) {t : TypeExpr}
    (ht : IsArgument declared t) : variantCase names (caseText (n, t)) = .ok (n, t) := by
  have hbracket : (40 : UInt8) ∉ n := not_mem_of_isTypeText (isTypeText_ident hn) (by decide)
  rcases ht with ht | ht
  · cases t with
    | blank => rw [caseText, variantCase, Bytes.cut_of_not_mem hbracket, bareName_of_ident hn]
    | _ => cases ht
  · have htype := typeExpr_text hnames (.inr ht) (a := []) (by simp [IsGap])
    rw [caseText_payload ht, variantCase, Bytes.cut_append_sep hbracket]
    dsimp only
    rw [List.getLast?_concat, if_pos rfl, List.dropLast_concat, bareName_of_ident hn, ← List.nil_append t.text, htype]
    rfl

/-- What is checked of a declaration. -/
theorem isPlain_decl {d : Decl} (hd : d.isPlain declared = true) :
    isIdent d.name = true ∧ d.name ∉ TypeExpr.reserved ∧ d.body.isPlain declared = true ∧
      d.body ≠ .alias (.named d.name) := by
  rw [Decl.isPlain, Bool.and_eq_true, Bool.and_eq_true, Bool.and_eq_true] at hd
  obtain ⟨⟨⟨hn, hnew⟩, hb⟩, hself⟩ := hd
  refine ⟨hn, by simpa using hnew, hb, fun heq => ?_⟩
  simp [heq] at hself

theorem isPlain_record {fs : List (Bytes × TypeExpr)} (h : (DeclBody.record fs).isPlain declared = true) :
    ∀ f ∈ fs, isIdent f.1 = true ∧ f.2.isPlain declared = true := by
  intro f hf
  simpa using List.all_eq_true.1 h f hf

theorem isPlain_variant {cs : List (Bytes × TypeExpr)} (h : (DeclBody.variant cs).isPlain declared = true) :
    ∀ c ∈ cs, isIdent c.1 = true ∧ IsArgument declared c.2 := by
  intro c hc
  simpa [IsArgument] using List.all_eq_true.1 h c hc

/-- What is found of a declaration: the text between its braces, or what an alias stands for. -/
def siteText : DeclBody → Bytes
  | .resource => []
  | .alias t => t.text
  | b => [32] ++ Bytes.join (utf8 ", ") b.members ++ [32]

theorem isItem_member (hident : ∀ n ∈ declared, isIdent n = true) {b : DeclBody} (hb : b.isPlain declared = true) :
    ∀ m ∈ b.members, IsItem m := by
  intro m hm
  cases b with
  | record fs =>
    obtain ⟨f, hf, rfl⟩ := List.mem_map.1 hm
    obtain ⟨hn, ht⟩ := isPlain_record hb f hf
    exact isItem_named hn (isTypeText_text hident f.2 (.inr ht))
  | enum ns | flags ns => exact (isTypeText_ident (List.all_eq_true.1 hb m hm)).toIsItem
  | variant cs =>
    obtain ⟨c, hc, rfl⟩ := List.mem_map.1 hm
    obtain ⟨hn, ht⟩ := isPlain_variant hb c hc
    exact isItem_case hident hn ht
  | union ts =>
    obtain ⟨t, ht, rfl⟩ := List.mem_map.1 hm
    exact (isTypeText_text hident t (.inr (List.all_eq_true.1 hb t ht))).toIsItem
  | resource | «alias» => simp [DeclBody.members] at hm

/-- A text of members has none of the octets that stand around it. -/
theorem not_mem_members {ms : List Bytes} (hms : ∀ m ∈ ms, IsItem m) {b : UInt8} (hb : b ∈ [10, 47, 59, 123, 125]) :
    b ∉ Bytes.join (utf8 ", ") ms := by
  have hgap : ∀ b ∈ [10, 47, 59, 123, 125], b ∉ ([44, 32] : List UInt8) := by simp
  intro hmem
  rcases mem_join_comma hmem with rfl | rfl | ⟨m, hm, hmem⟩
  · exact hgap 44 hb (by simp)
  · exact hgap 32 hb (by simp)
  · exact (isMemberByte_spec b ((hms m hm).plain b hmem)).2 hb

/-- The members between braces, on one line. -/
theorem items_members {ms : List Bytes} (hms : ∀ m ∈ ms, IsItem m) :
    items (([32] ++ Bytes.join (utf8 ", ") ms ++ [32]).map fun b => if b = 10 then 44 else b) = ms := by
  have hline : (10 : UInt8) ∉ [32] ++ Bytes.join (utf8 ", ") ms ++ [32] := by
    simp [not_mem_members hms (b := 10) (by decide)]
  have hsame := List.map_congr_left (f := fun b : UInt8 => if b = 10 then 44 else b) (g := id) fun b hb =>
    if_neg fun h : b = 10 => hline (h ▸ hb)
  rw [hsame, List.map_id]
  exact items_join (by simp [IsGap]) (by simp [IsGap]) hms

theorem map_bareName {ns : List Bytes} (h : ∀ n ∈ ns, isIdent n = true) : ns.map bareName = ns :=
  (List.map_congr_left fun n hn => bareName_of_ident (h n hn)).trans (List.map_id ns)

/-- **Reading a declaration** gives what it says. -/
theorem declBody_text (hnames : names.Covers declared) {d : Decl} (hd : d.isPlain declared = true) :
    declBody names d.name (siteText d.body) d.body.kind = .ok d.body := by
  obtain ⟨-, -, hb, hself⟩ := isPlain_decl hd
  obtain ⟨n, b⟩ := d
  have hitems := items_members (isItem_member hnames.ident hb)
  cases b with
  | record fs =>
    refine bind_eq_ok.2 ⟨fs, ?_, rfl⟩
    refine (congrArg (List.mapM _) hitems).trans (mapM_texts.2 fun f hf => ?_)
    obtain ⟨hn, ht⟩ := isPlain_record hb f hf
    exact namedType_text hnames hn ht
  | variant cs =>
    refine bind_eq_ok.2 ⟨cs, ?_, rfl⟩
    refine (congrArg (List.mapM _) hitems).trans (mapM_texts.2 fun c hc => ?_)
    obtain ⟨hn, ht⟩ := isPlain_variant hb c hc
    exact variantCase_text hnames hn ht
  | union ts =>
    refine bind_eq_ok.2 ⟨ts, ?_, rfl⟩
    refine (congrArg (List.mapM _) hitems).trans (mapM_texts.2 fun t ht => ?_)
    exact typeExpr_text hnames (.inr (List.all_eq_true.1 hb t ht)) (a := []) (by simp [IsGap])
  | enum ns =>
    have hbare := map_bareName (List.all_eq_true.1 hb)
    exact congrArg (fun ms => Except.ok (DeclBody.enum ms)) ((congrArg (List.map bareName) hitems).trans hbare)
  | flags ns =>
    have hbare := map_bareName (List.all_eq_true.1 hb)
    exact congrArg (fun ms => Except.ok (DeclBody.flags ms)) ((congrArg (List.map bareName) hitems).trans hbare)
  | resource => rfl
  | «alias» t =>
    have htype := typeExpr_text hnames (.inr hb) (a := []) (by simp [IsGap])
    refine bind_eq_ok.2 ⟨t, htype, ?_⟩
    cases t with
    | blank => simp [DeclBody.isPlain, TypeExpr.isPlain] at hb
    | named m =>
      have hne : m ≠ n := by simpa using hself
      exact if_neg hne
    | _ => rfl

/-! ## Functions -/

/-- What is found behind the arrow of a function. -/
def arrowText : List Param → Option Bytes
  | [] => none
  | [⟨[], t⟩] => some t.text
  | rs => some (40 :: Bytes.join (utf8 ", ") (rs.map Param.resultText) ++ [41])

/-- What is found of a function. -/
def funcTextOf (f : Func) : FuncText :=
  { name := f.name, params := Bytes.join (utf8 ", ") (f.params.map Param.text), results := arrowText f.results }

/-- A result with or without a name. -/
def IsResult (declared : List Bytes) (r : Param) : Prop :=
  (r.name = [] ∨ isIdent r.name = true) ∧ r.type.isPlain declared = true

/-- What is checked of a function. -/
theorem isPlain_func {f : Func} (hf : f.isPlain declared = true) : isIdent f.name = true ∧
    (∀ p ∈ f.params, isIdent p.name = true ∧ p.type.isPlain declared = true) ∧
      ∀ r ∈ f.results, IsResult declared r := by
  rw [Func.isPlain, Bool.and_eq_true, Bool.and_eq_true] at hf
  obtain ⟨⟨hn, hps⟩, hrs⟩ := hf
  refine ⟨hn, by simpa using hps, fun r hr => ?_⟩
  simpa [IsResult] using List.all_eq_true.1 hrs r hr

theorem isItem_params (hident : ∀ n ∈ declared, isIdent n = true) {ps : List Param}
    (hps : ∀ p ∈ ps, isIdent p.name = true ∧ p.type.isPlain declared = true) : ∀ x ∈ ps.map Param.text, IsItem x := by
  intro x hx
  obtain ⟨p, hp, rfl⟩ := List.mem_map.1 hx
  exact isItem_named (hps p hp).1 (isTypeText_text hident p.type (.inr (hps p hp).2))

theorem isItem_result (hident : ∀ n ∈ declared, isIdent n = true) {r : Param} (hr : IsResult declared r) :
    IsItem r.resultText := by
  obtain ⟨n, t⟩ := r
  obtain ⟨rfl | hn, ht⟩ := hr
  · exact (isTypeText_text hident t (.inr ht)).toIsItem
  · have hne : n.isEmpty = false := by simpa using (isTypeText_ident hn).ne_nil
    rw [Param.resultText, hne]
    exact isItem_named hn (isTypeText_text hident t (.inr ht))

theorem isItem_results (hident : ∀ n ∈ declared, isIdent n = true) {rs : List Param}
    (hrs : ∀ r ∈ rs, IsResult declared r) : ∀ x ∈ rs.map Param.resultText, IsItem x := by
  intro x hx
  obtain ⟨r, hr, rfl⟩ := List.mem_map.1 hx
  exact isItem_result hident (hrs r hr)

/-- A result with a colon in its text is read like a parameter. -/
theorem resultItem_named (p : Param) : resultItem names p.text = do
    let f ← namedType names p.text
    return ⟨f.1, f.2⟩ := by
  have hcolon : p.text.contains 58 = true := by
    rw [List.contains_iff_mem, Param.text]
    exact List.mem_append_left _ (List.mem_append_right _ (by decide))
  rw [resultItem, if_pos hcolon]

theorem resultItem_text (hnames : names.Covers declared) {r : Param} (hr : IsResult declared r) :
    resultItem names r.resultText = .ok r := by
  obtain ⟨n, t⟩ := r
  obtain ⟨rfl | hn, ht⟩ := hr
  · have hcolon : t.text.contains 58 = false := by
      simpa using not_mem_of_isTypeText (isTypeText_text hnames.ident t (.inr ht)) (b := 58) (by decide)
    have htype := typeExpr_text hnames (.inr ht) (a := []) (by simp [IsGap])
    rw [show Param.resultText ⟨[], t⟩ = t.text from rfl, resultItem, hcolon]
    exact bind_eq_ok.2 ⟨t, htype, rfl⟩
  · have hne : n.isEmpty = false := by simpa using (isTypeText_ident hn).ne_nil
    rw [show Param.resultText ⟨n, t⟩ = Param.text ⟨n, t⟩ by simp [Param.resultText, hne], resultItem_named]
    exact bind_eq_ok.2 ⟨(n, t), namedType_text hnames hn ht, rfl⟩

/-- A list of items in round brackets is an item. -/
theorem isItem_bracket {ms : List Bytes} (hms : ∀ m ∈ ms, IsItem m) :
    IsItem (40 :: Bytes.join (utf8 ", ") ms ++ [41]) := by
  have hinner := passes_join fun m hm => (hms m hm).passes.mono (by decide)
  refine ⟨by simp, fun b hb => ?_, ⟨fun b hb => ?_, fun b hb => ?_⟩, Passes.bracket rfl rfl (k := 0) hinner⟩
  · simp only [List.mem_append, List.mem_cons, List.not_mem_nil, or_false] at hb
    rcases hb with (rfl | hb) | rfl
    · rfl
    · rcases mem_join_comma hb with rfl | rfl | ⟨m, hm, hb⟩
      · rfl
      · rfl
      · exact (hms m hm).plain b hb
    · rfl
  · obtain rfl : 40 = b := by simpa using hb
    rfl
  · rw [List.getLast?_concat] at hb
    obtain rfl : 41 = b := by simpa using hb
    rfl

/-- Results in brackets are read one by one. -/
theorem resultList_bracket {ms : List Bytes} (hne : ms ≠ []) (hms : ∀ m ∈ ms, IsItem m) :
    resultList names (40 :: Bytes.join (utf8 ", ") ms ++ [41]) = ms.mapM (resultItem names) := by
  have hitems := items_of_join hms
  have hinner : Bytes.join (utf8 ", ") ms ≠ [] := by
    intro hnil
    rw [hnil] at hitems
    exact hne hitems.symm
  have hempty : ¬(40 :: Bytes.join (utf8 ", ") ms ++ [41] = [] ∨
      40 :: Bytes.join (utf8 ", ") ms ++ [41] = utf8 "()") := by
    rintro (h | h)
    · cases h
    · have hlength := congrArg List.length h
      have hpos := List.length_pos_iff.2 hinner
      simp only [List.length_append, List.length_cons, List.length_nil] at hlength
      rw [show (utf8 "()").length = 2 from rfl] at hlength
      omega
  rw [resultList, trim_of_isItem (isItem_bracket hms), if_neg hempty, if_pos ⟨rfl, List.getLast?_concat⟩,
    List.cons_append, List.drop_one, List.tail_cons, List.dropLast_concat, hitems]

/-- A single result without brackets is read as a type. -/
theorem resultList_type {s : Bytes} (hs : IsTypeText s) :
    resultList names s = do return [⟨[], ← typeExpr names s⟩] := by
  have hbracket : (40 : UInt8) ∉ s := not_mem_of_isTypeText hs (by decide)
  have hempty : ¬(s = [] ∨ s = utf8 "()") := by
    rintro (h | h)
    · exact hs.ne_nil h
    · exact hbracket (h ▸ by decide)
  have hopen : ¬(s.head? = some 40 ∧ s.getLast? = some 41) := fun h => hbracket (List.mem_of_mem_head? h.1)
  rw [resultList, trim_of_isItem hs.toIsItem, if_neg hempty, if_neg hopen]

/-- Reading what stands behind the arrow, if there is one. -/
def arrowResults (names : Names) : Option Bytes → Except Problem (List Param)
  | none => .ok []
  | some text => resultList names text

theorem results_text (hnames : names.Covers declared) {rs : List Param} (hrs : ∀ r ∈ rs, IsResult declared r) :
    arrowResults names (arrowText rs) = .ok rs := by
  have hbracket : rs ≠ [] →
      resultList names (40 :: Bytes.join (utf8 ", ") (rs.map Param.resultText) ++ [41]) = .ok rs := fun hne => by
    rw [resultList_bracket (by simpa using hne) (isItem_results hnames.ident hrs)]
    exact mapM_texts.2 fun r hr => resultItem_text hnames (hrs r hr)
  match rs with
  | [] => rfl
  | [⟨[], t⟩] =>
    have ht : IsArgument declared t := .inr (hrs ⟨[], t⟩ (by simp)).2
    have htype := typeExpr_text hnames ht (a := []) (by simp [IsGap])
    exact (resultList_type (isTypeText_text hnames.ident t ht)).trans (bind_eq_ok.2 ⟨t, htype, rfl⟩)
  | [⟨b :: n, t⟩] => exact hbracket (by simp)
  | ⟨[], t⟩ :: r :: rs => exact hbracket (by simp)
  | ⟨b :: n, t⟩ :: r :: rs => exact hbracket (by simp)

/-- A function is read parameter by parameter, and its results as a whole. -/
theorem func_eq_ok {n : Bytes} (hn : isIdent n = true) {ms : List Bytes} (hms : ∀ m ∈ ms, IsItem m)
    {results : Option Bytes} {f : Func} :
    func names { name := n, params := Bytes.join (utf8 ", ") ms, results } = .ok f ↔
      f.name = n ∧ ms.mapM (namedType names) = .ok (f.params.map fun p => (p.name, p.type)) ∧
        arrowResults names results = .ok f.results := by
  have hsame : ∀ ps : List Param,
      (ps.map fun p => (p.name, p.type)).map (fun f => (⟨f.1, f.2⟩ : Param)) = ps := fun ps => by
    rw [List.map_map]
    exact List.map_id ps
  have hpairs : ∀ fs : List (Bytes × TypeExpr),
      (fs.map fun f => (⟨f.1, f.2⟩ : Param)).map (fun p => (p.name, p.type)) = fs := fun fs => by
    rw [List.map_map]
    exact List.map_id fs
  rw [func, items_of_join hms, bareName_of_ident hn, bind_eq_ok]
  cases results with
  | none =>
    constructor
    · rintro ⟨fs, hfs, h⟩
      cases h
      exact ⟨rfl, by rw [hpairs, hfs], rfl⟩
    · obtain ⟨name, params, rs⟩ := f
      rintro ⟨rfl, hparams, hrs⟩
      cases hrs
      exact ⟨_, hparams, congrArg (fun ps => Except.ok (Func.mk name ps [])) (hsame params)⟩
  | some text =>
    constructor
    · rintro ⟨fs, hfs, h⟩
      obtain ⟨rs, hrs, h⟩ := bind_eq_ok.1 h
      cases h
      exact ⟨rfl, by rw [hpairs, hfs], hrs⟩
    · obtain ⟨name, params, rs⟩ := f
      rintro ⟨rfl, hparams, hrs⟩
      refine ⟨_, hparams, bind_eq_ok.2 ⟨rs, hrs, ?_⟩⟩
      exact congrArg (fun ps => Except.ok (Func.mk name ps rs)) (hsame params)

/-- **Reading a function** gives the function. -/
theorem func_text (hnames : names.Covers declared) {f : Func} (hf : f.isPlain declared = true) :
    func names (funcTextOf f) = .ok f := by
  obtain ⟨hn, hps, hrs⟩ := isPlain_func hf
  refine (func_eq_ok hn (isItem_params hnames.ident hps)).2 ⟨rfl, ?_, results_text hnames hrs⟩
  rw [mapM_eq_ok, List.forall₂_map_left_iff, List.forall₂_map_right_iff, List.forall₂_same]
  exact fun p hp => namedType_text hnames (hps p hp).1 (hps p hp).2

end members

end Bindery.Interface
