/-
Signatures as they are shown, read back as lines of an interface file. A line put before the
declarations of a file leaves them as they are and adds its function (`Reading.prepend`). The line
of a shown signature is always recognised; the function that it is read as is the function shown
exactly when its signature is readable (`parse_signature_iff`).
-/
import Bindery.Proofs.Interface.Closed

namespace Bindery

/-! ## Shown signatures -/

/-- The line of an interface file that a shown signature is meant for: the words of a function
stand behind its name. -/
def Func.signatureLine (f : Func) : Bytes := f.name ++ utf8 ": func" ++ f.signature.drop f.name.length

/-- A signature that says what the function is: a single result has no name, as none is shown, and
each of several results has one, as a name is shown for it. -/
structure Func.IsReadable (f : Func) : Prop where
  types : ∀ t ∈ f.types, t.isReadable = true
  single : f.results.length = 1 → ∀ r ∈ f.results, r.name = []
  several : 1 < f.results.length → ∀ r ∈ f.results, r.name ≠ []

instance (f : Func) : Decidable f.IsReadable :=
  decidable_of_iff ((∀ t ∈ f.types, t.isReadable = true) ∧ (f.results.length = 1 → ∀ r ∈ f.results, r.name = []) ∧
      (1 < f.results.length → ∀ r ∈ f.results, r.name ≠ []))
    ⟨fun ⟨h₁, h₂, h₃⟩ => ⟨h₁, h₂, h₃⟩, fun ⟨h₁, h₂, h₃⟩ => ⟨h₁, h₂, h₃⟩⟩

namespace Interface

section shown

/-- Results as they are shown behind the arrow. -/
def shownResults : List Param → Option Bytes
  | [] => none
  | [r] => some r.type.text
  | rs => some (40 :: Bytes.join (utf8 ", ") (rs.map Param.text) ++ [41])

/-- What is found of a function in its shown signature. -/
def shownText (f : Func) : FuncText :=
  { name := f.name, params := Bytes.join (utf8 ", ") (f.params.map Param.text), results := shownResults f.results }

theorem signature_eq (f : Func) : f.signature = f.name ++
    40 :: (Bytes.join (utf8 ", ") (f.params.map Param.text) ++ 41 :: arrowTo (shownResults f.results)) := by
  obtain ⟨n, ps, rs⟩ := f
  rw [Func.signature]
  match rs with
  | [] | [r] | r :: r' :: rs =>
    simp only [shownResults, arrowTo, List.append_assoc]
    rfl

theorem signatureLine_append (f : Func) (x : Bytes) : f.signatureLine ++ x = f.name ++ 58 :: (utf8 " func(" ++
    (Bytes.join (utf8 ", ") (f.params.map Param.text) ++ 41 :: (arrowTo (shownResults f.results) ++ x))) := by
  rw [Func.signatureLine, signature_eq, List.drop_left]
  simp only [List.append_assoc, List.cons_append]
  rfl

variable {names : Names} {f : Func}

theorem isItem_param {p : Param} (hn : p.name = [] ∨ isIdent p.name = true) (ht : IsTypeText p.type.text) :
    IsItem p.text := by
  obtain ⟨n, t⟩ := p
  obtain rfl | hn := hn
  · refine ⟨by simp [Param.text, ht.ne_nil], ?_, ⟨fun b hb => ?_, fun b hb => ht.tight.last b ?_⟩,
      passes_colon.append ht.passes⟩
    · simp only [Param.text, List.nil_append, List.forall_mem_append]
      exact ⟨plain_colon, ht.plain⟩
    · obtain rfl : 58 = b := Option.some.inj hb
      rfl
    · rwa [Param.text, List.getLast?_append_of_ne_nil _ ht.ne_nil] at hb
  · exact isItem_named hn ht

/-- What a shown signature is made of. -/
structure Shown (names : Names) (f : Func) : Prop extends Signed f where
  name : isIdent f.name = true
  types : ∀ t ∈ f.types, names.Spells t

theorem Shown.param (hf : Shown names f) : ∀ p ∈ f.params, names.Spells p.type :=
  fun _ hp => hf.types _ (List.mem_append_left _ (List.mem_map_of_mem hp))

theorem Shown.result (hf : Shown names f) : ∀ r ∈ f.results, names.Spells r.type :=
  fun _ hr => hf.types _ (List.mem_append_right _ (List.mem_map_of_mem hr))

theorem Names.Spells.isTypeText {t : TypeExpr} (ht : names.Spells t) : IsTypeText t.text :=
  isTypeText_of_names t fun n hn => (ht n hn).1

theorem Shown.isItem_params (hf : Shown names f) : ∀ x ∈ f.params.map Param.text, IsItem x :=
  List.forall_mem_map.2 fun p hp => isItem_param (.inr (hf.params p hp).1) (hf.param p hp).isTypeText

theorem Shown.isItem_results (hf : Shown names f) : ∀ x ∈ f.results.map Param.text, IsItem x :=
  List.forall_mem_map.2 fun r hr => isItem_param ((hf.results r hr).imp_right And.left) (hf.result r hr).isTypeText

/-- A result with its name, or with none before the colon. -/
theorem resultItem_text_iff {r : Param} (hr : r.name = [] ∨ isIdent r.name = true ∧ r.type ≠ .blank)
    (ht : names.Spells r.type) : resultItem names r.text = .ok r ↔ r.type.isReadable = true ∧ r.name ≠ [] := by
  obtain ⟨n, t⟩ := r
  rw [resultItem_named, bind_eq_ok]
  obtain rfl | ⟨hn, hblank⟩ := hr
  · have hbad : namedType names (Param.text ⟨[], t⟩) = .error (.badIdent []) := rfl
    simp [hbad]
  · have hne : n ≠ [] := (isTypeText_ident hn).ne_nil
    rw [← namedType_text_iff hn ht hblank, and_iff_left hne]
    constructor
    · rintro ⟨⟨n', t'⟩, hf, h⟩
      cases h
      exact hf
    · exact fun h => ⟨_, h, rfl⟩

/-- Results as they are shown are the results when each is readable and named as it is shown. -/
theorem shownResults_iff (hf : Shown names f) : arrowResults names (shownResults f.results) = .ok f.results ↔
    (∀ r ∈ f.results, r.type.isReadable = true) ∧
      (f.results.length = 1 → ∀ r ∈ f.results, r.name = []) ∧ (1 < f.results.length → ∀ r ∈ f.results, r.name ≠ []) := by
  obtain ⟨n, ps, rs⟩ := f
  have hitem := hf.isItem_results
  have hspells := hf.result
  have hsigned := hf.results
  dsimp only at hitem hspells hsigned ⊢
  match rs with
  | [] => simp [shownResults, arrowResults]
  | [⟨n, t⟩] =>
    have ht := hspells ⟨n, t⟩ (by simp)
    have htype := typeExpr_text_iff ht (a := []) (by simp [IsGap])
    dsimp only [shownResults, arrowResults]
    rw [resultList_type ht.isTypeText, bind_eq_ok]
    constructor
    · rintro ⟨u, hu, h⟩
      cases h
      simpa using htype.1 hu
    · rintro ⟨hread, hname, -⟩
      obtain rfl : n = [] := hname rfl ⟨n, t⟩ (by simp)
      exact ⟨t, htype.2 (hread _ (by simp)), rfl⟩
  | r :: r' :: rs =>
    dsimp only [shownResults, arrowResults]
    rw [resultList_bracket (by simp) hitem, mapM_texts]
    have hone : ∀ q ∈ r :: r' :: rs, (resultItem names q.text = .ok q ↔ q.type.isReadable = true ∧ q.name ≠ []) :=
      fun q hq => resultItem_text_iff (hsigned q hq) (hspells q hq)
    constructor
    · intro h
      exact ⟨fun q hq => ((hone q hq).1 (h q hq)).1, by simp, fun _ q hq => ((hone q hq).1 (h q hq)).2⟩
    · rintro ⟨hread, -, hnames⟩ q hq
      exact (hone q hq).2 ⟨hread q hq, hnames (by simp) q hq⟩

/-- **A shown signature is read as its function** exactly when it is readable. -/
theorem func_shownText_iff (hf : Shown names f) : func names (shownText f) = .ok f ↔ f.IsReadable := by
  have hparams : (f.params.map Param.text).mapM (namedType names) = .ok (f.params.map fun p => (p.name, p.type)) ↔
      ∀ p ∈ f.params, p.type.isReadable = true := by
    rw [mapM_eq_ok, List.forall₂_map_left_iff, List.forall₂_map_right_iff, List.forall₂_same]
    exact forall₂_congr fun p hp => namedType_text_iff (hf.params p hp).1 (hf.param p hp) (hf.params p hp).2
  rw [shownText, func_eq_ok hf.name hf.isItem_params, hparams, shownResults_iff hf]
  constructor
  · rintro ⟨-, hps, hrs, hsingle, hseveral⟩
    refine ⟨fun t ht => ?_, hsingle, hseveral⟩
    rcases List.mem_append.1 ht with ht | ht
    · obtain ⟨p, hp, rfl⟩ := List.mem_map.1 ht
      exact hps p hp
    · obtain ⟨r, hr, rfl⟩ := List.mem_map.1 ht
      exact hrs r hr
  · intro h
    exact ⟨rfl, fun p hp => h.types _ (List.mem_append_left _ (List.mem_map_of_mem hp)),
      fun r hr => h.types _ (List.mem_append_right _ (List.mem_map_of_mem hr)), h.single, h.several⟩

end shown

/-! ## A line before a text -/

section line

variable {α : Type} {recognise : Bytes → Option (α × Bytes)}

/-- The same stretch in a text with octets before it. -/
def Found.shift (k : Nat) (f : Found α) : Found α := { f with start := f.start + k }

theorem scanFrom_shift (k : Nat) : ∀ (s : Bytes) (skip : Nat) (fresh : Bool) (pos : Nat),
    scanFrom recognise skip fresh (pos + k) s = (scanFrom recognise skip fresh pos s).map (Found.shift k)
  | [], _, _, _ => by simp [scanFrom]
  | b :: s, skip + 1, fresh, pos => by
    rw [scanFrom, scanFrom, Nat.add_right_comm, scanFrom_shift k s]
  | b :: s, 0, false, pos => by
    rw [scanFrom, scanFrom, Nat.add_right_comm, scanFrom_shift k s]
  | b :: s, 0, true, pos => by
    rw [scanFrom, scanFrom, Nat.add_right_comm]
    cases recognise (b :: s) with
    | none => exact scanFrom_shift k s 0 _ (pos + 1)
    | some f => exact congrArg _ (scanFrom_shift k s _ _ (pos + 1))

/-- What is found in a text with a line before it. -/
theorem scan_line {line : Bytes} {found : Option (α × Nat)} (hne : line ≠ []) (hline : 10 ∉ line)
    (h : Recognises recognise (fun _ => true) line found) (rest : Bytes) : scan recognise (line ++ 10 :: rest) =
      (found.map fun f => { start := 0, length := f.2, value := f.1 }).toList
        ++ (scan recognise rest).map (Found.shift (line.length + 1)) := by
  rw [scan, scanFrom_line hne hline (by simp [Starts]) h, scan, ← scanFrom_shift]

theorem scan_line_none {line : Bytes} (hne : line ≠ []) (hline : 10 ∉ line)
    (h : ∀ rest, recognise (line ++ 10 :: rest) = none) (rest : Bytes) :
    scan recognise (line ++ 10 :: rest) = (scan recognise rest).map (Found.shift (line.length + 1)) := by
  have hrec : Recognises recognise (fun _ => true) line none := fun rest _ => h rest
  exact scan_line hne hline hrec rest

theorem blankOut_shift (start length : Nat) (pre s : Bytes) :
    blankOut (start + pre.length) length (pre ++ s) = pre ++ blankOut start length s := by
  rw [blankOut, blankOut, Nat.add_right_comm, Nat.add_comm start, Nat.add_comm (start + length),
    List.take_length_add_append, List.drop_length_add_append, List.drop_length_add_append]
  simp only [List.append_assoc]

theorem foldl_blankOut_shift (pre : Bytes) : ∀ (founds : List (Found α)) (s : Bytes),
    (founds.map (Found.shift pre.length)).foldl (fun t f => blankOut f.start f.length t) (pre ++ s) =
      pre ++ founds.foldl (fun t f => blankOut f.start f.length t) s
  | [], _ => rfl
  | f :: founds, s => by
    rw [List.map_cons, List.foldl_cons, List.foldl_cons, ← foldl_blankOut_shift pre founds]
    exact congrArg (fun t => List.foldl _ t _) (blankOut_shift f.start f.length pre s)

/-- A text on one line that is a function and nothing else. -/
structure IsFuncLine (line : Bytes) (f : FuncText) : Prop extends IsLine line where
  ne_nil : line ≠ []
  decl : ∀ rest, declText? (line ++ 10 :: rest) = none
  notAlias : ∀ rest, aliasText? (line ++ 10 :: rest) = none
  func : ∀ rest, funcText? (line ++ 10 :: rest) = some (f, 10 :: rest)

variable {line rest : Bytes} {f : FuncText}

theorem IsFuncLine.remaining (h : IsFuncLine line f) (rest : Bytes) :
    Interface.remaining (line ++ 10 :: rest) = line ++ 10 :: Interface.remaining rest := by
  have hpre : ∀ s : Bytes, line ++ 10 :: s = (line ++ [10]) ++ s := fun s => by simp
  have hlength : line.length + 1 = (line ++ [10]).length := by simp
  rw [Interface.remaining, scan_line_none h.ne_nil h.feed h.decl, scan_line_none h.ne_nil h.feed h.notAlias,
    withoutDecls, hlength, hpre, foldl_blankOut_shift, foldl_blankOut_shift, ← hpre]
  rfl

theorem IsFuncLine.scan (h : IsFuncLine line f) (rest : Bytes) : Interface.scan funcText? (line ++ 10 :: rest) =
    { start := 0, length := line.length, value := f }
      :: (Interface.scan funcText? rest).map (Found.shift (line.length + 1)) := by
  have hrec : Recognises funcText? (fun _ => true) line (some (f, line.length)) := by
    refine ⟨List.length_pos_iff.2 h.ne_nil, Nat.le_succ _, fun rest _ => ?_⟩
    rw [List.drop_left, h.func]
  exact scan_line h.ne_nil h.feed hrec rest

/-- The same site in a text with octets before it. -/
def Site.shift (k : Nat) (s : Site) : Site := { s with start := s.start + k }

theorem declSite_shift {k : Nat} {d : Found DeclText} {s : Site} (h : declSite d = .ok s) :
    declSite (d.shift k) = .ok (s.shift k) := by
  unfold declSite at h ⊢
  dsimp only [Found.shift] at h ⊢
  split at h
  · cases h
    rfl
  · split at h
    · rename_i hkind
      cases h
      exact if_pos hkind
    · cases h

variable {ss : List Site} {types : List Decl} {fs : List Func} {fn : Func}

/-- **A line before a text** adds its function and leaves the rest as it is. -/
theorem Reading.prepend (hread : Reading rest ss types fs) (h : IsFuncLine line f) (hfn : func (namesOf ss) f = .ok fn)
    (hnew : fn.name ∉ fs.map Func.name) :
    Reading (line ++ 10 :: rest) (ss.map (Site.shift (line.length + 1))) types (fn :: fs) := by
  have hnames : namesOf (ss.map (Site.shift (line.length + 1))) = namesOf ss := by
    rw [namesOf, List.map_map]
    rfl
  refine ⟨?_, ?_, List.nodup_cons.2 ⟨hnew, hread.funcNames⟩, ?_, ?_⟩
  · obtain ⟨ds, hds, rfl⟩ := hread.sites
    refine ⟨ds.map (Site.shift (line.length + 1)), ?_, ?_⟩
    · rw [scan_line_none h.ne_nil h.feed h.decl, List.forall₂_map_left_iff, List.forall₂_map_right_iff]
      exact hds.imp fun _ _ => declSite_shift
    · rw [scan_line_none h.ne_nil h.feed h.notAlias, List.map_append, List.map_map, List.map_map]
      rfl
  · rw [List.map_map]
    exact hread.siteNames
  · rw [hnames, List.forall₂_map_left_iff]
    exact hread.types
  · rw [hnames, h.remaining, h.scan, List.forall₂_cons, List.forall₂_map_left_iff]
    exact ⟨hfn, hread.functions⟩

/-- The function of a line before a text is the first one. -/
theorem Reading.first_of_line (hread : Reading (line ++ 10 :: rest) ss types (fn :: fs)) (h : IsFuncLine line f) :
    func (namesOf ss) f = .ok fn := by
  have hfuncs := hread.functions
  rw [h.remaining, h.scan, List.forall₂_cons] at hfuncs
  exact hfuncs.1

/-- A line without a slash before a text with comments. -/
theorem stripComments_line : ∀ {line : Bytes}, 47 ∉ line → ∀ s, stripComments (line ++ 10 :: s) = line ++ 10 :: stripComments s
  | [], _, [] => rfl
  | [], _, b :: s => rfl
  | [a], h, s => by
    have ih := @stripComments_line [] (by simp) s
    rw [List.nil_append, List.nil_append, stripComments] at ih
    rw [List.singleton_append, stripComments, stripFrom, if_neg (by simp), if_neg (by simp), ih]
    rfl
  | a :: b :: line, h, s => by
    obtain ⟨ha, hrest⟩ := List.ne_and_not_mem_of_not_mem_cons h
    have ih := stripComments_line hrest s
    rw [stripComments] at ih
    simp only [List.cons_append] at ih ⊢
    rw [stripComments, stripFrom, if_neg fun h => ha h.1.symm, if_neg fun h => ha h.1.symm, ih]

end line

/-! ## Reading what was shown -/

section accepted

variable {names : Names} {path source decls : Bytes} {i : Interface} {f : Func}

theorem Shown.isItem_arrow (hf : Shown names f) : ∀ t ∈ shownResults f.results, IsItem t := by
  have hitem := hf.isItem_results
  have hspells := hf.result
  match hresults : f.results with
  | [] => simp [shownResults]
  | [r] =>
    rw [hresults] at hspells
    simpa [shownResults] using (hspells r (by simp)).isTypeText.toIsItem
  | r :: r' :: rs =>
    rw [hresults] at hitem
    simpa [shownResults] using isItem_bracket hitem

/-- **A shown signature is the line of a function**, readable or not. -/
theorem Shown.isFuncLine (hf : Shown names f) : IsFuncLine f.signatureLine (shownText f) := by
  have hparams := not_mem_params fun p hp => ⟨(hf.params p hp).1, (hf.param p hp).isTypeText⟩
  have hline := isLine_function hf.name hf.isItem_params hf.isItem_arrow
  have heq := signatureLine_append f []
  rw [List.append_nil, List.append_nil] at heq
  refine ⟨heq ▸ hline, ?_, fun rest => ?_, fun rest => ?_, fun rest => ?_⟩
  · rw [heq]
    simp
  · rw [signatureLine_append]
    exact declText?_name hf.name _
  · rw [signatureLine_append]
    exact aliasText?_name hf.name _
  · rw [signatureLine_append]
    exact funcText?_line hf.name hparams hf.isItem_arrow rest

/-- The functions of an accepted file over the names that it declares. -/
theorem shown_of_parse (h : parse path source = .ok i) (hf : f ∈ i.functions)
    (hnames : names.map (·.1) = i.types.map Decl.name) : Shown names f := by
  obtain ⟨-, -, ss, hread⟩ := parse_eq_ok.1 h
  obtain ⟨hname, hsigned⟩ := hread.signed f hf
  refine ⟨hsigned, hname, fun t ht n hn => ?_⟩
  have hdecl := isSome_decl?_iff.1 ((scoped_of_parse h).1.functions f hf t ht n hn)
  obtain ⟨d, hd, rfl⟩ := List.mem_map.1 hdecl
  exact ⟨hread.ident_type d hd, isSome_kind?_iff.2 (hnames ▸ hdecl)⟩

/-- **Signatures read back.** The line of a signature that is shown for a function of an accepted
file, put before declarations of the same types, makes a file with these types and that function
exactly when the signature is readable: no type in it is an error context or has the name of
another type, a single result has no name, and several results all have one. -/
theorem parse_signature_iff (h : parse path source = .ok i) (hf : f ∈ i.functions)
    (hdecls : parse path decls = .ok { i with functions := [] }) :
    parse path (f.signatureLine ++ 10 :: decls) = .ok { i with functions := [f] } ↔ f.IsReadable := by
  have hshown : ∀ {text : Bytes} {ss : List Site} {fs : List Func}, Reading text ss i.types fs → Shown (namesOf ss) f :=
    fun hread => shown_of_parse h hf ((map_fst_namesOf _).trans hread.names_eq.symm)
  obtain ⟨hname, hpath, ss, hread⟩ := parse_eq_ok.1 hdecls
  have hline := (hshown hread).isFuncLine
  rw [parse_eq_ok, stripComments_line hline.slash]
  constructor
  · rintro ⟨-, -, ss', hread'⟩
    exact (func_shownText_iff (hshown hread')).1 (hread'.first_of_line hline)
  · intro hreadable
    have hfunc := (func_shownText_iff (hshown hread)).2 hreadable
    exact ⟨hname, hpath, _, hread.prepend hline hfunc (by simp)⟩

end accepted

/-- An empty file declares nothing. -/
theorem parse_nil (path : Bytes) : parse path [] = .ok { name := nameOfPath path, path } := rfl

/-- An error context is shown under a name that no file can use. -/
theorem signature_of_error_context : ∃ i f, parse (utf8 "m.wai") (utf8 "f: func(e: error-context)\n") = .ok i ∧
    f ∈ i.functions ∧ parse (utf8 "m.wai") [] = .ok { i with functions := [] } ∧
    ∀ j, parse (utf8 "m.wai") (f.signatureLine ++ [10]) ≠ .ok j := by
  obtain ⟨i, hi, hcheck⟩ := exists_ok_of_check (r := parse (utf8 "m.wai") (utf8 "f: func(e: error-context)\n"))
    (fun i => i.types.isEmpty && i.functions.any fun f =>
      (parse (utf8 "m.wai") (f.signatureLine ++ [10])).toOption.isNone) (by rw [utf8_eq_toByteArray]; decide +kernel)
  obtain ⟨hname, hpath, -⟩ := parse_eq_ok.1 hi
  simp only [Bool.and_eq_true, List.isEmpty_iff, List.any_eq_true] at hcheck
  obtain ⟨htypes, f, hf, hnone⟩ := hcheck
  refine ⟨i, f, hi, hf, ?_, fun j hj => ?_⟩
  · rw [parse_nil, htypes, hname, hpath]
  · rw [hj] at hnone
    cases hnone

/-- A handle of a resource, and results with names. -/
def spotText : Bytes :=
  utf8 "resource spot\nmove: func(s: borrow<spot>, by: list<tuple<s8, s8>>) -> (s: own<spot>, ok: result<_, u8>)\n"

/-- Whether a declaration is that of the resource. -/
def isSpot (d : Decl) : Bool :=
  match d.body with
  | .resource => d.name == utf8 "spot"
  | _ => false

theorem eq_of_isSpot {d : Decl} (h : isSpot d = true) : d = ⟨utf8 "spot", .resource⟩ := by
  obtain ⟨name, body⟩ := d
  cases body with
  | resource =>
    have hname : name = utf8 "spot" := eq_of_beq h
    rw [hname]
  | _ => cases h

theorem parse_signature_iff_spot : ∃ i f, parse (utf8 "m.wai") spotText = .ok i ∧ f ∈ i.functions ∧
    parse (utf8 "m.wai") (utf8 "resource spot\n") = .ok { i with functions := [] } ∧
    parse (utf8 "m.wai") (f.signatureLine ++ 10 :: utf8 "resource spot\n") = .ok { i with functions := [f] } := by
  obtain ⟨i, hi, hcheck⟩ := exists_ok_of_check (r := parse (utf8 "m.wai") spotText)
    (fun i => (i.types.all isSpot && i.types.length == 1) && i.functions.any fun f => decide f.IsReadable)
    (by rw [spotText, utf8_eq_toByteArray]; decide +kernel)
  obtain ⟨j, hj, hcheck'⟩ := exists_ok_of_check (r := parse (utf8 "m.wai") (utf8 "resource spot\n"))
    (fun i => (i.types.all isSpot && i.types.length == 1) && i.functions.isEmpty) (by decide +kernel)
  simp only [Bool.and_eq_true, List.all_eq_true, List.any_eq_true, decide_eq_true_eq, beq_iff_eq,
    List.isEmpty_iff] at hcheck hcheck'
  have hspot : ∀ types : List Decl, (∀ d ∈ types, isSpot d = true) ∧ types.length = 1 →
      types = [⟨utf8 "spot", .resource⟩] := by
    rintro types ⟨hall, hlength⟩
    obtain ⟨d, rfl⟩ := List.length_eq_one_iff.1 hlength
    rw [eq_of_isSpot (hall d (by simp))]
  obtain ⟨htypes, f, hf, hreadable⟩ := hcheck
  obtain ⟨hname, hpath, -⟩ := parse_eq_ok.1 hi
  obtain ⟨hname', hpath', -⟩ := parse_eq_ok.1 hj
  have hdecls : j = { i with functions := [] } := by
    obtain ⟨name, path, types, functions⟩ := j
    simp only at hname' hpath' hcheck'
    rw [hspot _ htypes, hname, hpath, hname', hpath', hspot _ hcheck'.1, hcheck'.2]
  exact ⟨i, f, hi, hf, hdecls ▸ hj, (parse_signature_iff hi hf (hdecls ▸ hj)).2 hreadable⟩

end Interface

end Bindery
