/-
Where the problems of an interface file are. Reading ends at the first problem, which lies in a
declaration, an alias or a function that was found (`Offence`) and is located where that begins. Comments
and declarations are overwritten before, which moves no line feed, so the reported line is the
line of the source on which the offender begins (`offence_of_parse`).
-/
import Bindery.Proofs.Interface.Closed
import Bindery.Proofs.Interface.Comments

namespace Bindery.Interface

/-! ## Where things begin -/

/-- Where what was found at a place begins: behind the gap at the start of its line. -/
def beginning (text : Bytes) (start : Nat) : Nat := start + ((text.drop start).takeWhile isGap).length

/-- An octet that a keyword or the name of a function begins with. -/
def isInitial (b : UInt8) : Bool := Byte.isLetter b || b == 37

/-- What was found was recognised at its place. -/
theorem recognised_of_mem_scan {α : Type} {recognise : Bytes → Option (α × Bytes)} {s : Bytes} {found : Found α}
    (h : found ∈ scan recognise s) : ∃ rest, recognise (s.drop found.start) = some (found.value, rest) := by
  -- by induction on the text, from wherever the scan stands and whatever it skips
  have hfrom : ∀ (s : Bytes) (skip : Nat) (fresh : Bool) (pos : Nat), found ∈ scanFrom recognise skip fresh pos s →
      ∃ k rest, found.start = pos + k ∧ recognise (s.drop k) = some (found.value, rest) := by
    intro s
    induction s with
    | nil => simp [scanFrom]
    | cons b s ih =>
      have hlater : ∀ {skip fresh pos}, found ∈ scanFrom recognise skip fresh (pos + 1) s →
          ∃ k rest, found.start = pos + k ∧ recognise ((b :: s).drop k) = some (found.value, rest) := by
        intro skip fresh pos h
        obtain ⟨k, rest, hk, hrest⟩ := ih _ _ _ h
        exact ⟨k + 1, rest, by omega, hrest⟩
      intro skip fresh pos h
      cases skip with
      | succ skip => exact hlater h
      | zero =>
        cases fresh with
        | false => exact hlater h
        | true =>
          rw [scanFrom] at h
          split at h
          · rename_i value rest hvalue
            rcases List.mem_cons.1 h with rfl | h
            · exact ⟨0, rest, rfl, hvalue⟩
            · exact hlater h
          · exact hlater h
  obtain ⟨k, rest, hk, hrest⟩ := hfrom s 0 true 0 h
  rw [Nat.zero_add] at hk
  exact ⟨rest, hk ▸ hrest⟩

theorem head_of_word? {w s t : Bytes} {b : UInt8} (hw : w.head? = some b) (h : word? w s = some t) :
    s.head? = some b := by
  rw [word?] at h
  split at h
  · rename_i hpre
    obtain ⟨u, rfl⟩ := List.isPrefixOf_iff_prefix.1 hpre
    rw [List.head?_append, hw]
    rfl
  · cases h

theorem head_of_ident? {s n rest : Bytes} (h : ident? s = some (n, rest)) :
    ∃ b, s.head? = some b ∧ isInitial b = true := by
  cases s with
  | nil => cases h
  | cons c s =>
    refine ⟨c, rfl, ?_⟩
    by_cases hsign : c = 37
    · rw [hsign]
      rfl
    · have hnone : (c :: s).takeWhile (· == 37) = [] := by simp [hsign]
      rw [ident?, hnone] at h
      simp only [List.take_nil, List.length_nil, List.drop_zero] at h
      split at h
      · rename_i hletter
        rw [isInitial, hletter]
        rfl
      · cases h

theorem initial_of_declText? {s rest : Bytes} {d : DeclText} (h : declText? s = some (d, rest)) :
    ∃ b, (s.dropWhile isGap).head? = some b ∧ isInitial b = true := by
  simp only [declText?, Option.bind_eq_bind, Option.bind_eq_some_iff, Prod.exists] at h
  obtain ⟨k, t, hword, -⟩ := h
  obtain ⟨k', -, hk'⟩ := List.exists_of_findSome?_eq_some hword
  obtain ⟨_, hk', -⟩ := Option.map_eq_some_iff.1 hk'
  cases k' <;> exact ⟨_, head_of_word? rfl hk', rfl⟩

theorem initial_of_aliasText? {s rest : Bytes} {a : Bytes × Bytes} (h : aliasText? s = some (a, rest)) :
    ∃ b, (s.dropWhile isGap).head? = some b ∧ isInitial b = true := by
  simp only [aliasText?, Option.bind_eq_bind, Option.bind_eq_some_iff] at h
  obtain ⟨t, hword, -⟩ := h
  exact ⟨116, head_of_word? rfl hword, rfl⟩

theorem initial_of_funcText? {s rest : Bytes} {f : FuncText} (h : funcText? s = some (f, rest)) :
    ∃ b, (s.dropWhile isGap).head? = some b ∧ isInitial b = true := by
  simp only [funcText?, Option.orElse_eq_orElse, Option.orElse_eq_or, Option.or_eq_some_iff, Option.bind_eq_bind,
    Option.bind_eq_some_iff] at h
  rcases h with ⟨_, hword, -⟩ | ⟨-, h⟩
  · exact ⟨101, head_of_word? rfl hword, rfl⟩
  · simp only [funcBody?, Option.bind_eq_bind, Option.bind_eq_some_iff, Prod.exists] at h
    obtain ⟨n, t, hident, -⟩ := h
    exact head_of_ident? hident

/-- The octet at a beginning. -/
theorem get?_beginning {text : Bytes} {start : Nat} :
    text[beginning text start]? = ((text.drop start).dropWhile isGap).head? := by
  have hdrop : (text.drop start).dropWhile isGap =
      (text.drop start).drop ((text.drop start).takeWhile isGap).length := by
    conv_rhs => arg 2; rw [← List.takeWhile_append_dropWhile (p := isGap) (l := text.drop start)]
    rw [List.drop_left]
  rw [hdrop, List.drop_drop, List.head?_drop]
  rfl

/-- A gap ends no line. -/
theorem lineOf_beginning (text : Bytes) (start : Nat) : lineOf text (beginning text start) = lineOf text start := by
  have hgap : (10 : UInt8) ∉ (text.drop start).takeWhile isGap := fun h =>
    absurd (List.mem_takeWhile_imp h) (by decide)
  have htake : (text.drop start).take ((text.drop start).takeWhile isGap).length = (text.drop start).takeWhile isGap :=
    (List.prefix_iff_eq_take.1 (List.takeWhile_prefix isGap)).symm
  rw [lineOf, beginning, List.take_add, htake, List.count_append, List.count_eq_zero.2 hgap]
  rfl

/-- What was found begins with the initial of a keyword or name. -/
theorem initial_of_mem_scan {α : Type} {recognise : Bytes → Option (α × Bytes)} {text : Bytes} {found : Found α}
    (h : found ∈ scan recognise text) (hrec : ∀ {s rest : Bytes} {a : α}, recognise s = some (a, rest) →
      ∃ b, (s.dropWhile isGap).head? = some b ∧ isInitial b = true) :
    ∃ b, text[beginning text found.start]? = some b ∧ isInitial b = true := by
  obtain ⟨rest, hrest⟩ := recognised_of_mem_scan h
  rw [get?_beginning]
  exact hrec hrest

/-! ## Offenders -/

/-- Something whose key comes earlier in a list. -/
def Repeats {α κ : Type} (key : α → κ) (as : List α) (a : α) : Prop :=
  ∃ before after, as = before ++ a :: after ∧ key a ∈ before.map key

theorem Repeats.mem {α κ : Type} {key : α → κ} {as : List α} {a : α} (h : Repeats key as a) : a ∈ as := by
  obtain ⟨before, after, rfl, -⟩ := h
  simp

/-- The declared name of a declaration, an alias or a function. -/
def Found.declName (d : Found DeclText) : Bytes := bareName d.value.name

def Found.aliasName (a : Found (Bytes × Bytes)) : Bytes := bareName a.value.1

def Found.funcName (f : Found FuncText) : Bytes := bareName f.value.name

/-- A problem of a text without comments, and where the declaration, alias or function begins that it
lies in. Types are read when all names are known, and functions are looked for where declarations are
overwritten. -/
inductive Offence (text : Bytes) : Nat → Problem → Prop
  | noBody {d : Found DeclText} : d ∈ scan declText? text → d.value.body = none → d.value.kind ≠ .resource →
    Offence text (beginning text d.start) (.noBody d.value.kind d.declName)
  | declaredTwice {d : Found DeclText} : Repeats Found.declName (scan declText? text) d →
    Offence text (beginning text d.start) (.duplicateType d.declName)
  | aliasDeclared {a : Found (Bytes × Bytes)} : a ∈ scan aliasText? text →
    a.aliasName ∈ (scan declText? text).map Found.declName →
    Offence text (beginning text a.start) (.duplicateType a.aliasName)
  | aliasTwice {a : Found (Bytes × Bytes)} : Repeats Found.aliasName (scan aliasText? text) a →
    Offence text (beginning text a.start) (.duplicateType a.aliasName)
  | body {ss : List Site} {d : Found DeclText} {s : Site} {p : Problem} :
    sites (scan declText? text) (scan aliasText? text) = .ok ss → d ∈ scan declText? text → declSite d = .ok s →
    declBody (namesOf ss) s.name s.text s.kind = .error p → Offence text (beginning text d.start) p
  | target {ss : List Site} {a : Found (Bytes × Bytes)} {p : Problem} :
    sites (scan declText? text) (scan aliasText? text) = .ok ss → a ∈ scan aliasText? text →
    declBody (namesOf ss) a.aliasName a.value.2 .alias = .error p → Offence text (beginning text a.start) p
  | signature {ss : List Site} {f : Found FuncText} {p : Problem} :
    sites (scan declText? text) (scan aliasText? text) = .ok ss → f ∈ scan funcText? (remaining text) →
    func (namesOf ss) f.value = .error p → Offence text (beginning (remaining text) f.start) p
  | functionTwice {f : Found FuncText} : Repeats Found.funcName (scan funcText? (remaining text)) f →
    Offence text (beginning (remaining text) f.start) (.duplicateFunction f.funcName)

section errors

theorem at?_eq_error {α : Type} {start : Nat} {r : Except Problem α} {e : Located} (h : at? start r = .error e) :
    ∃ p, r = .error p ∧ e = (start, p) := by
  cases r with
  | ok a => cases h
  | error p =>
    cases h
    exact ⟨p, rfl, rfl⟩

theorem declSite_eq_error {d : Found DeclText} {e : Located} (h : declSite d = .error e) :
    d.value.body = none ∧ d.value.kind ≠ .resource ∧ e = (d.start, .noBody d.value.kind d.declName) := by
  unfold declSite at h
  dsimp only at h
  split at h
  · cases h
  · rename_i hbody
    split at h
    · cases h
    · rename_i hkind
      cases h
      exact ⟨hbody, hkind, rfl⟩

theorem declSite_start {d : Found DeclText} {s : Site} (h : declSite d = .ok s) : s.start = d.start := by
  unfold declSite at h
  dsimp only at h
  split at h
  · cases h
    rfl
  · split at h
    · cases h
      rfl
    · cases h

theorem addSite_eq_error {ss : List Site} {s : Site} {e : Located} (h : addSite ss s = .error e) :
    s.name ∈ ss.map Site.name ∧ e = (s.start, .duplicateType s.name) := by
  rw [addSite] at h
  split at h
  · rename_i hany
    cases h
    refine ⟨?_, rfl⟩
    simpa [List.any_eq_true] using hany
  · cases h

/-- The names of the sites are those of the declarations and aliases. -/
theorem map_name_sites {decls : List (Found DeclText)} {aliases : List (Found (Bytes × Bytes))} {ss : List Site}
    (h : sites decls aliases = .ok ss) : ss.map Site.name = decls.map Found.declName ++ aliases.map Found.aliasName := by
  obtain ⟨⟨ds, hds, rfl⟩, -⟩ := sites_eq_ok.1 h
  have hdecls : decls.map Found.declName = ds.map Site.name :=
    map_eq_map_of_forall₂ hds fun d s hs => (declSite_ok hs).1.symm
  rw [List.map_append, hdecls, List.map_map]
  rfl

theorem offence_of_sites {text : Bytes} {e : Located}
    (h : sites (scan declText? text) (scan aliasText? text) = .error e) :
    Offence text (beginning text e.1) e.2 := by
  rw [sites, bind_eq_error] at h
  rcases h with h | ⟨ss, hss, h⟩
  · obtain ⟨before, d, after, ss, heq, hbefore, h⟩ := exists_of_foldlM_eq_error h
    have hnames : ss.map Site.name = before.map Found.declName := by
      have hsites : sites before [] = .ok ss := bind_eq_ok.2 ⟨ss, hbefore, rfl⟩
      simpa using map_name_sites hsites
    rcases bind_eq_error.1 h with h | ⟨s, hs, h⟩
    · obtain ⟨hbody, hkind, rfl⟩ := declSite_eq_error h
      exact .noBody (by simp [heq]) hbody hkind
    · obtain ⟨hmem, rfl⟩ := addSite_eq_error h
      rw [hnames, (declSite_ok hs).1] at hmem
      dsimp only
      rw [declSite_start hs, (declSite_ok hs).1]
      exact .declaredTwice ⟨before, after, heq, hmem⟩
  · obtain ⟨before, a, after, ss', heq, hbefore, h⟩ := exists_of_foldlM_eq_error h
    have hnames : ss'.map Site.name = (scan declText? text).map Found.declName ++ before.map Found.aliasName :=
      map_name_sites (bind_eq_ok.2 ⟨ss, hss, hbefore⟩)
    obtain ⟨hmem, rfl⟩ := addSite_eq_error h
    rw [hnames, List.mem_append] at hmem
    rcases hmem with hmem | hmem
    · exact .aliasDeclared (by simp [heq]) hmem
    · exact .aliasTwice ⟨before, after, heq, hmem⟩

theorem offence_of_types {text : Bytes} {ss : List Site} {e : Located}
    (hss : sites (scan declText? text) (scan aliasText? text) = .ok ss) (h : (ss.mapM fun s => do
      return (⟨s.name, ← at? s.start (declBody (namesOf ss) s.name s.text s.kind)⟩ : Decl)) = .error e) :
    Offence text (beginning text e.1) e.2 := by
  obtain ⟨s, hs, h⟩ := exists_of_mapM_eq_error h
  rcases bind_eq_error.1 h with h | ⟨b, -, h⟩
  · obtain ⟨p, hp, rfl⟩ := at?_eq_error h
    obtain ⟨⟨ds, hds, rfl⟩, -⟩ := sites_eq_ok.1 hss
    rcases List.mem_append.1 hs with hs | hs
    · obtain ⟨d, hd, hsite⟩ := exists_of_mem_forall₂ hds hs
      dsimp only
      rw [declSite_start hsite]
      exact .body hss hd hsite hp
    · obtain ⟨a, ha, rfl⟩ := List.mem_map.1 hs
      exact .target hss ha hp
  · cases h

theorem offence_of_functions {text : Bytes} {ss : List Site} {e : Located}
    (hss : sites (scan declText? text) (scan aliasText? text) = .ok ss)
    (h : (scan funcText? (remaining text)).foldlM (addFunc (namesOf ss)) [] = .error e) :
    Offence text (beginning (remaining text) e.1) e.2 := by
  obtain ⟨before, f, after, fs, heq, hbefore, h⟩ := exists_of_foldlM_eq_error h
  rcases bind_eq_error.1 h with h | ⟨fn, hfn, h⟩
  · obtain ⟨p, hp, rfl⟩ := at?_eq_error h
    exact .signature hss (by simp [heq]) hp
  · have hnames : before.map Found.funcName = fs.map Func.name :=
      map_eq_map_of_forall₂ (functions_eq_ok.1 hbefore).1 fun f fn hfn => (func_signed hfn).1.symm
    have hname : fn.name = f.funcName := (func_signed (ok_of_at? hfn)).1
    split at h
    · rename_i hany
      cases h
      have hmem : f.funcName ∈ before.map Found.funcName := by
        rw [hnames, ← hname]
        simpa [List.any_eq_true] using hany
      dsimp only
      rw [hname]
      exact .functionTwice ⟨before, after, heq, hmem⟩
    · cases h

end errors

/-! ## Lines -/

theorem overwrites_blankOut (start length : Nat) (s : Bytes) : Overwrites s (blankOut start length s) := by
  have hsplit : s = s.take start ++ ((s.drop start).take length ++ s.drop (start + length)) := by
    rw [← List.drop_drop, List.take_append_drop, List.take_append_drop]
  rw [blankOut, List.append_assoc]
  conv => arg 1; rw [hsplit]
  exact List.rel_append (Overwrites.refl _) (List.rel_append (overwrites_blanked _) (Overwrites.refl _))

/-- Declarations are overwritten where functions are looked for. -/
theorem overwrites_remaining (text : Bytes) : Overwrites text (remaining text) := by
  have hfold : ∀ {α : Type} (founds : List (Found α)) (s : Bytes),
      Overwrites s (founds.foldl (fun t f => blankOut f.start f.length t) s) := by
    intro α founds
    induction founds with
    | nil => exact Overwrites.refl
    | cons f founds ih => exact fun s => (overwrites_blankOut f.start f.length s).trans (ih _)
  exact (hfold (scan declText? text) text).trans (hfold (scan aliasText? text) _)

/-- An offender begins with an initial. -/
theorem Offence.initial {text : Bytes} {first : Nat} {p : Problem} (h : Offence text first p) :
    ∃ b, text[first]? = some b ∧ isInitial b = true := by
  -- overwriting puts spaces in, and no function begins with one
  have hremaining : ∀ {f : Found FuncText}, f ∈ scan funcText? (remaining text) →
      ∃ b, text[beginning (remaining text) f.start]? = some b ∧ isInitial b = true := by
    intro f hf
    obtain ⟨b, hb, hinitial⟩ := initial_of_mem_scan hf initial_of_funcText?
    refine ⟨b, (overwrites_remaining text).of_get? hb ?_, hinitial⟩
    rintro rfl
    cases hinitial
  cases h with
  | noBody hd | body _ hd => exact initial_of_mem_scan hd initial_of_declText?
  | declaredTwice hd => exact initial_of_mem_scan hd.mem initial_of_declText?
  | aliasDeclared ha | target _ ha => exact initial_of_mem_scan ha initial_of_aliasText?
  | aliasTwice ha => exact initial_of_mem_scan ha.mem initial_of_aliasText?
  | signature _ hf => exact hremaining hf
  | functionTwice hf => exact hremaining hf.mem

/-- **A text that is not read** has a problem where something begins that lies on the line of the problem. -/
theorem offence_of_contents {text : Bytes} {e : Located} (h : contents text = .error e) :
    ∃ first, Offence text first e.2 ∧ lineOf text first = lineOf text e.1 := by
  rw [contents, bind_eq_error] at h
  rcases h with h | ⟨ss, hss, h⟩
  · exact ⟨_, offence_of_sites h, lineOf_beginning text e.1⟩
  rcases bind_eq_error.1 h with h | ⟨types, -, h⟩
  · exact ⟨_, offence_of_types hss h, lineOf_beginning text e.1⟩
  rcases bind_eq_error.1 h with h | ⟨fs, -, h⟩
  · refine ⟨_, offence_of_functions hss h, ?_⟩
    rw [← (overwrites_remaining text).lineOf_eq, lineOf_beginning, (overwrites_remaining text).lineOf_eq]
  · cases h

/-- **The reported line** is the line of the source on which the offender begins. -/
theorem offence_of_parse {path source : Bytes} {r : Report} (h : parse path source = .error r) :
    ∃ first p, Offence (stripComments source) first p ∧ (∃ b, source[first]? = some b ∧ isInitial b = true) ∧
      r = problemReport path (lineOf source first) p := by
  rw [parse] at h
  split at h
  · cases h
  · rename_i start p hcontents
    obtain ⟨first, hoffence, hline⟩ := offence_of_contents hcontents
    obtain ⟨b, hb, hinitial⟩ := hoffence.initial
    have hover := overwrites_stripComments source
    refine ⟨first, p, hoffence, ⟨b, hover.of_get? hb ?_, hinitial⟩, ?_⟩
    · rintro rfl
      cases hinitial
    · dsimp only at hline
      rw [← hover.lineOf_eq, hline]
      exact (Except.error.inj h).symm

/-- **Stripping comments keeps every position.** Every octet of a source stays or, when it ends no
line, becomes a space. Read from left to right as octets that stand for themselves and comments, of
which there is always a way, the source keeps the first, and of each comment spaces and line feeds are
left. No comment is left, so stripping again changes nothing and a file is read as without its comments;
and a problem is reported at the line of the source on which the declaration, alias or function begins
that it lies in. -/
theorem comments_keep_positions (path source : Bytes) :
    (stripComments source).length = source.length ∧
    (∀ (i : Nat) (b : UInt8), source[i]? = some b →
      (stripComments source)[i]? = some b ∨ b ≠ 10 ∧ (stripComments source)[i]? = some 32) ∧
    (∃ ps, Scanned source ps) ∧
    (∀ ps, Scanned source ps → source = ps.flatMap Stretch.source ∧ stripComments source = ps.flatMap Stretch.left) ∧
    ¬utf8 "//" <:+: stripComments source ∧ ¬utf8 "/*" <:+: stripComments source ∧
    stripComments (stripComments source) = stripComments source ∧
    parse path (stripComments source) = parse path source ∧
    ∀ r, parse path source = .error r → ∃ first p, Offence (stripComments source) first p ∧
      (∃ b, source[first]? = some b ∧ isInitial b = true) ∧ r = problemReport path (lineOf source first) p := by
  have hover := overwrites_stripComments source
  have hfree := commentFree_stripComments source
  refine ⟨(List.Forall₂.length_eq hover).symm, fun i b => hover.get?, exists_scanned source,
    fun ps hps => ⟨hps.source_eq.symm, hps.strip_eq⟩, hfree.1, hfree.2, hfree.strip_eq, ?_, fun r => offence_of_parse⟩
  rw [parse, hfree.strip_eq, ← parse]

/-- Four comments, and a field of a type that is declared nowhere. -/
def remarkText : Bytes := utf8 "/* a\n*/ record r \x7b // \x7d\n  x: t \x7d\nf: func(/*/ y: u8 */)\n /* z"

def remarkReport : Report := problemReport (utf8 "m.wai") 2 (.unknownType (utf8 "t"))

theorem comments_keep_positions_remark :
    parse (utf8 "m.wai") remarkText = .error remarkReport ∧
    (∃ ps, Scanned remarkText ps ∧ stripComments remarkText = ps.flatMap Stretch.left) ∧
    ∃ first p, Offence (stripComments remarkText) first p ∧
      (∃ b, remarkText[first]? = some b ∧ isInitial b = true) ∧
      remarkReport = problemReport (utf8 "m.wai") (lineOf remarkText first) p := by
  have hreport : parse (utf8 "m.wai") remarkText = .error remarkReport := by
    have hread : (match parse (utf8 "m.wai") remarkText with
      | .error r => r == remarkReport
      | .ok _ => false) = true := by
      rw [remarkText, remarkReport, utf8_eq_toByteArray]
      decide +kernel
    split at hread
    · rename_i r hr
      rw [hr, eq_of_beq hread]
    · cases hread
  obtain ⟨-, -, ⟨ps, hps⟩, hscan, -, -, -, -, hproblem⟩ := comments_keep_positions (utf8 "m.wai") remarkText
  exact ⟨hreport, ⟨ps, hps, (hscan ps hps).2⟩, hproblem _ hreport⟩

end Bindery.Interface
