/-
What the recognisers of declarations, aliases and functions make of a canonical line: each
accepts the lines of its own sort as a whole (`recognises_decl`, `recognises_alias`,
`recognises_func`) and no other. A function may be named by a keyword, but a colon follows
its name where a keyword is followed by a gap.
-/
import Bindery.Proofs.Interface.Lines
import Bindery.Proofs.Interface.Members

namespace Bindery.Interface

/-! ## Words -/

theorem dropWhile_of_starts {f first : UInt8 → Bool} (hf : ∀ b, first b = true → f b = false) {s : Bytes}
    (hs : Starts first s) : s.dropWhile f = s :=
  Bytes.dropWhile_of_head fun b hb => hf b (hs b hb)

theorem isGap_of_isLetter (b : UInt8) (h : Byte.isLetter b = true) : isGap b = false :=
  Byte.forall_octets (P := fun b => Byte.isLetter b = true → isGap b = false) (by decide +kernel) b h

theorem isGap_of_isIdentByte (b : UInt8) (h : isIdentByte b = true) : isGap b = false :=
  Byte.forall_octets (P := fun b => isIdentByte b = true → isGap b = false) (by decide +kernel) b h

theorem starts_ident {n : Bytes} (hn : isIdent n = true) (x : Bytes) : Starts Byte.isLetter (n ++ x) := by
  cases n with
  | nil => cases hn
  | cons b n =>
    have hb : Byte.isLetter b = true := by
      rw [isIdent, Bool.and_eq_true] at hn
      exact hn.1
    simpa [Starts] using hb

theorem dropGap_ident {n : Bytes} (hn : isIdent n = true) (x : Bytes) : (n ++ x).dropWhile isGap = n ++ x :=
  dropWhile_of_starts isGap_of_isLetter (starts_ident hn x)

theorem gap?_ident {n : Bytes} (hn : isIdent n = true) (x : Bytes) : gap? (32 :: (n ++ x)) = some (n ++ x) := by
  rw [gap?, if_pos (show isGap 32 = true from rfl), dropGap_ident hn]

/-- An identifier is taken up to the first octet that is not part of it. -/
theorem ident?_ident {n : Bytes} (hn : isIdent n = true) {x : Bytes} (hx : ∀ b ∈ x.head?, isIdentByte b = false) :
    ident? (n ++ x) = some (n, x) := by
  cases n with
  | nil => cases hn
  | cons b n =>
    obtain ⟨hb, htail⟩ : Byte.isLetter b = true ∧ ∀ c ∈ n, isIdentByte c = true := by simpa [isIdent] using hn
    have hsign : (b == 37) = false :=
      Byte.forall_octets (P := fun b => Byte.isLetter b = true → (b == 37) = false) (by decide +kernel) b hb
    have hstop : x.takeWhile isIdentByte = [] ∧ x.dropWhile isIdentByte = x := by
      cases x with
      | nil => simp
      | cons c x => simp [hx c (by simp)]
    rw [ident?, List.cons_append, List.takeWhile_cons, hsign]
    simp [hb, List.takeWhile_append_of_pos htail, List.dropWhile_append_of_pos htail, hstop]

/-- A keyword in front of a colon is part of a longer name, and no gap follows it. -/
theorem gap?_of_word? {w n x t : Bytes} (hw : 58 ∉ w) (hn : ∀ b ∈ n, isIdentByte b = true)
    (h : word? w (n ++ 58 :: x) = some t) : gap? t = none := by
  rw [word?] at h
  split at h
  · rename_i hstart
    obtain ⟨u, hu⟩ := List.isPrefixOf_iff_prefix.1 hstart
    obtain rfl : t = u := by
      rw [← hu, List.drop_left] at h
      exact (Option.some.inj h).symm
    have hhead : ∀ b ∈ t.head?, isGap b = false := by
      rcases List.append_eq_append_iff.1 hu with ⟨m, rfl, rfl⟩ | ⟨m, rfl, hm⟩
      · cases m with
        | nil => simp [isGap]
        | cons b m => simpa using isGap_of_isIdentByte b (hn b (by simp))
      · cases m with
        | nil =>
          rw [List.nil_append] at hm
          simp [← hm, isGap]
        | cons b m =>
          obtain rfl : 58 = b := (List.cons.inj hm).1
          exact absurd (by simp) hw
    cases t with
    | nil => rfl
    | cons b t => simp [gap?, hhead b (by simp)]
  · cases h

/-! ## Declarations -/

theorem findSome?_keyword {k : DeclKind} (hk : k ≠ .alias) (x : Bytes) :
    (declKinds.findSome? fun k' => (word? k'.word (k.word ++ x)).map fun t => (k', t)) = some (k, x) := by
  cases k with
  | «alias» => exact absurd rfl hk
  | _ => rfl

theorem body?_braces {s : Bytes} (hs : 125 ∉ s) (rest : Bytes) :
    body? (32 :: 123 :: (s ++ 125 :: rest)) = (some s, rest) := by
  have hdrop : (32 :: 123 :: (s ++ 125 :: rest)).dropWhile isSpace = 123 :: (s ++ 125 :: rest) := rfl
  have hcut : upTo? 125 (s ++ 125 :: rest) = some (s, rest) := Bytes.cut_append_sep hs rest
  rw [body?, hdrop]
  simp only [hcut]

theorem isSpace_of_isLetter (b : UInt8) (h : Byte.isLetter b = true) : isSpace b = false ∧ b ≠ 123 :=
  Byte.forall_octets (P := fun b => Byte.isLetter b = true → isSpace b = false ∧ b ≠ 123) (by decide +kernel) b h

theorem body?_none {rest : Bytes} (hrest : Starts Byte.isLetter rest) : body? (10 :: rest) = (none, rest) := by
  have hdrop : (10 :: rest).dropWhile isSpace = rest := by
    rw [List.dropWhile_cons, if_pos (show isSpace 10 = true from rfl)]
    exact dropWhile_of_starts (fun b hb => (isSpace_of_isLetter b hb).1) hrest
  rw [body?, hdrop]
  cases rest with
  | nil => rfl
  | cons b rest =>
    have hb := (isSpace_of_isLetter b (hrest b (by simp))).2
    split
    · rename_i heq
      exact absurd (List.cons.inj heq).1 hb
    · rfl

/-- What follows a name starts with an octet that is no part of it. -/
theorem head_mark {c : UInt8} (hc : isIdentByte c = false) (x : Bytes) :
    ∀ b ∈ (c :: x).head?, isIdentByte b = false := by
  simpa using hc

theorem isIdent_word (k : DeclKind) : isIdent k.word = true := by cases k <;> rfl

/-- A keyword, a gap and a name. -/
theorem declText?_keyword {k : DeclKind} (hk : k ≠ .alias) {n : Bytes} (hn : isIdent n = true) {x : Bytes}
    (hx : ∀ b ∈ x.head?, isIdentByte b = false) : declText? (k.word ++ 32 :: (n ++ x)) =
      some ({ kind := k, name := n, body := (body? x).1 }, (body? x).2) := by
  rw [declText?, dropGap_ident (isIdent_word k)]
  simp only [findSome?_keyword hk, gap?_ident hn, ident?_ident hn hx, Option.bind_eq_bind, Option.bind_some]
  rfl

/-- What is found of a declaration with a keyword. -/
def declTextOf (d : Decl) : DeclText :=
  { kind := d.body.kind
    name := d.name
    body := match d.body with
      | .resource => none
      | b => some (siteText b) }

/-- The length of what is found: the line feed after a resource is taken for a gap before a body. -/
def declLength (d : Decl) : Nat :=
  match d.body with
  | .resource => d.text.length + 1
  | _ => d.text.length

section lines

variable {declared : List Bytes}

/-- The text of a declaration up to its name. -/
theorem text_append (d : Decl) (x : Bytes) :
    d.text ++ x = d.body.kind.word ++ 32 :: (d.name ++ (d.body.text ++ x)) := by
  rw [Decl.text]
  simp only [List.append_assoc]
  rfl

/-- The members of a declaration between braces. -/
theorem body?_members {ms : List Bytes} (hms : ∀ m ∈ ms, IsItem m) (rest : Bytes) :
    body? (utf8 " \x7b " ++ Bytes.join (utf8 ", ") ms ++ utf8 " \x7d" ++ 10 :: rest) =
      (some ([32] ++ Bytes.join (utf8 ", ") ms ++ [32]), 10 :: rest) := by
  have htext : utf8 " \x7b " ++ Bytes.join (utf8 ", ") ms ++ utf8 " \x7d" ++ 10 :: rest =
      32 :: 123 :: ([32] ++ Bytes.join (utf8 ", ") ms ++ [32] ++ 125 :: 10 :: rest) := by
    simp only [List.append_assoc]
    rfl
  have hclose : (125 : UInt8) ∉ [32] ++ Bytes.join (utf8 ", ") ms ++ [32] := by
    simp [not_mem_members hms (b := 125) (by decide)]
  rw [htext, body?_braces hclose]

/-- **A declaration with a keyword** is recognised up to its closing brace. -/
theorem recognises_decl (hident : ∀ n ∈ declared, isIdent n = true) {d : Decl} (hd : d.isPlain declared = true)
    (hkind : d.body.kind ≠ .alias) : Recognises declText? Byte.isLetter d.text (some (declTextOf d, declLength d)) := by
  obtain ⟨hn, -, hb, -⟩ := isPlain_decl hd
  obtain ⟨n, b⟩ := d
  have hmembers := isItem_member hident hb
  have hpos : 0 < (Decl.text ⟨n, b⟩).length := by
    rw [Decl.text]
    simp only [List.length_append]
    have : 0 < (utf8 " ").length := by decide
    omega
  cases b with
  | «alias» t => exact absurd rfl hkind
  | resource =>
    refine ⟨Nat.succ_pos _, Nat.le_refl _, fun rest hrest => ?_⟩
    have hdrop : (Decl.text ⟨n, .resource⟩ ++ 10 :: rest).drop ((Decl.text ⟨n, .resource⟩).length + 1) = rest := by
      rw [← List.drop_drop, List.drop_left]
      rfl
    rw [show declLength ⟨n, .resource⟩ = (Decl.text ⟨n, .resource⟩).length + 1 from rfl, hdrop, text_append]
    refine (declText?_keyword hkind hn (head_mark (c := 10) rfl rest)).trans ?_
    exact congrArg (fun r => some (DeclText.mk _ n r.1, r.2)) (body?_none hrest)
  | record fs | enum ns | flags ns | variant cs | union ts =>
    refine ⟨hpos, Nat.le_succ _, fun rest _ => ?_⟩
    rw [declLength]
    dsimp only
    rw [List.drop_left, text_append]
    refine (declText?_keyword hkind hn ?_).trans ?_
    · exact head_mark (c := 32) rfl _
    · exact congrArg (fun r => some (DeclText.mk _ n r.1, r.2)) (body?_members hmembers rest)

/-- A line that starts with a name and a colon is no declaration. -/
theorem declText?_name {n : Bytes} (hn : isIdent n = true) (x : Bytes) : declText? (n ++ 58 :: x) = none := by
  rw [declText?, dropGap_ident hn]
  cases hfind : declKinds.findSome? fun k => (word? k.word (n ++ 58 :: x)).map fun t => (k, t) with
  | none => rfl
  | some found =>
    obtain ⟨k, -, hk⟩ := List.exists_of_findSome?_eq_some hfind
    obtain ⟨t, ht, rfl⟩ := Option.map_eq_some_iff.1 hk
    have hcolon : (58 : UInt8) ∉ k.word := by cases k <;> decide
    simp [gap?_of_word? hcolon (isIdentByte_of_isIdent hn).2 ht]

theorem declText?_alias {n : Bytes} (x : Bytes) : declText? (DeclKind.alias.word ++ 32 :: (n ++ x)) = none := by
  rw [declText?, dropGap_ident (isIdent_word .alias)]
  rfl

/-! ## Aliases -/

theorem aliasText?_name {n : Bytes} (hn : isIdent n = true) (x : Bytes) : aliasText? (n ++ 58 :: x) = none := by
  rw [aliasText?, dropGap_ident hn]
  cases hword : word? (utf8 "type") (n ++ 58 :: x) with
  | none => rfl
  | some t => simp [gap?_of_word? (by decide) (isIdentByte_of_isIdent hn).2 hword]

theorem aliasText?_keyword {k : DeclKind} (hk : k ≠ .alias) (x : Bytes) : aliasText? (k.word ++ 32 :: x) = none := by
  rw [aliasText?, dropGap_ident (isIdent_word k)]
  cases k with
  | «alias» => exact absurd rfl hk
  | _ => rfl

/-- The rest of a line that is an item behind a gap. -/
theorem lineRest?_item {t : Bytes} (ht : IsItem t) (rest : Bytes) :
    lineRest? (32 :: (t ++ 10 :: rest)) = some (t, 10 :: rest) := by
  have hgap : (32 :: (t ++ 10 :: rest)).dropWhile isGap = t ++ 10 :: rest := by
    rw [List.dropWhile_cons, if_pos (show isGap 32 = true from rfl)]
    refine Bytes.dropWhile_of_head fun b hb => ?_
    obtain ⟨c, t, rfl⟩ := List.exists_cons_of_ne_nil ht.ne_nil
    have hblank := ht.tight.head b (by simpa using hb)
    exact Byte.forall_octets (P := fun b => Blank.isBlankByte b = false → isGap b = false) (by decide +kernel) b hblank
  have hline : ∀ b ∈ t, (b != 10 && b != 59) = true := by
    intro b hb
    have hmark := (isMemberByte_spec b (ht.plain b hb)).2
    simp only [List.mem_cons, not_or] at hmark
    simp [hmark]
  rw [lineRest?, hgap, List.takeWhile_append_of_pos hline, List.dropWhile_append_of_pos hline]
  simp [ht.ne_nil]

/-- **An alias** is recognised up to the end of its line. -/
theorem recognises_alias (hident : ∀ n ∈ declared, isIdent n = true) {n : Bytes} {t : TypeExpr} (hn : isIdent n = true)
    (ht : t.isPlain declared = true) (first : UInt8 → Bool) : Recognises aliasText? first (Decl.text ⟨n, .alias t⟩)
      (some ((n, t.text), (Decl.text ⟨n, .alias t⟩).length)) := by
  have htext := isTypeText_text hident t (.inr ht)
  refine ⟨?_, Nat.le_succ _, fun rest _ => ?_⟩
  · rw [Decl.text]
    simp only [List.length_append]
    have : 0 < (utf8 " ").length := by decide
    omega
  · have hbody : (DeclBody.alias t).text ++ 10 :: rest = 32 :: 61 :: 32 :: (t.text ++ 10 :: rest) := by
      rw [DeclBody.text, List.append_assoc]
      rfl
    have hequals : word? (utf8 "=") ((32 :: 61 :: 32 :: (t.text ++ 10 :: rest)).dropWhile isGap) =
        some (32 :: (t.text ++ 10 :: rest)) := rfl
    rw [List.drop_left, text_append, hbody, aliasText?, dropGap_ident (isIdent_word _)]
    have htype : word? (utf8 "type") (DeclKind.alias.word ++ 32 :: (n ++ 32 :: 61 :: 32 :: (t.text ++ 10 :: rest))) =
        some (32 :: (n ++ 32 :: 61 :: 32 :: (t.text ++ 10 :: rest))) := rfl
    simp only [DeclBody.kind, htype, gap?_ident hn, ident?_ident hn (head_mark (c := 32) rfl _), hequals,
      lineRest?_item htext.toIsItem, Option.bind_eq_bind, Option.bind_some]
    rfl

/-! ## Functions -/

/-- The text of a function up to its name. -/
theorem func_text_append (f : Func) (x : Bytes) : f.text ++ x =
    f.name ++ 58 :: (utf8 " func(" ++
      (Bytes.join (utf8 ", ") (f.params.map Param.text) ++ 41 :: (resultsText f.results ++ x))) := by
  rw [Func.text]
  simp only [List.append_assoc]
  rfl

/-- Results as they are written behind the brackets of a function. -/
def arrowTo : Option Bytes → Bytes
  | none => []
  | some t => utf8 " -> " ++ t

theorem resultsText_eq (rs : List Param) : resultsText rs = arrowTo (arrowText rs) := by
  have hbracket : utf8 " -> (" ++ Bytes.join (utf8 ", ") (rs.map Param.resultText) ++ utf8 ")" =
      arrowTo (some (40 :: Bytes.join (utf8 ", ") (rs.map Param.resultText) ++ [41])) := by
    simp only [arrowTo, List.append_assoc]
    rfl
  match rs with
  | [] => rfl
  | [⟨[], t⟩] => rfl
  | [⟨b :: n, t⟩] => exact hbracket
  | ⟨[], t⟩ :: r :: rs => exact hbracket
  | ⟨b :: n, t⟩ :: r :: rs => exact hbracket

theorem isItem_arrowText (hident : ∀ n ∈ declared, isIdent n = true) {rs : List Param}
    (hrs : ∀ r ∈ rs, IsResult declared r) : ∀ t ∈ arrowText rs, IsItem t := by
  have hbracket := isItem_bracket (isItem_results hident hrs)
  match rs with
  | [] => simp [arrowText]
  | [⟨[], t⟩] => simpa [arrowText] using (isTypeText_text hident t (.inr (hrs ⟨[], t⟩ (by simp)).2)).toIsItem
  | [⟨b :: n, t⟩] => simpa [arrowText] using hbracket
  | ⟨[], t⟩ :: r :: rs => simpa [arrowText] using hbracket
  | ⟨b :: n, t⟩ :: r :: rs => simpa [arrowText] using hbracket

/-- What is found behind the brackets of a function. -/
theorem arrow?_arrowTo {results : Option Bytes} (hresults : ∀ t ∈ results, IsItem t) (rest : Bytes) :
    arrow? (arrowTo results ++ 10 :: rest) = results.map fun t => (t, 10 :: rest) := by
  cases results with
  | none => rfl
  | some t =>
    rw [arrowTo, List.append_assoc]
    exact lineRest?_item (hresults t rfl) rest

/-- **The line of a function** is recognised up to its end. -/
theorem funcText?_line {n params : Bytes} {results : Option Bytes} (hn : isIdent n = true) (hparams : 41 ∉ params)
    (hresults : ∀ t ∈ results, IsItem t) (rest : Bytes) :
    funcText? (n ++ 58 :: (utf8 " func(" ++ (params ++ 41 :: (arrowTo results ++ 10 :: rest)))) =
      some ({ name := n, params, results }, 10 :: rest) := by
  rw [funcText?, dropGap_ident hn]
  generalize hy : params ++ 41 :: (arrowTo results ++ 10 :: rest) = y
  have hexport : (do funcBody? (← gap? (← word? (utf8 "export") (n ++ 58 :: (utf8 " func(" ++ y))))) = none := by
    cases hword : word? (utf8 "export") (n ++ 58 :: (utf8 " func(" ++ y)) with
    | none => rfl
    | some t => simp [gap?_of_word? (by decide) (isIdentByte_of_isIdent hn).2 hword]
  have hcolon : word? (utf8 ":") ((58 :: (utf8 " func(" ++ y)).dropWhile isGap) = some (utf8 " func(" ++ y) := rfl
  have hfunc : word? (utf8 "func") ((utf8 " func(" ++ y).dropWhile isGap) = some (40 :: y) := rfl
  have hopen : word? (utf8 "(") ((40 :: y).dropWhile isGap) = some y := rfl
  have hclose : upTo? 41 y = some (params, arrowTo results ++ 10 :: rest) := by
    rw [← hy]
    exact Bytes.cut_append_sep hparams _
  rw [hexport]
  change funcBody? (n ++ 58 :: (utf8 " func(" ++ y)) = _
  rw [funcBody?, ident?_ident hn (head_mark (c := 58) rfl _)]
  simp only [hcolon, hfunc, hopen, hclose, arrow?_arrowTo hresults, Option.bind_eq_bind, Option.bind_some]
  cases results <;> rfl

/-- Parameters hold no closing bracket. -/
theorem not_mem_params {ps : List Param} (hps : ∀ p ∈ ps, isIdent p.name = true ∧ IsTypeText p.type.text) :
    41 ∉ Bytes.join (utf8 ", ") (ps.map Param.text) := by
  intro hmem
  rcases mem_join_comma hmem with h | h | ⟨x, hx, hmem⟩
  · exact absurd h (by decide)
  · exact absurd h (by decide)
  · obtain ⟨p, hp, rfl⟩ := List.mem_map.1 hx
    obtain ⟨hn, ht⟩ := hps p hp
    rw [Param.text, List.mem_append, List.mem_append] at hmem
    rcases hmem with (hmem | hmem) | hmem
    · exact not_mem_of_isTypeText (isTypeText_ident hn) (by decide) hmem
    · exact absurd hmem (by decide)
    · exact not_mem_of_isTypeText ht (by decide) hmem

/-- **A function** is recognised up to the end of its line. -/
theorem recognises_func (hident : ∀ n ∈ declared, isIdent n = true) {f : Func} (hf : f.isPlain declared = true)
    (first : UInt8 → Bool) : Recognises funcText? first f.text (some (funcTextOf f, f.text.length)) := by
  obtain ⟨hn, hps, hrs⟩ := isPlain_func hf
  have hparams := not_mem_params fun p hp => ⟨(hps p hp).1, isTypeText_text hident p.type (.inr (hps p hp).2)⟩
  refine ⟨?_, Nat.le_succ _, fun rest _ => ?_⟩
  · rw [← List.append_nil (Func.text _), func_text_append]
    simp only [List.length_append, List.length_cons]
    omega
  · rw [List.drop_left, func_text_append, resultsText_eq]
    exact funcText?_line hn hparams (isItem_arrowText hident hrs) rest

end lines

end Bindery.Interface
