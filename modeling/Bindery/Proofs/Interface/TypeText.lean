/-
Reading the text of a type. It is a word or a constructor with arguments (`IsApplied`); as the
text of an argument is one item of the list of arguments (`isTypeText_text`), reading the text
of a type gives the type back exactly when its words are those of no other type
(`typeWithin_text_iff`).
-/
import Bindery.Proofs.Bytes.Pieces
import Bindery.Proofs.Interface.Items
import Bindery.Proofs.Interface.Scope
import Bindery.Proofs.Interface.Spelling

namespace Bindery.Interface

/-! ## Types -/

/-- A text that is the text of a type. -/
structure IsTypeText (s : Bytes) : Prop extends IsItem s where
  octets : ∀ b ∈ s, isTypeByte b = true

theorem isTypeText_ident {s : Bytes} (h : isIdent s = true) : IsTypeText s := by
  obtain ⟨hne, hident⟩ := isIdentByte_of_isIdent h
  have hspec := fun b hb => isIdentByte_spec b (hident b hb)
  have hoctets : ∀ b ∈ s, isTypeByte b = true := fun b hb => by simp [isTypeByte, hident b hb]
  refine ⟨⟨hne, fun b hb => isMemberByte_of_isTypeByte (hoctets b hb), ⟨fun b hb => ?_, fun b hb => ?_⟩,
    passes_of_all fun b hb => ?_⟩, hoctets⟩
  · exact (hspec b (List.mem_of_mem_head? hb)).1
  · exact (hspec b (List.mem_of_getLast? hb)).1
  · obtain ⟨-, -, hcomma, -, hstep⟩ := hspec b hb
    exact ⟨hstep, fun h => absurd h hcomma⟩

/-- The text of a type constructor with its arguments. -/
def appliedText (ctor : Bytes) (args : List Bytes) : Bytes := ctor ++ 60 :: (Bytes.join (utf8 ", ") args ++ [62])

theorem isTypeText_applied {ctor : Bytes} {args : List Bytes} (hctor : isIdent ctor = true)
    (hargs : ∀ a ∈ args, IsTypeText a) : IsTypeText (appliedText ctor args) := by
  obtain ⟨hitem, hoctets⟩ := isTypeText_ident hctor
  have hall : ∀ b ∈ appliedText ctor args, isTypeByte b = true := by
    intro b hb
    simp only [appliedText, List.mem_append, List.mem_cons, List.not_mem_nil, or_false] at hb
    rcases hb with hb | rfl | hb | rfl
    · exact hoctets b hb
    · rfl
    · rcases mem_join_comma hb with rfl | rfl | ⟨a, ha, hb⟩
      · rfl
      · rfl
      · exact (hargs a ha).octets b hb
    · rfl
  refine ⟨⟨?_, fun b hb => isMemberByte_of_isTypeByte (hall b hb),
    ⟨fun b hb => hitem.tight.head b ?_, fun b hb => ?_⟩, ?_⟩, hall⟩
  · simp [appliedText]
  · obtain ⟨c, ctor, rfl⟩ := List.exists_cons_of_ne_nil hitem.ne_nil
    simpa [appliedText] using hb
  · have hlast : (appliedText ctor args).getLast? = some 62 := by
      rw [appliedText, ← List.cons_append, ← List.append_assoc, List.getLast?_concat]
    obtain rfl : b = 62 := by simpa [hlast] using hb.symm
    rfl
  · have hinner := passes_join fun a ha => (hargs a ha).passes.mono (by decide)
    exact hitem.passes.append (Passes.bracket rfl rfl (k := 0) hinner)

theorem texts_eq_map (ts : List TypeExpr) : TypeExpr.texts ts = ts.map TypeExpr.text := by
  induction ts with
  | nil => rfl
  | cons t ts ih => rw [TypeExpr.texts, ih, List.map_cons]

theorem text_list (t : TypeExpr) : (TypeExpr.list t).text = appliedText (utf8 "list") [t.text] := by
  rw [TypeExpr.text, appliedText, join_single, List.append_assoc]
  rfl

theorem text_option (t : TypeExpr) : (TypeExpr.option t).text = appliedText (utf8 "option") [t.text] := by
  rw [TypeExpr.text, appliedText, join_single, List.append_assoc]
  rfl

theorem text_result (ok err : TypeExpr) :
    (TypeExpr.result ok err).text = appliedText (utf8 "result") [ok.text, err.text] := by
  rw [TypeExpr.text, appliedText, join_comma, join_single]
  simp only [List.append_assoc]
  rfl

theorem text_tuple (ts : List TypeExpr) :
    (TypeExpr.tuple ts).text = appliedText (utf8 "tuple") (ts.map TypeExpr.text) := by
  rw [TypeExpr.text, appliedText, texts_eq_map, List.append_assoc]
  rfl

/-- The declared names as a reader knows them. -/
structure Names.Covers (names : Names) (declared : List Bytes) : Prop where
  ident : ∀ n ∈ declared, isIdent n = true
  unreserved : ∀ n ∈ declared, n ∉ TypeExpr.reserved
  known : ∀ n ∈ declared, (names.kind? n).isSome

/-- Every name in a type is an identifier that a reader knows. -/
def Names.Spells (names : Names) (t : TypeExpr) : Prop := ∀ n ∈ t.names, isIdent n = true ∧ (names.kind? n).isSome

theorem isPlain_of_mem_tuple {declared : List Bytes} {ts : List TypeExpr} (h : TypeExpr.arePlain declared ts = true) :
    ∀ t ∈ ts, t.isPlain declared = true := by
  induction ts with
  | nil => simp
  | cons t ts ih =>
    rw [TypeExpr.arePlain, Bool.and_eq_true] at h
    exact List.forall_mem_cons.2 ⟨h.1, ih h.2⟩

/-- A blank type, or a plain one. -/
def IsArgument (declared : List Bytes) (t : TypeExpr) : Prop := t.isBlank = true ∨ t.isPlain declared = true

/-- The constructor and the arguments of a type that is made by one. -/
def ctor? : TypeExpr → Option (Bytes × List TypeExpr)
  | .list t => some (utf8 "list", [t])
  | .option t => some (utf8 "option", [t])
  | .result ok err => some (utf8 "result", [ok, err])
  | .tuple ts => some (utf8 "tuple", ts)
  | _ => none

/-- What a type that is made by a constructor is made of. -/
structure IsApplied (t : TypeExpr) (ctor : Bytes) (args : List TypeExpr) : Prop where
  text : t.text = appliedText ctor (args.map TypeExpr.text)
  ident : isIdent ctor = true
  notHandle : ctor ≠ utf8 "own" ∧ ctor ≠ utf8 "borrow"
  apply : ∀ as, as.length = args.length → (applyCtor ctor as = .ok t ↔ as = args)
  names : ∀ a ∈ args, ∀ n ∈ a.names, n ∈ t.names
  readable : t.isReadable = true ↔ ∀ a ∈ args, a.isReadable = true

theorem areReadable_eq (ts : List TypeExpr) : TypeExpr.areReadable ts = true ↔ ∀ t ∈ ts, t.isReadable = true := by
  induction ts with
  | nil => simp [TypeExpr.areReadable]
  | cons t ts ih => simp [TypeExpr.areReadable, ih]

theorem isApplied_of_ctor? {t : TypeExpr} {ctor : Bytes} {args : List TypeExpr} (h : ctor? t = some (ctor, args)) :
    IsApplied t ctor args := by
  cases t with
  | list t =>
    cases h
    refine ⟨text_list t, by decide, by decide, fun as has => ?_, by simp [TypeExpr.names], by simp [TypeExpr.isReadable]⟩
    obtain ⟨a, rfl⟩ := List.length_eq_one_iff.1 has
    simp [applyCtor]
  | option t =>
    cases h
    refine ⟨text_option t, by decide, by decide, fun as has => ?_, by simp [TypeExpr.names], by simp [TypeExpr.isReadable]⟩
    obtain ⟨a, rfl⟩ := List.length_eq_one_iff.1 has
    rw [applyCtor, if_neg (by decide), if_pos rfl]
    simp
  | result ok err =>
    cases h
    refine ⟨text_result ok err, by decide, by decide, fun as has => ?_, ?_, by simp [TypeExpr.isReadable]⟩
    · obtain ⟨a, b, rfl⟩ := List.length_eq_two.1 has
      rw [applyCtor, if_neg (by decide), if_neg (by decide), if_pos (.inl rfl)]
      simp
    · simp +contextual [TypeExpr.names]
  | tuple ts =>
    cases h
    refine ⟨text_tuple _, by decide, by decide, fun as _ => ?_, fun a ha n hn => TypeExpr.mem_namesAll.2 ⟨a, ha, hn⟩, ?_⟩
    · unfold applyCtor
      rw [if_neg (by decide), if_neg (by decide), if_neg (by decide), if_pos rfl]
      simp
    · rw [TypeExpr.isReadable, areReadable_eq]
  | blank | prim | string | errorContext | named => cases h

theorem sizeOf_lt_of_ctor? {t a : TypeExpr} {ctor : Bytes} {args : List TypeExpr} (h : ctor? t = some (ctor, args))
    (ha : a ∈ args) : sizeOf a < sizeOf t := by
  cases t with
  | list t | option t =>
    cases h
    obtain rfl := List.mem_singleton.1 ha
    simp
  | result ok err =>
    cases h
    rcases List.mem_pair.1 ha with rfl | rfl
    · simp only [TypeExpr.result.sizeOf_spec]
      omega
    · simp only [TypeExpr.result.sizeOf_spec]
      omega
  | tuple ts =>
    cases h
    have := List.sizeOf_lt_of_mem ha
    simp only [TypeExpr.tuple.sizeOf_spec]
    omega
  | blank | prim | string | errorContext | named => cases h

/-- **The text of a type** is one item of a list. -/
theorem isTypeText_of_names (t : TypeExpr) (hident : ∀ n ∈ t.names, isIdent n = true) : IsTypeText t.text := by
  cases hctor : ctor? t with
  | some made =>
    have hmade := isApplied_of_ctor? hctor
    rw [hmade.text]
    refine isTypeText_applied hmade.ident fun s hs => ?_
    obtain ⟨a, ha, rfl⟩ := List.mem_map.1 hs
    have := sizeOf_lt_of_ctor? hctor ha
    exact isTypeText_of_names a fun n hn => hident n (hmade.names a ha n hn)
  | none =>
    have hword : ∀ w : Bytes, w ≠ [] → (∀ b ∈ w, isTypeByte b = true ∧ bracketStep b = 0 ∧ b ≠ 44) → Bytes.IsTight w →
        IsTypeText w := by
      intro w hne hoctets htight
      refine ⟨⟨hne, fun b hb => isMemberByte_of_isTypeByte (hoctets b hb).1, htight, passes_of_all fun b hb => ?_⟩,
        fun b hb => (hoctets b hb).1⟩
      exact ⟨(hoctets b hb).2.1, fun h => absurd h (hoctets b hb).2.2⟩
    cases t with
    | blank => exact hword _ (by decide) (by decide +kernel) ⟨by decide +kernel, by decide +kernel⟩
    | prim p =>
      refine isTypeText_ident ?_
      cases p <;> rfl
    | string => exact isTypeText_ident rfl
    | errorContext => exact hword _ (by decide) (by decide +kernel) ⟨by decide +kernel, by decide +kernel⟩
    | named n => exact isTypeText_ident (hident n (by simp [TypeExpr.names]))
    | list | option | result | tuple => cases hctor
termination_by sizeOf t

theorem isArgument_of_ctor? {declared : List Bytes} {t : TypeExpr} {ctor : Bytes} {args : List TypeExpr}
    (ht : IsArgument declared t) (h : ctor? t = some (ctor, args)) : ∀ a ∈ args, IsArgument declared a := by
  have hplain : t.isPlain declared = true := by
    rcases ht with ht | ht
    · cases t <;> simp_all [TypeExpr.isBlank, ctor?]
    · exact ht
  cases t with
  | list t | option t =>
    cases h
    simpa using .inr hplain
  | result ok err =>
    cases h
    simpa [TypeExpr.isPlain, IsArgument] using hplain
  | tuple ts =>
    cases h
    exact fun t ht => .inr (isPlain_of_mem_tuple hplain t ht)
  | blank | prim | string | errorContext | named => cases h

theorem mem_names_of_ctor? {t : TypeExpr} {ctor : Bytes} {args : List TypeExpr} (h : ctor? t = some (ctor, args))
    {n : Bytes} (hn : n ∈ t.names) : ∃ a ∈ args, n ∈ a.names := by
  cases t with
  | list t | option t =>
    cases h
    exact ⟨t, List.mem_singleton_self t, hn⟩
  | result ok err =>
    cases h
    rcases List.mem_append.1 hn with hn | hn
    · exact ⟨ok, by simp, hn⟩
    · exact ⟨err, by simp, hn⟩
  | tuple ts =>
    cases h
    exact TypeExpr.mem_namesAll.1 hn
  | blank | prim | string | errorContext | named => cases h

/-- A plain type is over the declared names, and read as itself when they are no words for types. -/
theorem names_of_isPlain {declared : List Bytes} (t : TypeExpr) (ht : IsArgument declared t) :
    (∀ n ∈ t.names, n ∈ declared) ∧ ((∀ n ∈ declared, n ∉ TypeExpr.reserved) → t.isReadable = true) := by
  cases hctor : ctor? t with
  | some made =>
    have ih : ∀ a ∈ made.2, (∀ n ∈ a.names, n ∈ declared) ∧
        ((∀ n ∈ declared, n ∉ TypeExpr.reserved) → a.isReadable = true) := by
      intro a ha
      have := sizeOf_lt_of_ctor? hctor ha
      exact names_of_isPlain a (isArgument_of_ctor? ht hctor a ha)
    refine ⟨fun n hn => ?_, fun h => (isApplied_of_ctor? hctor).readable.2 fun a ha => (ih a ha).2 h⟩
    obtain ⟨a, ha, hn⟩ := mem_names_of_ctor? hctor hn
    exact (ih a ha).1 n hn
  | none =>
    cases t with
    | blank | prim | string => exact ⟨by simp [TypeExpr.names], fun _ => rfl⟩
    | errorContext => simp [IsArgument, TypeExpr.isBlank, TypeExpr.isPlain] at ht
    | named n =>
      have hn : n ∈ declared := by simpa [IsArgument, TypeExpr.isBlank, TypeExpr.isPlain] using ht
      exact ⟨by simpa [TypeExpr.names] using hn, fun h => by simpa [TypeExpr.isReadable] using h n hn⟩
    | list | option | result | tuple => cases hctor
termination_by sizeOf t

theorem isTypeText_text {declared : List Bytes} (hident : ∀ n ∈ declared, isIdent n = true) (t : TypeExpr)
    (ht : IsArgument declared t) : IsTypeText t.text :=
  isTypeText_of_names t fun n hn => hident n ((names_of_isPlain t ht).1 n hn)

/-- A constructor and its arguments are told apart. -/
theorem applied?_text {ctor : Bytes} (hctor : isIdent ctor = true) (args : List Bytes) :
    applied? (appliedText ctor args) = some (ctor, Bytes.join (utf8 ", ") args) := by
  obtain ⟨hne, hident⟩ := isIdentByte_of_isIdent hctor
  have hnot : (60 : UInt8) ∉ ctor := fun h => (isIdentByte_spec 60 (hident 60 h)).2.1 rfl
  rw [applied?, appliedText, Bytes.cut_append_sep hnot]
  simp [hne]

theorem applied?_of_ident {s : Bytes} (h : isIdent s = true) : applied? s = none := by
  have hnot : (60 : UInt8) ∉ s := fun hmem => (isIdentByte_spec 60 ((isIdentByte_of_isIdent h).2 60 hmem)).2.1 rfl
  rw [applied?, Bytes.cut_of_not_mem hnot]

theorem isIdent_ne_blank {s : Bytes} (h : isIdent s = true) : s ≠ utf8 "_" := by
  rintro rfl
  exact absurd h (by decide)

theorem trim_of_isItem {s : Bytes} (h : IsItem s) : s.trim = s := Bytes.trim_of_tight h.ascii h.tight

theorem not_mem_of_isTypeText {s : Bytes} (h : IsTypeText s) {b : UInt8} (hb : b ∈ [37, 40, 41, 58]) : b ∉ s :=
  fun hmem => isTypeByte_spec b (h.octets b hmem) hb

theorem bareName_of_ident {s : Bytes} (h : isIdent s = true) : bareName s = s := by
  have hs := isTypeText_ident h
  rw [bareName, trim_of_isItem hs.toIsItem, Bytes.dropStart]
  refine if_neg fun hsign => ?_
  have hmem : (37 : UInt8) ∈ s := (List.isPrefixOf_iff_prefix.1 hsign).subset (by simp)
  exact not_mem_of_isTypeText hs (by decide) hmem

theorem builtin?_of_unreserved {s : Bytes} (h : s ∉ TypeExpr.reserved) : builtin? s = none := by
  have hne : ∀ w ∈ TypeExpr.reserved, s ≠ w := fun w hw heq => h (heq ▸ hw)
  rw [builtin?, if_neg (not_or.2 ⟨hne _ (by decide), hne _ (by decide)⟩), if_neg (hne _ (by decide)),
    if_neg (hne _ (by decide))]

theorem basic?_of_unreserved {s : Bytes} (h : s ∉ TypeExpr.reserved) : basic? s = none := by
  have hne : ∀ w ∈ TypeExpr.reserved, s ≠ w := fun w hw heq => h (heq ▸ hw)
  have hprim : Prim.all.find? (fun p => p.word == s) = none := by
    rw [List.find?_eq_none]
    intro p hp heq
    exact hne p.word (List.mem_append_left _ (List.mem_map_of_mem hp)) (beq_iff_eq.1 heq).symm
  rw [basic?, if_neg (hne _ (by decide)), if_neg (hne _ (by decide)), hprim]
  rfl

/-- A word that names a type is read as the type it names. -/
theorem typeWithin_word {names : Names} {depth : Nat} {s w : Bytes} {t : TypeExpr} (hs : s.trim = w)
    (hident : isIdent w = true) (hword : builtin? w = some t ∨ builtin? w = none ∧ (basic? w = some t ∨
      basic? w = none ∧ (names.kind? w).isSome ∧ t = .named w)) : typeWithin names (depth + 1) s = .ok t := by
  have hhandle : (utf8 "handle ").isPrefixOf w = false := by
    by_contra hstart
    have hspace : (32 : UInt8) ∈ w :=
      (List.isPrefixOf_iff_prefix.1 (eq_true_of_ne_false hstart)).subset (by decide)
    exact (isIdentByte_spec 32 ((isIdentByte_of_isIdent hident).2 32 hspace)).2.2.2.1 rfl
  rw [typeWithin]
  dsimp only
  rw [hs, if_neg (isIdent_ne_blank hident), applied?_of_ident hident]
  dsimp only
  rcases hword with hword | ⟨hnone, hword⟩
  · rw [hword]
  · rw [hnone]
    simp only [hhandle, Bool.false_eq_true, if_false]
    rcases hword with hword | ⟨hnone, hknown, rfl⟩
    · rw [hword]
    · rw [hnone]
      simp only [bareName_of_ident hident, hknown, if_true]

theorem typeWithin_applied {names : Names} {depth : Nat} {s ctor : Bytes} {texts : List Bytes}
    (hs : s.trim = appliedText ctor texts) (hctor : isIdent ctor = true)
    (hnot : ctor ≠ utf8 "own" ∧ ctor ≠ utf8 "borrow") (htexts : ∀ x ∈ texts, IsTypeText x) :
    typeWithin names (depth + 1) s = texts.mapM (typeWithin names depth) >>= applyCtor ctor := by
  have hblank : appliedText ctor texts ≠ utf8 "_" := by
    intro h
    have hmem : (60 : UInt8) ∈ appliedText ctor texts := by simp [appliedText]
    rw [h] at hmem
    exact absurd hmem (by decide)
  have hitems := items_of_join fun x hx => (htexts x hx).toIsItem
  rw [typeWithin]
  dsimp only
  rw [hs, if_neg hblank, applied?_text hctor]
  dsimp only
  rw [hitems, if_neg (not_or.2 hnot)]

theorem length_lt_applied (ctor : Bytes) {s : Bytes} {args : List Bytes} (h : s ∈ args) :
    s.length < (appliedText ctor args).length := by
  have hjoin : s.length ≤ (Bytes.join (utf8 ", ") args).length := by
    induction args with
    | nil => simp at h
    | cons a args ih =>
      cases args with
      | nil =>
        obtain rfl := List.mem_singleton.1 h
        rw [join_single]
      | cons a' args =>
        rw [join_comma, List.length_append, List.length_cons, List.length_cons]
        rcases List.mem_cons.1 h with rfl | h
        · omega
        · have := ih h
          omega
  rw [appliedText, List.length_append, List.length_cons, List.length_append]
  omega

/-- Texts that are read one by one. -/
theorem mapM_texts {α : Type} {read : Bytes → Except Problem α} {text : α → Bytes} {as : List α} :
    (as.map text).mapM read = .ok as ↔ ∀ x ∈ as, read (text x) = .ok x := by
  rw [mapM_eq_ok, List.forall₂_map_left_iff, List.forall₂_same]

/-- The words that are read as another type than a declared one. -/
theorem reserved_iff (n : Bytes) : n ∈ TypeExpr.reserved ↔ builtin? n ≠ none ∨ basic? n ≠ none := by
  constructor
  · intro h
    have hall : ∀ w ∈ TypeExpr.reserved, builtin? w ≠ none ∨ basic? w ≠ none := by decide
    exact hall n h
  · intro h
    by_contra hfree
    exact h.elim (· (builtin?_of_unreserved hfree)) (· (basic?_of_unreserved hfree))

/-- A declared name is read as itself unless it is the word for another type. -/
theorem typeWithin_named_iff {names : Names} {depth : Nat} {s n : Bytes} (hs : s.trim = n) (hn : isIdent n = true)
    (hknown : (names.kind? n).isSome) : typeWithin names (depth + 1) s = .ok (.named n) ↔ n ∉ TypeExpr.reserved := by
  have hother : ∀ {t : TypeExpr}, t.names = [] → typeWithin names (depth + 1) s = .ok t →
      typeWithin names (depth + 1) s ≠ .ok (.named n) := by
    intro t ht h h'
    rw [h] at h'
    cases h'
    simp [TypeExpr.names] at ht
  rw [reserved_iff, not_or, not_ne_iff, not_ne_iff]
  constructor
  · intro h
    cases hbuiltin : builtin? n with
    | some t => exact absurd h (hother (builtin?_names hbuiltin) (typeWithin_word hs hn (.inl hbuiltin)))
    | none =>
      cases hbasic : basic? n with
      | some t => exact absurd h (hother (basic?_names hbasic) (typeWithin_word hs hn (.inr ⟨hbuiltin, .inl hbasic⟩)))
      | none => exact ⟨rfl, rfl⟩
  · rintro ⟨hbuiltin, hbasic⟩
    exact typeWithin_word hs hn (.inr ⟨hbuiltin, .inr ⟨hbasic, hknown, rfl⟩⟩)

/-- The text of the type of error contexts is not read as that type. -/
theorem typeWithin_errorContext {names : Names} {depth : Nat} {s : Bytes}
    (hs : s.trim = TypeExpr.errorContext.text) : typeWithin names (depth + 1) s ≠ .ok .errorContext := by
  have happlied : applied? TypeExpr.errorContext.text = none := by decide
  have hbuiltin : builtin? TypeExpr.errorContext.text = none := by decide
  have hbasic : basic? TypeExpr.errorContext.text = none := by decide
  have hhandle : (utf8 "handle ").isPrefixOf TypeExpr.errorContext.text = false := by decide
  rw [typeWithin]
  dsimp only
  rw [hs, if_neg (by decide), happlied]
  dsimp only
  rw [hbuiltin]
  simp only [hhandle, hbasic, Bool.false_eq_true, if_false]
  split <;> simp

/-- A type made by a constructor is read when its arguments are. -/
theorem typeWithin_made_iff {names : Names} {depth : Nat} {t : TypeExpr} {s ctor : Bytes} {args : List TypeExpr}
    (hctor : ctor? t = some (ctor, args)) (hnames : names.Spells t) (hs : s.trim = t.text)
    (hread : ∀ a ∈ args, (typeWithin names depth a.text = .ok a ↔ a.isReadable = true)) :
    typeWithin names (depth + 1) s = .ok t ↔ t.isReadable = true := by
  have hmade := isApplied_of_ctor? hctor
  have htexts : ∀ x ∈ args.map TypeExpr.text, IsTypeText x :=
    List.forall_mem_map.2 fun a ha => isTypeText_of_names a fun n hn => (hnames n (hmade.names a ha n hn)).1
  rw [typeWithin_applied (hs.trans hmade.text) hmade.ident hmade.notHandle htexts, bind_eq_ok, hmade.readable]
  constructor
  · rintro ⟨as, has, happly⟩
    have hlength := (mapM_eq_ok.1 has).length_eq
    rw [List.length_map] at hlength
    obtain rfl := (hmade.apply as hlength.symm).1 happly
    exact fun a ha => (hread a ha).1 (mapM_texts.1 has a ha)
  · intro h
    exact ⟨args, mapM_texts.2 fun a ha => (hread a ha).2 (h a ha), (hmade.apply args rfl).2 rfl⟩

/-- A type that is one word is read unless it is the one the reader does not know. -/
theorem typeWithin_word_iff {names : Names} {depth : Nat} {t : TypeExpr} {s : Bytes} (hctor : ctor? t = none)
    (hnames : names.Spells t) (hs : s.trim = t.text) :
    typeWithin names (depth + 1) s = .ok t ↔ t.isReadable = true := by
  cases t with
  | blank =>
    refine iff_of_true ?_ rfl
    rw [typeWithin]
    dsimp only
    rw [hs]
    rfl
  | prim p =>
    refine iff_of_true (typeWithin_word hs ?_ (.inr ⟨?_, .inl ?_⟩)) rfl
    · cases p <;> rfl
    · cases p <;> rfl
    · cases p <;> rfl
  | string => exact iff_of_true (typeWithin_word hs rfl (.inr ⟨rfl, .inl rfl⟩)) rfl
  | errorContext => exact iff_of_false (typeWithin_errorContext hs) (by simp [TypeExpr.isReadable])
  | named n =>
    obtain ⟨hn, hknown⟩ := hnames n (by simp [TypeExpr.names])
    have hs : s.trim = n := hs
    rw [typeWithin_named_iff hs hn hknown]
    simp [TypeExpr.isReadable]
  | list | option | result | tuple => cases hctor

/-- **Reading the text of a type**, with gaps around it, gives the type exactly when it is readable. -/
theorem typeWithin_text_iff {names : Names} : ∀ (depth : Nat) (t : TypeExpr) (s : Bytes),
    names.Spells t → s.trim = t.text → t.text.length < depth → (typeWithin names depth s = .ok t ↔ t.isReadable = true) := by
  intro depth
  induction depth with
  | zero => exact fun t s _ _ h => absurd h (Nat.not_lt_zero _)
  | succ depth ih =>
    intro t s hnames hs hlength
    cases hctor : ctor? t with
    | some made =>
      obtain ⟨ctor, args⟩ := made
      have hmade := isApplied_of_ctor? hctor
      refine typeWithin_made_iff hctor hnames hs fun a ha => ?_
      have hargs : names.Spells a := fun n hn => hnames n (hmade.names a ha n hn)
      have hshort := length_lt_applied ctor (List.mem_map_of_mem (f := TypeExpr.text) ha)
      rw [hmade.text] at hlength
      exact ih a a.text hargs (trim_of_isItem (isTypeText_of_names a fun n hn => (hargs n hn).1).toIsItem) (by omega)
    | none => exact typeWithin_word_iff hctor hnames hs

theorem Names.Covers.spells {names : Names} {declared : List Bytes} (hnames : names.Covers declared) {t : TypeExpr}
    (ht : IsArgument declared t) : names.Spells t ∧ t.isReadable = true := by
  obtain ⟨hdeclared, hreadable⟩ := names_of_isPlain t ht
  exact ⟨fun n hn => ⟨hnames.ident n (hdeclared n hn), hnames.known n (hdeclared n hn)⟩, hreadable hnames.unreserved⟩

end Bindery.Interface
