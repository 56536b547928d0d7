/-
Texts whose blanks behind line feeds or commas change. They are still made of the same items, and
these are read as the same types, members and parameters (`typeWithin_spaced`, `declBody_spaced`,
`func_spaced`): readers trim what they take apart at commas, and no word of a type holds a stop.
Only the names of cases may.
-/
import Bindery.Proofs.Bytes.Units
import Bindery.Proofs.Interface.Closed
import Bindery.Proofs.Spaced

namespace Bindery

/-- The names of the cases of a declaration: any text, cut from its list at commas and line feeds. -/
def DeclBody.caseNames : DeclBody → List Bytes
  | .enum names | .flags names => names
  | .variant cs => cs.map (·.1)
  | _ => []

namespace Interface

/-! ## Texts -/

section text

open Utf8

variable {c : UInt8} {fresh : Prop} {s s' : Bytes}

/-- A text with blanks put in behind an octet. -/
abbrev SpacedAt (c : UInt8) : Prop → Bytes → Bytes → Prop := Spaced (fun b => isGap b = true) (· = c)

/-- The units of such a text. -/
abbrev SpacedUnits (c : UInt8) : Prop → List TextUnit → List TextUnit → Prop :=
  Spaced (fun u => ∃ b, isGap b = true ∧ u = TextUnit.ofAscii b) (· = TextUnit.ofAscii c)

theorem isGap_spec (b : UInt8) (h : isGap b = true) :
    b < 0x80 ∧ Blank.isBlankByte b = true ∧ bracketStep b = 0 ∧ b ∉ [10, 37, 40, 41, 44, 58, 60, 62, 95] :=
  Byte.forall_octets (P := fun b => isGap b = true → b < 0x80 ∧ Blank.isBlankByte b = true ∧ bracketStep b = 0 ∧
    b ∉ [10, 37, 40, 41, 44, 58, 60, 62, 95]) (by decide +kernel) b h

theorem SpacedAt.units (hc : c < 0x80) (h : SpacedAt c fresh s s') : SpacedUnits c fresh (units s) (units s') := by
  have hgaps : ∀ {fresh : Prop} {s g t : Bytes}, (∀ b ∈ g, isGap b = true) → (¬fresh → g = []) →
      SpacedUnits c False (Utf8.units s) (Utf8.units t) → SpacedUnits c fresh (Utf8.units s) (Utf8.units (g ++ t)) := by
    intro fresh s g t hg hfresh ht
    rw [units_append_of_ascii fun b hb => (isGap_spec b (hg b hb)).1]
    by_cases hf : fresh
    · exact (ht.mono False.elim).gaps_left (List.forall_mem_map.2 fun b hb => ⟨b, hg b hb, rfl⟩) hf
    · rw [hfresh hf]
      exact ht.mono False.elim
  have hfalse : ∀ (n : Nat) {s s' : Bytes}, s.length < n → SpacedAt c False s s' →
      SpacedUnits c False (Utf8.units s) (Utf8.units s') := by
    intro n
    induction n with
    | zero => exact fun h _ => absurd h (Nat.not_lt_zero _)
    | succ n ih =>
      intro s s' hlength h
      by_cases hmem : c ∈ s
      · obtain ⟨p, q, rfl, hp⟩ := List.eq_append_cons_of_mem hmem
        obtain ⟨t, rfl, ht⟩ := Spaced.of_prefix (fun b hb hbc => hp (by rwa [← hbc])) not_false h
        cases ht with
        | cons hq =>
          obtain ⟨g, r, rfl, hg, hfresh, hr⟩ := hq.exists_gaps
          rw [List.length_append, List.length_cons] at hlength
          rw [units_append_ascii hc, units_append_ascii hc]
          exact .append_left _ (.cons (hgaps hg (fun h => absurd rfl h) (ih (by omega) hr)))
        | gap hfresh => exact hfresh.elim
      · rw [h.eq_of_left fun b hb hbc => hmem (by rwa [← hbc])]
        exact .refl _
  obtain ⟨g, t, rfl, hg, hfresh, ht⟩ := h.exists_gaps
  exact hgaps hg hfresh (hfalse _ (Nat.lt_succ_self _) ht)

theorem SpacedUnits.bytesOf (hc : c < 0x80) {us us' : List TextUnit} (h : SpacedUnits c fresh us us') :
    SpacedAt c fresh (bytesOf us) (bytesOf us') := by
  induction h with
  | nil => exact .nil
  | @cons _ u us us' _ ih =>
    rw [bytesOf_cons, bytesOf_cons]
    by_cases hu : u = TextUnit.ofAscii c
    · rw [hu, bytes_ofAscii hc]
      exact .cons (ih.mono fun _ => rfl)
    · exact .append_left _ (ih.mono hu)
  | @gap _ u us us' hfresh hg _ ih =>
    obtain ⟨b, hb, rfl⟩ := hg
    rw [bytesOf_cons, bytes_ofAscii (isGap_spec b hb).1]
    exact .gap hfresh hb ih

theorem SpacedAt.scrub (hc : c < 0x80) (h : SpacedAt c fresh s s') : SpacedAt c fresh (scrub s) (scrub s') := by
  refine SpacedUnits.bytesOf hc ((h.units hc).map _ ?_ ?_)
  · rintro _ ⟨b, hb, rfl⟩
    exact ⟨b, hb, rfl⟩
  · rintro _ rfl
    rfl

theorem SpacedAt.trim (hc : c < 0x80) (h : SpacedAt c fresh s s') : SpacedAt c False s.trim s'.trim := by
  have hblank : ∀ u, (∃ b, isGap b = true ∧ u = TextUnit.ofAscii b) → Blank.isBlankUnit u = true := by
    rintro _ ⟨b, hb, rfl⟩
    obtain ⟨hascii, hblank, -⟩ := isGap_spec b hb
    rw [isBlankUnit_ofAscii hascii, hblank]
  exact SpacedUnits.bytesOf hc (((h.units hc).dropWhile hblank).rdropWhile hblank)

/-! ### Items -/

/-- The octets that were read already are the start of the first piece. -/
theorem pieces_current : ∀ (s : Bytes) (depth : Int) (current : Bytes),
    pieces depth current s = (pieces depth [] s).modifyHead (current.reverse ++ ·)
  | [], depth, current => by simp [pieces]
  | b :: s, depth, current => by
    rw [pieces, pieces]
    split
    · simp
    · rw [pieces_current s _ (b :: current), pieces_current s _ [b], List.modifyHead_modifyHead]
      congr 1
      funext p
      simp

theorem pieces_cons {b : UInt8} (depth : Int) (s : Bytes) : pieces depth [] (b :: s) =
    if b = 44 ∧ depth = 0 then [] :: pieces depth [] s
    else (pieces (depth + bracketStep b) [] s).modifyHead (b :: ·) := by
  rw [pieces, pieces_current s _ [b]]
  rfl

theorem pieces_spaced (h : SpacedAt c fresh s s') : ∀ depth : Int, ∃ p ps p' ps', pieces depth [] s = p :: ps ∧
    pieces depth [] s' = p' :: ps' ∧ SpacedAt c fresh p p' ∧ List.Forall₂ (SpacedAt c True) ps ps' := by
  induction h with
  | nil => exact fun depth => ⟨[], [], [], [], rfl, rfl, .nil, .nil⟩
  | @cons _ b s s' _ ih =>
    intro depth
    rw [pieces_cons, pieces_cons]
    split
    · obtain ⟨p, ps, p', ps', hs, hs', hp, hps⟩ := ih depth
      exact ⟨[], _, [], _, rfl, rfl, .nil, hs ▸ hs' ▸ .cons (hp.mono fun _ => trivial) hps⟩
    · obtain ⟨p, ps, p', ps', hs, hs', hp, hps⟩ := ih (depth + bracketStep b)
      rw [hs, hs']
      exact ⟨_, _, _, _, rfl, rfl, .cons hp, hps⟩
  | @gap _ g s s' hfresh hg _ ih =>
    intro depth
    obtain ⟨-, -, hstep, hmarks⟩ := isGap_spec g hg
    obtain ⟨p, ps, p', ps', hs, hs', hp, hps⟩ := ih depth
    have hcomma : g ≠ 44 := by
      rintro rfl
      simp at hmarks
    rw [pieces_cons, if_neg fun h => hcomma h.1, hstep, Int.add_zero, hs, hs']
    exact ⟨_, _, _, _, rfl, rfl, .gap hfresh hg hp, hps⟩

/-- **The items of a list** stay the same but for the blanks inside them. -/
theorem items_spaced (hc : c < 0x80) (h : SpacedAt c fresh s s') :
    List.Forall₂ (SpacedAt c False) (items s) (items s') := by
  obtain ⟨p, ps, p', ps', hs, hs', hp, hps⟩ := pieces_spaced (h.scrub hc) 0
  have hall : List.Forall₂ (SpacedAt c True) (pieces 0 [] (Interface.scrub s)) (pieces 0 [] (Interface.scrub s')) :=
    hs ▸ hs' ▸ .cons (hp.mono fun _ => trivial) hps
  have htrim : List.Forall₂ (SpacedAt c False) ((pieces 0 [] (Interface.scrub s)).map Bytes.trim)
      ((pieces 0 [] (Interface.scrub s')).map Bytes.trim) := by
    rw [List.forall₂_map_left_iff, List.forall₂_map_right_iff]
    exact hall.imp fun _ _ h => h.trim hc
  refine List.rel_filter (fun t t' ht => ?_) htrim
  simpa using not_congr ht.eq_nil_iff

end text

/-! ## Readers -/

section read

variable {c : UInt8} {fresh : Prop} {s s' : Bytes} {names : Names}

theorem cut_spaced (sep : UInt8) (hgap : isGap sep = false) (hsep : sep ≠ c) (h : SpacedAt c fresh s s') :
    Option.Rel (fun p p' => SpacedAt c fresh p.1 p'.1 ∧ SpacedAt c False p.2 p'.2) (s.cut sep) (s'.cut sep) := by
  induction h with
  | nil => exact .none
  | @cons _ b s s' hs ih =>
    rw [Bytes.cut, Bytes.cut]
    split
    · rename_i hb
      obtain rfl : b = sep := by simpa using hb
      exact .some ⟨.nil, hs.mono hsep⟩
    · generalize Bytes.cut sep s = o, Bytes.cut sep s' = o' at ih ⊢
      cases ih with
      | none => exact .none
      | some h => exact .some ⟨.cons h.1, h.2⟩
  | @gap _ g s s' hfresh hg _ ih =>
    have hne : (g == sep) = false := by
      rw [beq_eq_false_iff_ne]
      rintro rfl
      rw [hgap] at hg
      cases hg
    rw [Bytes.cut.eq_2, hne]
    generalize Bytes.cut sep s = o, Bytes.cut sep s' = o' at ih ⊢
    cases ih with
    | none => exact .none
    | some h => exact .some ⟨.gap hfresh hg h.1, h.2⟩

theorem getLast?_spaced {b : UInt8} (hgap : isGap b = false) (hb : b ≠ c) (h : SpacedAt c fresh s s') :
    s.getLast? = some b ↔ s'.getLast? = some b := by
  constructor <;> intro hlast
  · obtain ⟨t, rfl⟩ := List.getLast?_eq_some_iff.1 hlast
    obtain ⟨t', rfl, -⟩ := h.of_concat (by exact hb)
    exact List.getLast?_concat
  · obtain ⟨t, rfl⟩ := List.getLast?_eq_some_iff.1 hlast
    obtain ⟨r, rfl⟩ := h.of_concat_right (by simp [hgap])
    exact List.getLast?_concat

theorem dropLast_spaced {b : UInt8} (hb : b ≠ c) (hlast : s.getLast? = some b) (h : SpacedAt c fresh s s') :
    SpacedAt c fresh s.dropLast s'.dropLast := by
  obtain ⟨t, rfl⟩ := List.getLast?_eq_some_iff.1 hlast
  obtain ⟨t', rfl, ht⟩ := h.of_concat (by exact hb)
  rwa [List.dropLast_concat, List.dropLast_concat]

theorem isPrefixOf_spaced {w : Bytes} (hw : c ∉ w) (h : SpacedAt c False s s') : w.isPrefixOf s = w.isPrefixOf s' := by
  have hstop : ∀ b ∈ w, ¬b = c := fun b hb hbc => hw (by rwa [← hbc])
  rw [Bool.eq_iff_iff, List.isPrefixOf_iff_prefix, List.isPrefixOf_iff_prefix]
  constructor
  · rintro ⟨r, rfl⟩
    obtain ⟨t, rfl, -⟩ := Spaced.of_prefix hstop not_false h
    exact ⟨t, rfl⟩
  · rintro ⟨t, rfl⟩
    obtain ⟨r, rfl, -⟩ := Spaced.of_prefix_right hstop not_false h
    exact ⟨r, rfl⟩

theorem drop_spaced {w : Bytes} (hw : c ∉ w) (hstarts : w.isPrefixOf s = true) (h : SpacedAt c False s s') :
    SpacedAt c False (s.drop w.length) (s'.drop w.length) := by
  obtain ⟨r, rfl⟩ := List.isPrefixOf_iff_prefix.1 hstarts
  obtain ⟨t, rfl, ht⟩ := Spaced.of_prefix (fun b hb hbc => hw (by rwa [← hbc])) not_false h
  rwa [List.drop_left, List.drop_left]

/-- A text without the stop is the same. -/
theorem eq_of_not_mem (hmem : c ∉ s) (h : SpacedAt c False s s') : s' = s :=
  h.eq_of_left fun _ hb hbc => hmem (hbc ▸ hb)

theorem eq_word_iff {w : Bytes} (hw : c ∉ w) (h : SpacedAt c False s s') : s = w ↔ s' = w := by
  constructor
  · rintro rfl
    exact eq_of_not_mem hw h
  · rintro rfl
    exact h.eq_of_right fun _ hb hbc => hw (hbc ▸ hb)

/-- The octets behind which gaps may change. -/
def IsStop (c : UInt8) : Prop := c = 10 ∨ c = 44

theorem IsStop.ascii (hc : IsStop c) : c < 0x80 := by
  obtain rfl | rfl := hc <;> decide

theorem IsStop.not_ident (hc : IsStop c) : isIdentByte c = false := by
  obtain rfl | rfl := hc <;> decide

theorem IsStop.not_mem_ident (hc : IsStop c) {n : Bytes} (hn : isIdent n = true) : c ∉ n := by
  intro hmem
  have h := (isIdentByte_of_isIdent hn).2 c hmem
  rw [hc.not_ident] at h
  cases h

theorem IsStop.not_mem_reserved (hc : IsStop c) : ∀ w ∈ TypeExpr.reserved, c ∉ w := by
  obtain rfl | rfl := hc <;> decide +kernel

theorem bareName_spaced (hc : IsStop c) (h : SpacedAt c fresh s s') : SpacedAt c False (bareName s) (bareName s') := by
  have htrim := h.trim hc.ascii
  have hsign : c ∉ [(37 : UInt8)] := by
    obtain rfl | rfl := hc <;> decide
  rw [bareName, bareName, Bytes.dropStart, Bytes.dropStart, ← isPrefixOf_spaced hsign htrim]
  split
  · rename_i hstarts
    exact drop_spaced hsign hstarts htrim
  · exact htrim

/-- Only identifiers are declared. -/
def Names.AreIdents (names : Names) : Prop := ∀ n, (names.kind? n).isSome → isIdent n = true

theorem handle_spaced (hc : IsStop c) (hnames : names.AreIdents) (h : SpacedAt c fresh s s') {t : TypeExpr}
    (ht : handle names s = .ok t) : handle names s' = .ok t := by
  unfold handle at ht ⊢
  dsimp only at ht ⊢
  split at ht
  · rename_i hkind
    have hname := eq_of_not_mem (hc.not_mem_ident (hnames (bareName s) (by simp [hkind]))) (bareName_spaced hc h)
    rwa [hname, if_pos hkind]
  · cases ht

theorem applied?_spaced (hc : IsStop c) (h : SpacedAt c False s s') :
    Option.Rel (fun p p' => SpacedAt c False p.1 p'.1 ∧ SpacedAt c False p.2 p'.2) (applied? s) (applied? s') := by
  have hopen : (60 : UInt8) ≠ c := by
    obtain rfl | rfl := hc <;> decide
  have hclose : (62 : UInt8) ≠ c := by
    obtain rfl | rfl := hc <;> decide
  have hcut := cut_spaced 60 (by decide) hopen h
  rw [applied?, applied?]
  cases hs : s.cut 60 <;> cases hs' : s'.cut 60 <;> rw [hs, hs'] at hcut
  · exact .none
  · cases hcut
  · cases hcut
  · rename_i p p'
    obtain ⟨ctor, args⟩ := p
    obtain ⟨ctor', args'⟩ := p'
    cases hcut with
    | some hparts =>
      obtain ⟨hctor, hargs⟩ := hparts
      have hempty : ctor.isEmpty = ctor'.isEmpty := by
        rw [Bool.eq_iff_iff, List.isEmpty_iff, List.isEmpty_iff, hctor.eq_nil_iff]
      dsimp only
      rw [← hempty]
      by_cases hnil : ctor.isEmpty = true
      · rw [if_pos hnil, if_pos hnil]
        exact .none
      · rw [if_neg hnil, if_neg hnil]
        have hlast := getLast?_spaced (b := 62) (by decide) hclose hargs
        by_cases hend : args.getLast? = some 62
        · rw [if_pos hend, if_pos (hlast.1 hend)]
          exact .some ⟨hctor, dropLast_spaced hclose hend hargs⟩
        · rw [if_neg hend, if_neg (mt hlast.2 hend)]
          exact .none

/-- What is said of one list in step with two others is said of the third. -/
theorem forall₂_of_step {α β γ : Type} {R : α → β → Prop} {S : α → γ → Prop} {T : β → γ → Prop} {as : List α} {bs : List β}
    {cs : List γ} (h : List.Forall₂ R as bs) (hstep : ∀ a b c, c ∈ cs → R a b → S a c → T b c)
    (hcs : List.Forall₂ S as cs) : List.Forall₂ T bs cs := by
  induction h generalizing cs with
  | nil =>
    cases hcs
    exact .nil
  | cons hr _ ih =>
    cases hcs with
    | cons hs hcs =>
      exact .cons (hstep _ _ _ (by simp) hr hs) (ih (fun a b c hc => hstep a b c (List.mem_cons_of_mem _ hc)) hcs)

/-- What is read item by item is read from other items in the same way. -/
theorem mapM_of_forall₂ {α β : Type} {R : α → α → Prop} {read read' : α → Except Problem β} {as as' : List α} {bs : List β}
    (h : List.Forall₂ R as as') (hread : ∀ a a' b, b ∈ bs → R a a' → read a = .ok b → read' a' = .ok b)
    (has : as.mapM read = .ok bs) : as'.mapM read' = .ok bs :=
  mapM_eq_ok.2 (forall₂_of_step h hread (mapM_eq_ok.1 has))

theorem builtin?_spaced (hc : IsStop c) (h : SpacedAt c False s s') : builtin? s' = builtin? s ∧ basic? s' = basic? s := by
  by_cases hmem : c ∈ s
  · have hreserved : ∀ {w : Bytes}, c ∈ w → w ∉ TypeExpr.reserved := fun hw hmem => hc.not_mem_reserved _ hmem hw
    have hmem' : c ∈ s' := by
      by_contra hno
      have heq := (eq_word_iff hno h).2 rfl
      exact hno (heq ▸ hmem)
    rw [builtin?_of_unreserved (hreserved hmem), builtin?_of_unreserved (hreserved hmem'),
      basic?_of_unreserved (hreserved hmem), basic?_of_unreserved (hreserved hmem')]
    exact ⟨rfl, rfl⟩
  · rw [eq_of_not_mem hmem h]
    exact ⟨rfl, rfl⟩

/-- The words of type constructors. -/
def ctorWords : List Bytes :=
  [utf8 "own", utf8 "borrow", utf8 "list", utf8 "option", utf8 "result", utf8 "expected", utf8 "tuple"]

theorem IsStop.not_mem_ctor (hc : IsStop c) : ∀ w ∈ ctorWords, c ∉ w := by
  obtain rfl | rfl := hc <;> decide +kernel

theorem applyCtor_word {ctor : Bytes} {args : List TypeExpr} {t : TypeExpr} (h : applyCtor ctor args = .ok t) :
    ctor ∈ ctorWords := by
  unfold applyCtor at h
  by_contra hmem
  simp only [ctorWords, List.mem_cons, List.not_mem_nil, or_false, not_or] at hmem
  obtain ⟨-, -, hlist, hoption, hresult, hexpected, htuple⟩ := hmem
  rw [if_neg hlist, if_neg hoption, if_neg (not_or.2 ⟨hresult, hexpected⟩), if_neg htuple] at h
  cases h

/-- The type that a word is. -/
def typeWord (names : Names) (s : Bytes) : Except Problem TypeExpr :=
  match builtin? s with
  | some t => .ok t
  | none =>
    if (utf8 "handle ").isPrefixOf s then handle names (Bytes.trim (s.drop 7))
    else match basic? s with
      | some t => .ok t
      | none => if (names.kind? (bareName s)).isSome then .ok (.named (bareName s)) else .error (.unknownType s)

/-- The type that a constructor and the text of its arguments stand for. -/
def typeApplied (names : Names) (depth : Nat) (ctor text : Bytes) : Except Problem TypeExpr :=
  if ctor = utf8 "own" ∨ ctor = utf8 "borrow" then
    match items text with
    | [a] => handle names a.trim
    | _ => .error (.argumentCount ctor 1 (items text).length)
  else (items text).mapM (typeWithin names depth) >>= applyCtor ctor

theorem typeWithin_succ (names : Names) (depth : Nat) (s : Bytes) : typeWithin names (depth + 1) s =
    if s.trim = utf8 "_" then .ok .blank
    else (applied? s.trim).elim (typeWord names s.trim) fun p => typeApplied names depth p.1 p.2 := by
  rw [typeWithin]
  cases applied? s.trim <;> rfl

theorem typeWord_spaced (hc : IsStop c) (hnames : names.AreIdents) (hs : SpacedAt c False s s') {t : TypeExpr}
    (h : typeWord names s = .ok t) : typeWord names s' = .ok t := by
  obtain ⟨hbuiltin, hbasic⟩ := builtin?_spaced hc hs
  have hword : c ∉ utf8 "handle " := by
    obtain rfl | rfl := hc <;> decide
  unfold typeWord at h ⊢
  rw [hbuiltin, hbasic, ← isPrefixOf_spaced hword hs]
  cases hb : builtin? s with
  | some b => rwa [hb] at h
  | none =>
    rw [hb] at h
    dsimp only at h ⊢
    split at h
    · rename_i hstarts
      rw [if_pos hstarts]
      exact handle_spaced hc hnames ((drop_spaced hword hstarts hs).trim hc.ascii) h
    rename_i hstarts
    rw [if_neg hstarts]
    split at h
    · exact h
    split at h
    · rename_i hknown
      have hname := eq_of_not_mem (hc.not_mem_ident (hnames _ hknown)) (bareName_spaced hc hs)
      rwa [hname, if_pos hknown]
    · cases h

theorem typeApplied_spaced (hc : IsStop c) (hnames : names.AreIdents) {depth depth' : Nat} {ctor ctor' : Bytes}
    (hctor : SpacedAt c False ctor ctor') (hs : SpacedAt c False s s')
    (ih : ∀ {a a' : Bytes} {t : TypeExpr}, SpacedAt c False a a' → typeWithin names depth a = .ok t →
      typeWithin names depth' a' = .ok t)
    {t : TypeExpr} (h : typeApplied names depth ctor s = .ok t) : typeApplied names depth' ctor' s' = .ok t := by
  have hitems := items_spaced hc.ascii hs
  have hsame : ctor ∈ ctorWords → ctor' = ctor := fun hmem => eq_of_not_mem (hc.not_mem_ctor _ hmem) hctor
  unfold typeApplied at h ⊢
  split at h
  · rename_i hhandle
    have hmem : ctor ∈ ctorWords := by
      obtain rfl | rfl := hhandle <;> decide
    rw [hsame hmem, if_pos hhandle]
    generalize items s = as, items s' = as' at hitems h ⊢
    cases hitems with
    | nil => cases h
    | cons ha hrest =>
      cases hrest with
      | nil => exact handle_spaced hc hnames (ha.trim hc.ascii) h
      | cons => cases h
  · rename_i hhandle
    obtain ⟨args, hargs, happly⟩ := bind_eq_ok.1 h
    rw [hsame (applyCtor_word happly), if_neg hhandle]
    exact bind_eq_ok.2 ⟨args, mapM_of_forall₂ hitems (fun _ _ _ _ ha hread => ih ha hread) hargs, happly⟩

/-- **A type is read from its text whatever the blanks behind stops**, with any bound on the nesting
that is no lower. -/
theorem typeWithin_spaced (hc : IsStop c) (hnames : names.AreIdents) : ∀ {depth depth' : Nat} {fresh : Prop} {s s' : Bytes}
    {t : TypeExpr}, depth ≤ depth' → SpacedAt c fresh s s' → typeWithin names depth s = .ok t →
      typeWithin names depth' s' = .ok t := by
  intro depth
  induction depth with
  | zero =>
    intro depth' fresh s s' t _ _ h
    rw [typeWithin] at h
    cases h
  | succ depth ih =>
    intro depth' fresh s s' t hdepth hs h
    obtain ⟨depth', rfl⟩ : ∃ n, depth' = n + 1 := ⟨depth' - 1, by omega⟩
    have hu := hs.trim hc.ascii
    rw [typeWithin_succ] at h ⊢
    generalize s.trim = u at hu h
    generalize s'.trim = u' at hu ⊢
    have hblank : c ∉ utf8 "_" := by
      obtain rfl | rfl := hc <;> decide
    by_cases hub : u = utf8 "_"
    · rw [if_pos hub] at h
      rwa [if_pos ((eq_word_iff hblank hu).1 hub)]
    rw [if_neg hub] at h
    rw [if_neg (mt (eq_word_iff hblank hu).2 hub)]
    have happlied := applied?_spaced hc hu
    generalize applied? u = o, applied? u' = o' at happlied h ⊢
    cases happlied with
    | none => exact typeWord_spaced hc hnames hu h
    | some hp =>
      have hargs : ∀ {a a' : Bytes} {t : TypeExpr}, SpacedAt c False a a' → typeWithin names depth a = .ok t →
          typeWithin names depth' a' = .ok t := fun ha => ih (by omega) ha
      exact typeApplied_spaced hc hnames hp.1 hp.2 hargs h

theorem typeExpr_spaced (hc : IsStop c) (hnames : names.AreIdents) (hs : SpacedAt c fresh s s') {t : TypeExpr}
    (h : typeExpr names s = .ok t) : typeExpr names s' = .ok t :=
  typeWithin_spaced hc hnames (Nat.succ_le_succ hs.length_le) hs h

theorem namedType_spaced (hc : IsStop c) (hnames : names.AreIdents) (hs : SpacedAt c fresh s s') {f : Bytes × TypeExpr}
    (h : namedType names s = .ok f) : namedType names s' = .ok f := by
  have hcolon : (58 : UInt8) ≠ c := by
    obtain rfl | rfl := hc <;> decide
  have hcut := cut_spaced 58 (by decide) hcolon hs
  unfold namedType at h ⊢
  generalize Bytes.cut 58 s = o, Bytes.cut 58 s' = o' at hcut h ⊢
  cases hcut with
  | none => cases h
  | some hparts =>
    obtain ⟨hname, htype⟩ := hparts
    dsimp only at h ⊢
    split at h
    · cases h
    · rename_i hident
      have hsame := eq_of_not_mem (hc.not_mem_ident (by simpa using hident)) (bareName_spaced hc hname)
      obtain ⟨t, ht, h⟩ := bind_eq_ok.1 h
      rw [hsame, if_neg hident]
      exact bind_eq_ok.2 ⟨t, typeExpr_spaced hc hnames htype ht, h⟩

/-- A case of a variant, given that no blanks are put into its name. -/
theorem variantCase_spaced (hc : IsStop c) (hnames : names.AreIdents) (hs : SpacedAt c fresh s s') {f : Bytes × TypeExpr}
    (h : variantCase names s = .ok f) (hf : c ∉ f.1) : variantCase names s' = .ok f := by
  have hopen : (40 : UInt8) ≠ c := by
    obtain rfl | rfl := hc <;> decide
  have hclose : (41 : UInt8) ≠ c := by
    obtain rfl | rfl := hc <;> decide
  have hcut := cut_spaced 40 (by decide) hopen hs
  unfold variantCase at h ⊢
  generalize Bytes.cut 40 s = o, Bytes.cut 40 s' = o' at hcut h ⊢
  cases hcut with
  | none =>
    cases h
    rw [eq_of_not_mem hf (bareName_spaced hc hs)]
  | some hparts =>
    obtain ⟨hname, hpayload⟩ := hparts
    dsimp only at h ⊢
    split at h
    · rename_i hlast
      obtain ⟨t, ht, h⟩ := bind_eq_ok.1 h
      cases h
      rw [if_pos ((getLast?_spaced (b := 41) (by decide) hclose hpayload).1 hlast),
        eq_of_not_mem hf (bareName_spaced hc hname)]
      exact bind_eq_ok.2 ⟨t, typeExpr_spaced hc hnames (dropLast_spaced hclose hlast hpayload) ht, rfl⟩
    · cases h

theorem map_bareName_spaced (hc : IsStop c) {es es' : List Bytes} (h : List.Forall₂ (SpacedAt c False) es es')
    (hes : ∀ n ∈ es.map bareName, c ∉ n) : es'.map bareName = es.map bareName := by
  induction h with
  | nil => rfl
  | cons he _ ih =>
    rw [List.map_cons, List.forall_mem_cons] at hes
    rw [List.map_cons, List.map_cons, ih hes.2, eq_of_not_mem hes.1 (bareName_spaced hc he)]

/-- **A declaration is read whatever the blanks behind line feeds**, given that none are put into
the names of cases. -/
theorem declBody_spaced (hnames : names.AreIdents) {name text text' : Bytes} (hs : SpacedAt 10 fresh text text')
    {kind : DeclKind} {b : DeclBody} (h : declBody names name text kind = .ok b)
    (hb : ∀ n ∈ b.caseNames, 44 ∉ n) : declBody names name text' kind = .ok b := by
  have hc : IsStop 44 := .inr rfl
  have hcommas : SpacedAt 44 fresh (text.map fun b => if b = 10 then 44 else b)
      (text'.map fun b => if b = 10 then 44 else b) := by
    refine hs.map _ (fun b hb => ?_) fun b hb => if_pos hb
    rwa [if_neg]
    rintro rfl
    cases hb
  have hitems := items_spaced hc.ascii hcommas
  unfold declBody at h ⊢
  cases kind with
  | record =>
    obtain ⟨fs, hfs, h⟩ := bind_eq_ok.1 h
    exact bind_eq_ok.2 ⟨fs, mapM_of_forall₂ hitems (fun _ _ _ _ hs => namedType_spaced hc hnames hs) hfs, h⟩
  | enum =>
    cases h
    exact congrArg (fun ns => Except.ok (DeclBody.enum ns)) (map_bareName_spaced hc hitems hb)
  | flags =>
    cases h
    exact congrArg (fun ns => Except.ok (DeclBody.flags ns)) (map_bareName_spaced hc hitems hb)
  | variant =>
    obtain ⟨cs, hcs, h⟩ := bind_eq_ok.1 h
    cases h
    refine bind_eq_ok.2 ⟨cs, mapM_of_forall₂ hitems (fun _ _ f hf hs hread => ?_) hcs, rfl⟩
    exact variantCase_spaced hc hnames hs hread (hb f.1 (List.mem_map_of_mem hf))
  | union =>
    obtain ⟨ts, hts, h⟩ := bind_eq_ok.1 h
    exact bind_eq_ok.2 ⟨ts, mapM_of_forall₂ hitems (fun _ _ _ _ hs => typeExpr_spaced hc hnames hs) hts, h⟩
  | resource => exact h
  | «alias» =>
    obtain ⟨t, ht, h⟩ := bind_eq_ok.1 h
    exact bind_eq_ok.2 ⟨t, typeExpr_spaced (.inl rfl) hnames hs ht, h⟩

/-- **A function is read whatever the blanks behind the line feeds of its parameters.** -/
theorem func_spaced (hnames : names.AreIdents) {f : FuncText} {params' : Bytes} (hs : SpacedAt 10 fresh f.params params')
    {fn : Func} (h : func names f = .ok fn) : func names { f with params := params' } = .ok fn := by
  have hc : IsStop 10 := .inl rfl
  obtain ⟨ps, hps, h⟩ := bind_eq_ok.1 h
  refine bind_eq_ok.2 ⟨ps, mapM_of_forall₂ (items_spaced hc.ascii hs) (fun _ _ _ _ hs => ?_) hps, h⟩
  exact namedType_spaced hc hnames hs

end read

end Interface

end Bindery
