/-
Recognisers on texts into which blanks are put at the starts of lines. Most of a recogniser stays
on its line and does not see what follows it (`IsLocal`); the body of a declaration and the parameters
of a function go over lines, up to a closing bracket. So all three find the same
(`follows_declText`, `follows_aliasText`, `follows_funcText`), but for blanks inside the brackets.
-/
import Bindery.Proofs.Interface.Marked

namespace Bindery.Interface

/-! ## Recognisers on a line -/

section line

variable {α β : Type} {s t : Bytes}

/-- What follows a line: nothing, or its end. -/
def AtEnd (t : Bytes) : Prop := ∀ b ∈ t.head?, b = 10

theorem dropWhile_tail {p : UInt8 → Bool} (hp : p 10 = false) (ht : AtEnd t) (s : Bytes) :
    (s ++ t).dropWhile p = s.dropWhile p ++ t := by
  have hend : t.dropWhile p = t := Bytes.dropWhile_of_head fun b hb => by rw [ht b hb, hp]
  rw [List.dropWhile_append]
  split
  · rename_i h
    rw [hend, List.isEmpty_iff.1 h, List.nil_append]
  · rfl

theorem takeWhile_tail {p : UInt8 → Bool} (hp : p 10 = false) (ht : AtEnd t) (s : Bytes) :
    (s ++ t).takeWhile p = s.takeWhile p := by
  have h := (List.takeWhile_append_dropWhile (p := p) (l := s ++ t)).trans
    (congrArg (· ++ t) (List.takeWhile_append_dropWhile (p := p) (l := s)).symm)
  rw [dropWhile_tail hp ht, List.append_assoc] at h
  exact List.append_cancel_right h

theorem dropGap_tail (ht : AtEnd t) (s : Bytes) : (s ++ t).dropWhile isGap = s.dropWhile isGap ++ t :=
  dropWhile_tail rfl ht s

/-- A reader that takes something off the front of a line, whatever follows the line. -/
structure IsStep (f : Bytes → Option Bytes) : Prop where
  tail : ∀ s t, AtEnd t → f (s ++ t) = (f s).map (· ++ t)
  stretch : ∀ s r, f s = some r → ∃ v, v ≠ [] ∧ s = v ++ r

/-- A recogniser of a part of a line, whatever follows the line. -/
structure IsLocal (f : Bytes → Option (α × Bytes)) : Prop where
  tail : ∀ s t, AtEnd t → f (s ++ t) = (f s).map fun p => (p.1, p.2 ++ t)
  stretch : ∀ s a r, f s = some (a, r) → ∃ v, v ≠ [] ∧ s = v ++ r

theorem IsStep.dropGap {f : Bytes → Option Bytes} (hf : IsStep f) : IsStep fun s => f (s.dropWhile isGap) := by
  refine ⟨fun s t ht => ?_, fun s r h => ?_⟩
  · rw [dropGap_tail ht, hf.tail _ _ ht]
  · obtain ⟨v, hv, h⟩ := hf.stretch _ _ h
    refine ⟨s.takeWhile isGap ++ v, by simp [hv], ?_⟩
    rw [List.append_assoc, ← h, List.takeWhile_append_dropWhile]

theorem IsLocal.dropGap {f : Bytes → Option (α × Bytes)} (hf : IsLocal f) : IsLocal fun s => f (s.dropWhile isGap) := by
  refine ⟨fun s t ht => ?_, fun s a r h => ?_⟩
  · rw [dropGap_tail ht, hf.tail _ _ ht]
  · obtain ⟨v, hv, h⟩ := hf.stretch _ _ _ h
    refine ⟨s.takeWhile isGap ++ v, by simp [hv], ?_⟩
    rw [List.append_assoc, ← h, List.takeWhile_append_dropWhile]

theorem IsStep.bind {f : Bytes → Option Bytes} (hf : IsStep f) {g : Bytes → Option (α × Bytes)} (hg : IsLocal g) :
    IsLocal fun s => (f s).bind g := by
  refine ⟨fun s t ht => ?_, fun s a r h => ?_⟩
  · rw [hf.tail s t ht]
    cases f s with
    | none => rfl
    | some r => exact hg.tail r t ht
  · obtain ⟨x, hx, hr⟩ := Option.bind_eq_some_iff.1 h
    obtain ⟨v, hv, rfl⟩ := hf.stretch _ _ hx
    obtain ⟨u, -, rfl⟩ := hg.stretch _ _ _ hr
    exact ⟨v ++ u, by simp [hv], by rw [List.append_assoc]⟩

theorem IsStep.value {f : Bytes → Option Bytes} (hf : IsStep f) (a : α) : IsLocal fun s => (f s).bind fun r => some (a, r) := by
  refine ⟨fun s t ht => ?_, fun s b r hr => ?_⟩
  · rw [hf.tail s t ht]
    cases f s <;> rfl
  · obtain ⟨x, hx, heq⟩ := Option.bind_eq_some_iff.1 hr
    cases heq
    exact hf.stretch _ _ hx

theorem IsLocal.bind {f : Bytes → Option (α × Bytes)} (hf : IsLocal f) {g : α → Bytes → Option (β × Bytes)}
    (hg : ∀ a, IsLocal (g a)) : IsLocal fun s => (f s).bind fun p => g p.1 p.2 := by
  refine ⟨fun s t ht => ?_, fun s b r h => ?_⟩
  · rw [hf.tail s t ht]
    cases f s with
    | none => rfl
    | some p => exact (hg p.1).tail p.2 t ht
  · obtain ⟨x, hx, hr⟩ := Option.bind_eq_some_iff.1 h
    obtain ⟨v, hv, rfl⟩ := hf.stretch _ _ _ hx
    obtain ⟨u, -, hu⟩ := (hg _).stretch _ _ _ hr
    exact ⟨v ++ u, by simp [hv], by rw [List.append_assoc, ← hu]⟩

theorem IsLocal.map {f : Bytes → Option (α × Bytes)} (hf : IsLocal f) (h : α → β) :
    IsLocal fun s => (f s).bind fun p => some (h p.1, p.2) := by
  refine ⟨fun s t ht => ?_, fun s b r hr => ?_⟩
  · rw [hf.tail s t ht]
    cases f s <;> rfl
  · obtain ⟨p, hp, heq⟩ := Option.bind_eq_some_iff.1 hr
    cases heq
    exact hf.stretch _ _ _ hp

theorem isStep_word {w : Bytes} (hne : w ≠ []) (hw : 10 ∉ w) : IsStep (word? w) := by
  refine ⟨fun s t ht => ?_, fun s r h => ?_⟩
  · have hstarts : w.isPrefixOf (s ++ t) = w.isPrefixOf s := by
      rw [Bool.eq_iff_iff, List.isPrefixOf_iff_prefix, List.isPrefixOf_iff_prefix]
      refine ⟨fun h => ?_, fun h => h.trans (List.prefix_append s t)⟩
      rcases List.prefix_or_prefix_of_prefix h (List.prefix_append s t) with h' | ⟨x, rfl⟩
      · exact h'
      · cases x with
        | nil => simp
        | cons b x =>
          obtain ⟨y, hy⟩ := (List.prefix_append_right_inj s).1 h
          have hb : b = 10 := ht b (by rw [← hy]; rfl)
          exact absurd (by simp [hb]) hw
    rw [word?, word?, hstarts]
    split
    · rename_i h
      have hle := (List.isPrefixOf_iff_prefix.1 h).length_le
      rw [List.drop_append_of_le_length hle]
      rfl
    · rfl
  · unfold word? at h
    split at h
    · rename_i hstarts
      obtain ⟨r, rfl⟩ := List.isPrefixOf_iff_prefix.1 hstarts
      rw [List.drop_left] at h
      cases h
      exact ⟨w, hne, rfl⟩
    · cases h

theorem isStep_gap : IsStep gap? := by
  refine ⟨fun s t ht => ?_, fun s r h => ?_⟩
  · cases s with
    | nil =>
      cases t with
      | nil => rfl
      | cons b t =>
        obtain rfl : b = 10 := ht b rfl
        rfl
    | cons b s =>
      rw [List.cons_append, gap?, gap?, dropGap_tail ht]
      split <;> rfl
  · cases s with
    | nil => cases h
    | cons b s =>
      rw [gap?] at h
      split at h
      · cases h
        exact ⟨b :: s.takeWhile isGap, by simp, by rw [List.cons_append, List.takeWhile_append_dropWhile]⟩
      · cases h

theorem isLocal_ident : IsLocal ident? := by
  have hstarts : ∀ s : Bytes, (s.takeWhile (· == 37)).take 1 <+: s :=
    fun s => (List.take_prefix 1 _).trans (List.takeWhile_prefix _)
  refine ⟨fun s t ht => ?_, fun s a r h => ?_⟩
  · have hsign : (((s ++ t).takeWhile (· == 37)).take 1) = (s.takeWhile (· == 37)).take 1 := by
      rw [takeWhile_tail rfl ht]
    have hle := (hstarts s).length_le
    unfold ident?
    dsimp only
    rw [hsign, List.drop_append_of_le_length hle]
    cases s.drop ((s.takeWhile (· == 37)).take 1).length with
    | nil =>
      cases t with
      | nil => rfl
      | cons b t =>
        obtain rfl : b = 10 := ht b rfl
        rfl
    | cons b x =>
      rw [List.cons_append]
      dsimp only
      rw [takeWhile_tail rfl ht, dropWhile_tail rfl ht]
      split <;> rfl
  · unfold ident? at h
    dsimp only at h
    have hsign := List.prefix_iff_eq_append.1 (hstarts s)
    generalize (s.takeWhile (· == 37)).take 1 = sign at h hsign
    generalize s.drop sign.length = x at h hsign
    subst hsign
    cases x with
    | nil => cases h
    | cons b x =>
      dsimp only at h
      split at h
      · cases h
        exact ⟨sign ++ b :: x.takeWhile isIdentByte, by simp, by simp⟩
      · cases h

theorem isLocal_lineRest : IsLocal lineRest? := by
  refine ⟨fun s t ht => ?_, fun s a r h => ?_⟩
  · unfold lineRest?
    dsimp only
    rw [dropGap_tail ht, takeWhile_tail rfl ht, takeWhile_tail rfl ht, dropWhile_tail rfl ht]
    split
    · rw [Option.map_map]
      rfl
    · rfl
  · unfold lineRest? at h
    dsimp only at h
    split at h
    · obtain ⟨b, hb, heq⟩ := Option.map_eq_some_iff.1 h
      cases heq
      exact ⟨s.takeWhile isGap, fun hnil => (by rw [hnil] at hb; cases hb), List.takeWhile_append_dropWhile.symm⟩
    · rename_i hne
      cases h
      refine ⟨s.takeWhile isGap ++ (s.dropWhile isGap).takeWhile fun b => b != 10 && b != 59, ?_, ?_⟩
      · simp only [List.isEmpty_iff] at hne
        simp [hne]
      · rw [List.append_assoc, List.takeWhile_append_dropWhile, List.takeWhile_append_dropWhile]

/-- One of several words. -/
theorem isLocal_words {ks : List DeclKind} (hks : ∀ k ∈ ks, IsStep (word? k.word)) :
    IsLocal fun s => ks.findSome? fun k => (word? k.word s).map fun t => (k, t) := by
  induction ks with
  | nil => exact ⟨fun _ _ _ => rfl, fun _ _ _ h => by cases h⟩
  | cons k ks ih =>
    obtain ⟨hk, hks⟩ := List.forall_mem_cons.1 hks
    refine ⟨fun s t ht => ?_, fun s a r h => ?_⟩
    · rw [List.findSome?_cons, List.findSome?_cons, hk.tail s t ht]
      cases word? k.word s with
      | none => exact (ih hks).tail s t ht
      | some r => rfl
    · rw [List.findSome?_cons] at h
      cases hword : word? k.word s with
      | none =>
        rw [hword] at h
        exact (ih hks).stretch s a r h
      | some x =>
        rw [hword] at h
        cases h
        exact hk.stretch s _ hword

theorem isStep_keyword (k : DeclKind) : IsStep (word? k.word) := by
  cases k <;> exact isStep_word (by decide) (by decide)

theorem isLocal_aliasText : IsLocal aliasText? :=
  (isStep_keyword .alias).dropGap.bind (isStep_gap.bind (isLocal_ident.bind fun name =>
    (isStep_word (by decide) (by decide)).dropGap.bind (isLocal_lineRest.map fun target => (name, target))))

/-- The part of a declaration before its body. -/
def declHead? (s : Bytes) : Option ((DeclKind × Bytes) × Bytes) := do
  let (kind, s) ← declKinds.findSome? fun k => (word? k.word (s.dropWhile isGap)).map fun t => (k, t)
  let (name, s) ← ident? (← gap? s)
  return ((kind, name), s)

theorem isLocal_declHead : IsLocal declHead? :=
  (isLocal_words fun k _ => isStep_keyword k).dropGap.bind fun kind =>
    isStep_gap.bind (isLocal_ident.map fun name => (kind, name))

theorem declText?_eq (s : Bytes) : declText? s = (declHead? s).bind fun p =>
    some ({ kind := p.1.1, name := p.1.2, body := (body? p.2).1 }, (body? p.2).2) := by
  rw [declText?, declHead?]
  dsimp only
  generalize declKinds.findSome? (fun k => (word? k.word (s.dropWhile isGap)).map fun t => (k, t)) = o
  cases o with
  | none => rfl
  | some p =>
    cases hgap : gap? p.2 with
    | none => simp [hgap]
    | some x =>
      cases hident : ident? x with
      | none => simp [hgap, hident]
      | some q => simp [hgap, hident]

/-- The part of a function before its parameters. -/
def funcHead? (s : Bytes) : Option (Bytes × Bytes) := do
  let (name, s) ← ident? s
  let s ← word? (utf8 ":") (s.dropWhile isGap)
  let s ← word? (utf8 "func") (s.dropWhile isGap)
  let s ← word? (utf8 "(") (s.dropWhile isGap)
  return (name, s)

theorem isLocal_funcHead : IsLocal funcHead? :=
  isLocal_ident.bind fun name => (isStep_word (by decide) (by decide)).dropGap.bind
    ((isStep_word (by decide) (by decide)).dropGap.bind
      ((isStep_word (by decide) (by decide)).dropGap.value name))

/-- The same with the word `export` before it. -/
def exportHead? (s : Bytes) : Option (Bytes × Bytes) := do
  funcHead? (← gap? (← word? (utf8 "export") s))

theorem isLocal_exportHead : IsLocal exportHead? :=
  (isStep_word (by decide) (by decide)).bind (isStep_gap.bind isLocal_funcHead)

theorem isLocal_arrow : IsLocal arrow? :=
  (isStep_word (by decide) (by decide)).dropGap.bind isLocal_lineRest

/-- A function from its parameters on. -/
def funcTail? (name s : Bytes) : Option (FuncText × Bytes) := do
  let (params, s) ← upTo? 41 s
  match arrow? s with
  | some (results, rest) => return ({ name, params, results := some results }, rest)
  | none => return ({ name, params, results := none }, s)

theorem funcBody?_eq (s : Bytes) : funcBody? s = (funcHead? s).bind fun p => funcTail? p.1 p.2 := by
  rw [funcBody?, funcHead?]
  cases ident? s with
  | none => rfl
  | some p =>
    cases h₁ : word? (utf8 ":") (p.2.dropWhile isGap) with
    | none => simp [h₁]
    | some s₁ =>
      cases h₂ : word? (utf8 "func") (s₁.dropWhile isGap) with
      | none => simp [h₁, h₂]
      | some s₂ =>
        cases h₃ : word? (utf8 "(") (s₂.dropWhile isGap) with
        | none => simp [h₁, h₂, h₃]
        | some s₃ =>
          simp only [h₁, h₂, h₃, Option.bind_eq_bind, Option.bind_some, Option.pure_def]
          rfl

theorem funcText?_eq (s : Bytes) : funcText? s =
    (((exportHead? (s.dropWhile isGap)).bind fun p => funcTail? p.1 p.2) <|>
      ((funcHead? (s.dropWhile isGap)).bind fun p => funcTail? p.1 p.2)) := by
  rw [funcText?, exportHead?]
  simp only [funcBody?_eq]
  cases h₁ : word? (utf8 "export") (s.dropWhile isGap) with
  | none => rfl
  | some s₁ =>
    cases h₂ : gap? s₁ with
    | none => simp [h₂]
    | some s₂ => simp [h₂]

end line

/-! ## Recognisers over lines -/

section lines

variable {α : Type} {free : Nat → Prop} {n : Nat} {w x : Marked}

/-- Octets that were there before blanks were put in. -/
def own (s : Bytes) : Marked := s.map fun b => (b, true)

@[simp] theorem before_own_list : ∀ s : Bytes, before (own s) = s
  | [] => rfl
  | b :: s => congrArg (b :: ·) (before_own_list s)

@[simp] theorem after_own_list : ∀ s : Bytes, after (own s) = s
  | [] => rfl
  | b :: s => congrArg (b :: ·) (after_own_list s)

/-- A line that starts with no blank put in, and what follows it. -/
theorem Laid.exists_line (h : Laid free n false w) : ∃ s u, w = own s ++ u ∧ 10 ∉ s ∧ AtEnd (before u) ∧ AtEnd (after u) := by
  induction w generalizing n with
  | nil => exact ⟨[], [], rfl, by simp, by simp [AtEnd], by simp [AtEnd]⟩
  | cons y w ih =>
    obtain ⟨b, m⟩ := y
    cases m with
    | false => cases h.1
    | true =>
      by_cases hb : b = 10
      · exact ⟨[], (b, true) :: w, rfl, by simp, by simp [AtEnd, hb], by simp [AtEnd, hb]⟩
      · rw [Laid, beq_false_of_ne hb] at h
        obtain ⟨s, u, rfl, hs, hu⟩ := ih h
        exact ⟨b :: s, u, rfl, by simp [Ne.symm hb, hs], hu⟩

theorem lineStart_of_not_mem {s : Bytes} (hs : 10 ∉ s) : lineStart false s = false := by
  induction s with
  | nil => rfl
  | cons b s ih =>
    obtain ⟨hb, hs⟩ := List.ne_and_not_mem_of_not_mem_cons hs
    rw [lineStart, List.foldl_cons, beq_false_of_ne hb.symm]
    exact ih hs

/-- **What stays on its line** is the same, and so is the line behind it. -/
theorem IsLocal.agree {f : Bytes → Option (α × Bytes)} (hf : IsLocal f) (hw : Laid free n false w) :
    f (before w) = none ∧ f (after w) = none ∨ ∃ a v x, v ≠ [] ∧ w = own v ++ x ∧ f (before w) = some (a, before x) ∧
      f (after w) = some (a, after x) ∧ Laid free (n + v.length) false x := by
  obtain ⟨s, u, rfl, hs, hu, hu'⟩ := hw.exists_line
  simp only [before_append, after_append, before_own_list, after_own_list]
  rw [hf.tail _ _ hu, hf.tail _ _ hu']
  cases hfs : f s with
  | none => exact .inl ⟨rfl, rfl⟩
  | some p =>
    obtain ⟨a, r⟩ := p
    obtain ⟨v, hv, rfl⟩ := hf.stretch _ _ _ hfs
    have hsplit : own (v ++ r) ++ u = own v ++ (own r ++ u) := by simp [own]
    rw [hsplit] at hw ⊢
    have hx := (laid_append.1 hw).2
    rw [before_own_list, lineStart_of_not_mem fun h => hs (List.mem_append_left _ h)] at hx
    exact .inr ⟨a, v, _, hv, rfl, by simp, by simp, hx⟩

/-- The first closing bracket is the same. -/
theorem Laid.cut (sep : UInt8) (hsep : isGap sep = false) (hfeed : sep ≠ 10) {fresh : Bool} (hw : Laid free n fresh w) :
    (before w).cut sep = none ∧ (after w).cut sep = none ∨ ∃ v x, w = v ++ (sep, true) :: x ∧
      (before w).cut sep = some (before v, before x) ∧ (after w).cut sep = some (after v, after x) ∧
      Laid free n fresh v ∧ Laid free (n + (before v).length + 1) false x := by
  induction w generalizing n fresh with
  | nil => exact .inl ⟨rfl, rfl⟩
  | cons y w ih =>
    obtain ⟨b, m⟩ := y
    by_cases hb : b = sep
    · subst hb
      cases m with
      | false =>
        rw [hw.2.2.1] at hsep
        cases hsep
      | true =>
        rw [Laid, beq_false_of_ne hfeed] at hw
        exact .inr ⟨[], w, rfl, by simp [Bytes.cut], by simp [Bytes.cut], trivial, hw⟩
    · have hne : (b == sep) = false := by simpa using hb
      cases m with
      | true =>
        rw [Laid] at hw
        rcases ih hw with ⟨h, h'⟩ | ⟨v, x, rfl, h, h', hv, hx⟩
        · exact .inl ⟨by simp [Bytes.cut, hne, h], by simp [Bytes.cut, hne, h']⟩
        · refine .inr ⟨(b, true) :: v, x, rfl, by simp only [before_own, Bytes.cut, hne, h]; rfl,
            by simp only [after_cons, Bytes.cut, hne, h']; rfl, hv, ?_⟩
          rwa [before_own, List.length_cons, Nat.add_comm (before v).length, ← Nat.add_assoc]
      | false =>
        obtain ⟨rfl, hfree, hgap, hw⟩ := hw
        rcases ih hw with ⟨h, h'⟩ | ⟨v, x, rfl, h, h', hv, hx⟩
        · exact .inl ⟨by simp [h], by simp [Bytes.cut, hne, h']⟩
        · exact .inr ⟨(b, false) :: v, x, rfl, by rw [before_put, before_put, h], by simp only [after_cons, Bytes.cut, hne, h']; rfl,
            ⟨rfl, hfree, hgap, hv⟩, by simpa using hx⟩

/-- White space is passed over up to the same octet. -/
theorem Laid.dropSpace {fresh : Bool} (hw : Laid free n fresh w) : ∃ v x, w = v ++ x ∧
    before x = (before w).dropWhile isSpace ∧ after x = (after w).dropWhile isSpace ∧
      (x = [] ∨ ∃ b y m, x = (b, true) :: y ∧ Laid free m (b == 10) y) := by
  induction w generalizing n fresh with
  | nil => exact ⟨[], [], rfl, rfl, rfl, .inl rfl⟩
  | cons y w ih =>
    obtain ⟨b, m⟩ := y
    by_cases hb : isSpace b = true
    · obtain ⟨fresh', k, hw⟩ : ∃ fresh' k, Laid free k fresh' w := by
        cases m with
        | true => exact ⟨_, _, hw⟩
        | false => exact ⟨_, _, hw.2.2.2⟩
      obtain ⟨v, x, rfl, hx, hx', hnext⟩ := ih hw
      refine ⟨(b, m) :: v, x, rfl, ?_, ?_, hnext⟩
      · cases m with
        | true => rw [before_own, List.dropWhile_cons, if_pos hb, hx]
        | false => rw [before_put, hx]
      · rw [after_cons, List.dropWhile_cons, if_pos hb, hx']
    · cases m with
      | true =>
        refine ⟨[], (b, true) :: w, rfl, ?_, ?_, .inr ⟨b, w, n + 1, rfl, hw⟩⟩
        · rw [before_own, List.dropWhile_cons, if_neg hb]
        · rw [after_cons, List.dropWhile_cons, if_neg hb]
      | false =>
        have hgap : isGap b = true → isSpace b = true :=
          Byte.forall_octets (P := fun b => isGap b = true → isSpace b = true) (by decide +kernel) b
        exact absurd (hgap hw.2.2.1) hb

theorem body?_open {s u : Bytes} (h : s.dropWhile isSpace = 123 :: u) : body? s =
    match u.cut 125 with
    | some (body, rest) => (some body, rest)
    | none => (none, 123 :: u) := by
  rw [body?, h]
  rfl

theorem body?_other {s : Bytes} (h : ∀ u, s.dropWhile isSpace ≠ 123 :: u) : body? s = (none, s.dropWhile isSpace) := by
  unfold body?
  dsimp only
  split
  · rename_i u hu
    exact absurd hu (h u)
  · rfl

/-- **The body of a declaration**, or the white space in its place, goes up to the same place. -/
theorem Laid.body (hw : Laid free n false w) : ∃ v x, w = v ++ x ∧ (body? (before w)).2 = before x ∧
    (body? (after w)).2 = after x ∧ Option.Rel (SpacedAt 10 False) (body? (before w)).1 (body? (after w)).1 := by
  obtain ⟨v, x, hsplit, hx, hx', hnext⟩ := hw.dropSpace
  have hother : (∀ u, before x ≠ 123 :: u) → (∀ u, after x ≠ 123 :: u) → ∃ v x, w = v ++ x ∧
      (body? (before w)).2 = before x ∧ (body? (after w)).2 = after x ∧
        Option.Rel (SpacedAt 10 False) (body? (before w)).1 (body? (after w)).1 := by
    intro h h'
    rw [body?_other fun u => hx ▸ h u, body?_other fun u => hx' ▸ h' u]
    exact ⟨v, x, hsplit, hx.symm, hx'.symm, .none⟩
  rcases hnext with rfl | ⟨b, y, m, rfl, hy⟩
  · exact hother (by simp) (by simp)
  · by_cases hb : b = 123
    · subst hb
      rw [before_own] at hx
      rw [after_cons] at hx'
      rw [body?_open hx.symm, body?_open hx'.symm]
      rcases hy.cut 125 (by decide) (by decide) with ⟨h, h'⟩ | ⟨p, q, rfl, h, h', hp, -⟩
      · rw [h, h']
        exact ⟨v, (123, true) :: y, hsplit, rfl, rfl, .none⟩
      · rw [h, h']
        refine ⟨v ++ (123, true) :: (p ++ [(125, true)]), q, by simp [hsplit], rfl, rfl, .some ?_⟩
        exact hp.spaced.mono (by simp)
    · exact hother (by simp [hb]) (by simp [hb])

/-! ### Declarations, aliases and functions -/

variable {recognise recognise' : Bytes → Option (α × Bytes)} {R : α → α → Prop} {solid : Bool}

/-- Blanks at the start of the line apart. -/
theorem follows_of_line (hgap : ∀ g s, isGap g = true → recognise (g :: s) = recognise s)
    (h : ∀ free n w, Laid free n false w → Agree R solid w (recognise (before w)) (recognise (after w))) :
    Follows recognise R solid := by
  intro free n w hw
  obtain ⟨g, x, rfl, hg, hgaps, hx⟩ := hw.exists_put
  have hskip : ∀ {g : Bytes} (s : Bytes), (∀ b ∈ g, isGap b = true) → recognise (g ++ s) = recognise s := by
    intro g s hg
    induction g with
    | nil => rfl
    | cons b g ih =>
      obtain ⟨hb, hg⟩ := List.forall_mem_cons.1 hg
      rw [List.cons_append, hgap b _ hb, ih hg]
  rw [before_append, hg, List.nil_append, after_append, hskip _ hgaps]
  have hrel := h free n x hx
  generalize recognise (before x) = o, recognise (after x) = o' at hrel
  cases hrel with
  | none => exact .none
  | some hp =>
    obtain ⟨hR, v, u, rfl, hv, hu, hu', hsolid⟩ := hp
    refine .some ⟨hR, g ++ v, u, by simp, by simp [hv], hu, hu', fun hs => ?_⟩
    obtain ⟨v₀, b, rfl⟩ := hsolid hs
    exact ⟨g ++ v₀, b, by simp⟩

theorem own_concat {s : Bytes} (hs : s ≠ []) : ∃ v b, own s = v ++ [(b, true)] := by
  refine ⟨own s.dropLast, s.getLast hs, ?_⟩
  conv_lhs => rw [← List.dropLast_append_getLast hs]
  simp [own]

/-- **Aliases** do not mind blanks at the starts of lines. -/
theorem follows_aliasText : Follows aliasText? Eq true := by
  refine follows_of_line (fun g s hg => ?_) fun free n w hw => ?_
  · rw [aliasText?, aliasText?, List.dropWhile_cons, if_pos hg]
  · rcases isLocal_aliasText.agree hw with ⟨h, h'⟩ | ⟨a, v, x, hv, rfl, h, h', -⟩
    · rw [h, h']
      exact .none
    · rw [h, h']
      exact .some ⟨rfl, own v, x, rfl, by simpa using hv, rfl, rfl, fun _ => own_concat hv⟩

/-- Declarations that differ in blanks behind the line feeds of their bodies. -/
def DeclText.Alike (d d' : DeclText) : Prop := d'.kind = d.kind ∧ d'.name = d.name ∧ Option.Rel (SpacedAt 10 False) d.body d'.body

/-- **Declarations** do not mind blanks at the starts of lines. -/
theorem follows_declText : Follows declText? DeclText.Alike false := by
  refine follows_of_line (fun g s hg => ?_) fun free n w hw => ?_
  · rw [declText?, declText?, List.dropWhile_cons, if_pos hg]
  · rw [declText?_eq, declText?_eq]
    rcases isLocal_declHead.agree hw with ⟨h, h'⟩ | ⟨a, v, x, hv, rfl, h, h', hx⟩
    · rw [h, h']
      exact .none
    · rw [h, h']
      obtain ⟨y, z, rfl, hz, hz', hbody⟩ := hx.body
      exact .some ⟨⟨rfl, rfl, hbody⟩, own v ++ y, z, by simp, by simp [hv], hz, hz', by simp⟩

/-- Functions that differ in blanks behind the line feeds between their brackets. -/
def FuncText.Alike (f f' : FuncText) : Prop := ∃ params, f' = { f with params } ∧ SpacedAt 10 False f.params params

theorem agree_funcTail {head : Bytes → Option (Bytes × Bytes)} (hhead : IsLocal head) (hw : Laid free n false w) :
    Agree FuncText.Alike true w ((head (before w)).bind fun p => funcTail? p.1 p.2)
      ((head (after w)).bind fun p => funcTail? p.1 p.2) := by
  rcases hhead.agree hw with ⟨h, h'⟩ | ⟨name, v, x, hv, rfl, h, h', hx⟩
  · rw [h, h']
    exact .none
  · rw [h, h']
    dsimp only [Option.bind_some, funcTail?, upTo?]
    rcases hx.cut 41 (by decide) (by decide) with ⟨hcut, hcut'⟩ | ⟨p, y, rfl, hcut, hcut', hp, hy⟩
    · rw [hcut, hcut']
      exact .none
    · have hparams : SpacedAt 10 False (before p) (after p) := hp.spaced.mono (by simp)
      rw [hcut, hcut']
      simp only [Option.bind_eq_bind, Option.bind_some]
      rcases isLocal_arrow.agree hy with ⟨harrow, harrow'⟩ | ⟨results, v', z, hv', rfl, harrow, harrow', -⟩
      · rw [harrow, harrow']
        refine .some ⟨⟨after p, rfl, hparams⟩, own v ++ (p ++ [(41, true)]), y, by simp, by simp [hv], rfl, rfl, fun _ => ?_⟩
        exact ⟨own v ++ p, 41, by simp⟩
      · rw [harrow, harrow']
        refine .some ⟨⟨after p, rfl, hparams⟩, own v ++ (p ++ (41, true) :: own v'), z, by simp, by simp [hv], rfl, rfl,
          fun _ => ?_⟩
        obtain ⟨u, b, hu⟩ := own_concat hv'
        exact ⟨own v ++ (p ++ (41, true) :: u), b, by simp [hu]⟩

theorem Agree.orElse {o o' q q' : Option (α × Bytes)} (h : Agree R solid w o o') (h' : Agree R solid w q q') :
    Agree R solid w (o <|> q) (o' <|> q') := by
  cases h with
  | none => exact h'
  | some h => exact .some h

/-- **Functions** do not mind blanks at the starts of lines. -/
theorem follows_funcText : Follows funcText? FuncText.Alike true := by
  refine follows_of_line (fun g s hg => ?_) fun free n w hw => ?_
  · rw [funcText?, funcText?, List.dropWhile_cons, if_pos hg]
  · rw [funcText?_eq, funcText?_eq]
    exact (agree_funcTail isLocal_exportHead.dropGap hw).orElse (agree_funcTail isLocal_funcHead.dropGap hw)

end lines

end Bindery.Interface
