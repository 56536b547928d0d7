/-
Texts in which no helper is called. They stay free of calls when they are put together at an octet
that neither belongs to a name nor opens a bracket (`CallFree.append`).

An escape in quoted text is a backslash and what looks like the start of a name, so a helper's name
could begin behind a backslash. But no escape is the start of a helper's name
(`not_isEscape_of_start`), and a helper that seems to be called between quotes is written out in
what is quoted (`callFree_quote`).
-/
import Bindery.Proofs.Bytes.Units
import Bindery.Proofs.Glue.HelperImports
import Mathlib.Data.List.Infix

namespace Bindery.Glue.JavaScript

/-! ## Texts without calls -/

/-- No helper is called in the text. -/
def CallFree (s : Bytes) : Prop := ∀ h : Helper, ¬Called h.word s

theorem usedIn_eq_nil {s : Bytes} : usedIn s = [] ↔ CallFree s := by
  rw [List.eq_nil_iff_forall_not_mem]
  exact forall_congr' fun h => not_congr mem_usedIn

theorem isLetter_of_mem_word {h : Helper} : ∀ b ∈ h.word, Byte.isLetter b = true := by
  cases h <;> decide +kernel

/-- Helpers have names in lower case. -/
theorem exists_lower_mem_word (h : Helper) : ∃ b ∈ h.word, Byte.isLower b = true := by
  cases h <;> decide

theorem isWord_of_isLetter {b : UInt8} (h : Byte.isLetter b = true) : Byte.isWord b = true := by
  rw [Byte.isWord, h]
  rfl

/-- A text that can follow on a name: it starts neither with an octet of a name nor with a bracket. -/
def Closes (s : Bytes) : Bool := s.head?.any fun b => !Byte.isWord b && b != 40

theorem closes_append {a : Bytes} (h : Closes a = true) (b : Bytes) : Closes (a ++ b) = true := by
  cases a with
  | nil => cases h
  | cons x a => exact h

/-- A text that ends in an octet of a name opens nothing. -/
theorem not_opens_of_isWord {a d : Bytes} (hne : d ≠ []) (hword : ∀ b ∈ d, Byte.isWord b = true) :
    ¬Opens (a ++ d) = true := by
  rw [Opens, List.getLast?_append, List.getLast?_eq_some_getLast hne]
  simp [hword _ (List.getLast_mem hne)]

theorem utf8_bracket : utf8 "(" = [40] := rfl

namespace CallFree

variable {a b s : Bytes}

/-- Where there is no opening bracket there is no call. -/
theorem of_not_mem (h : 40 ∉ s) : CallFree s := by
  rintro w ⟨pre, post, rfl, -⟩
  exact h (by simp [utf8_bracket])

/-- No bracket of the text stands behind a helper's name. What is in front of the text is given last
octet first. -/
def unnamed : Bytes → Bytes → Bool
  | _, [] => true
  | seen, b :: s => (b != 40 || Helper.all.all fun h => !h.word.reverse.isPrefixOf seen) && unnamed (b :: seen) s

theorem not_suffix_of_unnamed {w : Helper} {post : Bytes} : ∀ {pre seen : Bytes},
    unnamed seen (pre ++ 40 :: post) = true → ¬w.word <:+ seen.reverse ++ pre
  | [], seen, h => by
    rw [List.nil_append, unnamed, Bool.and_eq_true] at h
    have hall : (Helper.all.all fun h => !h.word.reverse.isPrefixOf seen) = true := by simpa using h.1
    have hnone := List.all_eq_true.1 hall w (show w ∈ Helper.all by cases w <;> decide)
    rw [Bool.not_eq_true'] at hnone
    rw [List.append_nil, ← List.reverse_prefix, List.reverse_reverse, ← List.isPrefixOf_iff_prefix]
    exact Bool.eq_false_iff.1 hnone
  | b :: pre, seen, h => by
    rw [List.cons_append, unnamed, Bool.and_eq_true] at h
    have hrest := not_suffix_of_unnamed (w := w) h.2
    rwa [List.reverse_cons, List.append_assoc, List.singleton_append] at hrest

/-- Brackets are fewer than places where a name could begin. -/
theorem of_unnamed (h : unnamed [] s = true) : CallFree s := by
  rintro w ⟨pre, post, rfl, -⟩
  rw [utf8_bracket, List.append_assoc, List.singleton_append] at h
  exact not_suffix_of_unnamed h ⟨pre, rfl⟩

/-- Fixed lines are searched in the octets that they are stored in. -/
theorem of_fixed {ls : List String} (h : ∀ s ∈ ls, unnamed [] s.toByteArray.data.toList = true) :
    ∀ l ∈ fixed ls, CallFree l := by
  intro l hl
  obtain ⟨s, hs, rfl⟩ := List.mem_map.1 hl
  rw [utf8_eq_toByteArray]
  exact of_unnamed (h s hs)

/-- Most texts have no bracket, and only the others are searched. -/
instance (s : Bytes) : Decidable (CallFree s) :=
  decidable_of_iff (40 ∉ s ∨ usedIn s = [])
    ⟨fun h => h.elim of_not_mem usedIn_eq_nil.1, fun h => .inr (usedIn_eq_nil.2 h)⟩

/-- A fixed text is computed from the octets that it is stored in. -/
instance (s : String) : Decidable (CallFree (utf8 s)) :=
  decidable_of_iff (CallFree s.toByteArray.data.toList) (by rw [utf8_eq_toByteArray])

/-- A text without a letter in lower case names no helper. -/
theorem of_no_lower (h : ∀ b ∈ s, ¬Byte.isLower b = true) : CallFree s := by
  rintro w ⟨pre, post, rfl, -⟩
  obtain ⟨b, hb, hlower⟩ := exists_lower_mem_word w
  exact h b (by simp [hb]) hlower

/-- **Call-free texts** one behind the other are free of calls where no name runs across the seam. -/
theorem append (ha : CallFree a) (hb : CallFree b) (h : Opens a = true ∨ Closes b = true) : CallFree (a ++ b) := by
  rintro w ⟨pre, post, heq, hpre⟩
  have hword : ∀ x ∈ w.word, Byte.isWord x = true := fun x hx => isWord_of_isLetter (isLetter_of_mem_word x hx)
  obtain ⟨c, hc, rfl⟩ | ⟨c, rfl, -⟩ := List.append_eq_append_iff.1 heq
  · rcases List.eq_nil_or_concat c with rfl | ⟨c, x, rfl⟩
    · -- the bracket ends the first text
      exact ha w ⟨pre, [], by rw [List.append_nil, hc, List.append_nil], hpre⟩
    rw [List.concat_eq_append] at *
    rw [← List.append_assoc] at hc
    obtain ⟨hc, hx⟩ := List.append_inj' hc rfl
    obtain ⟨d, rfl, hd⟩ | ⟨d, rfl, rfl⟩ := List.append_eq_append_iff.1 hc
    · rcases eq_or_ne d [] with rfl | hne
      · exact hb w ⟨[], post, by rw [List.nil_append, hx, hd, List.nil_append], .inl rfl⟩
      · -- the name runs across the seam, or the bracket is right behind it
        have hnot : ¬Opens (pre ++ d) = true := not_opens_of_isWord hne fun x hx => hword x (by simp [hd, hx])
        have hcloses := h.resolve_left hnot
        cases c with
        | nil => exact absurd hcloses (by simp [Closes, ← hx, utf8_bracket])
        | cons y c => exact absurd hcloses (by simp [Closes, hword y (by simp [hd])])
    · -- the name is in the second text
      refine hb w ⟨d, post, by rw [hx], ?_⟩
      rcases d.eq_nil_or_concat with rfl | ⟨d, y, rfl⟩
      · exact .inl rfl
      · refine .inr ?_
        rcases hpre with hpre | hpre
        · simp at hpre
        · simpa [Opens, List.getLast?_append] using hpre
  · exact ha w ⟨pre, c, rfl, hpre⟩

/-- A name that is no helper's, before a bracket. -/
theorem name_call {n : Bytes} (hn : ∀ b ∈ n, Byte.isWord b = true) (hne : ∀ h : Helper, n ≠ h.word) :
    CallFree (n ++ utf8 "(") := by
  rintro w ⟨pre, post, heq, hpre⟩
  have hbracket : (40 : UInt8) ∉ n := fun h => absurd (hn 40 h) (by decide)
  rcases post.eq_nil_or_concat with rfl | ⟨post, x, rfl⟩
  · rw [List.append_nil] at heq
    have hsame := (List.append_inj' heq rfl).1
    rcases eq_or_ne pre [] with rfl | hne'
    · exact hne w (by simpa using hsame)
    · refine not_opens_of_isWord (a := []) hne' (fun b hb => hn b (by simp [hsame, hb])) ?_
      exact hpre.resolve_left hne'
  · rw [List.concat_eq_append, ← List.append_assoc] at heq
    refine hbracket ?_
    rw [(List.append_inj' heq rfl).1]
    simp [utf8_bracket]

/-- A call of a name that is no helper's, behind text without one. -/
theorem call {n : Bytes} (ha : CallFree a) (hopens : Opens a = true) (hn : ∀ b ∈ n, Byte.isWord b = true)
    (hne : ∀ h : Helper, n ≠ h.word) (hb : CallFree b) : CallFree (a ++ n ++ utf8 "(" ++ b) := by
  rw [List.append_assoc a n]
  exact ((ha.append (name_call hn hne) (.inl hopens)).append hb
    (.inl (opens_append _ (opens_append _ (by decide)))))

theorem commas {es : List Bytes} (h : ∀ e ∈ es, CallFree e) : CallFree (Dialect.commas es) := by
  unfold Dialect.commas
  induction es with
  | nil => simpa [Bytes.join] using of_not_mem (s := []) (by simp)
  | cons e es ih =>
    rw [List.forall_mem_cons] at h
    cases es with
    | nil => simpa [Bytes.join] using h.1
    | cons e' es =>
      have hrest : CallFree (utf8 ", " ++ Bytes.join (utf8 ", ") (e' :: es)) :=
        append (by decide) (ih h.2) (.inl (by decide))
      simpa [Bytes.join] using h.1.append hrest (.inr (closes_append (by decide) _))

theorem unlines {ls : List Line} (h : ∀ l ∈ ls, CallFree l) : CallFree (Glue.unlines ls) := by
  induction ls with
  | nil => exact of_not_mem (by simp [Glue.unlines])
  | cons l ls ih =>
    rw [List.forall_mem_cons] at h
    have hfeed : CallFree ([10] ++ Glue.unlines ls) := append (by decide) (ih h.2) (.inl (by decide))
    rw [unlines_cons]
    change CallFree (l ++ ([10] ++ Glue.unlines ls))
    exact h.1.append hfeed (.inr (closes_append (by decide) _))

theorem indent {ls : List Line} (h : ∀ l ∈ ls, CallFree l) : ∀ l ∈ Glue.indent unit ls, CallFree l := by
  intro l hl
  obtain ⟨l', hl', rfl⟩ := List.mem_map.1 hl
  split
  · exact h l' hl'
  · exact append (by decide) (h l' hl') (.inl (by decide))

end CallFree

/-! ## Quoted names -/

/-- What stands behind a backslash in quoted text. -/
def isEscape : Bytes → Bool
  | [] => false
  | c :: digits =>
    ([97, 98, 116, 110, 118, 102, 114, 34, 92].contains c && digits.isEmpty)
      || ([120, 117, 85].contains c && !digits.isEmpty && digits.all fun d => (Byte.hexValue? d).isSome)

/-- **No escape is the start of a helper's name**: only `unsupported` starts with the letter of one,
and `n` is no hexadecimal digit. -/
theorem not_isEscape_of_start {h : Helper} {w : Bytes} (hw : w <+: h.word) : ¬isEscape w = true := by
  have hall : ∀ h ∈ Helper.all, ∀ w ∈ h.word.inits, ¬isEscape w = true := by decide +kernel
  exact hall h (by cases h <;> decide) w ((List.mem_inits w h.word).2 hw)

/-- An escape is of letters and digits, but for those of a quote and a backslash. -/
theorem isEscape_cases {t : Bytes} (h : isEscape t = true) :
    t = [34] ∨ t = [92] ∨ ∀ b ∈ t, Byte.isWord b = true := by
  match t with
  | c :: digits =>
    rw [isEscape, Bool.or_eq_true, Bool.and_eq_true, Bool.and_eq_true, Bool.and_eq_true] at h
    rcases h with ⟨hc, hnil⟩ | ⟨⟨hc, -⟩, hdigits⟩
    · obtain rfl := List.isEmpty_iff.1 hnil
      have hletter : ∀ c ∈ ([97, 98, 116, 110, 118, 102, 114, 34, 92] : Bytes),
          c = 34 ∨ c = 92 ∨ Byte.isWord c = true := by decide +kernel
      rcases hletter c (List.contains_iff_mem.1 hc) with rfl | rfl | hword
      · exact .inl rfl
      · exact .inr (.inl rfl)
      · exact .inr (.inr (by simpa using hword))
    · have hletter : ∀ c ∈ ([120, 117, 85] : Bytes), Byte.isWord c = true := by decide +kernel
      have hhex : ∀ d : UInt8, (Byte.hexValue? d).isSome = true → Byte.isWord d = true :=
        Byte.forall_octets (by decide +kernel)
      refine .inr (.inr (List.forall_mem_cons.2 ⟨hletter c (List.contains_iff_mem.1 hc), fun d hd => ?_⟩))
      exact hhex d (List.all_eq_true.1 hdigits d hd)

theorem hexValue?_of_mem_hexDigits {b : UInt8} : ∀ {width n : Nat}, b ∈ Quoted.hexDigits width n →
    (Byte.hexValue? b).isSome = true
  | 0, _, h => by simp [Quoted.hexDigits] at h
  | width + 1, n, h => by
    rw [Quoted.hexDigits, List.mem_append, List.mem_singleton] at h
    rcases h with h | rfl
    · exact hexValue?_of_mem_hexDigits h
    · have hdigit : ∀ k : Fin 16, (Byte.hexValue? (Byte.hexDigit k.val)).isSome = true := by decide
      exact hdigit ⟨n % 16, Nat.mod_lt _ (by decide)⟩

theorem isEscape_hexDigits {c : UInt8} (hc : c ∈ ([120, 117, 85] : Bytes)) (width n : Nat) :
    isEscape (c :: Quoted.hexDigits (width + 1) n) = true := by
  have hdigits : (Quoted.hexDigits (width + 1) n).all (fun d => (Byte.hexValue? d).isSome) = true :=
    List.all_eq_true.2 fun d hd => hexValue?_of_mem_hexDigits hd
  have hne : (Quoted.hexDigits (width + 1) n).isEmpty = false := by simp [Quoted.hexDigits]
  rw [isEscape, hdigits, hne, List.contains_iff_mem.2 hc]
  simp

/-- A character is one ASCII octet or octets that are none. -/
theorem octets_of_char (c : Char) : (∃ b, b < 0x80 ∧ String.utf8EncodeChar c = [b]) ∨
    String.utf8EncodeChar c ≠ [] ∧ ∀ b ∈ String.utf8EncodeChar c, ¬b < 0x80 := by
  have hrange := c.valid
  rw [String.utf8EncodeChar]
  simp only [UInt8.lt_iff_toNat_lt]
  split
  · refine .inl ⟨_, ?_, rfl⟩
    simp only [UInt8.toNat_ofNat', UInt8.reduceToNat]
    omega
  · refine .inr ⟨by split <;> [skip; split] <;> simp, ?_⟩
    split
    · simp only [List.forall_mem_cons, UInt8.toNat_ofNat', UInt8.reduceToNat]
      refine ⟨by omega, by omega, by simp⟩
    · split
      · simp only [List.forall_mem_cons, UInt8.toNat_ofNat', UInt8.reduceToNat]
        refine ⟨by omega, by omega, by omega, by simp⟩
      · simp only [List.forall_mem_cons, UInt8.toNat_ofNat', UInt8.reduceToNat]
        refine ⟨by omega, by omega, by omega, by omega, by simp⟩

/-- A unit stands in quotes as the ASCII octet it is, as octets that are none, or as an escape. -/
theorem encodeUnit_cases (u : TextUnit) :
    (∃ b, Quoted.encodeUnit u = [b] ∧ u.bytes = [b]) ∨
      (Quoted.encodeUnit u ≠ [] ∧ ∀ b ∈ Quoted.encodeUnit u, ¬b < 0x80) ∨
      ∃ t, isEscape t = true ∧ Quoted.encodeUnit u = 92 :: t := by
  cases u with
  | stray b => exact .inr (.inr ⟨_, isEscape_hexDigits (by decide) 1 b.toNat, rfl⟩)
  | char c =>
    rw [Quoted.encodeUnit]
    split
    · rename_i l hl
      refine .inr (.inr ⟨[l], ?_, rfl⟩)
      unfold Quoted.letter? at hl
      split at hl <;> cases hl <;> rfl
    · split
      · rcases octets_of_char c with ⟨b, -, hb⟩ | hwide
        · exact .inl ⟨b, hb, hb⟩
        · exact .inr (.inl hwide)
      · split
        · exact .inr (.inr ⟨_, isEscape_hexDigits (by decide) 1 c.toNat, rfl⟩)
        · split
          · exact .inr (.inr ⟨_, isEscape_hexDigits (by decide) 3 c.toNat, rfl⟩)
          · exact .inr (.inr ⟨_, isEscape_hexDigits (by decide) 7 c.toNat, rfl⟩)

theorem plain_of_mem_word {h : Helper} {b : UInt8} (hb : b ∈ h.word) : b ≠ 92 ∧ b ≠ 34 ∧ b < 0x80 :=
  Byte.forall_octets (P := fun b => Byte.isLetter b = true → b ≠ 92 ∧ b ≠ 34 ∧ b < 0x80) (by decide +kernel) b
    (isLetter_of_mem_word b hb)

/-- The start of a helper's name, behind no octet of a name, does not end in an escape. -/
theorem not_escape_of_append {h : Helper} {v front t pre : Bytes} {x : UInt8} (hw : v ++ [x] <+: h.word)
    (ht : isEscape t = true) (heq : front ++ 92 :: t = pre ++ (v ++ [x])) (hpre : pre = [] ∨ Opens pre = true) : False := by
  have hplain : ∀ b ∈ v ++ [x], b ≠ 92 ∧ b ≠ 34 ∧ b < 0x80 := fun b hb => plain_of_mem_word (hw.subset hb)
  obtain ⟨d, -, hd⟩ | ⟨d, rfl, hd⟩ := List.append_eq_append_iff.1 heq.symm
  · exact (hplain 92 (by simp [hd])).1 rfl
  cases d with
  | nil =>
    rw [List.nil_append] at hd
    exact (hplain 92 (hd ▸ List.mem_cons_self)).1 rfl
  | cons y d =>
    rw [List.cons_append, List.cons.injEq] at hd
    obtain ⟨rfl, htail⟩ := hd
    have hx : x ∈ t := by simp [htail]
    obtain ⟨hslash, hquote, -⟩ := hplain x (by simp)
    rcases eq_or_ne d [] with rfl | hne
    · rw [List.nil_append] at htail
      exact absurd (htail ▸ ht) (not_isEscape_of_start hw)
    rcases isEscape_cases ht with rfl | rfl | hword
    · exact hquote (List.mem_singleton.1 hx)
    · exact hslash (List.mem_singleton.1 hx)
    · rw [List.append_cons] at hpre
      have hopens := hpre.resolve_left (by simp)
      exact absurd hopens (not_opens_of_isWord hne fun b hb => hword b (by simp [htail, hb]))

/-- The start of a helper's name that stands between quotes, behind no octet of a name, is written out
in what is quoted. By induction on the name from its end: an octet of it is a unit of its own, for
the rest of an escape runs back to the backslash. -/
theorem suffix_of_quoted {h : Helper} (w : Bytes) (hw : w <+: h.word) : ∀ (us : List TextUnit) (pre : Bytes),
    us.flatMap Quoted.encodeUnit = pre ++ w → (pre = [] ∨ Opens pre = true) → w <:+ Utf8.bytesOf us := by
  induction w using List.reverseRecOn with
  | nil => exact fun us pre _ _ => List.nil_suffix
  | append_singleton v x ih =>
    intro us pre heq hpre
    rcases us.eq_nil_or_concat with rfl | ⟨us, u, rfl⟩
    · simp at heq
    rw [List.concat_eq_append, List.flatMap_append, List.flatMap_cons, List.flatMap_nil, List.append_nil] at heq
    rcases encodeUnit_cases u with ⟨b, hcode, hbytes⟩ | ⟨hne, hwide⟩ | ⟨t, ht, hcode⟩
    · rw [hcode, ← List.append_assoc] at heq
      obtain ⟨heq, hb⟩ := List.append_inj' heq rfl
      obtain ⟨init, hinit⟩ := ih ((List.prefix_append v [x]).trans hw) us pre heq hpre
      refine ⟨init, ?_⟩
      rw [List.concat_eq_append, Utf8.bytesOf, List.flatMap_append, List.flatMap_cons, List.flatMap_nil, List.append_nil,
        hbytes, hb, ← List.append_assoc, hinit, Utf8.bytesOf]
    · obtain ⟨init, y, hy⟩ := (Quoted.encodeUnit u).eq_nil_or_concat.resolve_left hne
      rw [hy, List.concat_eq_append, ← List.append_assoc, ← List.append_assoc] at heq
      obtain rfl : y = x := List.singleton_inj.1 (List.append_inj' heq rfl).2
      exact absurd (plain_of_mem_word (hw.subset (by simp))).2.2 (hwide y (by simp [hy]))
    · rw [hcode] at heq
      exact (not_escape_of_append hw ht heq hpre).elim

/-- Only a bracket is quoted as one. -/
theorem encodeUnit_bracket {u : TextUnit} (h : 40 ∈ Quoted.encodeUnit u) :
    Quoted.encodeUnit u = [40] ∧ u.bytes = [40] := by
  rcases encodeUnit_cases u with ⟨b, hcode, hbytes⟩ | ⟨-, hwide⟩ | ⟨t, ht, hcode⟩
  · obtain rfl : 40 = b := by simpa [hcode] using h
    exact ⟨hcode, hbytes⟩
  · exact absurd (by decide) (hwide 40 h)
  · have hmem : 40 ∈ t := by simpa [hcode] using h
    rcases isEscape_cases ht with rfl | rfl | hword
    · exact absurd hmem (by decide)
    · exact absurd hmem (by decide)
    · exact absurd (hword 40 hmem) (by decide)

/-- A bracket between quotes is one in what is quoted. -/
theorem split_at_bracket : ∀ {us : List TextUnit} {a b : Bytes}, us.flatMap Quoted.encodeUnit = a ++ 40 :: b →
    ∃ us₁ us₂, us₁.flatMap Quoted.encodeUnit = a ∧ Utf8.bytesOf us = Utf8.bytesOf us₁ ++ 40 :: Utf8.bytesOf us₂
  | [], a, b, h => by simp at h
  | u :: us, a, b, h => by
    rw [List.flatMap_cons] at h
    obtain ⟨c, rfl, hc⟩ | ⟨c, hu, hc⟩ := List.append_eq_append_iff.1 h
    · obtain ⟨us₁, us₂, hus, hbytes⟩ := split_at_bracket hc
      exact ⟨u :: us₁, us₂, by rw [List.flatMap_cons, hus], by rw [Utf8.bytesOf_cons, hbytes, Utf8.bytesOf_cons, List.append_assoc]⟩
    · cases c with
      | nil =>
        rw [List.append_nil] at hu
        obtain ⟨us₁, us₂, hus, hbytes⟩ := split_at_bracket (a := []) hc.symm
        refine ⟨u :: us₁, us₂, by rw [List.flatMap_cons, hus, hu, List.append_nil], ?_⟩
        rw [Utf8.bytesOf_cons, hbytes, Utf8.bytesOf_cons, List.append_assoc]
      | cons x c =>
        obtain ⟨rfl, -⟩ := List.cons.inj hc
        obtain ⟨hcode, hbytes⟩ := encodeUnit_bracket (u := u) (by simp [hu])
        rw [hcode] at hu
        obtain rfl : a = [] := by
          cases a with
          | nil => rfl
          | cons y a => simp at hu
        exact ⟨[], us, rfl, by rw [Utf8.bytesOf_cons, hbytes]; rfl⟩

/-- No helper's name stands in the name before a bracket. -/
def Mute (n : Bytes) : Prop := ∀ h : Helper, ¬h.word ++ utf8 "(" <:+: n

theorem Mute.of_not_mem {n : Bytes} (h : 40 ∉ n) : Mute n := fun _ hin => h (hin.subset (by simp [utf8_bracket]))

/-- **Quoting a name** makes no call of it. -/
theorem callFree_quote {n : Bytes} (hn : Mute n) : CallFree n.quote := by
  rintro w ⟨pre, post, heq, hpre⟩
  have hletter : ∀ b ∈ w.word, b ≠ 34 := fun b hb => (plain_of_mem_word hb).2.1
  rw [Bytes.quote, utf8_bracket] at heq
  -- the quotes are no part of the call
  obtain ⟨pre, rfl, hbody⟩ : ∃ a, pre = 34 :: a ∧
      (Utf8.units n).flatMap Quoted.encodeUnit ++ [34] = a ++ w.word ++ [40] ++ post := by
    cases pre with
    | nil =>
      obtain ⟨_, hmem, -⟩ := exists_lower_mem_word w
      obtain ⟨b, t, hw⟩ := List.exists_cons_of_ne_nil (List.ne_nil_of_mem hmem)
      rw [hw] at heq hletter
      exact absurd (List.cons.inj heq).1.symm (hletter b List.mem_cons_self)
    | cons x a =>
      obtain ⟨rfl, hbody⟩ := List.cons.inj heq
      exact ⟨a, rfl, hbody⟩
  rcases post.eq_nil_or_concat with rfl | ⟨post, x, rfl⟩
  · rw [List.append_nil] at hbody
    exact absurd (List.append_inj' hbody rfl).2 (by decide)
  rw [List.concat_eq_append, ← List.append_assoc] at hbody
  have hcode := (List.append_inj' hbody rfl).1
  rw [List.append_assoc (pre ++ w.word)] at hcode
  obtain ⟨us₁, us₂, hus, hbytes⟩ := split_at_bracket hcode
  have hopens : pre = [] ∨ Opens pre = true := by
    rcases eq_or_ne pre [] with rfl | hne
    · exact .inl rfl
    · obtain ⟨a, y, rfl⟩ := pre.eq_nil_or_concat.resolve_left hne
      have hopens := hpre.resolve_left (List.cons_ne_nil _ _)
      exact .inr (by simpa [Opens, List.getLast?_cons] using hopens)
  obtain ⟨init, hinit⟩ := suffix_of_quoted w.word List.prefix_rfl us₁ pre hus hopens
  rw [Utf8.bytesOf_units, ← hinit] at hbytes
  exact hn w ⟨init, Utf8.bytesOf us₂, by rw [hbytes, utf8_bracket]; simp⟩

end Bindery.Glue.JavaScript
