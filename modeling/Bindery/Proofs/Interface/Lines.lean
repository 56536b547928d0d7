/-
Texts line by line. Where a recogniser makes of each line what is said of it, whatever
follows the line, scanning finds just that (`scanFrom_lines`): a stretch that was found ends on
its line or with it, so no line hides or swallows the next. Blanking what was found blanks
it line by line (`blankOut_found`).
-/
import Bindery.Interface.Line

namespace Bindery.Interface

variable {α ε : Type}

/-- A text that is empty or starts with an octet of some sort. -/
def Starts (first : UInt8 → Bool) (s : Bytes) : Prop := ∀ b ∈ s.head?, first b = true

/-- What a recogniser makes of a line without its line feed: nothing, or a value and the length
of the stretch it was found in. What follows the line starts with an octet of some sort. -/
def Recognises (recognise : Bytes → Option (α × Bytes)) (first : UInt8 → Bool) (line : Bytes) :
    Option (α × Nat) → Prop
  | none => ∀ rest, Starts first rest → recognise (line ++ 10 :: rest) = none
  | some (value, length) => 0 < length ∧ length ≤ line.length + 1 ∧
    ∀ rest, Starts first rest → recognise (line ++ 10 :: rest) = some (value, (line ++ 10 :: rest).drop length)

/-- A stretch that was found ends with its line. -/
theorem Recognises.length_le {recognise : Bytes → Option (α × Bytes)} {first : UInt8 → Bool} {line : Bytes}
    {found : Option (α × Nat)} (h : Recognises recognise first line found) : ∀ f ∈ found, f.2 ≤ line.line.length := by
  rintro ⟨value, length⟩ rfl
  simpa [Bytes.line] using h.2.1

/-- What is found in lines of a given width. -/
def foundsIn (width : ε → Nat) (pick : ε → Option (α × Nat)) : Nat → List ε → List (Found α)
  | _, [] => []
  | pos, e :: es =>
    match pick e with
    | some (value, length) => { start := pos, length, value } :: foundsIn width pick (pos + width e) es
    | none => foundsIn width pick (pos + width e) es

/-! ## Scanning -/

section scan

variable {recognise : Bytes → Option (α × Bytes)}

/-- The rest of a line is passed over, as long as no stretch reaches further. -/
theorem scanFrom_rest (rest : Bytes) : ∀ (line : Bytes) (skip pos : Nat), 10 ∉ line → skip ≤ line.length + 1 →
    scanFrom recognise skip false pos (line ++ 10 :: rest) = scanFrom recognise 0 true (pos + (line.length + 1)) rest
  | [], 0, pos, _, _ => rfl
  | [], 1, pos, _, _ => rfl
  | b :: line, 0, pos, hline, _ => by
    obtain ⟨hb, hline⟩ := List.ne_and_not_mem_of_not_mem_cons hline
    have hfresh : (b == 10) = false := by simpa using hb.symm
    rw [List.cons_append, scanFrom, hfresh, scanFrom_rest rest line 0 (pos + 1) hline (Nat.zero_le _), List.length_cons]
    congr 1
    omega
  | b :: line, skip + 1, pos, hline, hskip => by
    obtain ⟨hb, hline⟩ := List.ne_and_not_mem_of_not_mem_cons hline
    have hfresh : (b == 10) = false := by simpa using hb.symm
    rw [List.length_cons] at hskip
    rw [List.cons_append, scanFrom, hfresh, scanFrom_rest rest line skip (pos + 1) hline (by omega), List.length_cons]
    congr 1
    omega

/-- **One line**: what is found in it, if anything, and the lines after it. -/
theorem scanFrom_line {first : UInt8 → Bool} {line rest : Bytes} {found : Option (α × Nat)} (hne : line ≠ [])
    (hline : 10 ∉ line) (hrest : Starts first rest) (h : Recognises recognise first line found) (pos : Nat) :
    scanFrom recognise 0 true pos (line ++ 10 :: rest) =
      (found.map fun f => { start := pos, length := f.2, value := f.1 }).toList
        ++ scanFrom recognise 0 true (pos + (line.length + 1)) rest := by
  obtain ⟨b, line, rfl⟩ := List.exists_cons_of_ne_nil hne
  obtain ⟨hb, htail⟩ := List.ne_and_not_mem_of_not_mem_cons hline
  have hfresh : (b == 10) = false := by simpa using hb.symm
  have hskip : ∀ skip ≤ line.length + 1, scanFrom recognise skip false (pos + 1) (line ++ 10 :: rest) =
      scanFrom recognise 0 true (pos + ((b :: line).length + 1)) rest := by
    intro skip hle
    rw [scanFrom_rest rest line skip (pos + 1) htail hle, List.length_cons]
    congr 1
    omega
  cases found with
  | none =>
    have hnone := h rest hrest
    rw [List.cons_append] at hnone ⊢
    rw [scanFrom, hnone]
    dsimp only
    rw [hfresh, hskip 0 (Nat.zero_le _)]
    rfl
  | some f =>
    obtain ⟨value, length⟩ := f
    obtain ⟨hpos, hle, hsome⟩ := h
    have hsome := hsome rest hrest
    rw [List.length_cons] at hle
    rw [List.cons_append] at hsome ⊢
    have hlength : (line ++ 10 :: rest).length + 1 - ((b :: (line ++ 10 :: rest)).drop length).length = length := by
      rw [List.length_drop, List.length_cons, List.length_append, List.length_cons]
      omega
    rw [scanFrom, hsome]
    dsimp only
    rw [hlength, hfresh, hskip (length - 1) (by omega)]
    rfl

/-- Lines that follow each other. -/
theorem starts_lines {first : UInt8 → Bool} {text : ε → Bytes} {es : List ε}
    (h : ∀ e ∈ es, text e ≠ [] ∧ Starts first (text e)) : Starts first (es.flatMap fun e => (text e).line) := by
  cases es with
  | nil => simp [Starts]
  | cons e es =>
    obtain ⟨hne, hstarts⟩ := h e (by simp)
    obtain ⟨b, t, ht⟩ := List.exists_cons_of_ne_nil hne
    rw [ht] at hstarts
    simpa [Starts, Bytes.line, ht] using hstarts

/-- **Scanning lines** finds what each line is said to hold. -/
theorem scanFrom_lines {first : UInt8 → Bool} {text : ε → Bytes} {pick : ε → Option (α × Nat)} :
    ∀ {es : List ε} (pos : Nat), (∀ e ∈ es, text e ≠ [] ∧ Starts first (text e)) → (∀ e ∈ es, 10 ∉ text e) →
      (∀ e ∈ es, Recognises recognise first (text e) (pick e)) →
      scanFrom recognise 0 true pos (es.flatMap fun e => (text e).line) =
        foundsIn (fun e => (text e).length + 1) pick pos es
  | [], _, _, _, _ => rfl
  | e :: es, pos, hstart, hline, hpick => by
    obtain ⟨⟨hne, -⟩, hstarts⟩ := List.forall_mem_cons.1 hstart
    obtain ⟨hl, hlines⟩ := List.forall_mem_cons.1 hline
    obtain ⟨hp, hpicks⟩ := List.forall_mem_cons.1 hpick
    have hsplit : ((e :: es).flatMap fun e => (text e).line) = text e ++ 10 :: es.flatMap fun e => (text e).line := by
      simp [Bytes.line]
    rw [hsplit, scanFrom_line hne hl (starts_lines hstarts) hp, scanFrom_lines _ hstarts hlines hpicks, foundsIn]
    cases pick e <;> rfl

end scan

/-! ## Blanking -/

theorem length_blankOut (start length : Nat) (s : Bytes) : (blankOut start length s).length = s.length := by
  simp only [blankOut, List.length_append, List.length_take, List.length_map, List.length_drop]
  omega

/-- A stretch inside one of several texts. -/
theorem blankOut_append {n : Nat} {mid : Bytes} (h : n ≤ mid.length) (pre rest : Bytes) :
    blankOut pre.length n (pre ++ (mid ++ rest)) = pre ++ (blankOut 0 n mid ++ rest) := by
  have hrest : (pre ++ (mid ++ rest)).drop (pre.length + n) = mid.drop n ++ rest := by
    rw [List.drop_append, List.drop_eq_nil_of_le (by omega), List.nil_append, Nat.add_sub_cancel_left,
      List.drop_append_of_le_length h]
  rw [blankOut, blankOut, hrest, List.take_left', List.drop_left', List.take_append_of_le_length h]
  · simp
  · rfl
  · rfl

/-- A line in which what was found is blanked. -/
def blankedLine (pick : ε → Option (α × Nat)) (line : ε → Bytes) (e : ε) : Bytes :=
  match pick e with
  | some (_, length) => blankOut 0 length (line e)
  | none => line e

theorem length_blankedLine (pick : ε → Option (α × Nat)) (line : ε → Bytes) (e : ε) :
    (blankedLine pick line e).length = (line e).length := by
  rw [blankedLine]
  split
  · exact length_blankOut _ _ _
  · rfl

/-- **Blanking what was found** in lines blanks it line by line. -/
theorem blankOut_found {width : ε → Nat} {pick : ε → Option (α × Nat)} {line : ε → Bytes} :
    ∀ {es : List ε} (pre : Bytes), (∀ e ∈ es, width e = (line e).length) →
      (∀ e ∈ es, ∀ f ∈ pick e, f.2 ≤ (line e).length) →
      (foundsIn width pick pre.length es).foldl (fun t f => blankOut f.start f.length t) (pre ++ es.flatMap line) =
        pre ++ es.flatMap (blankedLine pick line)
  | [], pre, _, _ => rfl
  | e :: es, pre, hwidth, hpick => by
    obtain ⟨hw, hwidths⟩ := List.forall_mem_cons.1 hwidth
    obtain ⟨hp, hpicks⟩ := List.forall_mem_cons.1 hpick
    have ih := blankOut_found (pre ++ blankedLine pick line e) hwidths hpicks
    rw [List.length_append, length_blankedLine, ← hw, List.append_assoc, List.append_assoc] at ih
    rw [List.flatMap_cons, List.flatMap_cons, ← ih, foundsIn]
    cases hfound : pick e with
    | none => rw [blankedLine, hfound]
    | some f =>
      rw [List.foldl_cons]
      dsimp only
      rw [blankOut_append (hp f hfound), blankedLine, hfound]

end Bindery.Interface
