/-
Dividing a list into its items undoes joining them. The depth of a text is how many brackets it opens
less how many it closes; the divider keeps it while it reads (`pieces_through`), so a text that is joined
from pieces without a comma at depth zero is divided into them again (`pieces_of_join`). Whatever the
brackets, the pieces of a text joined are the text (`join_pieces`), and of a piece only white space is lost.
-/
import Bindery.Proofs.Bytes.Characters
import Bindery.Proofs.Bytes.Pieces
import Bindery.Proofs.Interface.Items

namespace Bindery.Interface

open Blank (IsBlankText)
open Bytes (IsTrimmed)

/-! ## Brackets -/

/-- How many brackets a text opens, less how many it closes, round and angle brackets counted together. -/
def bracketDepth (s : Bytes) : Int := (s.count 40 + s.count 60 : Int) - (s.count 41 + s.count 62)

theorem bracketDepth_cons (b : UInt8) (s : Bytes) : bracketDepth (b :: s) = bracketStep b + bracketDepth s := by
  by_cases hb : b ∈ [40, 41, 60, 62]
  · simp only [List.mem_cons, List.not_mem_nil, or_false] at hb
    rcases hb with rfl | rfl | rfl | rfl <;> simp [bracketDepth, bracketStep] <;> omega
  · simp only [List.mem_cons, List.not_mem_nil, or_false, not_or] at hb
    simp [bracketDepth, bracketStep, hb]

/-- What is read whole is added to the piece being read, and its depth to the depth. -/
theorem pieces_through {s : Bytes} : ∀ {d : Int},
    (∀ i (hi : i < s.length), s[i] = 44 → d + bracketDepth (s.take i) ≠ 0) → ∀ current rest,
      pieces d current (s ++ rest) = pieces (d + bracketDepth s) (s.reverse ++ current) rest := by
  induction s with
  | nil => exact fun _ current rest => by simp [bracketDepth]
  | cons b s ih =>
    intro d h current rest
    have hcomma : ¬(b = 44 ∧ d = 0) := fun ⟨hb, hd⟩ => h 0 (by simp) hb (by simp [hd, bracketDepth])
    -- the prefixes of the rest are those of the text without their first octet
    have hrest : ∀ i (hi : i < s.length), s[i] = 44 → d + bracketStep b + bracketDepth (s.take i) ≠ 0 := by
      intro i hi hs
      have hnext := h (i + 1) (by simpa using hi) hs
      rwa [List.take_succ_cons, bracketDepth_cons, ← Int.add_assoc] at hnext
    rw [List.cons_append, pieces, if_neg hcomma, ih hrest, bracketDepth_cons, Int.add_assoc]
    simp

/-! ## Joining -/

/-- An item of a list: a valid text that is neither empty nor begins or ends with white space, that
closes only the brackets it opens and all of them, and has no comma outside its brackets. -/
structure IsEntry (x : Bytes) : Prop where
  valid : Utf8.valid x = true
  ne_nil : x ≠ []
  trimmed : x.IsTrimmed
  closes : ∀ i ≤ x.length, 0 ≤ bracketDepth (x.take i)
  balanced : bracketDepth x = 0
  comma : ∀ i (hi : i < x.length), x[i] = 44 → bracketDepth (x.take i) ≠ 0

/-- Items with white space around them, and between them pieces of white space that hold none. -/
inductive Padded : List Bytes → List Bytes → Prop
  | nil : Padded [] []
  | empty {w : Bytes} {xs ps : List Bytes} : IsBlankText w → Padded xs ps → Padded xs (w :: ps)
  | item {v x w : Bytes} {xs ps : List Bytes} : IsBlankText v → IsBlankText w → Padded xs ps →
    Padded (x :: xs) ((v ++ x ++ w) :: ps)

theorem IsEntry.passes {x : Bytes} (h : IsEntry x) : Passes 0 x := by
  intro d hd current rest
  have hcomma : ∀ i (hi : i < x.length), x[i] = 44 → d + bracketDepth (x.take i) ≠ 0 := by
    intro i hi hx
    have hinside := h.comma i hi hx
    have hclosed := h.closes i (Nat.le_of_lt hi)
    omega
  rw [pieces_through hcomma, h.balanced, Int.add_zero]

/-- White space holds no mark that a list is divided by. -/
theorem passes_blank {w : Bytes} (hw : IsBlankText w) : Passes 0 w := by
  have hmarks : ∀ b ∈ ([40, 41, 44, 60, 62] : Bytes), b < 0x80 ∧ Blank.isBlankByte b = false := by
    simp [Blank.isBlankByte]
  have hnot : ∀ b ∈ w, b ∉ [40, 41, 44, 60, 62] := by
    intro b hb hmark
    obtain ⟨hascii, hblank⟩ := hmarks b hmark
    rw [hw.isBlankByte hb hascii] at hblank
    cases hblank
  refine passes_of_all fun b hb => ?_
  have hb' := hnot b hb
  simp only [List.mem_cons, List.not_mem_nil, or_false, not_or] at hb'
  obtain ⟨h40, h41, h44, h60, h62⟩ := hb'
  exact ⟨by simp [bracketStep, h40, h41, h60, h62], fun h => absurd h h44⟩

/-- **Pieces that pass are found again** in the text that is joined from them. -/
theorem pieces_of_join : ∀ {ps : List Bytes}, ps ≠ [] → (∀ p ∈ ps, Passes 0 p) →
    pieces 0 [] (Bytes.join [44] ps) = ps
  | [p], _, hps => by
    have hp := hps p (by simp) 0 (Int.le_refl 0) [] []
    rw [List.append_nil] at hp
    rw [Bytes.join, List.intercalate_singleton, hp]
    simp [pieces]
  | p :: q :: ps, _, hps => by
    obtain ⟨hp, hrest⟩ := List.forall_mem_cons.1 hps
    rw [Bytes.join_cons_cons, hp 0 (Int.le_refl 0), pieces, if_pos ⟨rfl, rfl⟩,
      pieces_of_join (List.cons_ne_nil q ps) hrest]
    simp

theorem Padded.pieces {xs ps : List Bytes} (h : Padded xs ps) (hxs : ∀ x ∈ xs, IsEntry x) :
    ∀ p ∈ ps, Passes 0 p ∧ Utf8.valid p = true := by
  induction h with
  | nil => simp
  | empty hw _ ih => exact List.forall_mem_cons.2 ⟨⟨passes_blank hw, hw.valid⟩, ih hxs⟩
  | item hv hw _ ih =>
    obtain ⟨hx, hxs⟩ := List.forall_mem_cons.1 hxs
    exact List.forall_mem_cons.2 ⟨⟨((passes_blank hv).append hx.passes).append (passes_blank hw),
      Utf8.valid_append (Utf8.valid_append hv.valid hx.valid) hw.valid⟩, ih hxs⟩

/-- Trimming the pieces and leaving out the empty ones gives the items. -/
theorem Padded.items {xs ps : List Bytes} (h : Padded xs ps) (hxs : ∀ x ∈ xs, IsEntry x) :
    (ps.map Bytes.trim).filter (fun p => !p.isEmpty) = xs := by
  induction h with
  | nil => rfl
  | empty hw _ ih => rw [List.map_cons, Bytes.trim_of_isBlankText hw, List.filter_cons_of_neg (by simp), ih hxs]
  | item hv hw _ ih =>
    obtain ⟨hx, hxs⟩ := List.forall_mem_cons.1 hxs
    rw [List.map_cons, Bytes.trim_around hv hw hx.valid hx.trimmed, List.filter_cons_of_pos (by simp [hx.ne_nil]),
      ih hxs]

theorem scrub_of_valid {s : Bytes} (h : Utf8.valid s = true) : scrub s = s := by
  obtain ⟨cs, hcs⟩ := Utf8.exists_chars (Utf8.isChar_of_valid h)
  conv_rhs => rw [← Utf8.bytesOf_units s, hcs]
  rw [scrub, hcs, List.map_map]
  rfl

theorem valid_join {ps : List Bytes} (hps : ∀ p ∈ ps, Utf8.valid p = true) :
    Utf8.valid (Bytes.join [44] ps) = true := by
  match ps with
  | [] => simp [Bytes.join, Utf8.valid, Utf8.units]
  | [p] => simpa [Bytes.join] using hps
  | p :: q :: ps =>
    obtain ⟨hp, hrest⟩ := List.forall_mem_cons.1 hps
    rw [Bytes.join_cons_cons, ← List.singleton_append (x := 44)]
    exact Utf8.valid_append hp (Utf8.valid_append (Utf8.valid_of_ascii (by decide)) (valid_join hrest))

/-- **Splitting undoes joining.** -/
theorem items_of_padded {xs ps : List Bytes} (h : Padded xs ps) (hxs : ∀ x ∈ xs, IsEntry x) :
    items (Bytes.join [44] ps) = xs := by
  have hps := h.pieces hxs
  rw [items, scrub_of_valid (valid_join fun p hp => (hps p hp).2)]
  by_cases hnil : ps = []
  · -- the empty text is one piece, which is left out
    subst hnil
    cases h
    simp [Bytes.join, Interface.pieces, Bytes.trim_of_isBlankText Blank.isBlankText_nil]
  · rw [pieces_of_join hnil fun p hp => (hps p hp).1, h.items hxs]

/-! ## Whatever the brackets -/

/-- A text without its white space and commas. -/
def inked (s : Bytes) : Bytes := Utf8.bytesOf ((Utf8.units s).filter fun u => !Blank.isBlankUnit u && u != .char ',')

theorem inked_append {s : Bytes} (hs : Utf8.valid s = true) (t : Bytes) : inked (s ++ t) = inked s ++ inked t := by
  rw [inked, Utf8.units_append hs, List.filter_append, Utf8.bytesOf_append]
  rfl

theorem inked_blank {w : Bytes} (hw : IsBlankText w) : inked w = [] := by
  rw [inked, List.filter_eq_nil_iff.2 fun u hu => by simp [hw u hu]]
  rfl

theorem inked_trim {s : Bytes} (hs : Utf8.valid s = true) : inked s.trim = inked s := by
  obtain ⟨hvalid, -, v, w, hv, hw, heq⟩ := Bytes.exists_around hs
  conv_rhs => rw [heq]
  rw [inked_append (Utf8.valid_append hv.valid hvalid), inked_append hv.valid, inked_blank hv, inked_blank hw,
    List.append_nil, List.nil_append]

theorem inked_flatten : ∀ {xs : List Bytes}, (∀ x ∈ xs, Utf8.valid x = true) → inked xs.flatten = xs.flatMap inked
  | [], _ => inked_blank Blank.isBlankText_nil
  | x :: xs, h => by
    obtain ⟨hx, hxs⟩ := List.forall_mem_cons.1 h
    rw [List.flatten_cons, inked_append hx, inked_flatten hxs, List.flatMap_cons]

theorem inked_join : ∀ {ps : List Bytes}, (∀ p ∈ ps, Utf8.valid p = true) →
    inked (Bytes.join [44] ps) = ps.flatMap inked
  | [], _ => inked_blank Blank.isBlankText_nil
  | [p], _ => by simp [Bytes.join]
  | p :: q :: ps, h => by
    obtain ⟨hp, hrest⟩ := List.forall_mem_cons.1 h
    have hcomma : inked [44] = [] := by decide +kernel
    rw [Bytes.join_cons_cons, inked_append hp, ← List.singleton_append (x := 44),
      inked_append (Utf8.valid_of_ascii (by decide)), hcomma, inked_join hrest]
    rfl

theorem pieces_ne_nil : ∀ (s : Bytes) (d : Int) (current : Bytes), pieces d current s ≠ []
  | [], _, _ => by simp [pieces]
  | b :: s, d, current => by
    rw [pieces]
    split
    · simp
    · exact pieces_ne_nil s _ _

/-- The pieces of a text, joined, are the text. -/
theorem join_pieces : ∀ (s : Bytes) (d : Int) (current : Bytes),
    Bytes.join [44] (pieces d current s) = current.reverse ++ s
  | [], _, _ => by simp [pieces, Bytes.join]
  | b :: s, d, current => by
    rw [pieces]
    split
    · rename_i hb
      obtain ⟨q, qs, hqs⟩ := List.exists_cons_of_ne_nil (pieces_ne_nil s d [])
      have ih := join_pieces s d []
      rw [hqs] at ih ⊢
      rw [Bytes.join_cons_cons, ih, hb.1]
      rfl
    · rw [join_pieces]
      simp

/-- A valid text is divided between its characters. -/
theorem text_of_mem_pieces : ∀ (s : Bytes) (d : Int) (current : Bytes), Utf8.Text (current.reverse ++ s) →
    ∀ p ∈ pieces d current s, Utf8.Text p
  | [], d, current, h => by simpa [pieces] using h
  | b :: s, d, current, h => by
    rw [pieces]
    split
    · rename_i hb
      rw [hb.1] at h
      obtain ⟨hcurrent, hs⟩ := h.cut (by decide) rfl
      exact List.forall_mem_cons.2 ⟨hcurrent, text_of_mem_pieces s d [] hs⟩
    · exact text_of_mem_pieces s _ _ (by simpa using h)

/-- **Every item** is trimmed and not empty, and the items together have all characters of the text but
white space and commas, in their order. -/
theorem items_of_valid {s : Bytes} (hs : Utf8.valid s = true) :
    (∀ x ∈ items s, x ≠ [] ∧ x.IsTrimmed ∧ Utf8.valid x = true) ∧ inked (items s).flatten = inked s := by
  have hpieces : ∀ p ∈ pieces 0 [] s, Utf8.valid p = true := fun p hp =>
    Utf8.valid_of_text (text_of_mem_pieces s 0 [] (Utf8.text_of_valid hs) p hp)
  have hitems : ∀ x ∈ items s, x ≠ [] ∧ x.IsTrimmed ∧ Utf8.valid x = true := by
    intro x hx
    rw [items, scrub_of_valid hs, List.mem_filter, List.mem_map] at hx
    obtain ⟨⟨p, hp, rfl⟩, hne⟩ := hx
    obtain ⟨hvalid, htrimmed, -⟩ := Bytes.exists_around (hpieces p hp)
    exact ⟨by simpa using hne, htrimmed, hvalid⟩
  have htrimmed : ∀ x ∈ (pieces 0 [] s).map Bytes.trim, Utf8.valid x = true :=
    List.forall_mem_map.2 fun p hp => (Bytes.exists_around (hpieces p hp)).1
  refine ⟨hitems, ?_⟩
  calc inked (items s).flatten
      = inked ((pieces 0 [] s).map Bytes.trim).flatten := by
        rw [items, scrub_of_valid hs, List.flatten_filter_not_isEmpty]
    _ = (pieces 0 [] s).flatMap fun p => inked p.trim := by rw [inked_flatten htrimmed, List.flatMap_map]
    _ = (pieces 0 [] s).flatMap inked := List.flatMap_congr fun p hp => inked_trim (hpieces p hp)
    _ = inked s := by rw [← inked_join hpieces, join_pieces, List.reverse_nil, List.nil_append]

/-- **Dividing a list undoes joining its items**, in whatever way they are joined with commas, white space
and empty pieces. Of any valid text, whatever its brackets, no character is lost but white space and
commas, none is made up, and none changes its place. -/
theorem items_undo_joining :
    (∀ xs ps, (∀ x ∈ xs, IsEntry x) → Padded xs ps → items (Bytes.join (utf8 ",") ps) = xs) ∧
    ∀ s, Utf8.valid s = true → (∀ x ∈ items s, x ≠ [] ∧ x.IsTrimmed) ∧ inked (items s).flatten = inked s := by
  refine ⟨fun xs ps hxs h => items_of_padded h hxs, fun s hs => ?_⟩
  obtain ⟨hitems, hinked⟩ := items_of_valid hs
  exact ⟨fun x hx => ⟨(hitems x hx).1, (hitems x hx).2.1⟩, hinked⟩

/-- Two items: a comma inside brackets, white space of several kinds, and empty pieces. -/
def paddedPieces : List Bytes := [utf8 "\u00a0" ++ utf8 "a<b, (c)>" ++ utf8 "\t", utf8 " ", [] ++ utf8 "(d)" ++ [], []]

theorem items_undo_joining_padded :
    Bytes.join (utf8 ",") paddedPieces = utf8 "\u00a0a<b, (c)>\t, ,(d)," ∧
    items (Bytes.join (utf8 ",") paddedPieces) = [utf8 "a<b, (c)>", utf8 "(d)"] ∧
    inked (items (utf8 "a>, (b, \u2003c")).flatten = utf8 "a>(bc" := by
  have hlist : IsEntry (utf8 "a<b, (c)>") := {
    valid := by decide +kernel
    ne_nil := by decide
    trimmed := ⟨by decide +kernel, by decide +kernel⟩
    closes := by decide +kernel
    balanced := by decide +kernel
    comma := by decide +kernel }
  have hround : IsEntry (utf8 "(d)") := {
    valid := by decide +kernel
    ne_nil := by decide
    trimmed := ⟨by decide +kernel, by decide +kernel⟩
    closes := by decide +kernel
    balanced := by decide +kernel
    comma := by decide +kernel }
  have hblank : ∀ w ∈ [utf8 "\u00a0", utf8 "\t", utf8 " "], IsBlankText w := by
    unfold IsBlankText
    decide +kernel
  have hpadded : Padded [utf8 "a<b, (c)>", utf8 "(d)"] paddedPieces :=
    .item (hblank _ (by simp)) (hblank _ (by simp)) (.empty (hblank _ (by simp))
      (.item Blank.isBlankText_nil Blank.isBlankText_nil (.empty Blank.isBlankText_nil .nil)))
  obtain ⟨hjoin, hsplit⟩ := items_undo_joining
  refine ⟨by decide +kernel, hjoin _ _ (by simp [hlist, hround]) hpadded, ?_⟩
  have hvalid : Utf8.valid (utf8 "a>, (b, \u2003c") = true := by decide +kernel
  have hinked : inked (utf8 "a>, (b, \u2003c") = utf8 "a>(bc" := by decide +kernel
  rw [(hsplit _ hvalid).2, hinked]

end Bindery.Interface
