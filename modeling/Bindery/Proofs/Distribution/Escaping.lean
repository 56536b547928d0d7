/-
Quoted texts without the rules of any language. A reader that knows one escape, a backslash in front
of an octet, goes through a text from left to right and takes octets and escapes off it (`scan`).
A quoted text is taken apart to its end whatever follows it, so none of its backslashes
reaches what stands behind; what it is taken apart into are the octets of the text that was quoted,
and the quotes among them that no backslash stands in front of do not come three in a row
(`docstring_reversible`).
-/
import Bindery.Proofs.Distribution.Quoting

namespace Bindery.Docstring

open Pip (fence docstring)

/-- What a scan takes off a text: an octet, or a backslash and the octet behind it. -/
inductive Glyph where
  | plain (b : UInt8)
  | escaped (b : UInt8)
  deriving DecidableEq, Repr

/-- An escape stands for its octet. -/
def Glyph.value : Glyph → UInt8
  | .plain b | .escaped b => b

/-- The glyphs of a text from left to right; none when a backslash is left at its end. -/
def scan : Bytes → Option (List Glyph)
  | [] => some []
  | b :: s =>
    if b = 92 then
      match s with
      | [] => none
      | c :: s => (scan s).map (.escaped c :: ·)
    else (scan s).map (.plain b :: ·)

theorem scan_escaped (c : UInt8) (s : Bytes) : scan (92 :: c :: s) = (scan s).map (.escaped c :: ·) := rfl

theorem scan_plain {b : UInt8} (hb : b ≠ 92) (s : Bytes) : scan (b :: s) = (scan s).map (.plain b :: ·) := by
  rw [scan.eq_def]
  exact if_neg hb

/-- Three quotes in a row, none of them escaped. -/
def plainFence : List Glyph := fence.map .plain

/-- The quoted text `D` is taken apart into `gs`, whatever follows it, and they stand for the text `d` that was
quoted. -/
structure Glyphs (d D : Bytes) (gs : List Glyph) : Prop where
  scan_append : ∀ t, scan (D ++ t) = (scan t).map (gs ++ ·)
  value : gs.map Glyph.value = d
  noFence : ¬plainFence <:+: gs ++ [.plain 10]
  escapes : ∀ b, .escaped b ∈ gs → b = 92 ∨ b = 34

namespace Glyphs

variable {d D : Bytes} {gs : List Glyph}

theorem nil : Glyphs [] [] [] where
  scan_append t := by simp
  value := rfl
  noFence h := absurd h.length_le (by decide)
  escapes b h := by simp at h

/-- An escape in front of a quoted text neither ends it nor joins the quotes in it. -/
theorem escaped (h : Glyphs d D gs) {b : UInt8} (hb : b = 92 ∨ b = 34) :
    Glyphs (b :: d) (92 :: b :: D) (.escaped b :: gs) where
  scan_append t := by
    rw [List.cons_append, List.cons_append, scan_escaped, h.scan_append, Option.map_map]
    rfl
  value := by rw [List.map_cons, h.value, Glyph.value]
  noFence hin := by
    rw [List.cons_append, List.infix_cons_iff] at hin
    rcases hin with hin | hin
    · cases (List.cons_prefix_cons.1 (show Glyph.plain 34 :: [.plain 34, .plain 34] <+: _ from hin)).1
    · exact h.noFence hin
  escapes c hc := by
    rcases List.mem_cons.1 hc with hc | hc
    · obtain rfl := Glyph.escaped.inj hc
      exact hb
    · exact h.escapes c hc

/-- Three plain quotes would come from three quotes in the text, which are escaped. -/
theorem plain (h : Glyphs d D gs) {b : UInt8} (hb : b ≠ 92) (hfence : ¬fence <+: b :: d) :
    Glyphs (b :: d) (b :: D) (.plain b :: gs) where
  scan_append t := by
    rw [List.cons_append, scan_plain hb, h.scan_append, Option.map_map]
    rfl
  value := by rw [List.map_cons, h.value, Glyph.value]
  noFence hin := by
    rw [List.cons_append, List.infix_cons_iff] at hin
    rcases hin with hin | hin
    · have hvalues : fence <+: b :: d ++ [10] := by
        have hmap := hin.map Glyph.value
        rwa [List.map_cons, List.map_append, h.value] at hmap
      exact hfence (fence_prefix_line.1 hvalues)
    · exact h.noFence hin
  escapes c hc := by
    rcases List.mem_cons.1 hc with hc | hc
    · cases hc
    · exact h.escapes c hc

end Glyphs

theorem Quoted.exists_glyphs {d D : Bytes} (h : Quoted d D) : ∃ gs, Glyphs d D gs := by
  induction h with
  | nil => exact ⟨[], .nil⟩
  | backslash _ ih =>
    obtain ⟨gs, hgs⟩ := ih
    exact ⟨_, hgs.escaped (.inl rfl)⟩
  | quotes _ ih =>
    obtain ⟨gs, hgs⟩ := ih
    exact ⟨_, ((hgs.escaped (.inr rfl)).escaped (.inr rfl)).escaped (.inr rfl)⟩
  | own hb hfence _ ih =>
    obtain ⟨gs, hgs⟩ := ih
    exact ⟨_, hgs.plain hb hfence⟩

/-- **Quoting can be undone, and nothing gets out of a quoted text.** Whatever the text, a scan of what it
is quoted as comes to its end, and goes on to a line feed behind it as a plain octet: no backslash is
left for that. What it is taken apart into stands for the text, octet for octet. Up to and with the line
feed there are no three plain quotes in a row, and only backslashes and quotes are ever escaped. -/
theorem docstring_reversible (s : Bytes) :
    ∃ gs, scan (docstring s) = some gs ∧ scan (docstring s ++ [10]) = some (gs ++ [.plain 10]) ∧
      gs.map Glyph.value = s ∧ ¬plainFence <:+: gs ++ [.plain 10] ∧ ∀ b, .escaped b ∈ gs → b = 92 ∨ b = 34 := by
  obtain ⟨gs, hgs⟩ := (quoted_docstring s).exists_glyphs
  have hwhole := hgs.scan_append []
  rw [List.append_nil] at hwhole
  refine ⟨gs, hwhole.trans ?_, hgs.scan_append [10], hgs.value, hgs.noFence, hgs.escapes⟩
  rw [scan, Option.map_some, List.append_nil]

/-- A backslash in front of three quotes and one more: only the last quote is plain. -/
example : docstring (utf8 "\\\"\"\"\"") = utf8 "\\\\\\\"\\\"\\\"\"" ∧
    scan (docstring (utf8 "\\\"\"\"\"")) = some [.escaped 92, .escaped 34, .escaped 34, .escaped 34, .plain 34] := by
  decide +kernel

end Bindery.Docstring
