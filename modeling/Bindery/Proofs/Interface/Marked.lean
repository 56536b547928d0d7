/-
A text before and after blanks are put in at the starts of its lines, as one list of octets with
marks. Comments are blanked alike in both (`Laid.strip`), a recogniser that does not mind the
blanks finds the same in both (`scan_marked`), and blanking what was found keeps both in
step (`blankOut_marked`).
-/
import Bindery.Proofs.Interface.Lines
import Bindery.Proofs.Interface.Spacing

namespace Bindery.Interface

/-- Octets, each with the mark whether it was there before blanks were put in. -/
abbrev Marked := List (UInt8 × Bool)

/-- The text without the blanks that were put in. -/
def before (w : Marked) : Bytes := (w.filter (·.2)).map (·.1)

/-- The text with them. -/
def after (w : Marked) : Bytes := w.map (·.1)

section marks

variable (v w : Marked) (b : UInt8)

@[simp] theorem before_nil : before [] = [] := rfl
@[simp] theorem after_nil : after [] = [] := rfl
@[simp] theorem before_own : before ((b, true) :: w) = b :: before w := rfl
@[simp] theorem before_put : before ((b, false) :: w) = before w := rfl
@[simp] theorem after_cons (m : Bool) : after ((b, m) :: w) = b :: after w := rfl
@[simp] theorem before_append : before (v ++ w) = before v ++ before w := by simp [before]
@[simp] theorem after_append : after (v ++ w) = after v ++ after w := List.map_append
@[simp] theorem length_after : (after w).length = w.length := List.length_map _

end marks

/-- Whether a line starts behind some octets. -/
def lineStart (fresh : Bool) (s : Bytes) : Bool := s.foldl (fun _ b => b == 10) fresh

/-- Blanks were put in at the starts of lines only, and only where that is free. -/
def Laid (free : Nat → Prop) : Nat → Bool → Marked → Prop
  | _, _, [] => True
  | n, _, (b, true) :: w => Laid free (n + 1) (b == 10) w
  | n, fresh, (b, false) :: w => fresh = true ∧ free n ∧ isGap b = true ∧ Laid free n true w

section laid

variable {free : Nat → Prop} {n : Nat} {fresh : Bool} {v w : Marked}

theorem laid_append : ∀ {v : Marked} {n : Nat} {fresh : Bool}, Laid free n fresh (v ++ w) ↔
    Laid free n fresh v ∧ Laid free (n + (before v).length) (lineStart fresh (before v)) w
  | [], n, fresh => by simp [Laid, lineStart]
  | (b, true) :: v, n, fresh => by
    rw [List.cons_append, Laid, Laid, laid_append, before_own, List.length_cons, lineStart, lineStart, List.foldl_cons,
      Nat.add_right_comm, Nat.add_assoc]
  | (b, false) :: v, n, fresh => by
    rw [List.cons_append, Laid, Laid, laid_append, before_put]
    constructor
    · rintro ⟨rfl, hfree, hb, hv, hw⟩
      exact ⟨⟨rfl, hfree, hb, hv⟩, hw⟩
    · rintro ⟨⟨rfl, hfree, hb, hv⟩, hw⟩
      exact ⟨rfl, hfree, hb, hv, hw⟩

theorem Laid.spaced : ∀ {w : Marked} {n : Nat} {fresh : Bool}, Laid free n fresh w →
    SpacedAt 10 (fresh = true) (before w) (after w)
  | [], _, _, _ => .nil
  | (b, true) :: w, _, _, h => by
    rw [Laid] at h
    exact .cons (h.spaced.mono fun hb => by simpa using hb)
  | (b, false) :: w, _, _, h => by
    obtain ⟨rfl, -, hb, hw⟩ := h
    exact .gap rfl hb hw.spaced

/-- The blanks that were put in at the start of a line. -/
theorem Laid.exists_put (h : Laid free n fresh w) : ∃ g x, w = g ++ x ∧ before g = [] ∧
    (∀ b ∈ after g, isGap b = true) ∧ Laid free n false x := by
  induction w with
  | nil => exact ⟨[], [], rfl, rfl, by simp, trivial⟩
  | cons x w ih =>
    obtain ⟨b, m⟩ := x
    cases m with
    | true => exact ⟨[], (b, true) :: w, rfl, rfl, by simp, h⟩
    | false =>
      obtain ⟨rfl, -, hb, hw⟩ := h
      obtain ⟨g, x, rfl, hg, hgaps, hx⟩ := ih hw
      exact ⟨(b, false) :: g, x, rfl, hg, List.forall_mem_cons.2 ⟨hb, hgaps⟩, hx⟩

/-! ## Comments -/

theorem stripFrom_outside {b : UInt8} (hb : b ≠ 47) (s : Bytes) :
    stripFrom .outside (b :: s) = b :: stripFrom .outside s := by
  cases s with
  | nil => rfl
  | cons c s => rw [stripFrom, if_neg fun h => hb h.1, if_neg fun h => hb h.1]

theorem stripFrom_block {b : UInt8} (hb : b ≠ 42) (s : Bytes) :
    stripFrom .block (b :: s) = blanked b :: stripFrom .block s := by
  cases s with
  | nil => rfl
  | cons c s => rw [stripFrom, if_neg fun h => hb h.1]

/-- A blank outside or inside a comment stays one. -/
theorem stripFrom_gap {g : UInt8} (hg : isGap g = true) (c : Comment) :
    ∃ g', isGap g' = true ∧ ∀ s, stripFrom c (g :: s) = g' :: stripFrom c s := by
  have hmarks : g ≠ 47 ∧ g ≠ 42 ∧ g ≠ 10 :=
    Byte.forall_octets (P := fun b => isGap b = true → b ≠ 47 ∧ b ≠ 42 ∧ b ≠ 10) (by decide +kernel) g hg
  cases c with
  | outside => exact ⟨g, hg, stripFrom_outside hmarks.1⟩
  | line => exact ⟨32, rfl, fun s => by rw [stripFrom, if_neg hmarks.2.2]⟩
  | block => exact ⟨32, rfl, fun s => by rw [stripFrom_block hmarks.2.1, blanked, if_neg hmarks.2.2]⟩

theorem blanked_feed (b : UInt8) : (blanked b == 10) = (b == 10) := by
  rw [blanked]
  split
  · rename_i h
    rw [h]
  · rename_i h
    simp [h]

/-- The text with its comments blanked, before and after blanks are put in. -/
def Strips (free : Nat → Prop) (n : Nat) (fresh : Bool) (c : Comment) (w : Marked) : Prop :=
  ∃ v, before v = stripFrom c (before w) ∧ after v = stripFrom c (after w) ∧ Laid free n fresh v

section strips

variable {c c' : Comment} {b b' d : UInt8}

theorem Strips.put (h : Strips free n true c w) (hfree : free n) (hb : isGap b = true) :
    Strips free n true c ((b, false) :: w) := by
  obtain ⟨g, hg, hstrip⟩ := stripFrom_gap hb c
  obtain ⟨v, hbefore, hafter, hv⟩ := h
  exact ⟨(g, false) :: v, hbefore, by rw [after_cons, after_cons, hstrip, hafter], rfl, hfree, hg, hv⟩

/-- An octet that is read on its own. -/
theorem Strips.own (h : Strips free (n + 1) (b == 10) c' w) (hfeed : (b' == 10) = (b == 10))
    (hstrip : ∀ s ∈ [before w, after w], stripFrom c (b :: s) = b' :: stripFrom c' s) :
    Strips free n fresh c ((b, true) :: w) := by
  obtain ⟨v, hbefore, hafter, hv⟩ := h
  refine ⟨(b', true) :: v, ?_, ?_, ?_⟩
  · rw [before_own, before_own, hbefore, hstrip _ (by simp)]
  · rw [after_cons, after_cons, hafter, hstrip _ (by simp)]
  · rwa [Laid, hfeed]

/-- Two octets that open or close a comment. -/
theorem Strips.pair (h : Strips free (n + 1 + 1) false c' w)
    (hstrip : ∀ s, stripFrom c (b :: d :: s) = 32 :: 32 :: stripFrom c' s) :
    Strips free n fresh c ((b, true) :: (d, true) :: w) := by
  obtain ⟨v, hbefore, hafter, hv⟩ := h
  refine ⟨(32, true) :: (32, true) :: v, ?_, ?_, hv⟩
  · rw [before_own, before_own, before_own, before_own, hbefore, hstrip]
  · rw [after_cons, after_cons, after_cons, after_cons, hafter, hstrip]

/-- A slash opens a comment together with the octet behind it, or stands for itself. -/
theorem Strips.slash (h : Laid free (n + 1) ((47 : UInt8) == 10) w)
    (ih : ∀ v : Marked, v.length ≤ w.length → ∀ c {n fresh}, Laid free n fresh v → Strips free n fresh c v) :
    Strips free n fresh .outside ((47, true) :: w) := by
  have hrest := ih w (Nat.le_refl _) .outside h
  cases w with
  | nil => exact hrest.own rfl (by simp [stripFrom])
  | cons p w =>
    obtain ⟨d, mark⟩ := p
    cases mark with
    | false => exact absurd h.1 (by decide)
    | true =>
      have htail := ih w (Nat.le_succ _)
      by_cases hline : d = 47
      · subst hline
        exact (htail .line h).pair fun s => rfl
      · by_cases hblock : d = 42
        · subst hblock
          exact (htail .block h).pair fun s => rfl
        · exact hrest.own rfl (by simp [stripFrom, hline, hblock])

/-- A star closes a comment together with the octet behind it, or is blanked. -/
theorem Strips.star (h : Laid free (n + 1) ((42 : UInt8) == 10) w)
    (ih : ∀ v : Marked, v.length ≤ w.length → ∀ c {n fresh}, Laid free n fresh v → Strips free n fresh c v) :
    Strips free n fresh .block ((42, true) :: w) := by
  have hrest := ih w (Nat.le_refl _) .block h
  have hfeed : ((32 : UInt8) == 10) = ((42 : UInt8) == 10) := rfl
  cases w with
  | nil => exact hrest.own hfeed (by simp [stripFrom, blanked])
  | cons p w =>
    obtain ⟨d, mark⟩ := p
    cases mark with
    | false => exact absurd h.1 (by decide)
    | true =>
      by_cases hclose : d = 47
      · subst hclose
        exact (ih w (Nat.le_succ _) .outside h).pair fun s => rfl
      · exact hrest.own hfeed (by simp [stripFrom, hclose, blanked])

end strips

/-- **Comments are blanked alike** in a text before and after blanks are put in. -/
theorem Laid.strip (c : Comment) (h : Laid free n fresh w) : Strips free n fresh c w := by
  -- a comment is opened and closed by two octets, so the induction is on the length
  induction hlength : w.length using Nat.strong_induction_on generalizing c n fresh w with
  | _ length ih =>
  subst hlength
  cases w with
  | nil => exact ⟨[], by cases c <;> rfl, by cases c <;> rfl, trivial⟩
  | cons p w =>
    obtain ⟨b, mark⟩ := p
    have hbehind : ∀ v : Marked, v.length ≤ w.length → ∀ c {n fresh}, Laid free n fresh v → Strips free n fresh c v :=
      fun v hv c _ _ hlaid => ih _ (Nat.lt_succ_of_le hv) c hlaid rfl
    have hrest := hbehind w (Nat.le_refl _)
    cases mark with
    | false =>
      obtain ⟨rfl, hfree, hb, hw⟩ := h
      exact (hrest c hw).put hfree hb
    | true =>
      rw [Laid] at h
      cases c with
      | line =>
        by_cases hb : b = 10
        · exact (hrest .outside h).own rfl fun s _ => by rw [stripFrom, if_pos hb, hb]
        · have hfeed : ((32 : UInt8) == 10) = (b == 10) := by simp [hb]
          exact (hrest .line h).own hfeed fun s _ => by rw [stripFrom, if_neg hb]
      | outside =>
        by_cases hb : b = 47
        · subst hb
          exact .slash h hbehind
        · exact (hrest .outside h).own rfl fun s _ => stripFrom_outside hb s
      | block =>
        by_cases hb : b = 42
        · subst hb
          exact .star h hbehind
        · exact (hrest .block h).own (blanked_feed b) fun s _ => stripFrom_block hb s

end laid

/-! ## Scanning -/

section scan

variable {α : Type} {recognise : Bytes → Option (α × Bytes)}

/-- A stretch that was found is passed over. -/
theorem scanFrom_skip (s : Bytes) : ∀ (v : Bytes) (fresh : Bool) (pos : Nat),
    scanFrom recognise v.length fresh pos (v ++ s) = scanFrom recognise 0 (lineStart fresh v) (pos + v.length) s
  | [], _, _ => rfl
  | b :: v, fresh, pos => by
    rw [List.length_cons, List.cons_append, scanFrom, scanFrom_skip s v, lineStart, lineStart, List.foldl_cons,
      Nat.add_right_comm, Nat.add_assoc]

/-- A stretch that is found at the start of a line. -/
theorem scanFrom_found {v rest : Bytes} {value : α} (hv : v ≠ []) (h : recognise (v ++ rest) = some (value, rest))
    (pos : Nat) : scanFrom recognise 0 true pos (v ++ rest) =
      { start := pos, length := v.length, value } :: scanFrom recognise 0 (lineStart true v) (pos + v.length) rest := by
  obtain ⟨b, v, rfl⟩ := List.exists_cons_of_ne_nil hv
  rw [List.cons_append] at h ⊢
  have hlength : (v ++ rest).length + 1 - rest.length = v.length + 1 := by
    rw [List.length_append]
    omega
  rw [scanFrom, h]
  dsimp only
  rw [hlength, Nat.add_sub_cancel, scanFrom_skip, lineStart, lineStart, List.foldl_cons, List.length_cons,
    Nat.add_right_comm, Nat.add_assoc]

/-- Where there is nothing to be found at the start of a line, the next octet is looked at. -/
theorem scanFrom_none {b : UInt8} {s : Bytes} {fresh : Bool} (h : fresh = true → recognise (b :: s) = none) (pos : Nat) :
    scanFrom recognise 0 fresh pos (b :: s) = scanFrom recognise 0 (b == 10) (pos + 1) s := by
  cases fresh with
  | false => rfl
  | true => rw [scanFrom, h rfl]

/-- The same is found before and after blanks are put in, in the same stretch. If that is solid, it
does not end behind blanks that were put in. -/
def Agree (R : α → α → Prop) (solid : Bool) (w : Marked) : Option (α × Bytes) → Option (α × Bytes) → Prop :=
  Option.Rel fun p p' => R p.1 p'.1 ∧ ∃ v u, w = v ++ u ∧ before v ≠ [] ∧ p.2 = before u ∧ p'.2 = after u ∧
    (solid = true → ∃ v₀ b, v = v₀ ++ [(b, true)])

/-- A recogniser that finds the same whatever blanks are put in at the starts of lines. -/
def Follows (recognise : Bytes → Option (α × Bytes)) (R : α → α → Prop) (solid : Bool) : Prop :=
  ∀ (free : Nat → Prop) (n : Nat) (w : Marked), Laid free n true w →
    Agree R solid w (recognise (before w)) (recognise (after w))

/-- Two stretches that are the same stretch of a marked text. -/
structure Match (w : Marked) (R : α → α → Prop) (d d' : Found α) : Prop where
  start : d.start = (before (w.take d'.start)).length
  stop : d.start + d.length = (before (w.take (d'.start + d'.length))).length
  value : R d.value d'.value

variable {R : α → α → Prop} {solid : Bool} {free : Nat → Prop}

/-- No stretch starts in a place that is free where another one ends. -/
def Apart (free : Nat → Prop) (founds : List (Found α)) : Prop :=
  ∀ d ∈ founds, ∀ e ∈ founds, e.start = d.start + d.length → ¬free e.start

theorem lineStart_concat (fresh : Bool) (s : Bytes) (b : UInt8) : lineStart fresh (s ++ [b]) = (b == 10) := by
  rw [lineStart, List.foldl_append]
  rfl

theorem not_feed_of_isGap {b : UInt8} (h : isGap b = true) : (b == 10) = false := by
  rw [beq_eq_false_iff_ne]
  rintro rfl
  cases h

/-- Behind a stretch a line starts before and after blanks are put in; or the stretch ends behind such
blanks, and nothing is found there. -/
theorem lineStart_stretch (hr : Follows recognise R solid) {v x : Marked} {n : Nat} {value : α} {length : Nat}
    (hv : Laid free n true v) (hx : Laid free (n + (before v).length) (lineStart true (before v)) x)
    (hne : before v ≠ []) (hlength : length = (before v).length)
    (hsolid : solid = true → ∃ v₀ b, v = v₀ ++ [(b, true)])
    (hapart : solid = true ∨ Apart free ({ start := n, length, value } ::
      scanFrom recognise 0 (lineStart true (before v)) (n + length) (before x))) :
    lineStart true (after v) = lineStart true (before v) ∨
      lineStart true (before v) = true ∧ lineStart true (after v) = false ∧ recognise (before x) = none := by
  subst hlength
  have hnil : v ≠ [] := by
    rintro rfl
    exact hne rfl
  obtain ⟨v₀, ⟨b, m⟩, rfl⟩ : ∃ v₀ y, v = v₀ ++ [y] := ⟨_, _, (List.dropLast_append_getLast hnil).symm⟩
  cases m with
  | true => simp [lineStart_concat]
  | false =>
    obtain ⟨-, hfresh, hfree, hgap, -⟩ := laid_append.1 hv
    have hbefore : before (v₀ ++ [(b, false)]) = before v₀ := by simp
    rw [hbefore] at hx hne hapart ⊢
    refine .inr ⟨hfresh, by rw [after_append, after_cons, after_nil, lineStart_concat, not_feed_of_isGap hgap], ?_⟩
    rw [hfresh] at hx hapart
    by_contra hsome
    have hrel := hr free _ x hx
    obtain ⟨p, hp⟩ := Option.ne_none_iff_exists'.1 hsome
    rw [hp] at hrel
    generalize hafter : recognise (after x) = o at hrel
    cases hrel with
    | some h =>
      obtain ⟨-, y, z, rfl, hy, hz, -⟩ := h
      rw [before_append] at hp hapart
      rw [show p = (p.1, before z) from Prod.ext rfl hz] at hp
      rw [scanFrom_found hy hp] at hapart
      rcases hapart with h | h
      · obtain ⟨v₁, d, heq⟩ := hsolid h
        simpa using congrArg (Option.map Prod.snd) (congrArg List.getLast? heq)
      · exact h _ List.mem_cons_self _ (List.mem_cons_of_mem _ List.mem_cons_self) rfl hfree

/-- From a place on, the same stretches are found. -/
def Alike (recognise : Bytes → Option (α × Bytes)) (R : α → α → Prop) (fresh fresh' : Bool) (u w : Marked) : Prop :=
  List.Forall₂ (Match (u ++ w) R) (scanFrom recognise 0 fresh (before u).length (before w))
    (scanFrom recognise 0 fresh' u.length (after w))

section steps

variable {u v w x : Marked} {b : UInt8} {fresh fresh' : Bool} {value value' : α}

theorem Alike.own (h : Alike recognise R (b == 10) (b == 10) (u ++ [(b, true)]) w)
    (hnone : fresh = true → recognise (b :: before w) = none)
    (hnone' : fresh' = true → recognise (b :: after w) = none) : Alike recognise R fresh fresh' u ((b, true) :: w) := by
  have hu : u ++ (b, true) :: w = (u ++ [(b, true)]) ++ w := by simp
  have hlength : (before u).length + 1 = (before (u ++ [(b, true)])).length := by simp
  have hlength' : u.length + 1 = (u ++ [(b, true)]).length := by simp
  rw [Alike, before_own, after_cons, scanFrom_none hnone, scanFrom_none hnone', hu, hlength, hlength']
  exact h

/-- Only one of the texts goes on. -/
theorem Alike.put (h : Alike recognise R fresh (b == 10) (u ++ [(b, false)]) w)
    (hnone' : fresh' = true → recognise (b :: after w) = none) : Alike recognise R fresh fresh' u ((b, false) :: w) := by
  have hu : u ++ (b, false) :: w = (u ++ [(b, false)]) ++ w := by simp
  have hbefore : before u = before (u ++ [(b, false)]) := by simp
  have hlength' : u.length + 1 = (u ++ [(b, false)]).length := by simp
  rw [Alike, before_put, after_cons, scanFrom_none hnone', hu, hbefore, hlength']
  exact h

theorem Alike.found (h : Alike recognise R (lineStart true (before v)) (lineStart true (after v)) (u ++ v) x)
    (hv : before v ≠ []) (hv' : after v ≠ []) (hfound : recognise (before v ++ before x) = some (value, before x))
    (hfound' : recognise (after v ++ after x) = some (value', after x)) (hR : R value value') :
    Alike recognise R true true u (v ++ x) := by
  have hstop : (before u).length + (before v).length = (before (u ++ v)).length := by
    rw [before_append, List.length_append]
  rw [Alike, before_append, after_append, scanFrom_found hv hfound, scanFrom_found hv' hfound']
  refine .cons ⟨?_, ?_, hR⟩ ?_
  · rw [List.take_left]
  · dsimp only
    rw [length_after, hstop, ← List.append_assoc, ← List.length_append, List.take_left]
  · rw [hstop, ← List.append_assoc, length_after, ← List.length_append]
    exact h

/-- A stretch that is found in both texts, when the same are found behind it. -/
theorem Alike.stretch (hr : Follows recognise R solid) (hw : Laid free (before u).length true w)
    (hapart : solid = true ∨ Apart free (scanFrom recognise 0 true (before u).length (before w))) {p p' : α × Bytes}
    (hbefore : recognise (before w) = some p) (hafter : recognise (after w) = some p')
    (ih : ∀ {u x : Marked} {fresh fresh' : Bool}, x.length < w.length → Laid free (before u).length fresh x →
      (fresh' = fresh ∨ fresh = true ∧ fresh' = false ∧ recognise (before x) = none) →
      (solid = true ∨ Apart free (scanFrom recognise 0 fresh (before u).length (before x))) →
      Alike recognise R fresh fresh' u x) : Alike recognise R true true u w := by
  have hrel := hr free _ _ hw
  rw [hbefore, hafter] at hrel
  cases hrel with
  | some h =>
    obtain ⟨value, rest⟩ := p
    obtain ⟨value', rest'⟩ := p'
    obtain ⟨hR, v, x, rfl, hv, rfl, rfl, hsolid⟩ := h
    have hv' : after v ≠ [] := by
      rintro hnil
      exact hv (by rw [List.map_eq_nil_iff.1 hnil, before_nil])
    have hlt : x.length < (v ++ x).length := by
      have := List.length_pos_iff.2 hv'
      rw [List.length_append, ← length_after v]
      omega
    obtain ⟨hlaid, hx⟩ := laid_append.1 hw
    rw [before_append] at hbefore hapart
    rw [after_append] at hafter
    rw [scanFrom_found hv hbefore] at hapart
    have hnext := lineStart_stretch hr hlaid hx hv rfl hsolid hapart
    have htail : solid = true ∨ Apart free (scanFrom recognise 0 (lineStart true (before v))
        ((before u).length + (before v).length) (before x)) :=
      hapart.imp_right fun h d hd e he => h d (List.mem_cons_of_mem _ hd) e (List.mem_cons_of_mem _ he)
    rw [← List.length_append, ← before_append] at hx htail
    exact (ih hlt hx hnext htail).found hv hv' hbefore hafter hR

end steps

/-- From any place on, the same stretches are found. -/
theorem scanFrom_marked (hr : Follows recognise R solid) {u w : Marked} {fresh fresh' : Bool}
    (hw : Laid free (before u).length fresh w)
    (hfresh : fresh' = fresh ∨ fresh = true ∧ fresh' = false ∧ recognise (before w) = none)
    (hapart : solid = true ∨ Apart free (scanFrom recognise 0 fresh (before u).length (before w))) :
    Alike recognise R fresh fresh' u w := by
  induction hlength : w.length using Nat.strong_induction_on generalizing u w fresh fresh' with
  | _ length ih =>
  subst hlength
  cases w with
  | nil => exact .nil
  | cons y w =>
    obtain ⟨b, m⟩ := y
    -- where nothing is found, both go on by one octet, or only the text with the blank put in
    have hmove : (fresh = true → recognise (before ((b, m) :: w)) = none) →
        (fresh' = true → recognise (after ((b, m) :: w)) = none) → Alike recognise R fresh fresh' u ((b, m) :: w) := by
      intro hnone hnone'
      cases m with
      | true =>
        refine Alike.own (ih _ (Nat.lt_succ_self _) ?_ (.inl rfl) ?_ rfl) hnone hnone'
        · rw [Laid] at hw
          simpa using hw
        · rw [before_own] at hnone hapart
          rw [scanFrom_none hnone] at hapart
          simpa using hapart
      | false =>
        obtain ⟨rfl, -, hgap, hw⟩ := hw
        have hbefore : before (u ++ [(b, false)]) = before u := by simp
        refine Alike.put (ih _ (Nat.lt_succ_self _) ?_ (.inr ⟨rfl, not_feed_of_isGap hgap, hnone rfl⟩) ?_ rfl) hnone'
        · rwa [hbefore]
        · rwa [hbefore]
    by_cases hboth : fresh = true ∧ fresh' = true
    · obtain ⟨rfl, rfl⟩ := hboth
      have hrel := hr free _ _ hw
      generalize hbefore : recognise (before ((b, m) :: w)) = o, hafter : recognise (after ((b, m) :: w)) = o' at hrel
      cases hrel with
      | none => exact hmove (fun _ => hbefore) fun _ => hafter
      | some => exact .stretch hr hw hapart hbefore hafter fun hlt hx hnext htail => ih _ hlt hx hnext htail rfl
    · refine hmove (fun hf => ?_) fun hf' => ?_
      · rcases hfresh with h | ⟨-, -, h⟩
        · exact absurd ⟨hf, h.trans hf⟩ hboth
        · exact h
      · rcases hfresh with h | ⟨-, h, -⟩
        · exact absurd ⟨h ▸ hf', hf'⟩ hboth
        · rw [h] at hf'
          cases hf'

/-- **The same stretches are found** before and after blanks are put in. -/
theorem scan_marked (hr : Follows recognise R solid) {w : Marked} (hw : Laid free 0 true w)
    (hapart : solid = true ∨ Apart free (scan recognise (before w))) :
    List.Forall₂ (Match w R) (scan recognise (before w)) (scan recognise (after w)) :=
  scanFrom_marked hr (u := []) hw (.inl rfl) hapart

end scan

/-! ## Blanking -/

section blank

variable {α : Type} {R : α → α → Prop} {free : Nat → Prop} {w w' : Marked}

/-- The same marks, line feeds and blanks. -/
def InStep : Marked → Marked → Prop :=
  List.Forall₂ fun x y => y.2 = x.2 ∧ (y.1 == 10) = (x.1 == 10) ∧ (isGap x.1 = true → isGap y.1 = true)

theorem InStep.refl (w : Marked) : InStep w w := List.forall₂_same.2 fun _ _ => ⟨rfl, rfl, id⟩

theorem InStep.trans {u v w : Marked} (h : InStep u v) (h' : InStep v w) : InStep u w := by
  induction h generalizing w with
  | nil => exact h'
  | cons hx _ ih =>
    cases h' with
    | cons hy h' => exact .cons ⟨hy.1.trans hx.1, hy.2.1.trans hx.2.1, fun h => hy.2.2 (hx.2.2 h)⟩ (ih h')

theorem InStep.laid (h : InStep w w') : ∀ {n : Nat} {fresh : Bool}, Laid free n fresh w → Laid free n fresh w' := by
  induction h with
  | nil => exact fun _ => trivial
  | @cons x y _ _ hx _ ih =>
    obtain ⟨b, m⟩ := x
    obtain ⟨c, m'⟩ := y
    obtain ⟨rfl, hfeed, hgap⟩ := hx
    intro n fresh hw
    cases m' with
    | true =>
      rw [Laid] at hw ⊢
      dsimp only at hfeed
      rw [hfeed]
      exact ih hw
    | false => exact ⟨hw.1, hw.2.1, hgap hw.2.2.1, ih hw.2.2.2⟩

theorem InStep.length_before (h : InStep w w') : (before w').length = (before w).length := by
  induction h with
  | nil => rfl
  | @cons x y _ _ hx _ ih =>
    obtain ⟨b, m⟩ := x
    obtain ⟨c, m'⟩ := y
    obtain ⟨rfl, -⟩ := hx
    cases m' with
    | true => simpa using ih
    | false => simpa using ih

theorem InStep.take (h : InStep w w') (k : Nat) : InStep (w.take k) (w'.take k) := List.forall₂_take k h

/-- A marked text with a stretch blanked. -/
def blankMarks (start length : Nat) (w : Marked) : Marked :=
  w.take start ++ (((w.drop start).take length).map (fun x => (blanked x.1, x.2)) ++ w.drop (start + length))

theorem split_stretch (start length : Nat) (w : Marked) :
    w = w.take start ++ ((w.drop start).take length ++ w.drop (start + length)) := by
  rw [← List.drop_drop, List.take_append_drop, List.take_append_drop]

theorem inStep_blankMarks (start length : Nat) (w : Marked) : InStep w (blankMarks start length w) := by
  have hblank : ∀ x : UInt8 × Bool, isGap x.1 = true → isGap (blanked x.1) = true := by
    intro x hx
    rw [blanked, if_neg]
    · rfl
    · intro h
      rw [h] at hx
      cases hx
  conv_lhs => rw [split_stretch start length w]
  refine List.rel_append (InStep.refl _) (List.rel_append ?_ (InStep.refl _))
  rw [List.forall₂_map_right_iff, List.forall₂_same]
  exact fun x _ => ⟨rfl, blanked_feed x.1, hblank x⟩

theorem after_blankMarks (start length : Nat) (w : Marked) :
    after (blankMarks start length w) = blankOut start length (after w) := by
  simp only [blankMarks, blankOut, after, List.map_append, List.map_map, List.map_take, List.map_drop, List.append_assoc]
  rfl

theorem before_map_blanked (w : Marked) : before (w.map fun x => (blanked x.1, x.2)) = (before w).map blanked := by
  simp only [before, List.filter_map, List.map_map]
  rfl

theorem before_blankMarks {d d' : Found α} (h : Match w R d d') :
    before (blankMarks d'.start d'.length w) = blankOut d.start d.length (before w) := by
  have hstop := h.stop
  have htake : w.take (d'.start + d'.length) = w.take d'.start ++ (w.drop d'.start).take d'.length := List.take_add
  rw [htake, before_append, List.length_append, ← h.start] at hstop
  have hlength : d.length = (before ((w.drop d'.start).take d'.length)).length := by omega
  have hall : ∀ s : Bytes, blankOut 0 s.length s = s.map blanked := fun s => by
    rw [blankOut, List.take_zero, List.drop_zero, List.take_length, Nat.zero_add, List.drop_length, List.append_nil]
    rfl
  conv_rhs => rw [split_stretch d'.start d'.length w]
  rw [before_append, before_append, h.start, hlength, blankOut_append (Nat.le_refl _), hall, blankMarks, before_append,
    before_append, before_map_blanked]

theorem Match.inStep (h : InStep w w') {d d' : Found α} (hd : Match w R d d') : Match w' R d d' :=
  ⟨by rw [hd.start, (h.take _).length_before], by rw [hd.stop, (h.take _).length_before], hd.value⟩

/-- **Blanking what was found** keeps both texts in step. -/
theorem blankOut_marked {ds ds' : List (Found α)} (h : List.Forall₂ (Match w R) ds ds') : ∀ {v : Marked}, InStep w v →
    ∃ u, InStep w u ∧ before u = ds.foldl (fun t d => blankOut d.start d.length t) (before v) ∧
      after u = ds'.foldl (fun t d => blankOut d.start d.length t) (after v) := by
  induction h with
  | nil => exact fun {v} hv => ⟨v, hv, rfl, rfl⟩
  | @cons d d' _ _ hd _ ih =>
    intro v hv
    rw [List.foldl_cons, List.foldl_cons, ← before_blankMarks (hd.inStep hv), ← after_blankMarks]
    exact ih (hv.trans (inStep_blankMarks _ _ v))

theorem withoutDecls_marked {ds ds' : List (Found DeclText)} {as as' : List (Found (Bytes × Bytes))}
    {R : DeclText → DeclText → Prop} {R' : Bytes × Bytes → Bytes × Bytes → Prop}
    (hds : List.Forall₂ (Match w R) ds ds') (has : List.Forall₂ (Match w R') as as') : ∃ u, InStep w u ∧
      before u = withoutDecls ds as (before w) ∧ after u = withoutDecls ds' as' (after w) := by
  obtain ⟨v, hv, hbefore, hafter⟩ := blankOut_marked hds (InStep.refl w)
  obtain ⟨u, hu, hbefore', hafter'⟩ := blankOut_marked has hv
  exact ⟨u, hu, by rw [hbefore', hbefore]; rfl, by rw [hafter', hafter]; rfl⟩

end blank

end Bindery.Interface
