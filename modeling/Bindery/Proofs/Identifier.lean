/-
Identifiers, and what conversions of names make of them. A text is taken as `pieces`: ASCII
octets, and the runs of octets beyond ASCII between them, of which a language says whether they
can stand in an identifier. Conversions rewrite ASCII octets one by one and put underscores
beside some of them (`Spread`), so a converted name is an identifier exactly when the name
itself is one but for the octets that become underscores (`isIdentifier_of_spread`).
-/
import Bindery.Proofs.CaseStyle

namespace Bindery

/-- An ASCII octet, or a longest run of octets beyond ASCII. -/
inductive Piece where
  | ascii (b : UInt8)
  | wide (run : Bytes)
  deriving DecidableEq, Repr

/-- The pieces of a text. -/
def Bytes.pieces : Bytes → List Piece
  | [] => []
  | b :: s =>
    if b < 0x80 then .ascii b :: pieces s
    else
      match pieces s with
      | .wide run :: ps => .wide (b :: run) :: ps
      | ps => .wide [b] :: ps

/-- What a language lets stand in identifiers that are written without escapes. Which runs beyond ASCII it
takes is left open. -/
structure NameRules where
  /-- ASCII octets besides letters, digits and underscores -/
  signs : List UInt8
  /-- runs that can start an identifier -/
  wideStart : Bytes → Bool
  /-- runs that can stand further on in one -/
  widePart : Bytes → Bool
  /-- words that are no identifiers -/
  reserved : List Bytes

namespace NameRules

def startsByte (signs : List UInt8) (b : UInt8) : Bool := Byte.isLetter b || b == 95 || signs.contains b

def partByte (signs : List UInt8) (b : UInt8) : Bool := Byte.isWord b || signs.contains b

/-- A piece that can start an identifier, or an octet that stands for an underscore. -/
def starts (l : NameRules) (dividers : List UInt8) : Piece → Bool
  | .ascii b => startsByte l.signs b || dividers.contains b
  | .wide run => l.wideStart run

/-- A piece that can stand in an identifier, or an octet that stands for an underscore. -/
def part (l : NameRules) (dividers : List UInt8) : Piece → Bool
  | .ascii b => partByte l.signs b || dividers.contains b
  | .wide run => l.widePart run

/-- The text is an identifier when the dividers in it become underscores. -/
def admits (l : NameRules) (dividers : List UInt8) (s : Bytes) : Bool :=
  match s.pieces with
  | [] => false
  | p :: ps => l.starts dividers p && ps.all (l.part dividers)

def isIdentifier (l : NameRules) (s : Bytes) : Bool := l.admits [] s

end NameRules

/-! ## Conversions -/

/-- ASCII octets are rewritten by `core`, with underscores beside them; in front only of letters. -/
inductive Spread (core : UInt8 → UInt8) : List Piece → List Piece → Prop
  | nil : Spread core [] []
  | wide (run : Bytes) {ps qs : List Piece} : Spread core ps qs → Spread core (.wide run :: ps) (.wide run :: qs)
  | ascii {b : UInt8} (front back : Bool) (hfront : front = true → Byte.isLetter b = true) {ps qs : List Piece} :
      Spread core ps qs →
      Spread core (.ascii b :: ps) ((gap front).map .ascii ++ .ascii (core b) :: ((gap back).map .ascii ++ qs))

namespace Bytes

theorem pieces_ascii {b : UInt8} (hb : b < 0x80) (s : Bytes) : pieces (b :: s) = .ascii b :: pieces s := by
  rw [pieces, if_pos hb]

theorem pieces_append_ascii {t : Bytes} (ht : IsAscii t) (s : Bytes) : pieces (t ++ s) = t.map .ascii ++ pieces s := by
  induction t with
  | nil => rfl
  | cons b t ih =>
    obtain ⟨hb, ht⟩ := List.forall_mem_cons.1 ht
    rw [List.cons_append, pieces_ascii hb, ih ht]
    rfl

theorem isAscii_gap (there : Bool) : IsAscii (gap there) := by
  cases there <;> simp [gap, IsAscii]

/-- An octet beyond ASCII in front of both texts. -/
theorem spread_wide {core : UInt8 → UInt8} {b : UInt8} (hb : ¬b < 0x80) {s t : Bytes} (h : Spread core s.pieces t.pieces) :
    Spread core (pieces (b :: s)) (pieces (b :: t)) := by
  rw [pieces, pieces, if_neg hb, if_neg hb]
  generalize s.pieces = ps at h
  generalize t.pieces = qs at h
  cases h with
  | nil => exact .wide _ .nil
  | wide run h => exact .wide _ h
  | ascii front back hfront h =>
    cases front with
    | false => exact .wide _ (.ascii false back hfront h)
    | true => exact .wide _ (.ascii true back hfront h)

/-- An ASCII octet in front of both texts, rewritten and perhaps with underscores beside it. -/
theorem spread_ascii {core : UInt8 → UInt8} {b : UInt8} (hb : b < 0x80) (hcore : core b < 0x80) (front back : Bool)
    (hfront : front = true → Byte.isLetter b = true) {s t : Bytes} (h : Spread core s.pieces t.pieces) :
    Spread core (pieces (b :: s)) (pieces (gap front ++ core b :: (gap back ++ t))) := by
  rw [pieces_ascii hb, pieces_append_ascii (isAscii_gap front), pieces_ascii hcore, pieces_append_ascii (isAscii_gap back)]
  exact .ascii front back hfront h

/-- Octets rewritten one by one, ASCII to ASCII. -/
theorem spread_map {core : UInt8 → UInt8} (hascii : ∀ b, b < 0x80 → core b < 0x80) (hwide : ∀ b, ¬b < 0x80 → core b = b)
    (s : Bytes) : Spread core s.pieces (pieces (s.map core)) := by
  induction s with
  | nil => exact .nil
  | cons b s ih =>
    by_cases hb : b < 0x80
    · exact spread_ascii hb (hascii b hb) false false (by simp) ih
    · rw [List.map_cons, hwide b hb]
      exact spread_wide hb ih

end Bytes

/-- A conversion that, beside what can stand in an identifier anyway, makes such an octet of exactly the
dividers. -/
def NameRules.Rewrites (signs : List UInt8) (core : UInt8 → UInt8) (dividers : List UInt8) (b : UInt8) : Prop :=
  startsByte signs (core b) = (startsByte signs b || dividers.contains b) ∧
  partByte signs (core b) = (partByte signs b || dividers.contains b)

instance (signs : List UInt8) (core : UInt8 → UInt8) (dividers : List UInt8) :
    DecidablePred (NameRules.Rewrites signs core dividers) := fun _ => inferInstanceAs (Decidable (_ ∧ _))

/-- What a conversion leaves of an identifier. -/
theorem NameRules.isIdentifier_of_spread (l : NameRules) {core : UInt8 → UInt8} {dividers : List UInt8} {s t : Bytes}
    (hcore : ∀ b, Rewrites l.signs core dividers b) (h : Spread core s.pieces t.pieces) :
    l.isIdentifier t = l.admits dividers s := by
  have hgap (there : Bool) : ((gap there).map Piece.ascii).all (l.part []) = true := by
    cases there <;> simp [gap, part, partByte, Byte.isWord]
  have hascii (b : UInt8) : l.part [] (.ascii (core b)) = l.part dividers (.ascii b) := by
    simp [part, (hcore b).2]
  have hall : ∀ {ps qs : List Piece}, Spread core ps qs → qs.all (l.part []) = ps.all (l.part dividers) := by
    intro ps qs h
    induction h with
    | nil => rfl
    | wide run _ ih => simp only [List.all_cons, ih, part]
    | ascii front back hfront _ ih =>
      simp only [List.all_append, List.all_cons, hgap, hascii _, ih, Bool.true_and]
  rw [isIdentifier, admits, admits]
  generalize s.pieces = ps at h
  generalize t.pieces = qs at h
  cases h with
  | nil => rfl
  | wide run h => simp only [hall h, starts]
  | @ascii b front back hfront ps qs h =>
    have hrest : ((gap back).map Piece.ascii ++ qs).all (l.part []) = ps.all (l.part dividers) := by
      rw [List.all_append, hgap, hall h, Bool.true_and]
    cases front with
    | false =>
      change (l.starts [] (.ascii (core b)) && _) = (l.starts dividers (.ascii b) && _)
      rw [hrest]
      simp [starts, (hcore b).1]
    | true =>
      -- the underscore starts the identifier where the letter behind it would have done so
      have hletter := hfront rfl
      have hunderscore : l.starts [] (.ascii 95) = true := by simp [starts, startsByte]
      have hstarts : l.starts dividers (.ascii b) = true := by simp [starts, startsByte, hletter]
      have hin : l.part dividers (.ascii b) = true := by simp [part, partByte, Byte.isWord, hletter]
      change (l.starts [] (.ascii 95) && (l.part [] (.ascii (core b)) && _)) = (l.starts dividers (.ascii b) && _)
      rw [hrest, hunderscore, hstarts, hascii b, hin, Bool.true_and]

/-! ## Snake case and hyphens -/

namespace CaseStyle

theorem snakePlain_ascii {b : UInt8} (hb : b < 0x80) : snakePlain b < 0x80 :=
  Byte.forall_octets (P := fun b => b < 0x80 → snakePlain b < 0x80) (by decide +kernel) b hb

theorem snakePlain_wide {b : UInt8} (hb : ¬b < 0x80) : snakePlain b = b :=
  Byte.forall_octets (P := fun b => ¬b < 0x80 → snakePlain b = b) (by decide +kernel) b hb

/-- Snake case rewrites octets one by one and puts underscores beside letters and digits. -/
theorem spread_snakeFrom (s : Bytes) (afterUpper : Bool) : Spread snakePlain s.pieces (snakeFrom afterUpper s).pieces := by
  induction s generalizing afterUpper with
  | nil => exact .nil
  | cons b s ih =>
    obtain ⟨front, back, hfront, hwide, hsnake⟩ := snakeFrom_cons afterUpper b s
    rw [hsnake]
    by_cases hb : b < 0x80
    · exact Bytes.spread_ascii hb (snakePlain_ascii hb) front back hfront (ih _)
    · obtain ⟨rfl, rfl⟩ := hwide hb
      rw [snakePlain_wide hb]
      exact Bytes.spread_wide hb (ih _)

/-- No capital is left in snake case. -/
theorem not_isUpper_of_mem_snakeFrom {x : UInt8} {s : Bytes} {afterUpper : Bool} (h : x ∈ snakeFrom afterUpper s) :
    Byte.isUpper x = false := by
  rcases of_mem_snakeFrom h with rfl | ⟨b, -, rfl⟩
  · rfl
  · exact Byte.forall_octets (P := fun b => Byte.isUpper (snakePlain b) = false) (by decide +kernel) b

end CaseStyle

/-- A hyphen becomes an underscore. -/
def underscored (b : UInt8) : UInt8 := if b = 45 then 95 else b

theorem replaceAll_hyphen (s : Bytes) : s.replaceAll (utf8 "-") (utf8 "_") = s.map underscored := by
  change Bytes.replaceFrom [45] [95] 0 s = s.map underscored
  induction s with
  | nil => rfl
  | cons b s ih =>
    rw [Bytes.replaceFrom, List.map_cons, underscored]
    by_cases hb : b = 45
    · subst hb
      simp [ih]
    · have hother : ¬([45] : Bytes).isPrefixOf (b :: s) = true := by simpa using Ne.symm hb
      rw [if_neg hother, if_neg hb, ih]

theorem spread_underscored (s : Bytes) : Spread underscored s.pieces (Bytes.pieces (s.map underscored)) :=
  Bytes.spread_map
    (fun b hb => Byte.forall_octets (P := fun b => b < 0x80 → underscored b < 0x80) (by decide +kernel) b hb)
    (fun b hb => Byte.forall_octets (P := fun b => ¬b < 0x80 → underscored b = b) (by decide +kernel) b hb) s

/-- A text with neither hyphens nor underscores. -/
def isUndivided (w : Bytes) : Bool := w.all fun b => b != 45 && b != 95

/-- Such a text comes of itself only. -/
theorem map_underscored_eq_iff {s w : Bytes} (hw : isUndivided w = true) : s.map underscored = w ↔ s = w := by
  induction s generalizing w with
  | nil => simp
  | cons b s ih =>
    cases w with
    | nil => simp
    | cons c w =>
      obtain ⟨⟨hhyphen, hunderscore⟩, hw⟩ : (c ≠ 45 ∧ c ≠ 95) ∧ isUndivided w = true := by
        simpa [isUndivided] using hw
      have hhead : underscored b = c ↔ b = c := by
        unfold underscored
        split
        · rename_i hb
          exact iff_of_false (fun h => hunderscore h.symm) fun h => hhyphen (h.symm.trans hb)
        · rfl
      rw [List.map_cons, List.cons.injEq, List.cons.injEq, ih hw, hhead]

theorem underscored_mem_iff {ws : List Bytes} (hws : ∀ w ∈ ws, isUndivided w = true) (s : Bytes) :
    s.map underscored ∈ ws ↔ s ∈ ws := by
  constructor
  · intro hs
    rwa [← (map_underscored_eq_iff (hws _ hs)).1 rfl] at hs
  · intro hs
    rwa [(map_underscored_eq_iff (hws _ hs)).2 rfl]

end Bindery
