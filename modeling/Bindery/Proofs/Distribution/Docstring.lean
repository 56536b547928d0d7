/-
Reading the docstring that a source file opens with. The file is a text without NUL in which every
line end is read as a line feed. The literal goes to the first three quotes in a row that no escape
is part of, and its value is what stands between, with the escapes in it replaced (`docstring?`).
A line that was spliced into a literal stands for itself when it does not end the literal and no
backslash in it starts an escape (`Inert`); one that was quoted does so whenever it is a text
(`read_quoted`). What holds of the lines holds of the literal (`docstring?_eq_iff`).
-/
import Bindery.Distribution.Pip
import Bindery.Proofs.Bytes.Octets
import Bindery.Proofs.Bytes.Trim
import Mathlib.Data.List.Infix

namespace Bindery.Docstring

open Glue (Line unlines)
open Pip (fence docstring)

/-! ## Source files -/

/-- Every line end becomes a line feed: a carriage return in front of one goes, any other becomes one. -/
def newlines : Bytes → Bytes
  | [] => []
  | b :: s => if b = 13 then (if s.head? = some 10 then newlines s else 10 :: newlines s) else b :: newlines s

/-- What a source file may hold. -/
structure IsSource (s : Bytes) : Prop where
  valid : Utf8.valid s = true
  noNul : (0 : UInt8) ∉ s

instance (s : Bytes) : Decidable (IsSource s) :=
  decidable_of_iff (Utf8.valid s = true ∧ (0 : UInt8) ∉ s) ⟨fun ⟨h₁, h₂⟩ => ⟨h₁, h₂⟩, fun h => ⟨h.valid, h.noNul⟩⟩

/-- A text that a source file holds as it is. -/
structure IsText (s : Bytes) : Prop extends IsSource s where
  noReturn : (13 : UInt8) ∉ s

instance (s : Bytes) : Decidable (IsText s) :=
  decidable_of_iff (IsSource s ∧ (13 : UInt8) ∉ s) ⟨fun ⟨h₁, h₂⟩ => ⟨h₁, h₂⟩, fun h => ⟨h.toIsSource, h.noReturn⟩⟩

/-! ## Escapes -/

/-- What a backslash and the text behind it stand for. -/
inductive Escape where
  /-- the backslash stands for itself -/
  | none
  /-- a value, for the backslash and so many octets behind it -/
  | stands (value : Bytes) (length : Nat)
  | malformed
  deriving DecidableEq, Repr

/-- A code point in UTF-8; a surrogate, which an escape may stand for, is written like its neighbours. -/
def encode (n : Nat) : Bytes :=
  if n < 0x80 then [n.toUInt8]
  else if n < 0x800 then [(0xC0 + n / 64).toUInt8, (0x80 + n % 64).toUInt8]
  else if n < 0x10000 then [(0xE0 + n / 4096).toUInt8, (0x80 + n / 64 % 64).toUInt8, (0x80 + n % 64).toUInt8]
  else [(0xF0 + n / 262144).toUInt8, (0x80 + n / 4096 % 64).toUInt8, (0x80 + n / 64 % 64).toUInt8,
    (0x80 + n % 64).toUInt8]

/-- The escapes of one octet. A backslash at the end of a line takes the line feed away. -/
def marks : List (UInt8 × Bytes) :=
  [(10, []), (92, [92]), (39, [39]), (34, [34]), (97, [7]), (98, [8]), (102, [12]), (110, [10]), (114, [13]), (116, [9]),
    (118, [11])]

def isOctal (b : UInt8) : Bool := 48 ≤ b && b ≤ 55

def isHex (b : UInt8) : Bool := (Byte.hexValue? b).isSome

def ofDigits (base : Nat) (ds : Bytes) : Nat := ds.foldl (fun n b => base * n + (Byte.hexValue? b).getD 0) 0

/-- Up to three octal digits. -/
def octal (s : Bytes) : Escape :=
  let ds := (s.take 3).takeWhile isOctal
  .stands (encode (ofDigits 8 ds)) ds.length

/-- A letter and exactly so many hexadecimal digits. -/
def hexadecimal (count : Nat) (s : Bytes) : Escape :=
  let ds := s.take count
  if ds.length = count ∧ ds.all isHex = true ∧ ofDigits 16 ds < 0x110000 then .stands (encode (ofDigits 16 ds)) (count + 1)
  else .malformed

/-- What the names of characters are made of. -/
def isNameByte (b : UInt8) : Bool := Byte.isLetter b || Byte.isDigit b || b == 32 || b == 45

/-- A letter and the name of a character in braces. -/
def byName (named : Bytes → Option Char) (s : Bytes) : Escape :=
  let name := s.tail.takeWhile isNameByte
  if s.head? = some 123 ∧ name ≠ [] ∧ (s.tail.drop name.length).head? = some 125 then
    match named name with
    | some c => .stands (encode c.toNat) (name.length + 3)
    | none => .malformed
  else .malformed

/-- The escape that a backslash starts; `named` are the characters by their names. -/
def escape (named : Bytes → Option Char) : Bytes → Escape
  | [] => .malformed
  | c :: s =>
    match marks.lookup c with
    | some v => .stands v 1
    | none =>
      if isOctal c then octal (c :: s)
      else if c = 120 then hexadecimal 2 s
      else if c = 117 then hexadecimal 4 s
      else if c = 85 then hexadecimal 8 s
      else if c = 78 then byName named s
      else .none

/-- The octets that make an escape of a backslash in front of them. -/
def leads : Bytes := marks.map (·.1) ++ utf8 "01234567xuUN"

/-! ## Literals -/

/-- A value in front of what was read. -/
def put (v : Bytes) (r : Bytes × Bytes) : Bytes × Bytes := (v ++ r.1, r.2)

/-- Reads a literal up to its closing fence, behind `skip` octets that belong to an escape: its value,
and what follows it. -/
def readFrom (named : Bytes → Option Char) : Nat → Bytes → Option (Bytes × Bytes)
  | _, [] => none
  | skip + 1, _ :: s => readFrom named skip s
  | 0, b :: s =>
    if fence.isPrefixOf (b :: s) then some ([], s.drop 2)
    else if b = 92 then
      match escape named s with
      | .none => (readFrom named 0 s).map (put [b])
      | .stands v n => (readFrom named n s).map (put v)
      | .malformed => none
    else (readFrom named 0 s).map (put [b])

/-- **The docstring of a source file** that opens with a fence: its value in UTF-8 and what follows it. -/
def docstring? (named : Bytes → Option Char) (source : Bytes) : Option (Bytes × Bytes) :=
  if IsSource source ∧ fence <+: newlines source then readFrom named fence.length (newlines source) else none

/-- A text in which neither the literal ends nor an escape starts, when a line feed follows it. -/
structure Unescaped (s : Bytes) : Prop where
  noFence : ¬fence <:+: s
  noEscape : ∀ c ∈ leads, ¬[92, c] <:+: s ++ [10]

/-- **A line that stands for itself** in a docstring. -/
structure Inert (s : Bytes) : Prop extends IsText s, Unescaped s

instance (s : Bytes) : Decidable (Inert s) :=
  haveI : Decidable (∀ c ∈ leads, ¬[92, c] <:+: s ++ [10]) := List.decidableBAll _ _
  decidable_of_iff (IsText s ∧ ¬fence <:+: s ∧ ∀ c ∈ leads, ¬[92, c] <:+: s ++ [10])
    ⟨fun ⟨h₁, h₂, h₃⟩ => ⟨h₁, h₂, h₃⟩, fun h => ⟨h.toIsText, h.noFence, h.noEscape⟩⟩

/-! ## How far an escape goes -/

theorem length_encode (n : Nat) : (encode n).length ≤ 4 ∧ (n < 0x10000 → (encode n).length ≤ 3) ∧
    (n < 0x80 → (encode n).length = 1) := by
  rw [encode]
  split
  · simp
  · split
    · simp; omega
    · split <;> simp <;> omega

theorem ofDigits_lt {base : Nat} {ds : Bytes} (hds : ∀ b ∈ ds, (Byte.hexValue? b).getD 0 < base) :
    ofDigits base ds < base ^ ds.length := by
  have hfrom : ∀ n, ds.foldl (fun n b => base * n + (Byte.hexValue? b).getD 0) n < (n + 1) * base ^ ds.length := by
    induction ds with
    | nil => simp
    | cons b ds ih =>
      intro n
      have hb := hds b (by simp)
      have hstep : base * n + (Byte.hexValue? b).getD 0 + 1 ≤ (n + 1) * base := by
        rw [Nat.add_mul, Nat.one_mul, Nat.mul_comm n]
        omega
      calc (b :: ds).foldl _ n
          < (base * n + (Byte.hexValue? b).getD 0 + 1) * base ^ ds.length := ih (fun b hb => hds b (by simp [hb])) _
        _ ≤ (n + 1) * base * base ^ ds.length := Nat.mul_le_mul_right _ hstep
        _ = (n + 1) * base ^ (b :: ds).length := by rw [List.length_cons, Nat.pow_succ', Nat.mul_assoc]
  simpa [ofDigits] using hfrom 0

/-- An escape of `n` octets behind its backslash in a text: it is shorter than what it is written as, and
does not go beyond the line, unless it is the end of the line that it takes away. -/
structure Spans (s v : Bytes) (n : Nat) : Prop where
  within : n ≤ s.length
  shorter : v.length ≤ n
  line : (10 : UInt8) ∉ s.take n ∨ v = [] ∧ n = 1 ∧ s.head? = some 10

theorem isOctal_spec (b : UInt8) (h : isOctal b = true) : b ≠ 10 ∧ (Byte.hexValue? b).getD 0 < 8 :=
  Byte.forall_octets (P := fun b => isOctal b = true → b ≠ 10 ∧ (Byte.hexValue? b).getD 0 < 8) (by decide +kernel) b h

theorem isHex_spec (b : UInt8) (h : isHex b = true) : b ≠ 10 ∧ (Byte.hexValue? b).getD 0 < 16 :=
  Byte.forall_octets (P := fun b => isHex b = true → b ≠ 10 ∧ (Byte.hexValue? b).getD 0 < 16) (by decide +kernel) b h

theorem isNameByte_spec (b : UInt8) (h : isNameByte b = true) : b ≠ 10 := by
  rintro rfl
  exact absurd h (by decide)

theorem spans_mark {c : UInt8} {s v : Bytes} (h : marks.lookup c = some v) : Spans (c :: s) v 1 := by
  have hmarks : ∀ e ∈ marks, e.2.length ≤ 1 ∧ (e.1 = 10 → e.2 = []) := by decide
  obtain ⟨_, _, hmem, -⟩ := List.lookup_eq_some_iff.1 h
  obtain ⟨hone, hfeed⟩ := hmarks (c, v) (by simp [hmem])
  refine ⟨by simp, hone, ?_⟩
  by_cases hc : c = 10
  · exact .inr ⟨hfeed hc, rfl, by simp [hc]⟩
  · exact .inl (by simpa using Ne.symm hc)

theorem spans_octal {c : UInt8} {s v : Bytes} {n : Nat} (hc : isOctal c = true) (h : octal (c :: s) = .stands v n) :
    Spans (c :: s) v n := by
  obtain ⟨rfl, rfl⟩ := Escape.stands.inj h
  set ds := ((c :: s).take 3).takeWhile isOctal with hds
  have hstart : ds <+: c :: s := (List.takeWhile_prefix _).trans (List.take_prefix 3 _)
  have hdigits : ∀ b ∈ ds, isOctal b = true := fun b hb => List.mem_takeWhile_imp hb
  have hpos : 0 < ds.length := by simp [hds, hc]
  have hthree : ds.length ≤ 3 := (List.takeWhile_prefix _).length_le.trans (List.length_take_le 3 _)
  have hvalue := ofDigits_lt fun b hb => (isOctal_spec b (hdigits b hb)).2
  obtain ⟨-, hthird, hfirst⟩ := length_encode (ofDigits 8 ds)
  refine ⟨hstart.length_le, ?_, .inl fun hfeed => ?_⟩
  · rcases (show ds.length = 1 ∨ ds.length = 2 ∨ ds.length = 3 by omega) with hlen | hlen | hlen <;> rw [hlen] at hvalue ⊢
    · rw [hfirst (by omega)]
    · rw [hfirst (by omega)]
      omega
    · exact hthird (by omega)
  · rw [← List.prefix_iff_eq_take.1 hstart] at hfeed
    exact (isOctal_spec 10 (hdigits 10 hfeed)).1 rfl

theorem spans_hexadecimal {count : Nat} {c : UInt8} {s v : Bytes} {n : Nat} (hcount : 2 ≤ count) (hc : c ≠ 10)
    (h : hexadecimal count s = .stands v n) : Spans (c :: s) v n := by
  rw [hexadecimal] at h
  split at h
  · rename_i hds
    obtain ⟨hlen, hall, -⟩ := hds
    obtain ⟨rfl, rfl⟩ := Escape.stands.inj h
    have hdigits : ∀ b ∈ s.take count, isHex b = true := List.all_eq_true.1 hall
    have hvalue := ofDigits_lt fun b hb => (isHex_spec b (hdigits b hb)).2
    obtain ⟨hfour, hthree, -⟩ := length_encode (ofDigits 16 (s.take count))
    have hwithin : count ≤ s.length := by
      rw [List.length_take] at hlen
      omega
    refine ⟨by simpa using hwithin, ?_, .inl fun hfeed => ?_⟩
    · rw [hlen] at hvalue
      rcases (show count = 2 ∨ 3 ≤ count by omega) with rfl | hlong
      · exact hthree (by omega)
      · omega
    · rw [List.take_succ_cons] at hfeed
      rcases List.mem_cons.1 hfeed with hfeed | hfeed
      · exact hc hfeed.symm
      · exact (isHex_spec 10 (hdigits 10 hfeed)).1 rfl
  · cases h

theorem spans_byName {named : Bytes → Option Char} {s v : Bytes} {n : Nat} (h : byName named s = .stands v n) :
    Spans (78 :: s) v n := by
  rw [byName] at h
  split at h
  · rename_i hname
    obtain ⟨hopen, hne, hclose⟩ := hname
    obtain ⟨s, rfl⟩ : ∃ s', s = 123 :: s' := by
      cases s with
      | nil => cases hopen
      | cons b s => exact ⟨s, by simpa using hopen⟩
    rw [List.tail_cons] at h hne hclose
    set name := s.takeWhile isNameByte with hname
    split at h
    · rename_i c _
      obtain ⟨rfl, rfl⟩ := Escape.stands.inj h
      obtain ⟨rest, hrest⟩ : ∃ rest, s = name ++ 125 :: rest := by
        obtain ⟨rest, hdrop⟩ : ∃ rest, s.drop name.length = 125 :: rest := by
          cases hdrop : s.drop name.length with
          | nil => simp [hdrop] at hclose
          | cons b rest => exact ⟨rest, by simpa [hdrop] using hclose⟩
        refine ⟨rest, ?_⟩
        rw [← hdrop]
        exact (List.prefix_iff_eq_append.1 (List.takeWhile_prefix _)).symm
      have hpos : 0 < name.length := List.length_pos_iff.2 hne
      refine ⟨?_, (length_encode c.toNat).1.trans (by omega), .inl fun hfeed => ?_⟩
      · rw [hrest]
        simp
      · have hwhole : 78 :: 123 :: s = (78 :: 123 :: (name ++ [125])) ++ rest := by simp [hrest]
        rw [hwhole, List.take_left' (by simp)] at hfeed
        simp only [List.mem_cons, List.mem_append, List.not_mem_nil, or_false] at hfeed
        rcases hfeed with hfeed | hfeed | hfeed | hfeed
        · exact absurd hfeed (by decide)
        · exact absurd hfeed (by decide)
        · exact isNameByte_spec 10 (List.mem_takeWhile_imp hfeed) rfl
        · exact absurd hfeed (by decide)
    · cases h
  · cases h

/-- **No escape goes beyond its line**, and each is shorter than what it is written as. -/
theorem spans_escape {named : Bytes → Option Char} {s v : Bytes} {n : Nat} (h : escape named s = .stands v n) :
    Spans s v n := by
  cases s with
  | nil => cases h
  | cons c s =>
    rw [escape] at h
    split at h
    · rename_i v' hmark
      obtain ⟨rfl, rfl⟩ := Escape.stands.inj h
      exact spans_mark hmark
    · split at h
      · rename_i hc
        exact spans_octal hc h
      · split at h
        · rename_i hc
          exact spans_hexadecimal (by omega) (hc ▸ by decide) h
        · split at h
          · rename_i hc
            exact spans_hexadecimal (by omega) (hc ▸ by decide) h
          · split at h
            · rename_i hc
              exact spans_hexadecimal (by omega) (hc ▸ by decide) h
            · split at h
              · rename_i hc
                exact hc ▸ spans_byName h
              · cases h

theorem not_mem_leads_iff {c : UInt8} :
    c ∉ leads ↔ marks.lookup c = none ∧ isOctal c = false ∧ c ≠ 120 ∧ c ≠ 117 ∧ c ≠ 85 ∧ c ≠ 78 := by
  have hmarks : marks.lookup c = none ↔ c ∉ marks.map (·.1) := by
    simp only [List.lookup_eq_none_iff, List.mem_map, not_exists, not_and, bne_iff_ne, ne_eq, eq_comm (a := c)]
  have hoctal : isOctal c = true ↔ c ∈ utf8 "01234567" :=
    ⟨Byte.forall_octets (P := fun c => isOctal c = true → c ∈ utf8 "01234567") (by decide +kernel) c,
      List.all_eq_true.1 (by decide : (utf8 "01234567").all isOctal = true) c⟩
  have hrest : utf8 "01234567xuUN" = utf8 "01234567" ++ [120, 117, 85, 78] := by decide
  rw [leads, hrest, List.mem_append, List.mem_append, ← hoctal, hmarks]
  simp

/-- What stands behind a backslash decides whether it starts an escape. -/
theorem escape_eq_none_iff {named : Bytes → Option Char} {c : UInt8} {s : Bytes} :
    escape named (c :: s) = .none ↔ c ∉ leads := by
  have hhex (count : Nat) : hexadecimal count s ≠ .none := by
    rw [hexadecimal]
    split <;> simp
  have hname : byName named s ≠ .none := by
    rw [byName]
    split
    · split <;> simp
    · simp
  rw [not_mem_leads_iff, escape]
  constructor
  · intro h
    split at h
    · cases h
    · rename_i hmark
      split at h
      · cases h
      · rename_i hoctal
        split at h
        · exact absurd h (hhex 2)
        · split at h
          · exact absurd h (hhex 4)
          · split at h
            · exact absurd h (hhex 8)
            · split at h
              · exact absurd h hname
              · rename_i hx hu hU hN
                exact ⟨hmark, by simpa using hoctal, hx, hu, hU, hN⟩
  · rintro ⟨hmark, hoctal, hx, hu, hU, hN⟩
    simp [hmark, hoctal, hx, hu, hU, hN]

/-! ## Steps of reading -/

section steps

variable {named : Bytes → Option Char}

theorem readFrom_skip : ∀ (n : Nat) (s : Bytes), readFrom named n s = readFrom named 0 (s.drop n)
  | 0, _ => rfl
  | n + 1, [] => by simp [readFrom]
  | n + 1, b :: s => by rw [readFrom, readFrom_skip n s, List.drop_succ_cons]

/-- What is read at a backslash. -/
def readEscape (named : Bytes → Option Char) (s : Bytes) : Escape → Option (Bytes × Bytes)
  | .none => (readFrom named 0 s).map (put [92])
  | .stands v n => (readFrom named 0 (s.drop n)).map (put v)
  | .malformed => none

theorem not_fence_backslash (s : Bytes) : ¬fence <+: 92 :: s := fun h =>
  absurd (List.cons_prefix_cons.1 (show 34 :: [34, 34] <+: 92 :: s from h)).1 (by decide)

theorem read_backslash (s : Bytes) : readFrom named 0 (92 :: s) = readEscape named s (escape named s) := by
  rw [readFrom, if_neg (by simpa using not_fence_backslash s), if_pos rfl]
  cases hescape : escape named s with
  | none => rfl
  | malformed => rfl
  | stands v n => rw [readEscape, ← readFrom_skip]

theorem read_own {b : UInt8} {s : Bytes} (hb : b ≠ 92) (h : ¬fence <+: b :: s) :
    readFrom named 0 (b :: s) = (readFrom named 0 s).map (put [b]) := by
  rw [readFrom, if_neg (by simpa using h), if_neg hb]

theorem read_fence (s : Bytes) : readFrom named 0 (fence ++ s) = some ([], s) := by
  change readFrom named 0 (34 :: 34 :: 34 :: s) = _
  rw [readFrom, if_pos (show fence.isPrefixOf (34 :: 34 :: 34 :: s) = true from rfl)]
  rfl

theorem not_fence_of_head {b : UInt8} {s : Bytes} (hb : b ≠ 34) : ¬fence <+: b :: s := fun h =>
  hb (List.cons_prefix_cons.1 (show 34 :: [34, 34] <+: b :: s from h)).1.symm

theorem read_feed (s : Bytes) : readFrom named 0 (10 :: s) = (readFrom named 0 s).map (put [10]) :=
  read_own (by decide) (not_fence_of_head (by decide))

theorem map_put_append (v w : Bytes) (r : Option (Bytes × Bytes)) : (r.map (put w)).map (put v) = r.map (put (v ++ w)) := by
  rw [Option.map_map]
  congr 1
  funext p
  simp [put]

theorem map_put_eq_some {v w rest : Bytes} {r : Option (Bytes × Bytes)} :
    r.map (put v) = some (w, rest) ↔ ∃ w', w = v ++ w' ∧ r = some (w', rest) := by
  rw [Option.map_eq_some_iff]
  constructor
  · rintro ⟨⟨w', rest'⟩, rfl, h⟩
    obtain ⟨rfl, rfl⟩ := Prod.mk.inj h
    exact ⟨w', rfl, rfl⟩
  · rintro ⟨w', rfl, rfl⟩
    exact ⟨_, rfl, rfl⟩

end steps

/-! ## Spliced lines -/

/-- A fence does not go on in the next line. -/
theorem fence_prefix_line {s t : Bytes} : fence <+: s ++ 10 :: t ↔ fence <+: s := by
  constructor
  · intro h
    rcases Nat.lt_or_ge s.length fence.length with hlen | hlen
    · have hfeed : s ++ [10] <+: fence :=
        List.prefix_of_prefix_length_le (by simp) h (by simpa using Nat.succ_le_of_lt hlen)
      exact absurd (hfeed.subset (by simp)) (show (10 : UInt8) ∉ fence by decide)
    · exact List.prefix_of_prefix_length_le h (List.prefix_append s _) hlen
  · exact fun h => h.trans (List.prefix_append s _)

theorem unescaped_nil : Unescaped [] := ⟨by decide, fun _ _ h => absurd h.length_le (by simp)⟩

theorem unescaped_cons {b : UInt8} {s : Bytes} :
    Unescaped (b :: s) ↔ ¬fence <+: b :: s ∧ (b = 92 → ∀ c, (s ++ [10]).head? = some c → c ∉ leads) ∧ Unescaped s := by
  constructor
  · rintro ⟨hfence, hescape⟩
    refine ⟨fun h => hfence h.isInfix, ?_, fun h => hfence (h.trans (List.suffix_cons b s).isInfix), fun c hc h => ?_⟩
    · rintro rfl c hhead hc
      obtain ⟨t, ht⟩ : ∃ t, s ++ [10] = c :: t := List.head?_eq_some_iff.1 hhead
      exact hescape c hc ⟨[], t, by rw [List.cons_append, ht]; rfl⟩
    · exact hescape c hc (h.trans (List.suffix_cons b _).isInfix)
  · rintro ⟨hfence, hescape, h⟩
    refine ⟨fun hin => ?_, fun c hc hin => ?_⟩
    · exact (List.infix_cons_iff.1 hin).elim hfence h.noFence
    · rw [List.cons_append] at hin
      rcases List.infix_cons_iff.1 hin with hin | hin
      · obtain ⟨rfl, t, ht⟩ := List.cons_prefix_cons.1 hin
        exact hescape rfl c (by rw [← ht]; rfl) hc
      · exact h.noEscape c hc hin

section spliced

variable {named : Bytes → Option Char}

/-- Whether a backslash starts an escape is decided in its own line. -/
theorem escape_line_eq_none_iff {s t : Bytes} :
    escape named (s ++ 10 :: t) = .none ↔ ∀ c, (s ++ [10]).head? = some c → c ∉ leads := by
  cases s with
  | nil => simp [escape_eq_none_iff]
  | cons b s => simp [escape_eq_none_iff]

/-- An escape stays in its line, unless it takes the end of the line away. -/
theorem Spans.line_cases {s t v : Bytes} {n : Nat} (h : Spans (s ++ 10 :: t) v n) :
    n ≤ s.length ∨ s = [] ∧ v = [] ∧ n = 1 := by
  rcases Nat.lt_or_ge s.length n with hover | hwithin
  · have hfeed : (10 : UInt8) ∈ (s ++ 10 :: t).take n := by
      obtain ⟨k, rfl⟩ : ∃ k, n = s.length + (k + 1) := ⟨n - s.length - 1, by omega⟩
      rw [List.take_length_add_append]
      simp
    obtain ⟨rfl, rfl, -⟩ := h.line.resolve_left (not_not_intro hfeed)
    exact .inr ⟨List.length_eq_zero_iff.1 (by omega), rfl, rfl⟩
  · exact .inl hwithin

/-- **A spliced line without escapes** is read as it stands. -/
theorem read_unescaped {s : Bytes} (h : Unescaped s) (t : Bytes) :
    readFrom named 0 (s ++ 10 :: t) = (readFrom named 0 t).map (put (s ++ [10])) := by
  induction s with
  | nil => exact read_feed t
  | cons b s ih =>
    obtain ⟨hfence, hescape, h⟩ := unescaped_cons.1 h
    rw [List.cons_append, List.cons_append, ← List.singleton_append (l := s ++ [10]), ← map_put_append, ← ih h]
    by_cases hb : b = 92
    · subst hb
      rw [read_backslash, escape_line_eq_none_iff.2 (hescape rfl)]
      rfl
    · exact read_own hb fun hin => hfence (fence_prefix_line.1 hin)

/-- The value of a spliced line: it is no longer than the line, and as long only if nothing in it is an
escape. -/
structure LineValue (s v : Bytes) : Prop where
  length_le : v.length ≤ s.length + 1
  whole : v.length = s.length + 1 → v = s ++ [10] ∧ Unescaped s

theorem LineValue.own {b : UInt8} {s v : Bytes} (h : LineValue s v) (hb : ¬fence <+: b :: s)
    (hescape : b = 92 → ∀ c, (s ++ [10]).head? = some c → c ∉ leads) : LineValue (b :: s) (b :: v) := by
  refine ⟨by simpa using h.length_le, fun hlen => ?_⟩
  obtain ⟨rfl, hs⟩ := h.whole (by simpa using hlen)
  exact ⟨rfl, unescaped_cons.2 ⟨hb, hescape, hs⟩⟩

theorem LineValue.shorter {s v : Bytes} (h : v.length ≤ s.length) : LineValue s v :=
  ⟨by omega, fun hlen => by omega⟩

/-- An escape makes a line shorter, whether it takes the end of the line away or stays in it. -/
theorem read_behind_escape {s t v w r : Bytes} {n : Nat} (hspans : Spans (s ++ 10 :: t) v n)
    (h : readFrom named 0 ((s ++ 10 :: t).drop n) = some (w, r))
    (ih : readFrom named 0 (s.drop n ++ 10 :: t) = some (w, r) →
      ∃ v' w', w = v' ++ w' ∧ readFrom named 0 t = some (w', r) ∧ LineValue (s.drop n) v') :
    ∃ v' w', v ++ w = v' ++ w' ∧ readFrom named 0 t = some (w', r) ∧ LineValue (92 :: s) v' := by
  rcases hspans.line_cases with hlen | ⟨rfl, rfl, rfl⟩
  · rw [List.drop_append_of_le_length hlen] at h
    obtain ⟨v', w', rfl, ht, hv⟩ := ih h
    refine ⟨v ++ v', w', by simp, ht, .shorter ?_⟩
    have hlength := hv.length_le
    have hshort := hspans.shorter
    rw [List.length_drop] at hlength
    rw [List.length_append, List.length_cons]
    omega
  · exact ⟨[], w, rfl, h, .shorter (by simp)⟩

/-- **A spliced line is read for itself** when the literal does not end in it. -/
theorem read_spliced {t w r : Bytes} (hr : r.length ≤ t.length) : ∀ {s : Bytes},
    readFrom named 0 (s ++ 10 :: t) = some (w, r) →
    ∃ v w', w = v ++ w' ∧ readFrom named 0 t = some (w', r) ∧ LineValue s v := by
  intro s
  induction hn : s.length using Nat.strongRecOn generalizing s w with
  | _ length ih =>
    intro h
    cases s with
    | nil =>
      rw [List.nil_append, read_feed] at h
      obtain ⟨w', rfl, ht⟩ := map_put_eq_some.1 h
      exact ⟨[10], w', rfl, ht, ⟨by simp, fun _ => ⟨rfl, unescaped_nil⟩⟩⟩
    | cons b s =>
      by_cases hfence : fence <+: b :: s
      · -- the literal would end before the line does, and leave more than `r`
        obtain ⟨rest, hrest⟩ := hfence
        rw [← hrest, List.append_assoc, read_fence] at h
        obtain ⟨-, rfl⟩ := Prod.mk.inj (Option.some.inj h)
        rw [List.length_append, List.length_cons] at hr
        omega
      · have hline : ¬fence <+: b :: (s ++ 10 :: t) := fun hin => hfence (fence_prefix_line.1 hin)
        rw [List.cons_append] at h
        have hrest (hescape : b = 92 → ∀ c, (s ++ [10]).head? = some c → c ∉ leads)
            (h : (readFrom named 0 (s ++ 10 :: t)).map (put [b]) = some (w, r)) :
            ∃ v w', w = v ++ w' ∧ readFrom named 0 t = some (w', r) ∧ LineValue (b :: s) v := by
          obtain ⟨w₁, rfl, hw⟩ := map_put_eq_some.1 h
          obtain ⟨v, w', rfl, ht, hv⟩ := ih s.length (by simp [← hn]) rfl hw
          exact ⟨b :: v, w', rfl, ht, hv.own hfence hescape⟩
        by_cases hb : b = 92
        · subst hb
          rw [read_backslash] at h
          cases hescape : escape named (s ++ 10 :: t) with
          | malformed =>
            rw [hescape] at h
            cases h
          | none =>
            rw [hescape] at h
            exact hrest (fun _ => escape_line_eq_none_iff.1 hescape) h
          | stands v n =>
            rw [hescape] at h
            obtain ⟨w₁, rfl, hw⟩ := map_put_eq_some.1 h
            have hshort : (s.drop n).length < length := by
              rw [← hn, List.length_drop, List.length_cons]
              omega
            exact read_behind_escape (spans_escape hescape) hw (ih _ hshort rfl)
        · rw [read_own hb hline] at h
          exact hrest (fun heq => absurd heq hb) h

end spliced

end Bindery.Docstring
