/-
Package names and their texts. A text is a package name exactly when it is an identifier, or
one behind another and a slash, or one behind `_/`. A name prints as it was written, the
global namespace apart, which is not printed; what is printed is a name that prints the same
again (`parse_exactly`). The npm name is in lower case, for which the ASCII rule is enough
(`toLower_of_ascii`).
-/
import Bindery.Bytes.LowerCase
import Bindery.Proofs.Package.Name

namespace Bindery

/-- No run but that of the letters begins in ASCII. -/
theorem LowerCase.toList_runs : ∃ later, runs.toList = (0x41, 0x5a, 1, 0x61) :: later ∧ ∀ r ∈ later, 0xc0 ≤ r.1 :=
  ⟨runs.toList.tail, by decide +kernel, by decide +kernel⟩

theorem LowerCase.ofChar_of_ascii {c : Char} (hc : c.toNat < 0x80) :
    ofChar c = if 65 ≤ c.toNat ∧ c.toNat ≤ 90 then Char.ofNat (c.toNat + 32) else c := by
  obtain ⟨later, hruns, hlater⟩ := toList_runs
  have hnone : later.find? (fun r =>
      r.1 ≤ c.toNat && c.toNat ≤ r.2.1 && (c.toNat - r.1) % r.2.2.1 == 0) = none := by
    refine List.find?_eq_none.2 fun r hr => ?_
    have hfirst := hlater r hr
    simp only [Bool.and_eq_true, decide_eq_true_eq]
    omega
  dsimp only [ofChar]
  rw [← Array.find?_toList, hruns, List.find?_cons, hnone]
  simp only [Nat.mod_one, BEq.rfl, Bool.and_true, ← Bool.decide_and]
  by_cases hletter : 65 ≤ c.toNat ∧ c.toNat ≤ 90
  · rw [if_pos hletter, decide_eq_true hletter]
    exact congrArg Char.ofNat (by omega)
  · rw [if_neg hletter, decide_eq_false hletter]

/-- On ASCII texts the lower case of all characters is that of the letters. -/
theorem Bytes.toLower_of_ascii {s : Bytes} (h : IsAscii s) : s.toLower = s.lower := by
  have hone : ∀ b ∈ s, String.utf8EncodeChar (LowerCase.ofChar (Char.ofNat b.toNat)) = [Byte.lower b] := by
    intro b hb
    have hsmall := Utf8.ascii_forall (P := fun b => (Char.ofNat b.toNat).toNat < 0x80) (by decide +kernel) (h b hb)
    rw [LowerCase.ofChar_of_ascii hsmall]
    exact Utf8.ascii_forall (P := fun b => String.utf8EncodeChar (if 65 ≤ (Char.ofNat b.toNat).toNat ∧
      (Char.ofNat b.toNat).toNat ≤ 90 then Char.ofNat ((Char.ofNat b.toNat).toNat + 32) else Char.ofNat b.toNat) =
        [Byte.lower b]) (by decide +kernel) (h b hb)
  calc s.toLower = s.flatMap fun b => String.utf8EncodeChar (LowerCase.ofChar (Char.ofNat b.toNat)) := by
        rw [toLower, Utf8.units_of_ascii h, List.flatMap_map]
        rfl
    _ = s.flatMap fun b => [Byte.lower b] := List.flatMap_congr hone
    _ = s.lower := by rw [lower, List.map_eq_flatMap]

namespace PackageName

/-- The letters of ASCII. -/
def letters : Bytes := utf8 "abcdefghijklmnopqrstuvwxyzABCDEFGHIJKLMNOPQRSTUVWXYZ"

/-- An identifier: a letter, then letters, digits, hyphens and underscores. -/
def IsIdent (s : Bytes) : Prop :=
  ∃ b rest, s = b :: rest ∧ b ∈ letters ∧ ∀ c ∈ rest, c ∈ letters ++ utf8 "0123456789-_"

/-- The grammar of package names. -/
def IsSpelling (s : Bytes) : Prop :=
  IsIdent s ∨ (∃ ns name, IsIdent ns ∧ IsIdent name ∧ s = ns ++ utf8 "/" ++ name) ∨
    ∃ name, IsIdent name ∧ s = utf8 "_/" ++ name

/-! ## Identifiers -/

theorem isLetter_iff (b : UInt8) : Byte.isLetter b = true ↔ b ∈ letters := by
  rw [letters, utf8_eq_toByteArray]
  exact ⟨Byte.forall_octets (P := fun b => Byte.isLetter b = true → b ∈ _) (by decide +kernel) b,
    List.all_eq_true.1 (by decide +kernel : List.all _ Byte.isLetter = true) b⟩

theorem isIdentByte_iff (b : UInt8) : isIdentByte b = true ↔ b ∈ letters ++ utf8 "0123456789-_" := by
  have hdigit : Byte.isDigit b = true ↔ b ∈ utf8 "0123456789" :=
    ⟨Byte.forall_octets (P := fun b => Byte.isDigit b = true → b ∈ utf8 "0123456789") (by decide +kernel) b,
      List.all_eq_true.1 (by decide : (utf8 "0123456789").all Byte.isDigit = true) b⟩
  have hrest : utf8 "0123456789-_" = utf8 "0123456789" ++ [45, 95] := by decide
  rw [hrest, List.mem_append, List.mem_append, ← isLetter_iff, ← hdigit]
  simp [isIdentByte, or_assoc]

/-- **An identifier is a text nothing is wrong with.** -/
theorem identProblem_eq_none {s : Bytes} : identProblem s = none ↔ IsIdent s := by
  cases s with
  | nil => simp [identProblem, IsIdent]
  | cons b s =>
    have hident : IsIdent (b :: s) ↔ b ∈ letters ∧ ∀ c ∈ s, c ∈ letters ++ utf8 "0123456789-_" := by
      constructor
      · rintro ⟨_, _, heq, h⟩
        cases heq
        exact h
      · exact fun h => ⟨b, s, rfl, h⟩
    simp only [hident, identProblem, ← isLetter_iff, ← isIdentByte_iff]
    cases Byte.isLetter b <;> cases hs : s.all isIdentByte <;> simp_all

theorem IsIdent.ascii {s : Bytes} (h : IsIdent s) : Bytes.IsAscii s := fun b hb =>
  (isIdentByte_spec b ((isIdentByte_of_mem (identProblem_eq_none.2 h)).2 b hb)).1

theorem IsIdent.noSlash {s : Bytes} (h : IsIdent s) : 47 ∉ s := fun hb =>
  (isIdentByte_spec 47 ((isIdentByte_of_mem (identProblem_eq_none.2 h)).2 47 hb)).2.2.1 rfl

theorem IsIdent.ne_nil {s : Bytes} (h : IsIdent s) : s ≠ [] := (isIdentByte_of_mem (identProblem_eq_none.2 h)).1

/-- The underscore of the global namespace is no identifier. -/
theorem IsIdent.ne_underscore {s : Bytes} (h : IsIdent s) : s ≠ utf8 "_" := by
  rintro rfl
  exact absurd (identProblem_eq_none.2 h) (by decide)

/-! ## Reading -/

theorem checkIdent_of_isIdent {s : Bytes} (h : IsIdent s) (what : String) : checkIdent s what = .ok () :=
  checkIdent_eq_ok.2 (identProblem_eq_none.2 h)

/-- **A name is accepted** just when it is written in one of the three ways. -/
theorem parse_eq_ok {s : Bytes} {n : PackageName} : parse s = .ok n ↔ Written n s := by
  refine ⟨written_of_parse, fun h => ?_⟩
  cases h with
  | bare hname =>
    have hname := identProblem_eq_none.1 hname
    rw [parse, Bytes.cut_of_not_mem hname.noSlash]
    simp only [checkIdent_of_isIdent hname]
    rfl
  | underscore hname =>
    have hname := identProblem_eq_none.1 hname
    rw [parse, Bytes.cut_append_sep (by decide)]
    simp only [if_true, checkIdent_of_isIdent hname]
    rfl
  | named hns hname =>
    have hns := identProblem_eq_none.1 hns
    have hname := identProblem_eq_none.1 hname
    rw [parse, Bytes.cut_append_sep hns.noSlash]
    simp only [if_neg hns.ne_underscore, checkIdent_of_isIdent hns, checkIdent_of_isIdent hname]
    rfl

theorem exists_parse_iff {s : Bytes} : (∃ n, parse s = .ok n) ↔ IsSpelling s := by
  simp only [parse_eq_ok]
  constructor
  · rintro ⟨n, hn⟩
    cases hn with
    | bare hname => exact .inl (identProblem_eq_none.1 hname)
    | underscore hname => exact .inr (.inr ⟨_, identProblem_eq_none.1 hname, rfl⟩)
    | named hns hname =>
      exact .inr (.inl ⟨_, _, identProblem_eq_none.1 hns, identProblem_eq_none.1 hname,
        (List.append_assoc _ (utf8 "/") _).symm⟩)
  · rintro (hname | ⟨ns, name, hns, hname, rfl⟩ | ⟨name, hname, rfl⟩)
    · exact ⟨_, .bare (identProblem_eq_none.2 hname)⟩
    · rw [List.append_assoc]
      exact ⟨_, .named (identProblem_eq_none.2 hns) (identProblem_eq_none.2 hname)⟩
    · exact ⟨_, .underscore (identProblem_eq_none.2 hname)⟩

/-! ## Printing -/

/-- A name as it is written, printed and given to npm, by the form of its namespace. -/
def Shows (n : PackageName) (s : Bytes) : Prop :=
  match n.space with
  | .absent => s = n.name ∧ n.toText = s ∧ n.npm = s.toLower
  | .named ns => IsIdent ns ∧ s = ns ++ utf8 "/" ++ n.name ∧ n.toText = s ∧ n.npm = Bytes.toLower (utf8 "@" ++ s)
  | .underscore => s = utf8 "_/" ++ n.name ∧ n.toText = n.name ∧ n.npm = n.name.toLower

theorem Written.shows {n : PackageName} {s : Bytes} (h : Written n s) : Shows n s := by
  cases h with
  | bare hname =>
    exact ⟨rfl, rfl, (Bytes.toLower_of_ascii (identProblem_eq_none.1 hname).ascii).symm⟩
  | underscore hname =>
    exact ⟨rfl, rfl, (Bytes.toLower_of_ascii (identProblem_eq_none.1 hname).ascii).symm⟩
  | @named ns name hns hname =>
    have hns := identProblem_eq_none.1 hns
    have hempty : ns.isEmpty = false := by simpa using hns.ne_nil
    have hascii : Bytes.IsAscii (utf8 "@" ++ (ns ++ (utf8 "/" ++ name))) := by
      refine List.forall_mem_cons.2 ⟨by decide, hns.ascii.append ?_⟩
      exact List.forall_mem_cons.2 ⟨by decide, (identProblem_eq_none.1 hname).ascii⟩
    refine ⟨hns, (List.append_assoc _ (utf8 "/") _).symm, ?_, ?_⟩
    · rw [toText, spaceText, hempty, List.append_assoc]
      rfl
    · rw [npm, spaceText, hempty, List.append_assoc, List.append_assoc]
      exact (Bytes.toLower_of_ascii hascii).symm

/-- What is printed is a name that prints the same. -/
theorem Written.again {n : PackageName} {s : Bytes} (h : Written n s) :
    ∃ m, Written m n.toText ∧ m.toText = n.toText := by
  have hshows := h.shows
  cases h with
  | bare hname => exact ⟨_, .bare hname, rfl⟩
  | underscore hname => exact ⟨_, .bare hname, rfl⟩
  | named hns hname =>
    refine ⟨_, ?_, rfl⟩
    rw [hshows.2.2.1]
    exact .named hns hname

/-- **Package names are read by their grammar and print back.** A text is read just when it is
an identifier, two of them with a slash between them, or one behind `_/`; the name has the
namespace that was written, prints as it was written but without the global namespace, and
has the npm name in lower case. What it prints is read again, as a name that prints the same. -/
theorem parse_exactly (s : Bytes) : ((∃ n, parse s = .ok n) ↔ IsSpelling s) ∧
    ∀ n, parse s = .ok n → IsIdent n.name ∧ Shows n s ∧ ∃ m, parse n.toText = .ok m ∧ m.toText = n.toText := by
  refine ⟨exists_parse_iff, fun n hn => ?_⟩
  have hwritten := parse_eq_ok.1 hn
  obtain ⟨m, hm, htext⟩ := hwritten.again
  exact ⟨identProblem_eq_none.1 hwritten.identProblem_name, hwritten.shows, m, parse_eq_ok.2 hm, htext⟩

theorem parse_exactly_forms :
    IsSpelling (utf8 "Acme-1/Demo_2") ∧ IsSpelling (utf8 "_/Demo_2") ∧
    ¬IsSpelling (utf8 "_") ∧ ¬IsSpelling (utf8 "a/b/c") ∧
    Shows { space := .named (utf8 "Acme-1"), name := utf8 "Demo_2" } (utf8 "Acme-1/Demo_2") ∧
    ∃ m, parse (utf8 "Demo_2") = .ok m ∧ m.toText = utf8 "Demo_2" := by
  have hnamed : parse (utf8 "Acme-1/Demo_2") = .ok { space := .named (utf8 "Acme-1"), name := utf8 "Demo_2" } := by rfl
  have hglobal : parse (utf8 "_/Demo_2") = .ok { space := .underscore, name := utf8 "Demo_2" } := by rfl
  refine ⟨(parse_exactly _).1.1 ⟨_, hnamed⟩, (parse_exactly _).1.1 ⟨_, hglobal⟩, fun h => ?_, fun h => ?_,
    ((parse_exactly _).2 _ hnamed).2.1, ((parse_exactly _).2 _ hglobal).2.2⟩
  · obtain ⟨n, hn⟩ := (parse_exactly _).1.2 h
    cases hn
  · obtain ⟨n, hn⟩ := (parse_exactly _).1.2 h
    cases hn

end PackageName

end Bindery
