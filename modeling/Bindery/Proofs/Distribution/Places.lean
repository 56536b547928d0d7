/-
Where the files of a distribution are put. Files are called after interfaces, modules and
commands, and what they are called decides which of them are modules (`IsSource`). Both
distributions have their libraries below one directory and their commands below another, each
of them only when there are any (`sectionEntries`).
-/
import Bindery.Proofs.Bytes.Units
import Bindery.Proofs.Distribution.Inside
import Bindery.Proofs.FileTree.Contents

namespace Bindery

open SlashPath (parts IsName IsEnding slash dot)
open FileTree (ofSegments Descend below normalize)

/-! ## Names of files -/

theorem Bytes.append_of_cut {sep : UInt8} : ∀ {s a b : Bytes}, s.cut sep = some (a, b) → a ++ sep :: b = s
  | [], _, _, h => by simp [cut] at h
  | c :: s, a, b, h => by
    rw [cut] at h
    split at h
    · rename_i hc
      obtain ⟨rfl, rfl⟩ := Prod.mk.inj (Option.some.inj h)
      rw [beq_iff_eq.1 hc, List.nil_append]
    · obtain ⟨⟨a', b'⟩, hcut, heq⟩ := Option.map_eq_some_iff.1 h
      obtain ⟨rfl, rfl⟩ := Prod.mk.inj heq
      rw [List.cons_append, append_of_cut hcut]

/-- Texts with different endings are different, unless one ending is the end of the other. -/
theorem append_ne_append {a b : Bytes} (hab : ¬a <:+ b) (hba : ¬b <:+ a) (m n : Bytes) : m ++ a ≠ n ++ b := by
  intro heq
  have hb : b <:+ m ++ a := heq ▸ List.suffix_append n b
  exact (List.suffix_or_suffix_of_suffix (List.suffix_append m a) hb).elim hab hba

/-- What the last segment of a path can be: free of slashes, or the slash of the root. -/
def IsBase (n : Bytes) : Prop := slash ∉ n ∨ n = [slash]

theorem IsBase.noSlash_afterLast {n : Bytes} (h : IsBase n) : slash ∉ n.afterLast slash := by
  rcases h with h | rfl
  · rwa [Bytes.afterLast_of_not_mem h]
  · decide

/-- A file called after such a segment stands in the directory it is put in. -/
theorem IsBase.parts_append {n e : Bytes} (h : IsBase n) (he : IsEnding e) :
    parts (n ++ e) = [n.afterLast slash ++ e] := by
  rcases h with h | rfl
  · rw [Bytes.afterLast_of_not_mem h, (SlashPath.parts_name (he.isName h)).2]
  · have hname : IsName e := he.isName (s := []) (by simp)
    rw [List.singleton_append, SlashPath.parts_slash, Bytes.split_of_not_mem he.noSlash, SlashPath.resolve_name hname]
    rfl

/-- Such segments are told apart by what is behind their slash. -/
theorem IsBase.afterLast_inj {m n : Bytes} (hm : IsBase m) (hn : IsBase n) (hm₀ : m ≠ []) (hn₀ : n ≠ [])
    (h : m.afterLast slash = n.afterLast slash) : m = n := by
  rcases hm with hm | rfl <;> rcases hn with hn | rfl
  · rwa [Bytes.afterLast_of_not_mem hm, Bytes.afterLast_of_not_mem hn] at h
  · rw [Bytes.afterLast_of_not_mem hm] at h
    exact absurd h hm₀
  · rw [Bytes.afterLast_of_not_mem hn] at h
    exact absurd h.symm hn₀
  · rfl

theorem base_ne_nil (p : Bytes) : SlashPath.base p ≠ [] := by
  rw [SlashPath.base]
  split
  · simp
  · dsimp only
    split
    · simp
    · rename_i hne
      simpa using hne

/-- **The name of an interface** is part of the last segment of its path. -/
theorem isBase_nameOfPath (path : Bytes) :
    Interface.nameOfPath path ≠ [] ∧ IsBase (Interface.nameOfPath path) := by
  rw [Interface.nameOfPath]
  generalize hbase : SlashPath.base (path.map fun b => if b == 92 then slash else b) = base
  have hne : base ≠ [] := hbase ▸ base_ne_nil _
  have hseg : IsBase base := hbase ▸ base_noSlash _
  split
  · rename_i stem rest hcut
    split
    · exact ⟨hne, hseg⟩
    · rename_i hstem
      have hwhole := Bytes.append_of_cut hcut
      refine ⟨by simpa using hstem, .inl fun hslash => ?_⟩
      rcases hseg with hseg | hseg
      · exact hseg (by simp [← hwhole, hslash])
      · have hnone : Bytes.cut dot [slash] = none := rfl
        rw [hseg, hnone] at hcut
        cases hcut
  · exact ⟨hne, hseg⟩

theorem isBase_stem (l : Library) :
    IsBase ((SlashPath.base l.module.name).dropEnd (SlashPath.ext (SlashPath.base l.module.name))) := by
  rcases base_noSlash l.module.name with hbase | hbase
  · exact .inl fun h => hbase (mem_of_mem_dropEnd h)
  · rw [hbase]
    exact .inr (by decide)

/-- The file of a module stands in the directory of its library. -/
theorem parts_filename (l : Library) : ∃ stem, slash ∉ stem ∧ parts l.filename = [stem ++ utf8 ".wasm"] :=
  ⟨_, (isBase_stem l).noSlash_afterLast, (isBase_stem l).parts_append isEnding_wasm⟩

theorem parts_eq_of_normalize {a b : Bytes} (h : normalize a = normalize b) : parts a = parts b := by
  rw [← SlashPath.parts_normalize a, h, SlashPath.parts_normalize]

/-! ## Names without slashes -/

theorem CaseStyle.noSlash_snake {n : Bytes} (h : slash ∉ n) : slash ∉ snake n := by
  intro hslash
  exact h (Bytes.mem_of_mem_trim ((mem_snakeFrom hslash).2 rfl))

theorem CaseStyle.recase_spec (st : Joining) {b : UInt8} (h : Byte.isLetter b = true) : st.recase b ≠ slash := by
  have hcases : Byte.upper b ≠ slash ∧ Byte.lower b ≠ slash ∧ b ≠ slash :=
    Byte.forall_octets (P := fun b => Byte.isLetter b = true →
      Byte.upper b ≠ slash ∧ Byte.lower b ≠ slash ∧ b ≠ slash) (by decide +kernel) b h
  rw [Joining.recase]
  split
  · exact hcases.1
  · split
    · exact hcases.2.1
    · exact hcases.2.2

/-- Joined words are letters and digits. -/
theorem CaseStyle.noSlash_pascal (n : Bytes) : slash ∉ pascal n := by
  have hwords : ∀ (s : Bytes) (st : Joining), slash ∉ joinWords st s := by
    intro s
    induction s with
    | nil => simp [joinWords]
    | cons b s ih =>
      intro st
      rw [joinWords]
      dsimp only
      split
      · rename_i hletter
        simpa using ⟨(recase_spec st hletter).symm, ih _⟩
      · split
        · rename_i hdigit
          have hne : slash ≠ b := by
            rintro rfl
            exact absurd hdigit (by decide)
          simpa using ⟨hne, ih _⟩
        · exact ih _
  exact hwords n.trim _

theorem noSlash_replaceAll {s old new : Bytes} (hs : slash ∉ s) (hnew : slash ∉ new) :
    slash ∉ s.replaceAll old new := by
  intro hslash
  exact (mem_of_mem_replaceFrom hslash).elim hs hnew

/-! ## Modules and sources -/

theorem ne_module {n : Bytes} (h : ¬utf8 ".wasm" <:+ n) (stem : Bytes) : stem ++ utf8 ".wasm" ≠ n := by
  intro heq
  exact h ⟨stem, heq⟩

theorem suffix_join (sep : UInt8) (n : Bytes) : ∀ front : List Bytes, n <:+ Bytes.join [sep] (front ++ [n])
  | [] => by simp [Bytes.join]
  | s :: front => by
    obtain ⟨q, qs, hrest⟩ := List.exists_cons_of_ne_nil (l := front ++ [n]) (by simp)
    have ih := suffix_join sep n front
    rw [List.cons_append, hrest, Bytes.join_cons_cons]
    rw [hrest] at ih
    exact ih.trans ((List.suffix_cons sep _).trans (List.suffix_append _ _))

theorem module_suffix (front : List Bytes) (stem : Bytes) :
    utf8 ".wasm" <:+ Bytes.join [slash] (front ++ [stem ++ utf8 ".wasm"]) :=
  (List.suffix_append stem _).trans (suffix_join slash _ front)

/-- A place whose last name is not that of a module. -/
structure IsSource (place : List Bytes) : Prop where
  last : ∃ front n, place = front ++ [n] ∧ ¬utf8 ".wasm" <:+ n ∧ ¬n <:+ utf8 ".wasm"

theorem isSource_of_name {n : Bytes} (h : ¬utf8 ".wasm" <:+ n ∧ ¬n <:+ utf8 ".wasm") (front : List Bytes) :
    IsSource (front ++ [n]) := ⟨⟨front, n, rfl, h⟩⟩

/-- What a name ends in decides whether it is that of a module. -/
theorem isSource_of_ending {e : Bytes} (he : ¬utf8 ".wasm" <:+ e ∧ ¬e <:+ utf8 ".wasm") (front : List Bytes)
    (n : Bytes) : IsSource (front ++ [n ++ e]) := by
  refine isSource_of_name ⟨fun h => ?_, fun h => he.2 ((List.suffix_append n e).trans h)⟩ front
  exact (List.suffix_or_suffix_of_suffix h (List.suffix_append n e)).elim he.1 he.2

theorem IsSource.below {place : List Bytes} (h : IsSource place) (d : Bytes) : IsSource (d :: place) := by
  obtain ⟨front, n, rfl, hn⟩ := h.last
  exact isSource_of_name hn (d :: front)

theorem IsSource.not_module {place : List Bytes} (h : IsSource place) :
    ¬utf8 ".wasm" <:+ Bytes.join [slash] place := by
  obtain ⟨front, n, rfl, hother⟩ := h.last
  intro hsuffix
  rcases List.suffix_or_suffix_of_suffix hsuffix (suffix_join slash n front) with h | h
  · exact hother.1 h
  · exact hother.2 h

/-! ## Libraries and commands -/

/-- The files of the libraries below `bindings` and those of the commands below `commands`, as far
as there are any, and some beside them. -/
def sectionEntries (p : Package) (bindings commands beside : List (List Bytes × Bytes)) : List (List Bytes × Bytes) :=
  (if p.libraries.isEmpty then [] else below [utf8 "bindings"] bindings)
    ++ (if p.commands.isEmpty then [] else below [utf8 "commands"] commands) ++ beside

variable {p : Package} {bindings commands beside : List (List Bytes × Bytes)}

theorem descend_sectionEntries (p : Package) (hbindings : Descend bindings) (hcommands : Descend commands)
    (hbeside : Descend beside) : Descend (sectionEntries p bindings commands beside) := by
  rw [sectionEntries, FileTree.descend_append, FileTree.descend_append]
  refine ⟨⟨?_, ?_⟩, hbeside⟩
  · exact (hbindings.below (by decide)).unless _
  · exact (hcommands.below (by decide)).unless _

theorem sectionEntries_eq (p : Package) (hbindings : Descend bindings) (hcommands : Descend commands) :
    (let t := if p.libraries.isEmpty then FileTree.empty else
        FileTree.empty.insertUnder (utf8 "bindings") (ofSegments bindings)
      if p.commands.isEmpty then t else t.insertUnder (utf8 "commands") (ofSegments commands))
      = ofSegments (sectionEntries p bindings commands []) := by
  have hlibraries : (if p.libraries.isEmpty then FileTree.empty else
      FileTree.empty.insertUnder (utf8 "bindings") (ofSegments bindings)) = _ :=
    FileTree.insertUnder_unless [] hbindings p.libraries.isEmpty (by decide)
  have hdir : IsName (utf8 "commands") := by decide
  simp only [hlibraries, FileTree.insertUnder_unless _ hcommands _ hdir]
  simp [sectionEntries]

theorem sectionEntries_append (more : List (List Bytes × Bytes)) :
    sectionEntries p bindings commands beside ++ more = sectionEntries p bindings commands (beside ++ more) := by
  simp [sectionEntries]

theorem mem_sectionEntries {place : List Bytes} {data : Bytes} :
    (place, data) ∈ sectionEntries p bindings commands beside ↔
    (p.libraries ≠ [] ∧ ∃ rest, place = utf8 "bindings" :: rest ∧ (rest, data) ∈ bindings) ∨
    (p.commands ≠ [] ∧ ∃ rest, place = utf8 "commands" :: rest ∧ (rest, data) ∈ commands) ∨
    (place, data) ∈ beside := by
  rw [sectionEntries, List.mem_append, List.mem_append, FileTree.mem_unless, FileTree.mem_unless,
    List.isEmpty_eq_false_iff, List.isEmpty_eq_false_iff, or_assoc]

theorem nodup_sectionEntries (hbindings : (bindings.map (·.1)).Nodup) (hcommands : (commands.map (·.1)).Nodup)
    (hbeside : (beside.map (·.1)).Nodup)
    (hapart : ∀ place ∈ beside.map (·.1), place.head? ≠ some (utf8 "bindings") ∧ place.head? ≠ some (utf8 "commands")) :
    ((sectionEntries p bindings commands beside).map (·.1)).Nodup := by
  rw [sectionEntries, List.map_append, List.map_append, List.nodup_append, List.nodup_append]
  refine ⟨⟨FileTree.nodup_unless hbindings, FileTree.nodup_unless hcommands, ?_⟩, hbeside, ?_⟩
  · rintro place hin place' hin' rfl
    have heads := (FileTree.head_unless hin).symm.trans (FileTree.head_unless hin')
    exact absurd heads (by decide)
  · rintro place hin place' hin' rfl
    rcases List.mem_append.1 hin with hin | hin
    · exact (hapart place hin').1 (FileTree.head_unless hin)
    · exact (hapart place hin').2 (FileTree.head_unless hin)

end Bindery
