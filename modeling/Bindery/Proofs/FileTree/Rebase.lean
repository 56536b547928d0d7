/-
Putting a tree under a directory of another one. Every tree that can be made holds its files
under normalised paths in increasing order (`Made.kept`). A path that does not climb goes on
from the directory by its own segments (`parts_rebase`), so different paths of the subtree
stay different below any directory (`rebase_injective`), none of its files replaces another,
and the order in which they are put does not show (`rebase_perm`).
-/
import Bindery.Proofs.FileTree.Contents

namespace Bindery

namespace Table

variable {α : Type}

/-- Where no key stands twice, the order of the entries does not matter. -/
theorem lastOf_perm {k : Bytes} {es es' : List (Bytes × α)} (hperm : es.Perm es') (hes : (es.map (·.1)).Nodup) :
    lastOf k es = lastOf k es' := by
  have hkeys : (es.map (·.1)).Perm (es'.map (·.1)) := hperm.map _
  by_cases hk : k ∈ es.map (·.1)
  · obtain ⟨e, he, rfl⟩ := List.mem_map.1 hk
    rw [lastOf_of_nodup hes he, lastOf_of_nodup (hkeys.nodup_iff.1 hes) (hperm.mem_iff.1 he)]
  · rw [lastOf_of_not_mem hk, lastOf_of_not_mem fun h => hk (hkeys.mem_iff.2 h)]

end Table

namespace FileTree

open SlashPath (parts slash up climb)

/-! ## Trees that can be made -/

/-- A tree that was made from the empty one by inserting files and by putting trees that were
made so under directories. -/
inductive Made : FileTree → Prop
  | empty : Made FileTree.empty
  | insert {t : FileTree} (h : Made t) (p data : Bytes) : Made (t.insert p data)
  | insertUnder {t sub : FileTree} (h : Made t) (hsub : Made sub) (dir : Bytes) : Made (t.insertUnder dir sub)

/-- Files in increasing order of normalised paths. -/
structure Kept (t : FileTree) : Prop where
  ordered : Table.Ordered t.files
  normal : ∀ p ∈ t.paths, normalize p = p

theorem normalize_normalize (p : Bytes) : normalize (normalize p) = normalize p := by
  rw [SlashPath.normalize_eq (normalize p), SlashPath.parts_normalize, ← SlashPath.normalize_eq]

/-- One insertion keeps the order and the form of the paths. -/
theorem Kept.insert {t : FileTree} (h : t.Kept) (p data : Bytes) : (t.insert p data).Kept := by
  refine ⟨Table.ordered_insert _ _ h.ordered, fun q hq => ?_⟩
  rcases mem_paths_insert.1 hq with rfl | hq
  · exact normalize_normalize p
  · exact h.normal q hq

theorem Kept.insertUnder {t : FileTree} (h : t.Kept) (dir : Bytes) (sub : FileTree) : (t.insertUnder dir sub).Kept := by
  rw [FileTree.insertUnder]
  generalize sub.files = fs
  induction fs generalizing t with
  | nil => exact h
  | cons f fs ih => exact ih (h.insert _ _)

/-- **Every tree that can be made** is kept in order, under normalised paths. -/
theorem Made.kept {t : FileTree} (h : t.Made) : t.Kept := by
  induction h with
  | empty => exact ⟨.nil, by simp [FileTree.empty, paths, Table.keys]⟩
  | insert _ p data ih => exact ih.insert p data
  | @insertUnder _ sub _ _ dir ih _ => exact ih.insertUnder dir sub

theorem get?_insert (t : FileTree) (p q data : Bytes) :
    (t.insert q data).get? p = if normalize p = normalize q then some data else t.get? p := by
  split
  · rename_i heq
    rw [get?, heq]
    exact get?_insert_self t q data
  · rename_i hne
    exact get?_insert_other hne

theorem Kept.get?_of_mem {t : FileTree} (h : t.Kept) {f : Bytes × Bytes} (hf : f ∈ t.files) :
    t.get? f.1 = some f.2 := by
  rw [get?, h.normal f.1 (List.mem_map_of_mem hf)]
  exact Table.find?_of_mem h.ordered hf

/-! ## Below a directory -/

theorem climb_of_split {p : Bytes} (h : up ∉ p.split slash) : climb p = 0 := by
  rw [SlashPath.climb_eq_zero_iff]
  intro hup
  rcases SlashPath.mem_of_mem_resolve hup with hup | hup
  · simp at hup
  · exact h hup

/-- A path that does not climb goes on from the directory by its own segments. -/
theorem parts_rebase (dir : Bytes) {p : Bytes} (hnormal : normalize p = p) (hdown : up ∉ p.split slash) :
    parts (SlashPath.join [dir, p]) = parts dir ++ parts p := by
  have hunder := SlashPath.parts_under_dir dir (climb_of_split hdown)
  rwa [SlashPath.under, SlashPath.under, hnormal] at hunder

/-- A tree kept in order in which no path climbs. -/
structure Descends (sub : FileTree) : Prop extends Kept sub where
  down : ∀ p ∈ sub.paths, up ∉ p.split slash

section rebase

variable {t sub : FileTree} (hsub : sub.Descends) (dir : Bytes)

include hsub

/-- **Different paths of the subtree stay different** below any directory. -/
theorem rebase_injective {p q : Bytes} (hp : p ∈ sub.paths) (hq : q ∈ sub.paths)
    (h : normalize (SlashPath.join [dir, p]) = normalize (SlashPath.join [dir, q])) : p = q := by
  have hparts : ∀ {r}, r ∈ sub.paths → parts (SlashPath.join [dir, r]) = parts dir ++ parts r := fun hr =>
    parts_rebase dir (hsub.normal _ hr) (hsub.down _ hr)
  rw [SlashPath.normalize_eq, SlashPath.normalize_eq] at h
  have hsame := join_parts_inj (fun s => SlashPath.isPart_of_mem_parts) (fun s => SlashPath.isPart_of_mem_parts) h
  rw [hparts hp, hparts hq] at hsame
  rw [← hsub.normal p hp, ← hsub.normal q hq, SlashPath.normalize_eq, SlashPath.normalize_eq,
    List.append_cancel_left hsame]

/-- The files of the subtree at the places they come to. -/
theorem nodup_rebased : ((sub.files.map fun f => (normalize (SlashPath.join [dir, f.1]), f.2)).map (·.1)).Nodup := by
  have hplaces : (sub.files.map fun f => (normalize (SlashPath.join [dir, f.1]), f.2)).map (·.1)
      = sub.paths.map fun p => normalize (SlashPath.join [dir, p]) := by
    simp only [paths, Table.keys, List.map_map]
    rfl
  rw [hplaces]
  exact hsub.ordered.nodup.map_on fun p hp q hq => rebase_injective hsub dir hp hq

/-- **The order in which the files are put does not show.** -/
theorem rebase_perm (ht : t.Kept) {fs : List (Bytes × Bytes)} (hfs : fs.Perm sub.files) :
    fs.foldl (fun t f => t.insert (SlashPath.join [dir, f.1]) f.2) t = t.insertUnder dir sub := by
  have hplaces := hfs.symm.map fun f => (normalize (SlashPath.join [dir, f.1]), f.2)
  have hfiles := files_foldl_insert fun p => SlashPath.join [dir, p]
  refine congrArg FileTree.mk ((hfiles fs t).trans (.trans ?_ (hfiles sub.files t).symm))
  refine Table.ext (Table.foldl_insert_ordered _ ht.ordered) (Table.foldl_insert_ordered _ ht.ordered) fun k => ?_
  rw [Table.find?_foldl_insert_eq, Table.find?_foldl_insert_eq, Table.lastOf_perm hplaces (nodup_rebased hsub dir)]

/-- Every file of the subtree is found below the directory. -/
theorem get?_rebased {p : Bytes} (hp : p ∈ sub.paths) :
    (t.insertUnder dir sub).get? (SlashPath.join [dir, p]) = sub.get? p ∧ (sub.get? p).isSome := by
  obtain ⟨f, hf, rfl⟩ := List.mem_map.1 hp
  have hmem : (normalize (SlashPath.join [dir, f.1]), f.2) ∈
      sub.files.map fun f => (normalize (SlashPath.join [dir, f.1]), f.2) := List.mem_map.2 ⟨f, hf, rfl⟩
  rw [hsub.get?_of_mem hf, get?, insertUnder, files_foldl_insert fun p => SlashPath.join [dir, p],
    Table.find?_foldl_insert_eq, Table.lastOf_of_nodup (nodup_rebased hsub dir) hmem]
  exact ⟨rfl, rfl⟩

end rebase

/-- Every place that no file comes to is as it was. -/
theorem get?_beside {t sub : FileTree} {dir q : Bytes}
    (hq : ∀ p ∈ sub.paths, normalize q ≠ normalize (SlashPath.join [dir, p])) :
    (t.insertUnder dir sub).get? q = t.get? q := by
  rw [get?, insertUnder, files_foldl_insert fun p => SlashPath.join [dir, p]]
  refine Table.find?_foldl_insert_none fun e he heq => ?_
  obtain ⟨f, hf, rfl⟩ := List.mem_map.1 he
  exact hq f.1 (List.mem_map_of_mem hf) heq.symm

/-- **Putting a tree under a directory loses nothing and touches nothing else.** For any two
trees that can be made and any directory, as long as no path of the subtree climbs: each of its
files is found at its path behind the directory, different paths come to different places, so
that the files may be put in any order, every other place is as it was, and the paths are in
strictly increasing order. Normalising twice is normalising once, and an insertion shows at
exactly the paths with the same normal form. -/
theorem rebase_lossless {t sub : FileTree} (ht : t.Made) (hsub : sub.Made)
    (hdown : ∀ p ∈ sub.paths, up ∉ p.split slash) (dir : Bytes) :
    (∀ p ∈ sub.paths,
      (t.insertUnder dir sub).get? (SlashPath.join [dir, p]) = sub.get? p ∧ (sub.get? p).isSome) ∧
    (∀ p ∈ sub.paths, ∀ q ∈ sub.paths,
      normalize (SlashPath.join [dir, p]) = normalize (SlashPath.join [dir, q]) → p = q) ∧
    (∀ fs : List (Bytes × Bytes), fs.Perm sub.files →
      fs.foldl (fun t f => t.insert (SlashPath.join [dir, f.1]) f.2) t = t.insertUnder dir sub) ∧
    (∀ q, (∀ p ∈ sub.paths, normalize q ≠ normalize (SlashPath.join [dir, p])) →
      (t.insertUnder dir sub).get? q = t.get? q) ∧
    ((t.insertUnder dir sub).paths.Pairwise fun p q => Table.before p q = true) ∧
    (∀ p, normalize (normalize p) = normalize p) ∧
    ∀ p q data, (t.insert q data).get? p = if normalize p = normalize q then some data else t.get? p := by
  have hdescends : sub.Descends := ⟨hsub.kept, hdown⟩
  refine ⟨fun p hp => get?_rebased hdescends dir hp, fun p hp q hq => rebase_injective hdescends dir hp hq,
    fun fs hfs => rebase_perm hdescends dir ht.kept hfs, fun q hq => get?_beside hq, ?_, normalize_normalize,
    fun p q data => get?_insert t p q data⟩
  exact List.pairwise_map.2 (ht.kept.insertUnder dir sub).ordered

/-- A directory that climbs, a file at the subtree's own place and one that is replaced. -/
theorem rebase_lossless_climb :
    let t := (empty.insert (utf8 "../lib/a") (utf8 "old")).insert (utf8 "b") (utf8 "kept")
    let sub := (empty.insert (utf8 "/a") (utf8 "new")).insert (utf8 ".") (utf8 "own")
    (t.insertUnder (utf8 "./x/../../lib") sub).get? (SlashPath.join [utf8 "./x/../../lib", utf8 "a"])
      = some (utf8 "new") ∧
    (t.insertUnder (utf8 "./x/../../lib") sub).get? (utf8 "b") = some (utf8 "kept") ∧
    (t.insertUnder (utf8 "./x/../../lib") sub).paths = [utf8 "../lib", utf8 "../lib/a", utf8 "b"] := by
  intro t sub
  have ht : t.Made := (Made.empty.insert _ _).insert _ _
  have hsub : sub.Made := (Made.empty.insert _ _).insert _ _
  obtain ⟨hfound, -, -, hbeside, -⟩ := rebase_lossless ht hsub (by decide +kernel) (utf8 "./x/../../lib")
  refine ⟨?_, ?_, by decide +kernel⟩
  · rw [(hfound (utf8 "a") (by decide +kernel)).1]
    decide +kernel
  · rw [hbeside (utf8 "b") (by decide +kernel)]
    decide +kernel

end FileTree

end Bindery
