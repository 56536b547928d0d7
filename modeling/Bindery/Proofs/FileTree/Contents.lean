/-
File trees as lists of files. A file is given by the segments of its path, and of two at one
place the later counts (`ofSegments`). Inserting a file appends it to the list
(`insert_ofSegments`) and putting a tree under a directory appends all its files with the
directory in front (`insertUnder_ofSegments`), so a tree that is put together step by step is
the tree of one flat list. What a look-up finds there is the last file of the list at that
place (`get?_ofSegments`), and the paths are the places of the list, each once
(`paths_ofSegments`).
-/
import Bindery.Proofs.FileTree
import Mathlib.Data.List.Dedup

namespace Bindery

namespace Table

variable {α : Type}

theorem find?_ofEntries (k : Bytes) (es : List (Bytes × α)) : find? k (ofEntries es) = lastOf k es := by
  rw [ofEntries, find?_foldl_insert_eq, show find? k ([] : Table α) = none from rfl, Option.or_none]

theorem ordered_ofEntries (es : List (Bytes × α)) : Ordered (ofEntries es) := foldl_insert_ordered es .nil

theorem lastOf_ofEntries (k : Bytes) (es : List (Bytes × α)) : lastOf k (ofEntries es) = lastOf k es := by
  rw [← find?_ofEntries k (ofEntries es), ofEntries_eq (.refl _) (ordered_ofEntries es), find?_ofEntries]

/-- **A table moved into another** entry by entry is the entries it was made of, moved one by one,
as long as no two of its names become one. -/
theorem foldl_insert_ofEntries {f : Bytes → Bytes} {es : List (Bytes × α)}
    (hf : ∀ e ∈ es, ∀ e' ∈ es, f e.1 = f e'.1 → e.1 = e'.1) {t : Table α} (ht : Ordered t) :
    ((ofEntries es).map fun e => (f e.1, e.2)).foldl (fun t e => t.insert e.1 e.2) t
      = (es.map fun e => (f e.1, e.2)).foldl (fun t e => t.insert e.1 e.2) t := by
  have hmem : ∀ e ∈ ofEntries es, e ∈ es := fun e he => (mem_foldl_insert he).resolve_right (by simp)
  refine ext (foldl_insert_ordered _ ht) (foldl_insert_ordered _ ht) fun k => ?_
  rw [find?_foldl_insert_eq, find?_foldl_insert_eq]
  by_cases hk : ∃ e ∈ es, f e.1 = k
  · obtain ⟨e, he, rfl⟩ := hk
    rw [lastOf_map fun e' he' => hf e' (hmem e' he') e he, lastOf_map fun e' he' => hf e' he' e he, lastOf_ofEntries]
  · have hnone : ∀ xs : List (Bytes × α), (∀ e ∈ xs, e ∈ es) → lastOf k (xs.map fun e => (f e.1, e.2)) = none := by
      intro xs hxs
      refine lastOf_of_not_mem fun hmem => hk ?_
      simp only [List.map_map, List.mem_map, Function.comp] at hmem
      obtain ⟨e, he, heq⟩ := hmem
      exact ⟨e, hxs e he, heq⟩
    rw [hnone _ hmem, hnone _ fun e he => he]

/-- The names of a table are those of its entries, each once. -/
theorem keys_ofEntries (es : List (Bytes × α)) : (ofEntries es).keys.Perm (es.map (·.1)).dedup := by
  refine (List.perm_ext_iff_of_nodup (ordered_ofEntries es).nodup (List.nodup_dedup _)).2 fun k => ?_
  rw [← keys, ofEntries, mem_keys_foldl_insert, List.mem_dedup, List.mem_map]
  simp [keys]

end Table

namespace SlashPath

/-- A path that does not climb goes on from a directory by its own segments. -/
theorem parts_under_dir (d : Bytes) {p : Bytes} (hp : climb p = 0) : parts (under [d] p) = parts d ++ parts p := by
  have hparts : parts (under [d] p) = resolve (isRooted d) (parts d).reverse (parts p) := parts_under d p
  rw [parts_split p, hp, List.replicate_zero, List.nil_append, resolve_names _ _ fun s => isName_of_mem_names,
    List.reverse_reverse] at hparts
  rw [hparts, parts_split p, hp, List.replicate_zero, List.nil_append]

/-- Names are the segments of the path they make. -/
theorem parts_join_names {ns : List Bytes} (hne : ns ≠ []) (hns : ∀ s ∈ ns, IsName s) :
    parts (Bytes.join [slash] ns) = ns := by
  rw [parts_join hne fun s hs => (hns s hs).isPart, resolve_names false [] hns]
  rfl

/-- A file in a directory. -/
theorem parts_file {d n : Bytes} (hd : IsName d) (hn : IsName n) : parts (d ++ slash :: n) = [d, n] := by
  have hjoin : d ++ slash :: n = Bytes.join [slash] [d, n] := by simp [Bytes.join, List.intercalate]
  rw [hjoin, parts_join_names (by simp)]
  simpa using ⟨hd, hn⟩

theorem parts_under_dirs : ∀ {ds : List Bytes}, (∀ d ∈ ds, climb d = 0) → ∀ {p : Bytes}, climb p = 0 →
    climb (under ds p) = 0 ∧ parts (under ds p) = ds.flatMap parts ++ parts p
  | [], _, _, hp => ⟨hp, rfl⟩
  | d :: ds, hds, p, hp => by
    obtain ⟨hd, hds⟩ := List.forall_mem_cons.1 hds
    obtain ⟨hclimb, hparts⟩ := parts_under_dirs hds hp
    have hparts' : parts (under (d :: ds) p) = _ := parts_under_dir d hclimb
    rw [hparts', hparts, List.flatMap_cons, List.append_assoc]
    exact ⟨(climb_under_path d hclimb).trans hd, rfl⟩

end SlashPath

namespace FileTree

open SlashPath (parts IsName IsPart slash resolve)
open Table (lastOf)

/-! ## Trees of lists -/

/-- The tree of files at places given by their segments, later ones winning. -/
def ofSegments (es : List (List Bytes × Bytes)) : FileTree :=
  ⟨Table.ofEntries (es.map fun e => (Bytes.join [slash] e.1, e.2))⟩

/-- All places are below the tree's own: their segments are names. -/
def Descend (es : List (List Bytes × Bytes)) : Prop := ∀ e ∈ es, ∀ s ∈ e.1, IsName s

/-- The files put below a directory given by its segments. -/
def below (dir : List Bytes) (es : List (List Bytes × Bytes)) : List (List Bytes × Bytes) :=
  es.map fun e => (dir ++ e.1, e.2)

theorem mem_below {dir place : List Bytes} {data : Bytes} {es : List (List Bytes × Bytes)} :
    (place, data) ∈ below dir es ↔ ∃ rest, place = dir ++ rest ∧ (rest, data) ∈ es := by
  simp only [below, List.mem_map, Prod.mk.injEq, Prod.exists]
  constructor
  · rintro ⟨rest, d, hmem, rfl, rfl⟩
    exact ⟨rest, rfl, hmem⟩
  · rintro ⟨rest, rfl, hmem⟩
    exact ⟨rest, data, hmem, rfl, rfl⟩

theorem mem_unless {skip : Bool} {dir : Bytes} {place : List Bytes} {data : Bytes} {es : List (List Bytes × Bytes)} :
    (place, data) ∈ (if skip then [] else below [dir] es) ↔
      skip = false ∧ ∃ rest, place = dir :: rest ∧ (rest, data) ∈ es := by
  cases skip with
  | true => simp
  | false => simp [mem_below]

theorem map_fst_below (dir : List Bytes) (es : List (List Bytes × Bytes)) :
    (below dir es).map (·.1) = (es.map (·.1)).map (dir ++ ·) := by
  rw [below, List.map_map, List.map_map]
  rfl

theorem nodup_below {dir : List Bytes} {es : List (List Bytes × Bytes)} (h : (es.map (·.1)).Nodup) :
    ((below dir es).map (·.1)).Nodup := by
  rw [map_fst_below]
  exact h.map (List.append_right_injective dir)

theorem nodup_unless {skip : Bool} {dir : Bytes} {es : List (List Bytes × Bytes)} (h : (es.map (·.1)).Nodup) :
    ((if skip then [] else below [dir] es).map (·.1)).Nodup := by
  cases skip with
  | true => simp
  | false => exact nodup_below h

theorem head_below {dir : Bytes} {es : List (List Bytes × Bytes)} {place : List Bytes}
    (h : place ∈ (below [dir] es).map (·.1)) : place.head? = some dir := by
  rw [map_fst_below] at h
  obtain ⟨rest, -, rfl⟩ := List.mem_map.1 h
  rfl

theorem head_unless {skip : Bool} {dir : Bytes} {es : List (List Bytes × Bytes)} {place : List Bytes}
    (h : place ∈ (if skip then [] else below [dir] es).map (·.1)) : place.head? = some dir := by
  cases skip with
  | true => simp at h
  | false => exact head_below h

theorem Descend.below {dir : List Bytes} {es : List (List Bytes × Bytes)} (hes : Descend es)
    (hdir : ∀ s ∈ dir, IsName s) : Descend (below dir es) := by
  refine List.forall_mem_map.2 fun e he s hs => ?_
  rcases List.mem_append.1 hs with hs | hs
  · exact hdir s hs
  · exact hes e he s hs

theorem descend_append {es fs : List (List Bytes × Bytes)} : Descend (es ++ fs) ↔ Descend es ∧ Descend fs :=
  List.forall_mem_append

theorem Descend.unless {es : List (List Bytes × Bytes)} (h : Descend es) (skip : Bool) :
    Descend (if skip then [] else es) := by
  cases skip with
  | true => simp [Descend]
  | false => exact h

theorem descend_flatMap {ι : Type} {is : List ι} {new : ι → List (List Bytes × Bytes)} :
    Descend (is.flatMap new) ↔ ∀ i ∈ is, Descend (new i) := List.forall_mem_flatMap

/-- Segments are read back from the path they make. -/
theorem join_parts_inj {ps qs : List Bytes} (hps : ∀ s ∈ ps, IsPart s) (hqs : ∀ s ∈ qs, IsPart s)
    (h : Bytes.join [slash] ps = Bytes.join [slash] qs) : ps = qs := by
  have hnil : ∀ {xs : List Bytes}, (∀ s ∈ xs, IsPart s) → Bytes.join [slash] xs = [] → xs = [] := by
    intro xs hxs hjoin
    cases xs with
    | nil => rfl
    | cons x xs => exact absurd hjoin (Bytes.join_ne_nil (hxs x (by simp)).ne_nil)
  by_cases hp : ps = []
  · subst hp
    exact (hnil hqs h.symm).symm
  · have hq : qs ≠ [] := by
      rintro rfl
      exact hp (hnil hps h)
    rw [← SlashPath.split_join_parts hp hps, h, SlashPath.split_join_parts hq hqs]

theorem Descend.isPart {es : List (List Bytes × Bytes)} (h : Descend es) {e : List Bytes × Bytes} (he : e ∈ es) :
    ∀ s ∈ e.1, IsPart s := fun s hs => (h e he s hs).isPart

/-- Inserting a file appends it. -/
theorem insert_ofSegments (es : List (List Bytes × Bytes)) (p data : Bytes) :
    (ofSegments es).insert p data = ofSegments (es ++ [(parts p, data)]) := by
  rw [insert, ofSegments, ofSegments, List.map_append, Table.ofEntries, Table.ofEntries, List.foldl_append,
    SlashPath.normalize_eq]
  rfl

theorem insert_name (es : List (List Bytes × Bytes)) {n : Bytes} (hn : IsName n) (data : Bytes) :
    (ofSegments es).insert n data = ofSegments (es ++ [([n], data)]) := by
  rw [insert_ofSegments, (SlashPath.parts_name hn).2]

theorem files_foldl_insert (f : Bytes → Bytes) : ∀ (fs : Table Bytes) (t : FileTree),
    (fs.foldl (fun t e => t.insert (f e.1) e.2) t).files
      = (fs.map fun e => (normalize (f e.1), e.2)).foldl (fun t e => t.insert e.1 e.2) t.files
  | [], _ => rfl
  | e :: fs, t => files_foldl_insert f fs (t.insert (f e.1) e.2)

/-- Names below a directory go on from it. -/
theorem normalize_join_names (dir : Bytes) {ns : List Bytes} (hns : ∀ s ∈ ns, IsName s) :
    normalize (SlashPath.join [dir, Bytes.join [slash] ns]) = Bytes.join [slash] (parts dir ++ ns) := by
  have hrooted : SlashPath.isRooted (Bytes.join [slash] ns) = false :=
    SlashPath.join_parts_ne_slash fun s hs => (hns s hs).isPart
  have hread : resolve (SlashPath.isRooted dir) (parts dir).reverse ((Bytes.join [slash] ns).split slash)
      = parts dir ++ ns := by
    by_cases hnil : ns = []
    · subst hnil
      rw [show Bytes.split slash (Bytes.join [slash] []) = [[]] from rfl, SlashPath.resolve_skip (.inl rfl)]
      simp [resolve]
    · rw [SlashPath.split_join_parts hnil fun s hs => (hns s hs).isPart, SlashPath.resolve_names _ _ hns,
        List.reverse_reverse]
  rw [SlashPath.normalize_eq, (SlashPath.parts_pair dir hrooted).1, hread]

/-- **A tree put under a directory** appends all its files, the directory in front. -/
theorem insertUnder_ofSegments (es : List (List Bytes × Bytes)) {fs : List (List Bytes × Bytes)} (hfs : Descend fs)
    (dir : Bytes) : (ofSegments es).insertUnder dir (ofSegments fs)
      = ofSegments (es ++ below (parts dir) fs) := by
  have hall : ∀ e ∈ fs, ∀ s ∈ parts dir ++ e.1, IsPart s := by
    intro e he s hs
    rcases List.mem_append.1 hs with hs | hs
    · exact SlashPath.isPart_of_mem_parts hs
    · exact hfs.isPart he s hs
  have hinj : ∀ e ∈ fs.map (fun e => (Bytes.join [slash] e.1, e.2)),
      ∀ e' ∈ fs.map (fun e => (Bytes.join [slash] e.1, e.2)),
      normalize (SlashPath.join [dir, e.1]) = normalize (SlashPath.join [dir, e'.1]) → e.1 = e'.1 := by
    simp only [List.forall_mem_map]
    intro e he e' he' heq
    rw [normalize_join_names dir (hfs e he), normalize_join_names dir (hfs e' he')] at heq
    rw [List.append_cancel_left (join_parts_inj (hall e he) (hall e' he') heq)]
  have hplaces : (fs.map fun e => (Bytes.join [slash] e.1, e.2)).map
        (fun e => (normalize (SlashPath.join [dir, e.1]), e.2))
      = (below (parts dir) fs).map fun e => (Bytes.join [slash] e.1, e.2) := by
    simp only [below, List.map_map]
    refine List.map_congr_left fun e he => ?_
    simp only [Function.comp, normalize_join_names dir (hfs e he)]
  have hfiles : ((ofSegments es).insertUnder dir (ofSegments fs)).files
      = (ofSegments (es ++ below (parts dir) fs)).files := by
    rw [insertUnder, files_foldl_insert fun p => SlashPath.join [dir, p]]
    simp only [ofSegments]
    rw [Table.foldl_insert_ofEntries (f := fun p => normalize (SlashPath.join [dir, p])) hinj
      (Table.ordered_ofEntries _), hplaces, List.map_append, Table.ofEntries, Table.ofEntries, List.foldl_append]
  exact congrArg FileTree.mk hfiles

theorem insertUnder_unless (es : List (List Bytes × Bytes)) {fs : List (List Bytes × Bytes)} (hfs : Descend fs)
    (skip : Bool) {dir : Bytes} (hdir : IsName dir) :
    (if skip then ofSegments es else (ofSegments es).insertUnder dir (ofSegments fs))
      = ofSegments (es ++ if skip then [] else below [dir] fs) := by
  cases skip with
  | true => simp
  | false =>
    rw [← (SlashPath.parts_name hdir).2]
    exact insertUnder_ofSegments es hfs dir

/-- A tree that grows by some files at every step. -/
theorem foldl_ofSegments {ι : Type} {add : FileTree → ι → FileTree} {new : ι → List (List Bytes × Bytes)} :
    ∀ {is : List ι}, (∀ i ∈ is, ∀ es, add (ofSegments es) i = ofSegments (es ++ new i)) →
    ∀ es, is.foldl add (ofSegments es) = ofSegments (es ++ is.flatMap new)
  | [], _, es => by simp
  | i :: is, hadd, es => by
    obtain ⟨hi, his⟩ := List.forall_mem_cons.1 hadd
    rw [List.foldl_cons, hi, foldl_ofSegments his, List.flatMap_cons, List.append_assoc]

/-! ## What they hold -/

theorem lastOf_below (dir place : List Bytes) (es : List (List Bytes × Bytes)) :
    lastOf (dir ++ place) (below dir es) = lastOf place es :=
  Table.lastOf_map fun _ _ heq => List.append_cancel_left heq

/-- **A look-up finds the last file at the place.** -/
theorem get?_ofSegments {es : List (List Bytes × Bytes)} (hes : Descend es) (p : Bytes) :
    (ofSegments es).get? p = lastOf (parts p) es := by
  rw [get?, ofSegments, Table.find?_ofEntries, SlashPath.normalize_eq]
  refine Table.lastOf_map (f := Bytes.join [slash]) fun e he heq => ?_
  exact join_parts_inj (hes.isPart he) (fun s => SlashPath.isPart_of_mem_parts) heq

/-- A file whose place no other file has is found there. -/
theorem get?_ofSegments_of_nodup {es : List (List Bytes × Bytes)} (hes : Descend es) (hnodup : (es.map (·.1)).Nodup)
    {p data : Bytes} (h : (parts p, data) ∈ es) : (ofSegments es).get? p = some data := by
  rw [get?_ofSegments hes, Table.lastOf_of_nodup hnodup h]

/-- The paths of a tree are the places of its files, each once. -/
theorem paths_ofSegments (es : List (List Bytes × Bytes)) :
    (ofSegments es).paths.Perm (es.map fun e => Bytes.join [slash] e.1).dedup := by
  have hkeys := Table.keys_ofEntries (es.map fun e => (Bytes.join [slash] e.1, e.2))
  rwa [List.map_map] at hkeys

theorem mem_paths_ofSegments {es : List (List Bytes × Bytes)} {q : Bytes} :
    q ∈ (ofSegments es).paths ↔ ∃ e ∈ es, Bytes.join [slash] e.1 = q := by
  rw [(paths_ofSegments es).mem_iff, List.mem_dedup, List.mem_map]

theorem nodup_map_join {es : List (List Bytes × Bytes)} (hes : Descend es) :
    (es.map fun e => Bytes.join [slash] e.1).Nodup ↔ (es.map (·.1)).Nodup := by
  have hcomp : es.map (fun e => Bytes.join [slash] e.1) = (es.map (·.1)).map (Bytes.join [slash]) := by
    rw [List.map_map]
    rfl
  have hinj : ∀ ps ∈ es.map (·.1), ∀ qs ∈ es.map (·.1), Bytes.join [slash] ps = Bytes.join [slash] qs → ps = qs := by
    simp only [List.forall_mem_map]
    exact fun e he e' he' => join_parts_inj (hes.isPart he) (hes.isPart he')
  rw [hcomp]
  exact ⟨List.Nodup.of_map _, List.Nodup.map_on hinj⟩

/-- **A tree has as many paths as files** exactly when no two of them share a place. -/
theorem length_paths_ofSegments {es : List (List Bytes × Bytes)} (hes : Descend es) :
    (ofSegments es).paths.length = es.length ↔ (es.map (·.1)).Nodup := by
  rw [(paths_ofSegments es).length_eq, ← nodup_map_join hes, ← List.dedup_eq_self]
  constructor
  · intro hlength
    exact (List.dedup_sublist _).eq_of_length (by rw [hlength, List.length_map])
  · intro hself
    rw [hself, List.length_map]

end FileTree

end Bindery
