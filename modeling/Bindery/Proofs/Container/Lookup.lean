/-
Looking a file up is exact. For files at clean paths, a volume gives back under every
clean path what was packed there and nothing else, whether the files stand in a tree of
directories or all at the root (`lookup_ofFiles`). A file that is also the directory of
others is passed over by the walk and found in the listing.
-/
import Bindery.Proofs.Container.Tree

namespace Bindery

open Utf8 (valid)

/-- A relative path in UTF-8 without an empty segment, so without a slash at its ends. -/
def CleanPath (p : Bytes) : Prop := valid p = true ∧ ∀ seg ∈ Bytes.split 47 p, seg ≠ []

namespace CleanPath

variable {p q : Bytes}

theorem segments (h : CleanPath p) : ∀ seg ∈ Bytes.split 47 p, Node.Segment seg :=
  fun seg hseg => ⟨h.2 seg hseg, Bytes.not_mem_of_mem_split hseg⟩

theorem dirs_eq (h : CleanPath p) : Volume.dirs p = (Bytes.split 47 p).dropLast := by
  rw [Volume.dirs, List.filter_eq_self]
  intro seg hseg
  simpa using h.2 seg (List.dropLast_subset _ hseg)

theorem dirs_concat_base (h : CleanPath p) : Volume.dirs p ++ [Volume.base p] = Bytes.split 47 p := by
  rw [h.dirs_eq, Volume.base, List.dropLast_append_getLast]

theorem not_starts (h : CleanPath p) : p.dropWhile (· == 47) = p := by
  cases p with
  | nil => rfl
  | cons c p =>
    refine List.dropWhile_cons_of_neg fun hc => h.2 [] ?_ rfl
    rw [Bytes.split, if_pos hc]
    exact List.mem_cons_self

theorem not_ends (h : CleanPath p) : p.reverse.dropWhile (· == 47) = p.reverse := by
  cases hp : p.reverse with
  | nil => rfl
  | cons c s =>
    have heq : p = s.reverse ++ [c] := by
      rw [← List.reverse_reverse p, hp, List.reverse_cons]
    refine List.dropWhile_cons_of_neg fun hc => h.2 [] ?_ rfl
    rw [heq, beq_iff_eq.1 hc, Bytes.split_append_sep]
    simp [Bytes.split]

theorem segments_eq (h : CleanPath p) : Volume.segments p = Bytes.split 47 p := by
  rw [Volume.segments, h.not_starts, h.not_ends, List.reverse_reverse]

end CleanPath

namespace Volume

open Node

/-! ## Looking up -/

/-- The contents of a file, by the walk along its path or else by the listing. -/
def lookup (v : Volume) (p : Bytes) : Option Bytes :=
  match v.file p with
  | .ok data => some data
  | .error _ => v.listedFile p

/-- Where the walk and the listing do not contradict each other, the listing decides. -/
theorem lookup_eq {v : Volume} {p : Bytes}
    (hwalk : ∀ n, walk v.root (segments p) = .file n → v.entries.find? p = some ⟨fileKind, n.start, n.stop⟩)
    (hinside : ∀ e, v.entries.find? p = some e → e.kind = fileKind →
      e.start ≤ e.stop ∧ e.stop ≤ v.data.length) :
    v.lookup p = (v.entries.find? p).bind fun e =>
      if e.kind = fileKind then some (v.slice e.start e.stop) else none := by
  have hlisted : v.listedFile p = (v.entries.find? p).bind fun e =>
      if e.kind = fileKind then some (v.slice e.start e.stop) else none := by
    rw [listedFile]
    cases hfind : v.entries.find? p with
    | none => rfl
    | some e =>
      by_cases hkind : e.kind = fileKind
      · simp [hkind, hinside e hfind hkind]
      · simp [hkind]
  rw [lookup, file]
  cases hw : walk v.root (segments p) with
  | file n => simp [hwalk n hw]
  | notFile => exact hlisted
  | missing => exact hlisted

/-- What the listing says of a path, in terms of the places of the files: the place of the
file there, or no file at all. -/
def ListsSpan (e : Option Entry) (s : Option (Bytes × Nat × Nat)) : Prop :=
  match s with
  | some s => e = some ⟨fileKind, s.2.1, s.2.2⟩
  | none => ∀ e' ∈ e, e'.kind ≠ fileKind

/-- A volume whose listing says of a path what the places of its files say finds the file
that was packed there. -/
theorem lookup_of_listsSpan {flat : Bool} {files : Table Bytes} {p : Bytes}
    (hwalk : ∀ n, walk (indexOf flat files) (segments p) = .file n →
      (ofFiles flat files).entries.find? p = some ⟨fileKind, n.start, n.stop⟩)
    (h : ListsSpan ((ofFiles flat files).entries.find? p) ((spans 0 files).find? (·.1 == p))) :
    (ofFiles flat files).lookup p = Table.find? p files := by
  have hholds := spans_zero_hold files
  rw [find?_spans hholds]
  cases hs : (spans 0 files).find? (·.1 == p) with
  | some s =>
    rw [hs] at h
    have hentry : (ofFiles flat files).entries.find? p = some ⟨fileKind, s.2.1, s.2.2⟩ := h
    obtain ⟨f, -, hf⟩ := exists_file hholds (List.mem_of_find?_eq_some hs)
    rw [lookup_eq hwalk fun e he _ => ?_, hentry]
    · rfl
    · rw [hentry] at he
      obtain rfl := Option.some.inj he
      exact ⟨hf.ordered, hf.inside⟩
  | none =>
    rw [hs] at h
    have hno : ∀ e, (ofFiles flat files).entries.find? p = some e → e.kind ≠ fileKind := h
    rw [lookup_eq hwalk fun e he hkind => absurd hkind (hno e he)]
    cases hentry : (ofFiles flat files).entries.find? p with
    | none => rfl
    | some e => simp [hno e hentry]

/-! ## Files at the root -/

theorem find?_map_spans {α : Type} (g : Bytes × Nat × Nat → α) (p : Bytes) (ss : List (Bytes × Nat × Nat)) :
    Table.find? p (ss.map fun s => (s.1, g s)) = (ss.find? (·.1 == p)).map g := by
  induction ss with
  | nil => rfl
  | cons s ss ih =>
    rw [List.map_cons, Table.find?, List.find?_cons, ih]
    by_cases hp : p = s.1
    · simp [hp]
    · have hne : (s.1 == p) = false := beq_eq_false_iff_ne.2 (Ne.symm hp)
      simp [hp, hne]

theorem find?_name_flat (seg : Bytes) (ss : List (Bytes × Nat × Nat)) :
    (ss.map fun s => Node.file s.1 s.2.1 s.2.2).find? (·.name == seg)
      = (ss.find? (·.1 == seg)).map fun s => Node.file s.1 s.2.1 s.2.2 := by
  rw [List.find?_map]
  rfl

/-- At the root a walk finds a file only under a path of one segment, which is its name. -/
theorem walk_flat {ss : List (Bytes × Nat × Nat)} {p : Bytes} {n : Node}
    (h : walk (ss.map fun s => Node.file s.1 s.2.1 s.2.2) (Bytes.split 47 p) = .file n) :
    ∃ s, ss.find? (·.1 == p) = some s ∧ n = Node.file s.1 s.2.1 s.2.2 := by
  have hjoin : Bytes.join [47] (Bytes.split 47 p) = p := Bytes.join_split p
  match hsplit : Bytes.split 47 p with
  | [] => exact absurd hsplit (Bytes.split_ne_nil p)
  | [seg] =>
    obtain rfl : seg = p := by simpa [hsplit, Bytes.join] using hjoin
    rw [hsplit, walk, find?_name_flat] at h
    cases hs : ss.find? (·.1 == seg) with
    | none => simp [hs] at h
    | some s =>
      have hkind : (Node.file s.1 s.2.1 s.2.2).kind = fileKind := rfl
      simp only [hs, Option.map_some, hkind, if_true, Found.file.injEq] at h
      exact ⟨s, rfl, h.symm⟩
  | seg :: seg' :: segs =>
    have hkind : ∀ s : Bytes × Nat × Nat, (Node.file s.1 s.2.1 s.2.2).kind ≠ dirKind := by
      intro s
      have hne : fileKind ≠ dirKind := by decide
      exact hne
    rw [hsplit, walk, find?_name_flat] at h
    · cases hs : ss.find? (·.1 == seg) with
      | none => simp [hs] at h
      | some s => simp [hs, hkind s] at h
    · simp

theorem lookup_flat {files : Table Bytes} (hordered : Table.Ordered files) {p : Bytes} (hp : CleanPath p) :
    (ofFiles true files).lookup p = Table.find? p files := by
  have hentry : (ofFiles true files).entries.find? p
      = ((spans 0 files).find? (·.1 == p)).map fun s => ⟨fileKind, s.2.1, s.2.2⟩ := by
    rw [entries_flat hordered, flatEntries, find?_map_spans]
  refine lookup_of_listsSpan (fun n hn => ?_) ?_
  · rw [indexOf_flat, hp.segments_eq] at hn
    obtain ⟨s, hs, rfl⟩ := walk_flat hn
    rw [hentry, hs]
    rfl
  · rw [hentry]
    cases (spans 0 files).find? (·.1 == p) with
    | some s => rfl
    | none => simp [ListsSpan]

/-! ## Files in directories -/

/-- What a file adds to a tree at a path. -/
def addedBy (s : Bytes × Nat × Nat) (path : List Bytes) : Option Entry :=
  added (Node.file (base s.1) s.2.1 s.2.2) (dirs s.1) path

theorem addedBy_eq {s : Bytes × Nat × Nat} (hs : CleanPath s.1) (path : List Bytes) :
    addedBy s path = if path = Bytes.split 47 s.1 then some ⟨fileKind, s.2.1, s.2.2⟩
      else if path <+: (Bytes.split 47 s.1).dropLast then some dirEntry else none := by
  rw [← hs.dirs_concat_base, List.dropLast_concat]
  rfl

theorem entryAt_place (s : Bytes × Nat × Nat) {path : List Bytes} (hpath : path ≠ []) (root : List Node) :
    entryAt path (place false root s) = (entryAt path root).or (addedBy s path) :=
  entryAt_plant rfl (dirs s.1) path root hpath

theorem entryAt_foldl {path : List Bytes} (hpath : path ≠ []) :
    ∀ (ss : List (Bytes × Nat × Nat)) (root : List Node), entryAt path (ss.foldl (place false) root)
      = (entryAt path root).or (ss.findSome? (addedBy · path))
  | [], root => by simp
  | s :: ss, root => by
    rw [List.foldl_cons, entryAt_foldl hpath ss, entryAt_place s hpath, List.findSome?_cons, Option.or_assoc]
    cases addedBy s path <;> simp

theorem before_append (s t : Bytes) (c : UInt8) : Table.before s (s ++ c :: t) = true := by
  induction s with
  | nil => rfl
  | cons b s ih => simp [Table.before, ih]

/-- A file adds nothing at a path that comes after its own. -/
theorem addedBy_of_before {s : Bytes × Nat × Nat} (hs : CleanPath s.1) {p : Bytes}
    (h : Table.before s.1 p = true) : addedBy s (Bytes.split 47 p) = none := by
  rw [addedBy_eq hs, if_neg, if_neg]
  · rintro ⟨rest, hrest⟩
    -- the path `p` would be a directory of the file, and come before it
    have hsplit : Bytes.split 47 s.1 = Bytes.split 47 p ++ (rest ++ [base s.1]) := by
      rw [← hs.dirs_concat_base, hs.dirs_eq, ← hrest, List.append_assoc]
    have hpath : s.1 = p ++ 47 :: Bytes.join [47] (rest ++ [base s.1]) := by
      rw [← Bytes.join_split p, ← Bytes.join_append (by simp) (Bytes.split_ne_nil p), ← hsplit, Bytes.join_split]
    have hbefore := before_append p (Bytes.join [47] (rest ++ [base s.1])) 47
    rw [← hpath] at hbefore
    simp [Table.before_asymm h] at hbefore
  · intro heq
    have hp : p = s.1 := by rw [← Bytes.join_split p, heq, Bytes.join_split]
    rw [hp, Table.before_irrefl] at h
    simp at h

/-- The place of a file in a tree grown in the order of the paths. -/
theorem findSome?_addedBy {s : Bytes × Nat × Nat} : ∀ {ss : List (Bytes × Nat × Nat)},
    ss.Pairwise (fun a b => Table.before a.1 b.1 = true) → (∀ s ∈ ss, CleanPath s.1) → s ∈ ss →
    ss.findSome? (addedBy · (Bytes.split 47 s.1)) = some ⟨fileKind, s.2.1, s.2.2⟩
  | s' :: ss, hordered, hclean, hs => by
    obtain ⟨hfirst, hordered⟩ := List.pairwise_cons.1 hordered
    obtain ⟨hclean', hclean⟩ := List.forall_mem_cons.1 hclean
    rw [List.findSome?_cons]
    rcases List.mem_cons.1 hs with rfl | hs
    · rw [addedBy_eq hclean', if_pos rfl]
    · rw [addedBy_of_before hclean' (hfirst s hs)]
      exact findSome?_addedBy hordered hclean hs

/-- Away from the files a tree holds directories at most. -/
theorem findSome?_addedBy_other {p : Bytes} {ss : List (Bytes × Nat × Nat)} (hclean : ∀ s ∈ ss, CleanPath s.1)
    (hp : ∀ s ∈ ss, s.1 ≠ p) {e : Entry} (h : ss.findSome? (addedBy · (Bytes.split 47 p)) = some e) :
    e = dirEntry := by
  obtain ⟨s, hs, hadded⟩ := List.exists_of_findSome?_eq_some h
  have hne : Bytes.split 47 p ≠ Bytes.split 47 s.1 := by
    intro heq
    exact hp s hs (by rw [← Bytes.join_split s.1, ← heq, Bytes.join_split])
  rw [addedBy_eq (hclean s hs), if_neg hne] at hadded
  split at hadded
  · exact (Option.some.inj hadded).symm
  · simp at hadded

/-- A tree grown in the order of the paths stays tidy, for no file stands where an earlier
one or its directories do. -/
theorem foldl_place_tidy : ∀ {ss : List (Bytes × Nat × Nat)} {root : List Node},
    ss.Pairwise (fun a b => Table.before a.1 b.1 = true) → (∀ s ∈ ss, CleanPath s.1) → Tidy root →
    (∀ s ∈ ss, entryAt (Bytes.split 47 s.1) root = none) → Tidy (ss.foldl (place false) root)
  | [], root, _, _, htidy, _ => htidy
  | s :: ss, root, hordered, hclean, htidy, hfree => by
    obtain ⟨hfirst, hordered⟩ := List.pairwise_cons.1 hordered
    obtain ⟨hs, hclean⟩ := List.forall_mem_cons.1 hclean
    obtain ⟨hsfree, hfree⟩ := List.forall_mem_cons.1 hfree
    have hsegs := hs.segments
    rw [← hs.dirs_concat_base] at hsfree hsegs
    obtain ⟨hdirs, hbase⟩ := List.forall_mem_append.1 hsegs
    rw [List.foldl_cons]
    refine foldl_place_tidy hordered hclean ?_ fun s' hs' => ?_
    · exact plant_tidy rfl (hbase _ (List.mem_singleton_self _)) hdirs htidy hsfree
    · rw [entryAt_place s (Bytes.split_ne_nil _), hfree s' hs', addedBy_of_before hs (hfirst s' hs')]
      rfl

/-- What stands at a clean path of a tree of files. -/
theorem listsSpan_nested {files : Table Bytes} (hordered : Table.Ordered files)
    (hclean : ∀ f ∈ files, CleanPath f.1) (p : Bytes) :
    Tidy (indexOf false files) ∧
      ListsSpan (entryAt (Bytes.split 47 p) (indexOf false files)) ((spans 0 files).find? (·.1 == p)) := by
  have hnames := ordered_spans hordered
  have hspans : ∀ s ∈ spans 0 files, CleanPath s.1 := by
    intro s hs
    obtain ⟨f, hf, hholds⟩ := exists_file (spans_zero_hold files) hs
    rw [hholds.path]
    exact hclean f hf
  rw [indexOf_eq, entryAt_foldl (Bytes.split_ne_nil p), entryAt_nil_level, Option.none_or]
  refine ⟨foldl_place_tidy hnames hspans tidy_nil fun s _ => entryAt_nil_level _, ?_⟩
  cases hfind : (spans 0 files).find? (·.1 == p) with
  | some s =>
    obtain rfl : s.1 = p := by simpa using List.find?_some hfind
    exact findSome?_addedBy hnames hspans (List.mem_of_find?_eq_some hfind)
  | none =>
    intro e he
    have hp : ∀ s ∈ spans 0 files, s.1 ≠ p := by simpa using List.find?_eq_none.1 hfind
    rw [findSome?_addedBy_other hspans hp he]
    decide

theorem lookup_nested {files : Table Bytes} (hordered : Table.Ordered files)
    (hclean : ∀ f ∈ files, CleanPath f.1) {p : Bytes} (hp : CleanPath p) :
    (ofFiles false files).lookup p = Table.find? p files := by
  obtain ⟨htidy, hlists⟩ := listsSpan_nested hordered hclean p
  have hentry : (ofFiles false files).entries.find? p = entryAt (Bytes.split 47 p) (indexOf false files) := by
    have h := find?_entries (v := ofFiles false files) htidy hp.segments (Bytes.split_ne_nil p)
    rwa [Bytes.join_split] at h
  rw [← hentry] at hlists
  refine lookup_of_listsSpan (fun n hn => ?_) hlists
  rw [hentry, ← hp.segments_eq]
  exact entryAt_of_walk hn

/-- **Looking up is exact and independent of the layout.** Of files at clean paths, a clean
path leads to the file that was packed there, and to nothing else. -/
theorem lookup_ofFiles (flat : Bool) {files : Table Bytes} (hordered : Table.Ordered files)
    (hclean : ∀ f ∈ files, CleanPath f.1) {p : Bytes} (hp : CleanPath p) :
    (ofFiles flat files).lookup p = Table.find? p files := by
  cases flat with
  | true => exact lookup_flat hordered hp
  | false => exact lookup_nested hordered hclean hp

end Volume

end Bindery
