/-
A tree of directories by what stands at each path. `Node.entryAt` follows a path through
nodes of any kind, and planting a file changes it at the path of the file and nowhere
else but for the directories on the way (`entryAt_plant`). In a tidy tree, where the names
of a level are distinct, it is also what the listing of all nodes holds under the path's
full name (`find?_entries`), and what a walk along the path can end in (`entryAt_of_walk`).
-/
import Bindery.Proofs.Container.Index

namespace Bindery

namespace Node

/-- A node without its name and children. -/
def entry (n : Node) : Entry := ⟨n.kind, n.start, n.stop⟩

/-- What stands at a path, from a level on; the first node of a name counts. -/
def entryAt : List Bytes → List Node → Option Entry
  | [], _ => none
  | seg :: segs, level =>
    match level.find? (·.name == seg) with
    | none => none
    | some n => if segs.isEmpty then some n.entry else entryAt segs n.children

theorem entryAt_nil_level (path : List Bytes) : entryAt path [] = none := by
  cases path <;> rfl

/-! ## Planting -/

theorem find?_within (seg s : Bytes) (change : List Node → List Node) : ∀ level : List Node,
    (within seg change level).find? (·.name == s) =
      if s = seg then
        some (match level.find? (·.name == seg) with
          | some n => { n with children := change n.children }
          | none => { name := seg, kind := dirKind, children := change [] })
      else level.find? (·.name == s)
  | [] => by
    rw [within, List.find?_singleton]
    by_cases hs : s = seg
    · simp [hs]
    · simp [hs, Ne.symm hs]
  | n :: level => by
    have ih := find?_within seg s change level
    rw [within]
    by_cases hn : n.name = seg
    · rw [if_pos hn, List.find?_cons, List.find?_cons, List.find?_cons]
      by_cases hs : s = seg
      · simp [hs, hn]
      · have hne : (seg == s) = false := beq_eq_false_iff_ne.2 (Ne.symm hs)
        simp [hs, hn, hne]
    · have hne : (n.name == seg) = false := beq_eq_false_iff_ne.2 hn
      rw [if_neg hn, List.find?_cons, List.find?_cons, List.find?_cons, ih]
      by_cases hs : s = seg
      · simp [hs, hne]
      · simp [hs]

/-- The directory that a path leads through. -/
def dirEntry : Entry := ⟨dirKind, 0, 0⟩

/-- What planting a node adds at a path where nothing stood. -/
def added (node : Node) (dirs path : List Bytes) : Option Entry :=
  if path = dirs ++ [node.name] then some node.entry else if path <+: dirs then some dirEntry else none

theorem added_cons (node : Node) (seg : Bytes) (dirs path : List Bytes) :
    added node (seg :: dirs) (seg :: path) = added node dirs path := by
  simp [added]

theorem added_other (node : Node) {seg s : Bytes} (hs : s ≠ seg) (dirs path : List Bytes) :
    added node (seg :: dirs) (s :: path) = none := by
  simp [added, hs]

theorem added_nil (node : Node) (s : Bytes) (path : List Bytes) :
    added node [] (s :: path) = if s = node.name ∧ path = [] then some node.entry else none := by
  simp [added]

/-- **Planting a file** adds it at its path and directories on the way, and changes nothing
that stood before. -/
theorem entryAt_plant {node : Node} (hnode : node.children = []) : ∀ (dirs path : List Bytes) (level : List Node),
    path ≠ [] → entryAt path (plant node dirs level) = (entryAt path level).or (added node dirs path)
  | _, [], _, hpath => absurd rfl hpath
  | [], s :: path, level, _ => by
    rw [plant, entryAt, entryAt, List.find?_append, added_nil]
    cases level.find? (·.name == s) with
    | some n => cases path <;> simp
    | none =>
      by_cases hs : node.name = s
      · cases path <;> simp [hs, hnode, entryAt_nil_level]
      · have hne : (node.name == s) = false := beq_eq_false_iff_ne.2 hs
        simp [hne, Ne.symm hs]
  | seg :: dirs, s :: path, level, _ => by
    rw [plant, entryAt, entryAt, find?_within]
    by_cases hs : s = seg
    · subst hs
      rw [if_pos rfl, added_cons]
      cases path with
      | nil =>
        have hdir : added node dirs [] = some dirEntry := by simp [added]
        cases level.find? (·.name == s) <;> simp [hdir, entry, dirEntry]
      | cons s' path =>
        have ih := fun level => entryAt_plant hnode dirs (s' :: path) level (by simp)
        cases level.find? (·.name == s) <;> simp [ih, entryAt_nil_level]
    · rw [if_neg hs, added_other node hs, Option.or_none]

/-! ## Tidy trees -/

/-- A segment of a path. -/
def Segment (s : Bytes) : Prop := s ≠ [] ∧ 47 ∉ s

/-- The names of every level are segments and distinct. -/
inductive Tidy : List Node → Prop
  | mk {level : List Node} : (level.map (·.name)).Nodup → (∀ n ∈ level, Segment n.name) →
    (∀ n ∈ level, Tidy n.children) → Tidy level

theorem tidy_nil : Tidy [] := .mk .nil (List.forall_mem_nil _) (List.forall_mem_nil _)

theorem map_name_within (seg : Bytes) (change : List Node → List Node) : ∀ level : List Node,
    (within seg change level).map (·.name) =
      if seg ∈ level.map (·.name) then level.map (·.name) else level.map (·.name) ++ [seg]
  | [] => rfl
  | n :: level => by
    rw [within]
    by_cases hn : n.name = seg
    · simp [hn]
    · have hne : ¬seg = n.name := Ne.symm hn
      rw [if_neg hn, List.map_cons, map_name_within seg change level, List.map_cons]
      by_cases hseg : seg ∈ level.map (·.name)
      · simp only [List.mem_cons, hseg, or_true, if_true]
      · simp only [List.mem_cons, hseg, hne, or_false, if_false, List.cons_append]

theorem nodup_concat {names : List Bytes} {s : Bytes} (h : names.Nodup) (hs : s ∉ names) : (names ++ [s]).Nodup := by
  refine List.nodup_append.2 ⟨h, List.pairwise_singleton _ _, fun a ha b hb => ?_⟩
  rw [List.mem_singleton.1 hb]
  rintro rfl
  exact hs ha

theorem nodup_name_within {seg : Bytes} {change : List Node → List Node} {level : List Node}
    (h : (level.map (·.name)).Nodup) : ((within seg change level).map (·.name)).Nodup := by
  rw [map_name_within]
  split
  · exact h
  · exact nodup_concat h ‹_›

theorem not_mem_names {level : List Node} {s : Bytes} (h : level.find? (·.name == s) = none) :
    s ∉ level.map (·.name) := by
  intro hs
  obtain ⟨n, hn, rfl⟩ := List.mem_map.1 hs
  simpa using List.find?_eq_none.1 h n hn

/-- Planting a file where nothing stands keeps a tree tidy. -/
theorem plant_tidy {node : Node} (hnode : node.children = []) (hname : Segment node.name) :
    ∀ {dirs : List Bytes} {level : List Node}, (∀ seg ∈ dirs, Segment seg) → Tidy level →
    entryAt (dirs ++ [node.name]) level = none → Tidy (plant node dirs level)
  | [], level, _, .mk hnodup hsegs htidy, hfree => by
    have hfind : level.find? (·.name == node.name) = none := by
      rw [List.nil_append, entryAt] at hfree
      cases hf : level.find? (·.name == node.name) with
      | none => rfl
      | some n => simp [hf] at hfree
    rw [plant]
    refine .mk ?_ ?_ ?_
    · rw [List.map_append]
      exact nodup_concat hnodup (not_mem_names hfind)
    · exact List.forall_mem_append.2 ⟨hsegs, by simpa using hname⟩
    · exact List.forall_mem_append.2 ⟨htidy, by simpa [hnode] using tidy_nil⟩
  | seg :: dirs, level, hdirs, .mk hnodup hsegs htidy, hfree => by
    obtain ⟨hseg, hdirs⟩ := List.forall_mem_cons.1 hdirs
    rw [plant]
    refine .mk (nodup_name_within hnodup) (fun n hn => ?_) (fun n hn => ?_)
    · rcases mem_within hn with hn | ⟨m, hm, rfl⟩ | ⟨-, rfl⟩
      · exact hsegs n hn
      · exact hsegs m (List.mem_of_find?_eq_some hm)
      · exact hseg
    · rcases mem_within hn with hn | ⟨m, hm, rfl⟩ | ⟨-, rfl⟩
      · exact htidy n hn
      · refine plant_tidy hnode hname hdirs (htidy m (List.mem_of_find?_eq_some hm)) ?_
        rw [List.cons_append, entryAt, hm] at hfree
        simpa using hfree
      · exact plant_tidy hnode hname hdirs tidy_nil (entryAt_nil_level _)

end Node

/-! ## The listing -/

namespace Volume

open Node

/-- The full name of a node in a directory. -/
def fullName (dir name : Bytes) : Bytes := if dir.isEmpty then name else dir ++ utf8 "/" ++ name

mutual

/-- The nodes that a listing adds for a node, each under its full name. -/
def listOf (dir : Bytes) : Node → List (Bytes × Entry)
  | ⟨name, kind, start, stop, children⟩ =>
    (fullName dir name, ⟨kind, start, stop⟩) :: listUnder (fullName dir name) children

def listUnder (dir : Bytes) : List Node → List (Bytes × Entry)
  | [] => []
  | n :: ns => listOf dir n ++ listUnder dir ns

end

mutual

theorem entriesOf_eq (dir : Bytes) (t : Table Entry) : ∀ n : Node,
    entriesOf dir t n = (listOf dir n).foldl (fun t e => t.insert e.1 e.2) t
  | ⟨name, kind, start, stop, children⟩ => by
    rw [entriesOf, listOf, List.foldl_cons, entriesUnder_eq]
    rfl

theorem entriesUnder_eq (dir : Bytes) (t : Table Entry) : ∀ ns : List Node,
    entriesUnder dir t ns = (listUnder dir ns).foldl (fun t e => t.insert e.1 e.2) t
  | [] => rfl
  | n :: ns => by
    rw [entriesUnder, listUnder, List.foldl_append, entriesOf_eq dir t n, entriesUnder_eq dir _ ns]

end

theorem mem_listUnder {dir : Bytes} {e : Bytes × Entry} {ns : List Node} :
    e ∈ listUnder dir ns ↔ ∃ n ∈ ns, e = (fullName dir n.name, n.entry)
      ∨ e ∈ listUnder (fullName dir n.name) n.children := by
  induction ns with
  | nil => simp [listUnder]
  | cons n ns ih =>
    have hn : e ∈ listOf dir n ↔ e = (fullName dir n.name, n.entry)
        ∨ e ∈ listUnder (fullName dir n.name) n.children := by
      cases n
      rw [listOf, List.mem_cons]
      rfl
    rw [listUnder, List.mem_append, ih, hn]
    simp

/-- Segments one after the other are the full name of the last in the directory of the others. -/
theorem fullName_join {ds : List Bytes} (hds : ∀ s ∈ ds, Segment s) (name : Bytes) :
    fullName (Bytes.join [47] ds) name = Bytes.join [47] (ds ++ [name]) := by
  cases ds with
  | nil => simp [fullName, Bytes.join]
  | cons d ds =>
    have hne : Bytes.join [47] (d :: ds) ≠ [] := Bytes.join_ne_nil (hds d (by simp)).1
    have hslash : utf8 "/" = [47] := by decide
    rw [fullName, if_neg (by simpa using hne), Bytes.join_append (by simp) (by simp), List.append_assoc, hslash]
    simp [Bytes.join]

theorem find?_name_of_mem : ∀ {level : List Node}, (level.map (·.name)).Nodup → ∀ {n : Node}, n ∈ level →
    level.find? (·.name == n.name) = some n
  | m :: level, hnodup, n, hn => by
    obtain ⟨hm, hnodup⟩ := List.nodup_cons.1 hnodup
    rcases List.mem_cons.1 hn with rfl | hn
    · exact List.find?_cons_of_pos (by simp)
    · have hne : m.name ≠ n.name := fun heq => hm (List.mem_map.2 ⟨n, hn, heq.symm⟩)
      exact (List.find?_cons_of_neg (by simpa using hne)).trans (find?_name_of_mem hnodup hn)

/-- In a tidy tree the listing holds what stands at each path, under the path's full name. -/
theorem mem_listUnder_iff {ns : List Node} (h : Tidy ns) : ∀ {ds : List Bytes}, (∀ s ∈ ds, Segment s) →
    ∀ {k : Bytes} {e : Entry}, (k, e) ∈ listUnder (Bytes.join [47] ds) ns ↔
      ∃ path, (∀ s ∈ path, Segment s) ∧ k = Bytes.join [47] (ds ++ path) ∧ entryAt path ns = some e := by
  induction h with
  | @mk level hnodup hsegs _ ih =>
    intro ds hds k e
    rw [mem_listUnder]
    constructor
    · rintro ⟨n, hn, h⟩
      have hds' : ∀ s ∈ ds ++ [n.name], Segment s :=
        List.forall_mem_append.2 ⟨hds, by simpa using hsegs n hn⟩
      have hfind := find?_name_of_mem hnodup hn
      rw [fullName_join hds] at h
      rcases h with h | h
      · obtain ⟨rfl, rfl⟩ := Prod.mk.inj h
        exact ⟨[n.name], by simpa using hsegs n hn, rfl, by simp [entryAt, hfind]⟩
      · obtain ⟨path, hpath, rfl, hentry⟩ := (ih n hn hds').1 h
        refine ⟨n.name :: path, List.forall_mem_cons.2 ⟨hsegs n hn, hpath⟩, by simp, ?_⟩
        have hne : path ≠ [] := by
          rintro rfl
          simp [entryAt] at hentry
        simp [entryAt, hfind, hne, hentry]
    · rintro ⟨path, hpath, rfl, hentry⟩
      cases path with
      | nil => simp [entryAt] at hentry
      | cons seg path =>
        obtain ⟨hseg, hrest⟩ := List.forall_mem_cons.1 hpath
        rw [entryAt] at hentry
        cases hfind : level.find? (·.name == seg) with
        | none => simp [hfind] at hentry
        | some n =>
          have hn := List.mem_of_find?_eq_some hfind
          obtain rfl : n.name = seg := by simpa using List.find?_some hfind
          refine ⟨n, hn, ?_⟩
          rw [fullName_join hds]
          cases path with
          | nil => exact .inl (by simpa [hfind, eq_comm] using hentry)
          | cons s path =>
            have hds' : ∀ s ∈ ds ++ [n.name], Segment s := List.forall_mem_append.2 ⟨hds, by simpa using hseg⟩
            exact .inr ((ih n hn hds').2 ⟨s :: path, hrest, by simp, by simpa [hfind] using hentry⟩)

theorem entryAt_ne_nil {path : List Bytes} {level : List Node} {e : Entry} (h : entryAt path level = some e) :
    path ≠ [] := by
  rintro rfl
  simp [entryAt] at h

/-- **The listing of a tidy tree** holds under the full name of a path what stands there. -/
theorem find?_entries {v : Volume} (h : Tidy v.root) {path : List Bytes} (hpath : ∀ s ∈ path, Segment s)
    (hne : path ≠ []) : v.entries.find? (Bytes.join [47] path) = entryAt path v.root := by
  have hmem : ∀ {k e}, (k, e) ∈ listUnder [] v.root ↔ ∃ path, (∀ s ∈ path, Segment s) ∧
      k = Bytes.join [47] path ∧ entryAt path v.root = some e :=
    fun {k e} => mem_listUnder_iff h (List.forall_mem_nil _)
  -- full names of different paths differ, so only one node is listed under this one
  have hsame : ∀ {e}, (Bytes.join [47] path, e) ∈ listUnder [] v.root → entryAt path v.root = some e := by
    intro e he
    obtain ⟨path', hpath', hjoin, hentry⟩ := hmem.1 he
    have hsplit := congrArg (Bytes.split 47) hjoin
    rw [Bytes.split_join hne fun s hs => (hpath s hs).2,
      Bytes.split_join (entryAt_ne_nil hentry) fun s hs => (hpath' s hs).2] at hsplit
    rwa [hsplit]
  rw [entries, entriesUnder_eq]
  cases hentry : entryAt path v.root with
  | some e =>
    rw [Table.find?_foldl_insert_eq, Table.lastOf_of_agree ?_ (hmem.2 ⟨path, hpath, rfl, hentry⟩), Option.some_or]
    rintro ⟨k, e'⟩ he' rfl
    exact Option.some.inj ((hsame he').symm.trans hentry)
  | none =>
    refine Table.find?_foldl_insert_none ?_
    rintro ⟨k, e'⟩ he' rfl
    simp [hentry] at hsame
    exact hsame he'

/-- One step of a walk that ends in a file: the first node of the name is the file, at the
end of the path, or a directory that the walk goes on from. -/
theorem walk_cons_eq_file {level : List Node} {seg : Bytes} {path : List Bytes} {n : Node}
    (h : walk level (seg :: path) = .file n) : ∃ m, level.find? (·.name == seg) = some m ∧
      (path = [] ∧ m = n ∧ n.kind = fileKind ∨ path ≠ [] ∧ walk m.children path = .file n) := by
  cases path with
  | nil =>
    rw [walk] at h
    cases hfind : level.find? (·.name == seg) with
    | none => simp [hfind] at h
    | some m =>
      simp only [hfind] at h
      split at h
      · obtain rfl := Found.file.inj h
        exact ⟨m, rfl, .inl ⟨rfl, rfl, ‹_›⟩⟩
      · simp at h
  | cons seg' path =>
    rw [walk] at h
    · cases hfind : level.find? (·.name == seg) with
      | none => simp [hfind] at h
      | some m =>
        simp only [hfind] at h
        split at h
        · exact ⟨m, rfl, .inr ⟨by simp, h⟩⟩
        · simp at h
    · simp

/-- A walk that ends in a file ends in what stands at the path. -/
theorem entryAt_of_walk {n : Node} : ∀ {path : List Bytes} {level : List Node}, walk level path = .file n →
    entryAt path level = some ⟨fileKind, n.start, n.stop⟩
  | [], level, h => by simp [walk] at h
  | seg :: path, level, h => by
    rw [entryAt]
    obtain ⟨m, hfind, ⟨rfl, rfl, hkind⟩ | ⟨hpath, h⟩⟩ := walk_cons_eq_file h
    · simp [hfind, entry, hkind]
    · simpa [hfind, hpath] using entryAt_of_walk h

end Volume

end Bindery
