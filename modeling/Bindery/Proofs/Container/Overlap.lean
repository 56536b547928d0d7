/-
Several nodes at one path. Files are packed in the order of their paths, and paths that
differ in empty segments only lead to one place; the tree then has several nodes of one
name. `Node.allAt` lists the nodes at a path, planting a file adds at its end
(`allAt_plant`), and only the first node of a name is ever grown below (`Grown`), so the
listing of a tree holds under a path what stands there (`listedAt_eq`). A file is found
under its path whenever no other file leads to the same place (`lookup_of_alone`), and
whatever is found was packed at that place (`exists_file_of_lookup`).
-/
import Bindery.Proofs.Container.Listing

namespace Bindery

namespace Node

/-! ## All nodes at a path -/

/-- What stands at a path, from a level on. Any number of nodes may have the last name;
above it the first node of a name is entered. -/
def allAt : List Bytes → List Node → List Entry
  | [], _ => []
  | [seg], level => (level.filter (·.name == seg)).map entry
  | seg :: segs, level =>
    match level.find? (·.name == seg) with
    | none => []
    | some n => allAt segs n.children

theorem allAt_nil_level : ∀ path : List Bytes, allAt path [] = []
  | [] | [_] | _ :: _ :: _ => rfl

theorem allAt_cons {path : List Bytes} (hpath : path ≠ []) (seg : Bytes) (level : List Node) :
    allAt (seg :: path) level
      = match level.find? (·.name == seg) with
        | none => []
        | some n => allAt path n.children := by
  rw [allAt]
  exact hpath

/-- The first node at a path is the one that counts. -/
theorem head?_allAt : ∀ (path : List Bytes) (level : List Node), (allAt path level).head? = entryAt path level
  | [], _ => rfl
  | [seg], level => by
    rw [allAt, entryAt, List.head?_map, List.head?_filter]
    cases level.find? (·.name == seg) <;> rfl
  | seg :: seg' :: path, level => by
    rw [allAt_cons (by simp), entryAt]
    cases level.find? (·.name == seg) with
    | none => rfl
    | some n => simpa using head?_allAt (seg' :: path) n.children

/-- What planting a node adds at a path, behind what stands there: the node, or a directory
on the way to it where nothing stands. -/
def appended (node : Node) (dirs path : List Bytes) (old : List Entry) : List Entry :=
  if path = dirs ++ [node.name] then [node.entry] else if path <+: dirs ∧ old = [] then [dirEntry] else []

theorem filter_within (seg s : Bytes) (change : List Node → List Node) (level : List Node) :
    ((within seg change level).filter (·.name == s)).map entry
      = (level.filter (·.name == s)).map entry
        ++ if s = seg ∧ (level.filter (·.name == s)).map entry = [] then [dirEntry] else [] := by
  induction level with
  | nil =>
    by_cases hs : s = seg
    · simp [within, hs, entry, dirEntry]
    · simp [within, hs, Ne.symm hs]
  | cons n level ih =>
    rw [within]
    by_cases hn : n.name = seg
    · by_cases hs : s = seg
      · simp [hn, hs, entry]
      · simp [hn, hs, Ne.symm hs]
    · by_cases hs : n.name = s
      · have hne : s ≠ seg := fun h => hn (hs.trans h)
        rw [if_neg hn]
        simp only [hs, List.filter_cons, beq_self_eq_true, if_true, List.map_cons, ih, hne, false_and, if_false,
          List.append_nil]
      · have hb : (n.name == s) = false := beq_eq_false_iff_ne.2 hs
        rw [if_neg hn]
        simp only [List.filter_cons, hb, Bool.false_eq_true, if_false, ih]

/-- **Planting a file** adds it behind what stands at its path, and directories where none
stand on the way. -/
theorem allAt_plant {node : Node} (hnode : node.children = []) : ∀ (dirs path : List Bytes) (level : List Node),
    path ≠ [] → allAt path (plant node dirs level)
      = allAt path level ++ appended node dirs path (allAt path level)
  | _, [], _, hpath => absurd rfl hpath
  | [], [s], level, _ => by
    rw [plant, allAt, allAt, List.filter_append, List.map_append, appended]
    by_cases hs : s = node.name
    · simp [hs]
    · simp [hs, Ne.symm hs]
  | [], s :: s' :: path, level, _ => by
    rw [plant, allAt_cons (by simp), allAt_cons (by simp), List.find?_append]
    cases level.find? (·.name == s) with
    | some n => simp [appended]
    | none =>
      by_cases hs : node.name = s
      · simp [hs, hnode, allAt_nil_level, appended]
      · have hne : (node.name == s) = false := beq_eq_false_iff_ne.2 hs
        simp [hne, appended]
  | seg :: dirs, [s], level, _ => by
    rw [plant, allAt, allAt, filter_within, appended]
    by_cases hs : s = seg <;> simp [hs]
  | seg :: dirs, s :: s' :: path, level, _ => by
    have ih := fun level => allAt_plant hnode dirs (s' :: path) level (by simp)
    rw [plant, allAt_cons (by simp), allAt_cons (by simp), find?_within]
    by_cases hs : s = seg
    · subst hs
      rw [if_pos rfl]
      cases level.find? (·.name == s) <;> simp [ih, allAt_nil_level, appended]
    · rw [if_neg hs]
      simp [appended, hs]

/-! ## Trees that files grow -/

/-- Names are free of slashes; a node that has nodes below it has a name, and is the first
node of this name. -/
inductive Grown : List Node → Prop
  | mk {level : List Node} : (∀ n ∈ level, 47 ∉ n.name ∧ (n.children ≠ [] → n.name ≠ [])) →
    level.Pairwise (fun m n => m.name = n.name → n.children = []) → (∀ n ∈ level, Grown n.children) → Grown level

theorem grown_nil : Grown [] := .mk (List.forall_mem_nil _) .nil (List.forall_mem_nil _)

theorem pairwise_within {seg : Bytes} {change : List Node → List Node} : ∀ {level : List Node},
    level.Pairwise (fun m n => m.name = n.name → n.children = []) →
    (within seg change level).Pairwise (fun m n => m.name = n.name → n.children = [])
  | [], _ => List.pairwise_singleton _ _
  | m :: level, h => by
    obtain ⟨hm, hlevel⟩ := List.pairwise_cons.1 h
    rw [within]
    split
    · exact List.pairwise_cons.2 ⟨hm, hlevel⟩
    · rename_i hseg
      refine List.pairwise_cons.2 ⟨fun n hn => ?_, pairwise_within hlevel⟩
      rcases mem_within hn with hn | ⟨n', hn', rfl⟩ | ⟨-, rfl⟩
      · exact hm n hn
      · have hname : n'.name = seg := by simpa using List.find?_some hn'
        exact fun heq => absurd (heq.trans hname) hseg
      · exact fun heq => absurd heq hseg

theorem plant_grown {node : Node} (hnode : node.children = []) (hname : 47 ∉ node.name) :
    ∀ {dirs : List Bytes} {level : List Node}, (∀ seg ∈ dirs, Segment seg) → Grown level →
    Grown (plant node dirs level)
  | [], level, _, .mk hnames hpair hgrown => by
    rw [plant]
    refine .mk ?_ ?_ ?_
    · exact List.forall_mem_append.2 ⟨hnames, by simpa [hnode] using hname⟩
    · refine List.pairwise_append.2 ⟨hpair, List.pairwise_singleton _ _, fun m _ n hn _ => ?_⟩
      rw [List.mem_singleton.1 hn, hnode]
    · exact List.forall_mem_append.2 ⟨hgrown, by simpa [hnode] using grown_nil⟩
  | seg :: dirs, level, hdirs, .mk hnames hpair hgrown => by
    obtain ⟨hseg, hdirs⟩ := List.forall_mem_cons.1 hdirs
    rw [plant]
    refine .mk (fun n hn => ?_) (pairwise_within hpair) (fun n hn => ?_)
    · rcases mem_within hn with hn | ⟨m, hm, rfl⟩ | ⟨-, rfl⟩
      · exact hnames n hn
      · have hname : m.name = seg := by simpa using List.find?_some hm
        show 47 ∉ m.name ∧ (_ → m.name ≠ [])
        rw [hname]
        exact ⟨hseg.2, fun _ => hseg.1⟩
      · exact ⟨hseg.2, fun _ => hseg.1⟩
    · rcases mem_within hn with hn | ⟨m, hm, rfl⟩ | ⟨-, rfl⟩
      · exact hgrown n hn
      · exact plant_grown hnode hname hdirs (hgrown m (List.mem_of_find?_eq_some hm))
      · exact plant_grown hnode hname hdirs grown_nil

end Node

namespace Volume

open Node

/-! ## The listing of a grown tree -/

/-- Paths of one origin with slash-free segments are told apart by their full names. -/
theorem join_append_inj {ds path path' : List Bytes} (hds : ∀ s ∈ ds, 47 ∉ s) (hpath : ∀ s ∈ path, 47 ∉ s)
    (hpath' : ∀ s ∈ path', 47 ∉ s) (hne : ds ++ path ≠ []) (hne' : ds ++ path' ≠ [])
    (h : Bytes.join [47] (ds ++ path) = Bytes.join [47] (ds ++ path')) : path = path' := by
  have hsplit := congrArg (Bytes.split 47) h
  rw [Bytes.split_join hne (List.forall_mem_append.2 ⟨hds, hpath⟩),
    Bytes.split_join hne' (List.forall_mem_append.2 ⟨hds, hpath'⟩)] at hsplit
  exact List.append_cancel_left hsplit

/-- Whatever is listed in a directory is listed under a path that goes on from it. -/
theorem exists_path_of_mem {level : List Node} (h : Grown level) : ∀ {ds : List Bytes}, (∀ s ∈ ds, Segment s) →
    ∀ {e : Bytes × Entry}, e ∈ listUnder (Bytes.join [47] ds) level →
    ∃ path, path ≠ [] ∧ (∀ s ∈ path, 47 ∉ s) ∧ e.1 = Bytes.join [47] (ds ++ path) := by
  induction h with
  | @mk level hnames _ _ ih =>
    intro ds hds e he
    obtain ⟨n, hn, he⟩ := mem_listUnder.1 he
    rw [fullName_join hds] at he
    rcases he with rfl | he
    · exact ⟨[n.name], by simp, by simpa using (hnames n hn).1, rfl⟩
    · have hchildren : n.children ≠ [] := by
        intro hnil
        simp [hnil, listUnder] at he
      have hds' : ∀ s ∈ ds ++ [n.name], Segment s :=
        List.forall_mem_append.2 ⟨hds, by simpa using ⟨(hnames n hn).2 hchildren, (hnames n hn).1⟩⟩
      obtain ⟨path, -, hpath, hkey⟩ := ih n hn hds' he
      exact ⟨n.name :: path, by simp, List.forall_mem_cons.2 ⟨(hnames n hn).1, hpath⟩, by simp [hkey]⟩

theorem listUnder_eq_flatMap (dir : Bytes) (ns : List Node) : listUnder dir ns = ns.flatMap (listOf dir) := by
  induction ns with
  | nil => rfl
  | cons n ns ih => rw [listUnder, List.flatMap_cons, ih]

theorem listOf_eq (dir : Bytes) (n : Node) :
    listOf dir n = (fullName dir n.name, n.entry) :: listUnder (fullName dir n.name) n.children := by
  cases n
  rw [listOf]
  rfl

/-- What stands at a path is what its first segment leads to, node by node: only one node of
a name has others below it. -/
theorem flatMap_allAt {seg : Bytes} {path : List Bytes} : ∀ {level : List Node},
    level.Pairwise (fun m n => m.name = n.name → n.children = []) →
    level.flatMap (fun n => if n.name = seg then (if path = [] then [n.entry] else allAt path n.children) else [])
      = allAt (seg :: path) level
  | [], _ => (allAt_nil_level _).symm
  | n :: level, h => by
    obtain ⟨hn, hlevel⟩ := List.pairwise_cons.1 h
    rw [List.flatMap_cons, flatMap_allAt hlevel]
    cases path with
    | nil => by_cases hseg : n.name = seg <;> simp [allAt, hseg]
    | cons seg' path =>
      have hrest : n.name = seg → allAt (seg :: seg' :: path) level = [] := by
        intro hseg
        rw [allAt_cons (by simp)]
        cases hfind : level.find? (·.name == seg) with
        | none => rfl
        | some m =>
          have hname : m.name = seg := by simpa using List.find?_some hfind
          show allAt (seg' :: path) m.children = []
          rw [hn m (List.mem_of_find?_eq_some hfind) (hseg.trans hname.symm), allAt_nil_level]
      rw [allAt_cons (by simp) seg (n :: level), List.find?_cons]
      by_cases hseg : n.name = seg
      · simp [hseg, hrest hseg]
      · have hb : (n.name == seg) = false := beq_eq_false_iff_ne.2 hseg
        simp [hseg, hb, allAt_cons]

/-- A node of a directory is listed under a path when the path ends in its name. -/
theorem fullName_beq {ds path : List Bytes} {n seg : Bytes} (hds : ∀ s ∈ ds, 47 ∉ s) (hn : 47 ∉ n)
    (hpath : ∀ s ∈ seg :: path, 47 ∉ s) :
    (Bytes.join [47] (ds ++ [n]) == Bytes.join [47] (ds ++ seg :: path)) = decide (n = seg ∧ path = []) := by
  rw [Bool.eq_iff_iff, beq_iff_eq, decide_eq_true_iff]
  constructor
  · intro heq
    have hcons := join_append_inj hds (by simpa using hn) hpath (by simp) (by simp) heq
    simpa [eq_comm] using hcons
  · rintro ⟨rfl, rfl⟩
    rfl

/-- What is listed below a directory goes on from its name. -/
theorem listed_beside {level : List Node} (h : Grown level) {ds path : List Bytes} {n seg : Bytes}
    (hds : ∀ s ∈ ds ++ [n], Segment s) (hpath : ∀ s ∈ seg :: path, 47 ∉ s) (hne : n ≠ seg) :
    (listUnder (Bytes.join [47] (ds ++ [n])) level).filter (·.1 == Bytes.join [47] (ds ++ seg :: path)) = [] := by
  rw [List.filter_eq_nil_iff]
  intro e he hkey
  obtain ⟨hslash, hn⟩ := List.forall_mem_append.1 fun s hs => (hds s hs).2
  obtain ⟨path', -, hpath', heq⟩ := exists_path_of_mem h hds he
  rw [beq_iff_eq, heq, List.append_assoc, List.singleton_append] at hkey
  have hcons := join_append_inj hslash (List.forall_mem_cons.2 ⟨hn n (by simp), hpath'⟩) hpath (by simp) (by simp) hkey
  exact hne (List.cons.inj hcons).1

/-- The nodes of a grown tree that are listed under a path are those that stand there. -/
theorem listed_eq_allAt {level : List Node} (h : Grown level) : ∀ {ds path : List Bytes}, (∀ s ∈ ds, Segment s) →
    (∀ s ∈ path, 47 ∉ s) → ds ++ path ≠ [] →
    ((listUnder (Bytes.join [47] ds) level).filter (·.1 == Bytes.join [47] (ds ++ path))).map (·.2)
      = allAt path level := by
  induction h with
  | @mk level hnames hpair hgrown ih =>
    intro ds path hds hpath hne
    have hslash : ∀ s ∈ ds, 47 ∉ s := fun s hs => (hds s hs).2
    cases path with
    | nil =>
      -- whatever is listed goes on from the directory, and so has another name
      rw [allAt, List.map_eq_nil_iff, List.filter_eq_nil_iff]
      intro e he hkey
      obtain ⟨path', hne', hpath', heq⟩ := exists_path_of_mem (.mk hnames hpair hgrown) hds he
      rw [beq_iff_eq, heq] at hkey
      exact hne' (join_append_inj hslash hpath' hpath (by simp [hne']) hne hkey)
    | cons seg path =>
      rw [listUnder_eq_flatMap, List.filter_flatMap, List.map_flatMap, ← flatMap_allAt hpair]
      refine List.flatMap_congr fun n hn => ?_
      have hself := fullName_beq hslash (hnames n hn).1 hpath
      have hbelow : ((listUnder (Bytes.join [47] (ds ++ [n.name])) n.children).filter
            (·.1 == Bytes.join [47] (ds ++ seg :: path))).map (·.2)
          = if n.name = seg then allAt path n.children else [] := by
        by_cases hchildren : n.children = []
        · simp [hchildren, listUnder, allAt_nil_level]
        · have hds' : ∀ s ∈ ds ++ [n.name], Segment s :=
            List.forall_mem_append.2 ⟨hds, by simpa using ⟨(hnames n hn).2 hchildren, (hnames n hn).1⟩⟩
          split
          · rename_i hname
            rw [← ih n hn hds' (List.forall_mem_cons.1 hpath).2 (by simp), List.append_assoc, List.singleton_append,
              hname]
          · rename_i hname
            rw [listed_beside (hgrown n hn) hds' hpath hname, List.map_nil]
      rw [listOf_eq, fullName_join hds, List.filter_cons, hself]
      by_cases hthis : n.name = seg ∧ path = []
      · rw [if_pos (by simpa using hthis), List.map_cons, hbelow]
        simp [hthis, allAt]
      · rw [if_neg (by simpa using hthis), hbelow]
        by_cases hname : n.name = seg
        · have hmore : path ≠ [] := fun hend => hthis ⟨hname, hend⟩
          simp [hname, hmore]
        · simp [hname]

theorem listedAt_eq {v : Volume} (h : Grown v.root) (p : Bytes) :
    v.listedAt p = allAt (Bytes.split 47 p) v.root := by
  have hsegs : ∀ s ∈ Bytes.split 47 p, 47 ∉ s := fun s hs => Bytes.not_mem_of_mem_split hs
  have hlisted := listed_eq_allAt h (List.forall_mem_nil _) hsegs (by simpa using Bytes.split_ne_nil p)
  rwa [List.nil_append, Bytes.join_split] at hlisted

/-! ## Files that lead to different places -/

/-- The names that lead to a file in a tree of directories. -/
def route (p : Bytes) : List Bytes := dirs p ++ [base p]

theorem allAt_place {path : List Bytes} (hpath : path ≠ []) (s : Bytes × Nat × Nat) (root : List Node) :
    allAt path (place false root s) = allAt path root
      ++ if path = route s.1 then [⟨fileKind, s.2.1, s.2.2⟩]
        else if path <+: dirs s.1 ∧ allAt path root = [] then [dirEntry] else [] :=
  allAt_plant rfl (dirs s.1) path root hpath

/-- Files that lead elsewhere leave what stands at a path, but for a directory where nothing
stood. -/
theorem allAt_foldl_other {path : List Bytes} (hpath : path ≠ []) : ∀ {ss : List (Bytes × Nat × Nat)}
    {root : List Node}, (∀ s ∈ ss, route s.1 ≠ path) →
    allAt path (ss.foldl (place false) root) = allAt path root
      ∨ allAt path root = [] ∧ allAt path (ss.foldl (place false) root) = [dirEntry]
  | [], _, _ => .inl rfl
  | s :: ss, root, hother => by
    obtain ⟨hs, hother⟩ := List.forall_mem_cons.1 hother
    have hstep : allAt path (place false root s) = allAt path root
        ∨ allAt path root = [] ∧ allAt path (place false root s) = [dirEntry] := by
      rw [allAt_place hpath, if_neg (Ne.symm hs)]
      split
      · rename_i hdir
        exact .inr ⟨hdir.2, by rw [hdir.2, List.nil_append]⟩
      · exact .inl (List.append_nil _)
    rw [List.foldl_cons]
    rcases hstep with hstep | ⟨hnil, hstep⟩ <;> rcases allAt_foldl_other hpath hother with hrest | ⟨hnil', hrest⟩
    · exact .inl (hrest.trans hstep)
    · exact .inr ⟨hstep ▸ hnil', hrest⟩
    · exact .inr ⟨hnil, hrest.trans hstep⟩
    · simp [hstep] at hnil'

/-- At the path of a file that alone leads there stands the file, behind a directory at
most. -/
theorem allAt_foldl_alone {path : List Bytes} {s : Bytes × Nat × Nat} {ss ss' : List (Bytes × Nat × Nat)}
    (hs : route s.1 = path) (hbefore : ∀ s' ∈ ss, route s'.1 ≠ path) (hbehind : ∀ s' ∈ ss', route s'.1 ≠ path) :
    ∃ dir, (dir = [] ∨ dir = [dirEntry]) ∧
      allAt path ((ss ++ s :: ss').foldl (place false) []) = dir ++ [⟨fileKind, s.2.1, s.2.2⟩] := by
  have hpath : path ≠ [] := by simp [← hs, route]
  refine ⟨allAt path (ss.foldl (place false) []), ?_, ?_⟩
  · refine (allAt_foldl_other hpath hbefore).imp (fun h => ?_) fun h => h.2
    exact h.trans (allAt_nil_level path)
  · have hplaced := allAt_place hpath s (ss.foldl (place false) [])
    rw [if_pos hs.symm] at hplaced
    rw [List.foldl_append, List.foldl_cons, ← hplaced]
    refine (allAt_foldl_other hpath hbehind).resolve_right fun h => ?_
    simp [hplaced] at h

theorem grown_indexOf (files : Table Bytes) : Grown (indexOf false files) := by
  rw [indexOf_eq]
  refine List.foldlRecOn (motive := Grown) (spans 0 files) (place false) grown_nil fun root hroot s _ => ?_
  refine plant_grown rfl (Bytes.not_mem_of_mem_split (List.getLast_mem _)) (fun seg hseg => ?_) hroot
  obtain ⟨hmem, hne⟩ := List.mem_filter.1 hseg
  exact ⟨by simpa using hne, Bytes.not_mem_of_mem_split (List.dropLast_subset _ hmem)⟩

/-- Where a file alone leads to its place it stands there, behind a directory at most. -/
theorem exists_allAt_of_alone {files : Table Bytes} (hordered : Table.Ordered files) {s : Bytes × Nat × Nat}
    (hs : s ∈ spans 0 files) (hp : CleanPath s.1)
    (halone : ∀ f ∈ files, route f.1 = Bytes.split 47 s.1 → f.1 = s.1) :
    ∃ dir, (dir = [] ∨ dir = [dirEntry]) ∧
      allAt (Bytes.split 47 s.1) (indexOf false files) = dir ++ [⟨fileKind, s.2.1, s.2.2⟩] := by
  obtain ⟨ss, ss', hsplit⟩ := List.append_of_mem hs
  have hother : ∀ s' ∈ spans 0 files, s'.1 ≠ s.1 → route s'.1 ≠ Bytes.split 47 s.1 := by
    intro s' hs' hne hroute
    obtain ⟨f', hf', hholds'⟩ := exists_file (spans_zero_hold files) hs'
    exact hne (hholds'.path.trans (halone f' hf' (hholds'.path ▸ hroute)))
  have hnames := ordered_spans hordered
  rw [hsplit] at hother hnames
  obtain ⟨-, hbehind, hbefore⟩ := List.pairwise_append.1 hnames
  have hne : ∀ {a b : Bytes}, Table.before a b = true → a ≠ b := by
    rintro a _ hlt rfl
    simp [Table.before_irrefl] at hlt
  rw [indexOf_eq, hsplit]
  exact allAt_foldl_alone hp.dirs_concat_base
    (fun s' hs' => hother s' (by simp [hs']) (hne (hbefore s' hs' s (by simp))))
    (fun s' hs' => hother s' (by simp [hs']) (Ne.symm (hne ((List.pairwise_cons.1 hbehind).1 s' hs'))))

/-- **A file that alone leads to its place is found there**, by the walk or, where a directory
stands before it, by the listing. -/
theorem lookup_of_alone {files : Table Bytes} (hordered : Table.Ordered files) {p d : Bytes} (hp : CleanPath p)
    (hfile : Table.find? p files = some d) (halone : ∀ f ∈ files, route f.1 = Bytes.split 47 p → f.1 = p) :
    (ofFiles false files).lookup p = some d := by
  have hholds := spans_zero_hold files
  rw [find?_spans hholds] at hfile
  obtain ⟨s, hs, rfl⟩ := Option.map_eq_some_iff.1 hfile
  obtain rfl : s.1 = p := by simpa using List.find?_some hs
  obtain ⟨f, -, hf⟩ := exists_file hholds (List.mem_of_find?_eq_some hs)
  obtain ⟨dir, hdir, hall⟩ := exists_allAt_of_alone hordered (List.mem_of_find?_eq_some hs) hp halone
  rw [lookup, file, hp.segments_eq]
  have hlisted : (ofFiles false files).listedFile s.1 = some (((contents files).take s.2.2).drop s.2.1) := by
    have hlast : (ofFiles false files).entries.find? s.1 = some ⟨fileKind, s.2.1, s.2.2⟩ := by
      rw [find?_entries_last, listedAt_eq (grown_indexOf files)]
      show (allAt _ (indexOf false files)).getLast? = _
      rw [hall, List.getLast?_concat]
    rw [listedFile, hlast]
    exact if_pos ⟨rfl, hf.ordered, hf.inside⟩
  cases hwalk : walk (ofFiles false files).root (Bytes.split 47 s.1) with
  | notFile | missing => exact hlisted
  | file n =>
    -- the walk ends in the first node of the path, which is no directory
    have hfirst : (dir ++ [(⟨fileKind, s.2.1, s.2.2⟩ : Entry)]).head? = some ⟨fileKind, n.start, n.stop⟩ := by
      rw [← hall, head?_allAt]
      exact entryAt_of_walk hwalk
    rcases hdir with rfl | rfl
    · simp only [List.nil_append, List.head?_cons, Option.some.injEq, Entry.mk.injEq, true_and] at hfirst
      show some (((contents files).take n.stop).drop n.start) = _
      rw [← hfirst.1, ← hfirst.2]
    · have hkinds : dirKind ≠ fileKind := by decide
      simp [dirEntry, hkinds] at hfirst

/-! ## Where a file was packed -/

/-- What files add at a path: directories, and the files that lead there. -/
theorem mem_allAt_foldl {path : List Bytes} (hpath : path ≠ []) {e : Entry} : ∀ {ss : List (Bytes × Nat × Nat)}
    {root : List Node}, e ∈ allAt path (ss.foldl (place false) root) →
    e ∈ allAt path root ∨ e = dirEntry ∨ ∃ s ∈ ss, route s.1 = path ∧ e = ⟨fileKind, s.2.1, s.2.2⟩
  | [], _, h => .inl h
  | s :: ss, root, h => by
    rw [List.foldl_cons] at h
    rcases mem_allAt_foldl hpath h with h | h | ⟨s', hs', hroute, he⟩
    · rw [allAt_place hpath, List.mem_append] at h
      rcases h with h | h
      · exact .inl h
      · split at h
        · rename_i hroute
          exact .inr (.inr ⟨s, by simp, hroute.symm, List.mem_singleton.1 h⟩)
        · split at h
          · exact .inr (.inl (List.mem_singleton.1 h))
          · simp at h
    · exact .inr (.inl h)
    · exact .inr (.inr ⟨s', by simp [hs'], hroute, he⟩)

/-- A file at a path of the tree holds what was packed under a path that leads there. -/
theorem exists_file_of_allAt {files : Table Bytes} {path : List Bytes} (hpath : path ≠ []) {e : Entry}
    (he : e ∈ allAt path (indexOf false files)) (hkind : e.kind = fileKind) :
    ∃ f ∈ files, route f.1 = path ∧ (ofFiles false files).slice e.start e.stop = f.2 := by
  rw [indexOf_eq] at he
  rcases mem_allAt_foldl hpath he with he | rfl | ⟨s, hs, hroute, rfl⟩
  · simp [allAt_nil_level] at he
  · exact absurd hkind (by decide)
  · obtain ⟨f, hf, hholds⟩ := exists_file (spans_zero_hold files) hs
    exact ⟨f, hf, hholds.path ▸ hroute, hholds.slice⟩

/-- **Whatever is found under a path was packed under one that leads to the same place**, by
the names that the walk follows or by the path as it is listed. -/
theorem exists_file_of_lookup {files : Table Bytes} {p d : Bytes} (h : (ofFiles false files).lookup p = some d) :
    ∃ f ∈ files, (route f.1 = segments p ∨ route f.1 = Bytes.split 47 p) ∧ f.2 = d := by
  rw [lookup] at h
  split at h
  · rename_i data hfile
    obtain rfl := Option.some.inj h
    obtain ⟨n, hwalk, rfl⟩ := file_eq_ok.1 hfile
    have hentry := entryAt_of_walk hwalk
    rw [← head?_allAt] at hentry
    obtain ⟨f, hf, hroute, hslice⟩ :=
      exists_file_of_allAt (Bytes.split_ne_nil _) (List.mem_of_head? hentry) rfl
    exact ⟨f, hf, .inl hroute, hslice.symm⟩
  · rw [listedFile, find?_entries_last, listedAt_eq (grown_indexOf files)] at h
    split at h
    · cases h
    · rename_i e hlast
      split at h
      · rename_i hkind
        obtain rfl := Option.some.inj h
        obtain ⟨f, hf, hroute, hslice⟩ :=
          exists_file_of_allAt (Bytes.split_ne_nil _) (List.mem_of_getLast? hlast) hkind.1
        exact ⟨f, hf, .inr hroute, hslice.symm⟩
      · cases h

end Volume

end Bindery
