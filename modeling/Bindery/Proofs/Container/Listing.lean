/-
The walk along a path against the listing of all nodes, in any tree of nodes that a volume
may hold. Several nodes may be listed under one path: nodes of one level may share a name,
and a name may have slashes in it. The walk ends in one of them (`mem_listedAt_of_file`)
and the listing keeps the last (`find?_entries_last`), so the two ways to a file give the
same contents exactly where the last node is a file with these contents
(`direct_access_agrees_iff`).
-/
import Bindery.Container.Builder
import Bindery.Proofs.Container.Lookup
import Bindery.Proofs.Container.Slices

namespace Bindery

open Node

namespace Volume

/-! ## The listing -/

/-- The nodes that are listed under a path, in the order of the listing. -/
def listedAt (v : Volume) (p : Bytes) : List Entry := ((listUnder [] v.root).filter (·.1 == p)).map (·.2)

theorem mem_listedAt {v : Volume} {p : Bytes} {e : Entry} : e ∈ v.listedAt p ↔ (p, e) ∈ listUnder [] v.root := by
  simp [listedAt]

/-- **The listing keeps the last node of a path.** -/
theorem find?_entries_last (v : Volume) (p : Bytes) : v.entries.find? p = (v.listedAt p).getLast? := by
  rw [entries, entriesUnder_eq, Table.find?_foldl_insert_eq, Table.lastOf, listedAt]
  exact Option.or_none

theorem ordered_entries (v : Volume) : Table.Ordered v.entries := by
  rw [entries, entriesUnder_eq]
  exact Table.foldl_insert_ordered _ .nil

/-- The contents of a listed node, when it is a file. -/
def contents? (v : Volume) (e : Entry) : Option Bytes :=
  if e.kind = fileKind then some (v.slice e.start e.stop) else none

/-- The contents of the last node listed under a path, when it is a file. -/
def lastContents (v : Volume) (p : Bytes) : Option Bytes := (v.listedAt p).getLast?.bind v.contents?

theorem find?_files (v : Volume) (p : Bytes) : v.files.find? p = v.lastContents p := by
  have hfiles : v.files = v.entries.filterMap fun e => (v.contents? e.2).map fun d => (e.1, d) := by
    rw [files]
    refine List.filterMap_congr fun e _ => ?_
    obtain ⟨p, e⟩ := e
    dsimp only
    rw [contents?]
    split <;> rfl
  rw [hfiles, Table.find?_filterMap_values v.ordered_entries, find?_entries_last, lastContents]

/-- Where all files lie in the data, no listed file is refused. -/
theorem listedFile_eq {v : Volume} (h : v.InRange) (p : Bytes) : v.listedFile p = v.lastContents p := by
  rw [listedFile, lastContents, ← find?_entries_last]
  cases hfind : v.entries.find? p with
  | none => rfl
  | some e =>
    obtain ⟨n, hn, hentry⟩ := below_of_mem_entries (Table.mem_of_find? hfind)
    obtain rfl : e = n.entry := hentry
    rw [Option.bind_some, contents?]
    by_cases hkind : n.kind = fileKind
    · have hrange := h n hn hkind
      simp [entry, hkind, hrange]
    · simp [entry, hkind]

/-! ## The walk -/

/-- A walk ends in a node that is listed under the names along it. -/
theorem mem_listUnder_of_walk {n : Node} : ∀ {path : List Bytes} {level : List Node} (dir : Bytes),
    walk level path = .file n → (path.foldl fullName dir, n.entry) ∈ listUnder dir level
  | [], level, dir, h => by simp [walk] at h
  | seg :: path, level, dir, h => by
    obtain ⟨m, hfind, hstep⟩ := walk_cons_eq_file h
    have hm := List.mem_of_find?_eq_some hfind
    obtain rfl : m.name = seg := by simpa using List.find?_some hfind
    rcases hstep with ⟨rfl, rfl, -⟩ | ⟨-, h⟩
    · exact mem_listUnder.2 ⟨m, hm, .inl rfl⟩
    · exact mem_listUnder.2 ⟨m, hm, .inr (mem_listUnder_of_walk _ h)⟩

theorem foldl_fullName {dir : Bytes} (hdir : dir ≠ []) : ∀ segs : List Bytes,
    segs.foldl fullName dir = Bytes.join [47] (dir :: segs)
  | [] => by simp [Bytes.join]
  | seg :: segs => by
    have hslash : utf8 "/" = [47] := by decide
    have hfull : fullName dir seg = Bytes.join [47] [dir, seg] := by
      rw [fullName, if_neg (by simpa using hdir), hslash]
      simp [Bytes.join]
    have hne : fullName dir seg ≠ [] := by
      rw [hfull]
      exact Bytes.join_ne_nil hdir
    rw [List.foldl_cons, foldl_fullName hne segs, hfull]
    cases segs <;> simp [Bytes.join]

/-- The names along a path make up the path, when no slash stands in front. -/
theorem foldl_fullName_split {p : Bytes} (h : p.head? ≠ some 47) : (Bytes.split 47 p).foldl fullName [] = p := by
  have hjoin : Bytes.join [47] (Bytes.split 47 p) = p := Bytes.join_split p
  cases hsplit : Bytes.split 47 p with
  | nil => exact absurd hsplit (Bytes.split_ne_nil p)
  | cons seg segs =>
    rw [hsplit] at hjoin
    have hfirst : fullName [] seg = seg := rfl
    rw [List.foldl_cons, hfirst]
    cases seg with
    | cons b seg => rw [foldl_fullName (by simp), hjoin]
    | nil =>
      cases segs with
      | nil => exact hjoin
      | cons seg segs => simp [← hjoin, Bytes.join] at h

/-- A path without slashes at its ends is split as it stands. -/
theorem segments_eq_split {p : Bytes} (hfirst : p.head? ≠ some 47) (hlast : p.getLast? ≠ some 47) :
    segments p = Bytes.split 47 p := by
  have hdrop : ∀ {s : Bytes}, s.head? ≠ some 47 → s.dropWhile (· == 47) = s := by
    intro s hs
    cases s with
    | nil => rfl
    | cons b s => exact List.dropWhile_cons_of_neg (by simpa using hs)
  rw [segments, hdrop hfirst, hdrop (by rwa [List.head?_reverse]), List.reverse_reverse]

/-- What the walk finds is the contents of a node listed under the path. -/
theorem mem_listedAt_of_file {v : Volume} {p b : Bytes} (hfirst : p.head? ≠ some 47) (hlast : p.getLast? ≠ some 47)
    (h : v.file p = .ok b) : ∃ e ∈ v.listedAt p, v.contents? e = some b := by
  obtain ⟨n, hwalk, rfl⟩ := file_eq_ok.1 h
  rw [segments_eq_split hfirst hlast] at hwalk
  have hlisted := mem_listUnder_of_walk [] hwalk
  rw [foldl_fullName_split hfirst] at hlisted
  exact ⟨n.entry, mem_listedAt.2 hlisted, if_pos (below_of_walk hwalk).2⟩

/-! ## Agreement -/

/-- Direct access to a path gives one of the files listed under it; the other way gives the
same contents exactly where the last node listed under the path has them, and so
wherever no other node is listed under it. -/
structure LastDecides (v : Volume) (p b : Bytes) (other : Option Bytes) : Prop where
  listed : ∃ e ∈ v.listedAt p, v.contents? e = some b
  agrees : other = some b ↔ v.lastContents p = some b
  alone : (v.listedAt p).length = 1 → other = some b

theorem lastDecides {v : Volume} {p b : Bytes} (h : ∃ e ∈ v.listedAt p, v.contents? e = some b) :
    v.LastDecides p b (v.lastContents p) := by
  refine ⟨h, .rfl, fun hone => ?_⟩
  obtain ⟨e, he, hb⟩ := h
  obtain ⟨e', hall⟩ := List.length_eq_one_iff.1 hone
  rw [hall] at he
  obtain rfl := List.mem_singleton.1 he
  rw [lastContents, hall]
  exact hb

/-- In a tidy tree a walk along anything but segments ends nowhere. -/
theorem segment_of_walk {n : Node} : ∀ {path : List Bytes} {level : List Node}, Tidy level →
    walk level path = .file n → ∀ seg ∈ path, Segment seg
  | [], level, _, h => by simp [walk] at h
  | seg :: path, level, .mk _ hsegs htidy, h => by
    obtain ⟨m, hfind, hstep⟩ := walk_cons_eq_file h
    have hm := List.mem_of_find?_eq_some hfind
    obtain rfl : m.name = seg := by simpa using List.find?_some hfind
    refine List.forall_mem_cons.2 ⟨hsegs m hm, ?_⟩
    rcases hstep with ⟨rfl, -⟩ | ⟨-, h⟩
    · exact List.forall_mem_nil _
    · exact segment_of_walk (htidy m hm) h

/-- In a tidy tree the last node listed under a path is the one that the walk ends in. -/
theorem lastContents_of_tidy {v : Volume} (htidy : Tidy v.root) {p b : Bytes} (hfirst : p.head? ≠ some 47)
    (hlast : p.getLast? ≠ some 47) (h : v.file p = .ok b) : v.lastContents p = some b := by
  obtain ⟨n, hwalk, rfl⟩ := file_eq_ok.1 h
  rw [segments_eq_split hfirst hlast] at hwalk
  have hentry := find?_entries htidy (segment_of_walk htidy hwalk) (Bytes.split_ne_nil p)
  rw [Bytes.join_split, entryAt_of_walk hwalk, find?_entries_last] at hentry
  rw [lastContents, hentry, Option.bind_some, contents?]
  exact if_pos rfl

end Volume

namespace Container

theorem mem_listedAt_of_atom {c : Container} {n b : Bytes} (h : c.atom c.id n = .ok b) :
    ∃ e ∈ c.atoms.listedAt n, c.atoms.contents? e = some b := by
  obtain ⟨node, hmem, rfl, hkind, rfl⟩ := node_of_atom h
  exact ⟨node.entry, Volume.mem_listedAt.2 (Volume.mem_listUnder.2 ⟨node, hmem, .inl rfl⟩), if_pos hkind⟩

/-- **Where direct access and the listing agree.** In a container that was read from any
octets, direct access to a path without slashes at its ends, or to an atom, gives the
contents of a node that is listed under the path; the listing gives the same contents
if and only if the last node listed there has them, so whenever no other node is listed
there, and for files whenever the tree is tidy. -/
theorem direct_access_agrees_iff (k : Codec) (d : Bytes) (c : Container) (hc : parse d k = .ok c) :
    (∀ v, c.Holds v → ∀ p b, p.head? ≠ some 47 → p.getLast? ≠ some 47 → v.file p = .ok b →
      v.LastDecides p b (v.listedFile p) ∧ (Tidy v.root → v.listedFile p = some b)) ∧
    ∀ n b, c.atom c.id n = .ok b → c.atoms.LastDecides n b (c.atoms.files.find? n) := by
  obtain ⟨parts, h⟩ := parse_eq_ok.1 hc
  refine ⟨fun v hv p b hfirst hlast hfile => ?_, fun n b hatom => ?_⟩
  · rw [Volume.listedFile_eq (h.inRange hv)]
    exact ⟨Volume.lastDecides (Volume.mem_listedAt_of_file hfirst hlast hfile),
      fun htidy => Volume.lastContents_of_tidy htidy hfirst hlast hfile⟩
  · rw [Volume.find?_files]
    exact Volume.lastDecides (mem_listedAt_of_atom hatom)

/-- A container whose atoms share a name, and two of whose files do but for a slash. -/
def twiceOctets : Bytes :=
  magic ++ version ++ noneTag ++ List.replicate sumSize 0 ++ Parts.body
    { manifest := [0xa0]
      atoms := Volume.encode { root := [.file (utf8 "m") 0 1, .file (utf8 "m") 1 2], data := [1, 2] }
      volumes := [(utf8 "v", Volume.encode (.ofFiles false [(utf8 "/a", [1]), (utf8 "a", [2]), (utf8 "b", [3])]))] }

/-- What direct access and the listing say of it. -/
theorem parse_twiceOctets : ∃ c v, parse twiceOctets = .ok c ∧ c.volumes.find? (utf8 "v") = some v ∧
    (v.file (utf8 "a") = .ok [1] ∧ v.listedFile (utf8 "a") = some [2]) ∧
    (v.file (utf8 "b") = .ok [3] ∧ (v.listedAt (utf8 "b")).length = 1) ∧
    c.atom c.id (utf8 "m") = .ok [1] ∧ c.atoms.files.find? (utf8 "m") = some [2] := by
  have hread : (do
      let c ← (parse twiceOctets).toOption
      let v ← c.volumes.find? (utf8 "v")
      let a ← (v.file (utf8 "a")).toOption
      let b ← (v.file (utf8 "b")).toOption
      let m ← (c.atom c.id (utf8 "m")).toOption
      let listed := [v.listedFile (utf8 "a"), c.atoms.files.find? (utf8 "m")]
      return ([a, b, m], listed, (v.listedAt (utf8 "b")).length))
      = some ([[1], [3], [1]], [some [2], some [2]], 1) := by decide +kernel
  simp only [Option.bind_eq_bind, Option.bind_eq_some_iff, toOption_eq_some, Option.pure_def, Option.some.injEq,
    Prod.mk.injEq, List.cons.injEq, and_true] at hread
  obtain ⟨c, hc, v, hv, a, ha, b, hb, m, hm, ⟨rfl, rfl, rfl⟩, ⟨hlisted, hfiles⟩, hlength⟩ := hread
  exact ⟨c, v, hc, hv, ⟨ha, hlisted⟩, ⟨hb, hlength⟩, hm, hfiles⟩

theorem direct_access_agrees_iff_twice : ∃ c v, parse twiceOctets = .ok c ∧ c.volumes.find? (utf8 "v") = some v ∧
    v.file (utf8 "b") = .ok [3] ∧ v.listedFile (utf8 "b") = some [3] ∧
    c.atom c.id (utf8 "m") = .ok [1] ∧ c.atoms.lastContents (utf8 "m") ≠ some [1] := by
  obtain ⟨c, v, hc, hv, -, ⟨hb, hlength⟩, hm, hfiles⟩ := parse_twiceOctets
  obtain ⟨hfile, hatom⟩ := direct_access_agrees_iff .standard twiceOctets c hc
  have hdecides := (hfile v (.inr ⟨_, hv⟩) _ _ (by decide) (by decide) hb).1
  refine ⟨c, v, hc, hv, hb, hdecides.alone hlength, hm, fun hlast => ?_⟩
  have hsame := (hatom _ _ hm).agrees.2 hlast
  simp [hfiles] at hsame

/-- **A later node hides an earlier one** from the listing, not from direct access: the two
give different contents for one path, and for one atom. -/
theorem later_node_hides_earlier : ∃ c v, parse twiceOctets = .ok c ∧ c.volumes.find? (utf8 "v") = some v ∧
    v.file (utf8 "a") = .ok [1] ∧ v.listedFile (utf8 "a") = some [2] ∧
    c.atom c.id (utf8 "m") = .ok [1] ∧ c.atoms.files.find? (utf8 "m") = some [2] := by
  obtain ⟨c, v, hc, hv, ⟨ha, hlisted⟩, -, hm, hfiles⟩ := parse_twiceOctets
  exact ⟨c, v, hc, hv, ha, hlisted, hm, hfiles⟩

end Container

end Bindery
