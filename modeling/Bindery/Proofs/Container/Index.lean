/-
The index of a volume is read back. `Node.Each P` says that every node of a tree
satisfies `P`, which looks at a node apart from its children; planting a file keeps it
(`plant_each`). The trees that files are packed into hold readable names and places
inside the data (`indexOf_sound`), and such trees come back from their stored form
(`listOfItem?_listItem`).
-/
import Bindery.Container.Volume
import Bindery.Proofs.Bytes.Pieces
import Bindery.Proofs.Cbor.Records

namespace Bindery

open Cbor
open Utf8 (valid)

namespace Node

/-- Every node of a tree satisfies `P`. -/
inductive Each (P : Bytes → Bytes → Nat → Nat → Prop) : Node → Prop
  | mk {name kind : Bytes} {start stop : Nat} {children : List Node} : P name kind start stop →
    (∀ c ∈ children, Each P c) → Each P ⟨name, kind, start, stop, children⟩

variable {P : Bytes → Bytes → Nat → Nat → Prop}

theorem Each.self : ∀ {n : Node}, n.Each P → P n.name n.kind n.start n.stop
  | _, .mk h _ => h

theorem Each.children : ∀ {n : Node}, n.Each P → ∀ c ∈ n.children, c.Each P
  | _, .mk _ h => h

/-! ## Growing a tree -/

/-- A level that was changed within one segment: other nodes are as they were, and the
changed one is the first of its name or new. -/
theorem mem_within {seg : Bytes} {change : List Node → List Node} {n : Node} : ∀ {level : List Node},
    n ∈ within seg change level → n ∈ level
      ∨ (∃ m, level.find? (·.name == seg) = some m ∧ n = { m with children := change m.children })
      ∨ (level.find? (·.name == seg) = none ∧ n = { name := seg, kind := dirKind, children := change [] })
  | [], h => .inr (.inr ⟨rfl, by simpa [within] using h⟩)
  | m :: level, h => by
    rw [within] at h
    split at h
    · rename_i hm
      rcases List.mem_cons.1 h with h | h
      · exact .inr (.inl ⟨m, List.find?_cons_of_pos (beq_iff_eq.2 hm), h⟩)
      · exact .inl (by simp [h])
    · rename_i hm
      have hrest : (m :: level).find? (·.name == seg) = level.find? (·.name == seg) :=
        List.find?_cons_of_neg (by simpa using hm)
      rw [hrest]
      rcases List.mem_cons.1 h with h | h
      · exact .inl (by simp [h])
      · exact (mem_within h).imp_left fun h => by simp [h]

/-- Planting a node keeps what holds of every node, when it holds of the new one and of
the directories on the way. -/
theorem plant_each {node : Node} (hnode : node.Each P) : ∀ {segs : List Bytes} {level : List Node},
    (∀ seg ∈ segs, P seg dirKind 0 0) → (∀ n ∈ level, n.Each P) → ∀ n ∈ plant node segs level, n.Each P
  | [], level, _, hlevel => by
    rw [plant]
    exact List.forall_mem_append.2 ⟨hlevel, by simpa using hnode⟩
  | seg :: segs, level, hsegs, hlevel => by
    obtain ⟨hseg, hsegs⟩ := List.forall_mem_cons.1 hsegs
    intro n hn
    rw [plant] at hn
    rcases mem_within hn with hn | ⟨m, hm, rfl⟩ | ⟨-, rfl⟩
    · exact hlevel n hn
    · have hm := hlevel m (List.mem_of_find?_eq_some hm)
      exact .mk hm.self (plant_each hnode hsegs hm.children)
    · exact .mk hseg (plant_each hnode hsegs (by simp))

/-! ## The stored form -/

/-- A node whose texts are in UTF-8 and whose place lies in `size` octets. -/
structure Sound (size : Nat) (name kind : Bytes) (start stop : Nat) : Prop where
  name : valid name = true
  kind : valid kind = true
  ordered : start ≤ stop
  inside : stop ≤ size

theorem items_eq (ns : List Node) : items ns = ns.map toItem := by
  induction ns with
  | nil => rfl
  | cons n ns ih => rw [items, ih, List.map_cons]

/-- The members of a node that are stored. -/
def stored (n : Node) : List (Bytes × Item) :=
  Item.fieldIf (n.stop != 0) "end" (.ofNat n.stop)
    ++ [(utf8 "kind", .ofText n.kind), (utf8 "name", .ofText n.name)]
    ++ Item.fieldIf (n.start != 0) "start" (.ofNat n.start)
    ++ Item.fieldIf (!n.children.isEmpty) "children" (.ofList (n.children.map toItem))

theorem toItem_eq : ∀ n : Node, n.toItem = .ofEntries n.stored
  | ⟨name, kind, start, stop, children⟩ => by rw [toItem, items_eq, stored]

theorem canonical_toItem {size : Nat} (hsize : size < 2 ^ 64) {n : Node} (h : n.Each (Sound size)) :
    Canonical n.toItem := by
  induction h with
  | @mk name kind start stop children h _ ih =>
    have hordered := h.ordered
    have hinside := h.inside
    rw [toItem_eq]
    refine .entries (List.forall_mem_append.2
      ⟨List.forall_mem_append.2 ⟨List.forall_mem_append.2 ⟨?_, ?_⟩, ?_⟩, ?_⟩)
    · exact Item.forall_mem_fieldIf.2 fun _ => .nat (by simp only; omega)
    · simp [Canonical.text]
    · exact Item.forall_mem_fieldIf.2 fun _ => .nat (by simp only; omega)
    · exact Item.forall_mem_fieldIf.2 fun _ => Item.canonical_list ih

theorem fields?_toItem (n : Node) : n.toItem.fields? memberNames = some n.stored := by
  rw [toItem_eq]
  refine Item.fields?_ofEntries [utf8 "end", utf8 "kind", utf8 "name", utf8 "start", utf8 "children"] ?_ ?_ ?_ ?_
  · rw [stored, List.map_append, List.map_append, List.map_append]
    exact (((Item.fieldIf_sublist _ _ _).append (.refl [utf8 "kind", utf8 "name"])).append
      (Item.fieldIf_sublist _ _ _)).append (Item.fieldIf_sublist _ _ _)
  all_goals decide

/-- What stands under each name of a stored node. -/
theorem find?_stored (n : Node) :
    Table.find? (utf8 "name") n.stored = some (.ofText n.name) ∧
    Table.find? (utf8 "kind") n.stored = some (.ofText n.kind) ∧
    Table.find? (utf8 "start") n.stored = (if n.start != 0 then some (.ofNat n.start) else none) ∧
    Table.find? (utf8 "end") n.stored = (if n.stop != 0 then some (.ofNat n.stop) else none) ∧
    Table.find? (utf8 "children") n.stored
      = if !n.children.isEmpty then some (.ofList (n.children.map toItem)) else none := by
  refine ⟨?_, ?_, ?_, ?_, ?_⟩
  all_goals simp +decide [stored, Table.find?_append, Item.find?_fieldIf, Table.find?]

/-- The stored children lie two levels of nesting below their node. -/
theorem fits_children {n : Node} {depth : Nat} (h : n.toItem.fits depth = true) :
    ∀ c ∈ n.children, c.toItem.fits (depth + 2) = true := by
  intro c hc
  have hchildren : (utf8 "children", Item.ofList (n.children.map toItem)) ∈ n.stored := by
    have hne : (!n.children.isEmpty) = true := by
      cases hcs : n.children with
      | nil => simp [hcs] at hc
      | cons _ _ => rfl
    simp [stored, Item.fieldIf, hne]
  rw [toItem_eq] at h
  have hlist := (Item.fits_ofEntries.1 h).2 _ hchildren
  exact (Item.fits_ofList.1 hlist).2 _ (List.mem_map_of_mem hc)

theorem fits_depth {n : Node} {depth : Nat} (h : n.toItem.fits depth = true) : depth < maxDepth := by
  rw [toItem_eq] at h
  exact (Item.fits_ofEntries.1 h).1.1

/-- A node is read back when there is fuel for what the reader's limits leave below it. -/
theorem ofItemWithin?_toItem {size : Nat} {n : Node} (h : n.Each (Sound size)) : ∀ {fuel depth : Nat},
    n.toItem.fits depth = true → maxDepth ≤ depth + fuel → ofItemWithin? fuel n.toItem = some n := by
  induction h with
  | @mk name kind start stop children h _ ih =>
    intro fuel depth hfits hfuel
    have hdepth := fits_depth hfits
    obtain ⟨fuel, rfl⟩ : ∃ m, fuel = m + 1 := ⟨fuel - 1, by omega⟩
    have hchildren : (Item.ofList (children.map toItem)).list? (ofItemWithin? fuel) = some children :=
      Item.list?_ofList fun c hc => ih c hc (fits_children hfits c hc) (by omega)
    rw [ofItemWithin?, fields?_toItem]
    simp only [Option.bind_eq_bind, Option.bind_some]
    obtain ⟨hname, hkind, hstart, hstop, hlist⟩ := find?_stored ⟨name, kind, start, stop, children⟩
    rw [Item.field_stored hname (Item.text?_ofText h.name), Item.field_stored hkind (Item.text?_ofText h.kind),
      Item.field_storedIf _ hstart (by simpa using Eq.symm) fun _ => Item.nat?_ofNat start,
      Item.field_storedIf _ hstop (by simpa using Eq.symm) fun _ => Item.nat?_ofNat stop,
      Item.field_storedIf _ hlist (by simp) fun _ => hchildren]
    rfl

theorem canonical_listItem {size : Nat} (hsize : size < 2 ^ 64) {ns : List Node}
    (h : ∀ n ∈ ns, n.Each (Sound size)) : Canonical (listItem ns) := by
  rw [listItem, items_eq]
  exact Item.canonical_list fun n hn => canonical_toItem hsize (h n hn)

/-- **A level of nodes is read back from its stored form.** -/
theorem listOfItem?_listItem {size : Nat} {ns : List Node} (h : ∀ n ∈ ns, n.Each (Sound size))
    (hfits : (listItem ns).fits 0 = true) : listOfItem? (listItem ns) = some ns := by
  rw [listItem, items_eq] at hfits ⊢
  have hall := (Item.fits_ofList.1 hfits).2
  exact Item.list?_ofList fun n hn => ofItemWithin?_toItem (h n hn) (hall _ (List.mem_map_of_mem hn)) (by omega)

end Node

/-! ## Packing files -/

namespace Volume

mutual

theorem outside?_eq_none {size : Nat} : ∀ {n : Node}, n.Each (Node.Sound size) → outside? size n = none
  | ⟨name, kind, start, stop, children⟩, h => by
    have hordered : start ≤ stop := h.self.ordered
    have hinside : stop ≤ size := h.self.inside
    rw [outside?, if_neg (by omega)]
    exact anyOutside?_eq_none h.children

theorem anyOutside?_eq_none {size : Nat} : ∀ {ns : List Node}, (∀ n ∈ ns, n.Each (Node.Sound size)) →
    anyOutside? size ns = none
  | [], _ => rfl
  | n :: ns, h => by
    obtain ⟨hn, hns⟩ := List.forall_mem_cons.1 h
    rw [anyOutside?, outside?_eq_none hn, anyOutside?_eq_none hns]
    rfl

end

/-- The contents of some files one after the other. -/
def contents (files : Table Bytes) : Bytes := files.flatMap (·.2)

/-- A place in a volume holds the contents of a file. -/
structure Holds (data : Bytes) (file : Bytes × Bytes) (span : Bytes × Nat × Nat) : Prop where
  path : span.1 = file.1
  slice : (data.take span.2.2).drop span.2.1 = file.2
  ordered : span.2.1 ≤ span.2.2
  inside : span.2.2 ≤ data.length

theorem spans_hold (before : Bytes) : ∀ files : Table Bytes,
    List.Forall₂ (Holds (before ++ contents files)) files (spans before.length files)
  | [] => .nil
  | (p, d) :: files => by
    have hrest := spans_hold (before ++ d) files
    have hcontents : before ++ d ++ contents files = before ++ contents ((p, d) :: files) := by
      rw [contents, contents, List.flatMap_cons, List.append_assoc]
    rw [hcontents, List.length_append] at hrest
    refine .cons ⟨rfl, ?_, ?_, ?_⟩ hrest
    · rw [← hcontents, ← List.length_append, List.take_left, List.drop_left]
    · exact Nat.le_add_right _ _
    · rw [← hcontents]
      simp

theorem spans_zero_hold (files : Table Bytes) :
    List.Forall₂ (Holds (contents files)) files (spans 0 files) := spans_hold [] files

theorem exists_file {data : Bytes} {files : Table Bytes} {spans : List (Bytes × Nat × Nat)}
    (h : List.Forall₂ (Holds data) files spans) {s : Bytes × Nat × Nat} (hs : s ∈ spans) :
    ∃ f ∈ files, Holds data f s := by
  induction h with
  | nil => simp at hs
  | @cons f s' files spans hf _ ih =>
    rcases List.mem_cons.1 hs with rfl | hs
    · exact ⟨f, by simp, hf⟩
    · obtain ⟨f', hf', hholds⟩ := ih hs
      exact ⟨f', by simp [hf'], hholds⟩

/-- The directories on the way to a path. -/
def dirs (p : Bytes) : List Bytes := (Bytes.split 47 p).dropLast.filter fun seg => !seg.isEmpty

/-- The last segment of a path. -/
def base (p : Bytes) : Bytes := (Bytes.split 47 p).getLast (Bytes.split_ne_nil p)

/-- Adds one file to an index. -/
def place (flat : Bool) (root : List Node) (s : Bytes × Nat × Nat) : List Node :=
  if flat then root ++ [Node.file s.1 s.2.1 s.2.2]
  else Node.plant (Node.file (base s.1) s.2.1 s.2.2) (dirs s.1) root

theorem indexOf_eq (flat : Bool) (files : Table Bytes) :
    indexOf flat files = (spans 0 files).foldl (place flat) [] := by
  unfold indexOf
  congr 1
  funext root s
  obtain ⟨p, start, stop⟩ := s
  rw [place, base, dirs, ← Bytes.afterLast_eq, ← Bytes.filter_split_uptoLast]

theorem place_each {P : Bytes → Bytes → Nat → Nat → Prop} {flat : Bool} {root : List Node}
    {s : Bytes × Nat × Nat} (hdirs : ∀ seg ∈ Bytes.split 47 s.1, P seg Node.dirKind 0 0)
    (hbase : P (base s.1) Node.fileKind s.2.1 s.2.2) (hfull : P s.1 Node.fileKind s.2.1 s.2.2)
    (hroot : ∀ n ∈ root, n.Each P) : ∀ n ∈ place flat root s, n.Each P := by
  unfold place
  split
  · refine List.forall_mem_append.2 ⟨hroot, ?_⟩
    simpa using .mk hfull (by simp)
  · refine Node.plant_each (.mk hbase (by simp)) (fun seg hseg => ?_) hroot
    exact hdirs seg (List.dropLast_subset _ (List.mem_filter.1 hseg).1)

theorem valid_fileKind : valid Node.fileKind = true := Utf8.valid_of_ascii (by decide)

theorem valid_dirKind : valid Node.dirKind = true := Utf8.valid_of_ascii (by decide)

/-- The nodes of some files are sound, whichever way they are packed. -/
theorem indexOf_sound {flat : Bool} {files : Table Bytes} (h : ∀ f ∈ files, valid f.1 = true) :
    ∀ n ∈ indexOf flat files, n.Each (Node.Sound (contents files).length) := by
  rw [indexOf_eq]
  have hnil : ∀ n ∈ ([] : List Node), n.Each (Node.Sound (contents files).length) := by simp
  refine List.foldlRecOn (motive := fun root => ∀ n ∈ root, n.Each (Node.Sound (contents files).length))
    (spans 0 files) (place flat) hnil fun root hroot s hs => ?_
  obtain ⟨f, hf, hholds⟩ := exists_file (spans_zero_hold files) hs
  have hvalid : valid s.1 = true := by
    rw [hholds.path]
    exact h f hf
  have hslash : (47 : UInt8) < 0x80 := by decide
  have hpieces : ∀ seg ∈ Bytes.split 47 s.1, valid seg = true := fun seg hseg =>
    Utf8.valid_of_text (Bytes.text_of_mem_split hslash (Utf8.text_of_valid hvalid) seg hseg)
  refine place_each (fun seg hseg => ?_) ?_ ?_ hroot
  · exact ⟨hpieces seg hseg, valid_dirKind, Nat.le_refl 0, Nat.zero_le _⟩
  · exact ⟨hpieces _ (List.getLast_mem _), valid_fileKind, hholds.ordered, hholds.inside⟩
  · exact ⟨hvalid, valid_fileKind, hholds.ordered, hholds.inside⟩

/-! ## Files at the root -/

/-- What is found under a path among the places is what the files hold under it. -/
theorem find?_spans {data : Bytes} {files : Table Bytes} {spans : List (Bytes × Nat × Nat)}
    (h : List.Forall₂ (Holds data) files spans) (p : Bytes) :
    Table.find? p files = (spans.find? (·.1 == p)).map fun s => (data.take s.2.2).drop s.2.1 := by
  induction h with
  | nil => rfl
  | @cons f s files spans hf _ ih =>
    obtain ⟨k, d⟩ := f
    rw [Table.find?, List.find?_cons]
    split
    · rename_i hp
      have hs : (s.1 == p) = true := beq_iff_eq.2 (hf.path.trans hp.symm)
      simp only [hs, Option.map_some, hf.slice]
    · rename_i hp
      have hs : (s.1 == p) = false := beq_eq_false_iff_ne.2 fun heq => hp (heq.symm.trans hf.path)
      simp only [hs, ih]

theorem foldl_place_flat : ∀ (ss : List (Bytes × Nat × Nat)) (root : List Node),
    ss.foldl (place true) root = root ++ ss.map fun s => Node.file s.1 s.2.1 s.2.2
  | [], root => by simp
  | s :: ss, root => by
    rw [List.foldl_cons, foldl_place_flat ss, place, if_pos rfl, List.append_assoc]
    rfl

theorem indexOf_flat (files : Table Bytes) :
    indexOf true files = (spans 0 files).map fun s => Node.file s.1 s.2.1 s.2.2 := by
  rw [indexOf_eq, foldl_place_flat, List.nil_append]

/-- The entries that files have at the root. -/
def flatEntries (files : Table Bytes) : Table Entry :=
  (spans 0 files).map fun s => (s.1, ⟨Node.fileKind, s.2.1, s.2.2⟩)

theorem entriesUnder_flat : ∀ (ss : List (Bytes × Nat × Nat)) (t : Table Entry),
    entriesUnder [] t (ss.map fun s => Node.file s.1 s.2.1 s.2.2)
      = (ss.map fun s => (s.1, Entry.mk Node.fileKind s.2.1 s.2.2)).foldl (fun t e => t.insert e.1 e.2) t
  | [], _ => rfl
  | s :: ss, t => by
    rw [List.map_cons, List.map_cons, entriesUnder, entriesUnder_flat ss, List.foldl_cons]
    rfl

theorem map_fst_spans {data : Bytes} {files : Table Bytes} {spans : List (Bytes × Nat × Nat)}
    (h : List.Forall₂ (Holds data) files spans) : spans.map (·.1) = files.map (·.1) := by
  induction h with
  | nil => rfl
  | cons hf _ ih => rw [List.map_cons, List.map_cons, ih, hf.path]

/-- The places of the files are in the order of their paths. -/
theorem ordered_spans {files : Table Bytes} (h : Table.Ordered files) :
    (spans 0 files).Pairwise fun a b => Table.before a.1 b.1 = true := by
  have hnames : (files.map (·.1)).Pairwise fun a b => Table.before a b = true := List.pairwise_map.2 h
  rw [← map_fst_spans (spans_zero_hold files)] at hnames
  exact List.pairwise_map.1 hnames

theorem entries_flat {files : Table Bytes} (h : Table.Ordered files) :
    (ofFiles true files).entries = flatEntries files := by
  rw [entries, ofFiles, indexOf_flat, entriesUnder_flat]
  exact Table.ofEntries_eq (.refl _) (List.pairwise_map.2 (ordered_spans h))

/-- **The files of a flat volume are those it was packed from.** -/
theorem files_flat {files : Table Bytes} (h : Table.Ordered files) : (ofFiles true files).files = files := by
  have hslices : ∀ {fs : Table Bytes} {ss}, List.Forall₂ (Holds (contents files)) fs ss →
      (ss.map fun s => (s.1, ((contents files).take s.2.2).drop s.2.1)) = fs := by
    intro fs ss hss
    induction hss with
    | nil => rfl
    | cons hf _ ih => rw [List.map_cons, ih, hf.path, hf.slice]
  rw [Volume.files, entries_flat h, flatEntries, List.filterMap_map]
  refine Eq.trans ?_ (hslices (spans_zero_hold files))
  rw [← List.filterMap_eq_map]
  rfl

end Volume

end Bindery
