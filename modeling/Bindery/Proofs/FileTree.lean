/-
What a file tree holds and what saving it writes. The paths of a tree are the normal forms
of the names it was filled under (`FileTree.Filled`). Saving writes each file at the clean
path of the root with the file's path behind it, makes directories and leaves every other
file alone (`save_addsOnly`); so a tree whose paths never climb is saved strictly below the
root (`Filled.savesBelow`).
-/
import Bindery.FileTree.Save
import Bindery.Proofs.Outcome
import Bindery.Proofs.SlashPath
import Bindery.Proofs.Table

namespace Bindery

namespace FileTree

open SlashPath (isRooted parts clean resolve slash dot up IsName climb names)

/-! ## Paths -/

theorem mem_paths_insert {t : FileTree} {p data q : Bytes} :
    q ∈ (t.insert p data).paths ↔ q = normalize p ∨ q ∈ t.paths := Table.mem_keys_insert

theorem get?_insert_self (t : FileTree) (p data : Bytes) : (t.insert p data).get? p = some data :=
  Table.find?_insert_self _ _ _

theorem get?_insert_other {t : FileTree} {p q data : Bytes} (h : normalize q ≠ normalize p) :
    (t.insert p data).get? q = t.get? q := Table.find?_insert_other h _ _

/-- The paths of a tree that grows by some paths at every step. -/
theorem mem_paths_foldl {ι : Type} {add : FileTree → ι → FileTree} {new : ι → List Bytes} {q : Bytes}
    (hadd : ∀ t i, q ∈ (add t i).paths ↔ q ∈ new i ∨ q ∈ t.paths) (is : List ι) (t : FileTree) :
    q ∈ (is.foldl add t).paths ↔ (∃ i ∈ is, q ∈ new i) ∨ q ∈ t.paths := by
  induction is generalizing t with
  | nil => simp
  | cons i is ih =>
    rw [List.foldl_cons, ih, hadd, List.exists_mem_cons_iff, or_assoc]
    exact or_left_comm

/-- The paths of a tree are the normal forms of the names it was filled under. -/
def Filled (t : FileTree) (ns : List Bytes) : Prop := ∀ q, q ∈ t.paths ↔ ∃ n ∈ ns, q = normalize n

theorem filled_empty : empty.Filled [] := by simp [Filled, empty, paths, Table.keys]

theorem Filled.insert {t : FileTree} {ns : List Bytes} (h : t.Filled ns) (p data : Bytes) :
    (t.insert p data).Filled (p :: ns) := by
  intro q
  rw [mem_paths_insert, h q, List.exists_mem_cons_iff]

/-- A tree put under a directory is filled under that directory. -/
theorem Filled.insertUnder {t sub : FileTree} {ns ms : List Bytes} (h : t.Filled ns) (hsub : sub.Filled ms)
    (dir : Bytes) : (t.insertUnder dir sub).Filled (ms.map (SlashPath.under [dir]) ++ ns) := by
  intro q
  have hadd : ∀ (t : FileTree) (f : Bytes × Bytes), q ∈ (t.insert (SlashPath.join [dir, f.1]) f.2).paths ↔
      q ∈ [normalize (SlashPath.join [dir, f.1])] ∨ q ∈ t.paths := by
    intro t f
    rw [mem_paths_insert, List.mem_singleton]
  have hfiles : (∃ f ∈ sub.files, q ∈ [normalize (SlashPath.join [dir, f.1])]) ↔
      ∃ m ∈ ms, q = normalize (SlashPath.under [dir] m) := by
    constructor
    · rintro ⟨f, hf, hq⟩
      obtain ⟨m, hm, hfm⟩ := (hsub f.1).1 (List.mem_map_of_mem hf)
      rw [hfm] at hq
      exact ⟨m, hm, List.mem_singleton.1 hq⟩
    · rintro ⟨m, hm, rfl⟩
      obtain ⟨f, hf, hfm⟩ := List.mem_map.1 ((hsub (normalize m)).2 ⟨m, hm, rfl⟩)
      refine ⟨f, hf, List.mem_singleton.2 ?_⟩
      rw [hfm]
      rfl
  rw [FileTree.insertUnder, mem_paths_foldl hadd, hfiles, h q]
  simp [List.mem_append, or_and_right, exists_or]

theorem Filled.insertUnderUnless {t sub : FileTree} {ns ms : List Bytes} (h : t.Filled ns) (hsub : sub.Filled ms)
    (skip : Bool) (dir : Bytes) : (if skip then t else t.insertUnder dir sub).Filled
      ((if skip then [] else ms.map (SlashPath.under [dir])) ++ ns) := by
  cases skip with
  | true => exact h
  | false => exact h.insertUnder hsub dir

theorem Filled.congr {t : FileTree} {ns ms : List Bytes} (h : t.Filled ns) (hsame : ∀ n, n ∈ ns ↔ n ∈ ms) :
    t.Filled ms := by
  intro q
  rw [h q]
  simp only [hsame]

theorem Filled.forall_paths {t : FileTree} {ns : List Bytes} (h : t.Filled ns) {P : Bytes → Prop} :
    (∀ q ∈ t.paths, P q) ↔ ∀ n ∈ ns, P (normalize n) := by
  constructor
  · intro hall n hn
    exact hall _ ((h _).2 ⟨n, hn, rfl⟩)
  · intro hall q hq
    obtain ⟨n, hn, rfl⟩ := (h q).1 hq
    exact hall n hn

/-- A tree that is filled step by step. -/
theorem Filled.foldl {ι : Type} {add : FileTree → ι → FileTree} (new : ι → List Bytes)
    (hadd : ∀ t ns i, Filled t ns → (add t i).Filled (new i ++ ns)) :
    ∀ (is : List ι) {t : FileTree} {ns : List Bytes}, t.Filled ns → (is.foldl add t).Filled (is.flatMap new ++ ns)
  | [], _, _, h => h
  | i :: is, t, ns, h => by
    refine (Filled.foldl new hadd is (hadd t ns i h)).congr fun n => ?_
    simp only [List.flatMap_cons, List.mem_append]
    rw [or_assoc]
    exact or_left_comm

/-! ## Files on a disk -/

/-- Every file of `after` was there before, or stands at a place in `S`. -/
def AddsOnly (S : Bytes → Prop) (before after : Disk) : Prop :=
  ∀ place data, after.entries.find? place = some (.file data) →
    before.entries.find? place = some (.file data) ∨ S place

namespace AddsOnly

variable {S S' : Bytes → Prop} {d d' d'' : Disk}

theorem refl : AddsOnly S d d := fun _ _ h => .inl h

theorem trans (h : AddsOnly S d d') (h' : AddsOnly S d' d'') : AddsOnly S d d'' := by
  intro place data hfile
  rcases h' place data hfile with hfile | hplace
  · exact h place data hfile
  · exact .inr hplace

theorem mono (h : AddsOnly S d d') (hS : ∀ place, S place → S' place) : AddsOnly S' d d' := by
  intro place data hfile
  exact (h place data hfile).imp_right (hS place)

end AddsOnly

theorem makeStep_addsOnly {S : Bytes → Prop} {s s' : Disk × Bytes} {segment : Bytes}
    (h : Disk.makeStep s segment = .ok s') : AddsOnly S s.1 s'.1 := by
  obtain ⟨place, -, h⟩ := bind_eq_ok.1 h
  split at h
  · cases h
    intro x data hfile
    by_cases hx : x = place
    · subst hx
      simp at hfile
    · rw [Table.find?_insert_other hx] at hfile
      exact .inl hfile
  · cases h
    exact .refl
  · cases h

/-- Making directories touches no file. -/
theorem makeDirectory_addsOnly {S : Bytes → Prop} {d d' : Disk} {p : Bytes} (h : d.makeDirectory p = .ok d') :
    AddsOnly S d d' := by
  obtain ⟨-, -, h⟩ := bind_eq_ok.1 h
  obtain ⟨s, hs, h⟩ := bind_eq_ok.1 h
  cases h
  exact foldlM_induct (fun s => AddsOnly S d s.1) (fun s _ s' hd hs => hd.trans (makeStep_addsOnly hs)) hs .refl

/-- A place reached by walking: its segments are those walked, and it is spelled clean. -/
structure Walked (rooted : Bool) (ps : List Bytes) (place : Bytes) : Prop where
  rooted : isRooted place = rooted
  parts : parts place = ps
  spelt : clean place = place

theorem step_walked {d : Disk} {rooted : Bool} {ps : List Bytes} {place place' seg : Bytes}
    (hwalk : Walked rooted ps place) (hseg : slash ∉ seg) (h : d.step place seg = .ok place') :
    Walked rooted (resolve rooted ps.reverse [seg]) place' := by
  have hjoin : place' = SlashPath.join [place, seg] := by
    unfold Disk.step at h
    split at h
    · cases h
    · cases h
    · split at h
      · cases h
      · exact (Except.ok.inj h).symm
  have hne : place ≠ [] := hwalk.spelt ▸ SlashPath.clean_ne_nil place
  have hunrooted : isRooted seg = false := by
    cases seg with
    | nil => rfl
    | cons b t => simpa [isRooted] using fun hb : b = slash => hseg (by simp [hb])
  obtain ⟨hparts, hrooted⟩ := SlashPath.parts_pair place hunrooted
  rw [hwalk.rooted, hwalk.parts, Bytes.split_of_not_mem hseg] at hparts
  subst hjoin
  exact ⟨hrooted.trans hwalk.rooted, hparts, SlashPath.clean_join hne seg⟩

theorem foldlM_step_walked {d : Disk} {rooted : Bool} : ∀ {segs ps : List Bytes} {place place' : Bytes},
    (∀ s ∈ segs, slash ∉ s) → Walked rooted ps place → segs.foldlM d.step place = .ok place' →
    Walked rooted (resolve rooted ps.reverse segs) place'
  | [], ps, place, place', _, hwalk, h => by
    cases h
    simpa [resolve] using hwalk
  | seg :: segs, ps, place, place', hsegs, hwalk, h => by
    obtain ⟨hseg, hrest⟩ := List.forall_mem_cons.1 hsegs
    rw [List.foldlM_cons] at h
    obtain ⟨place₁, hplace₁, h⟩ := bind_eq_ok.1 h
    have hwalk₁ := step_walked hwalk hseg hplace₁
    have hend := foldlM_step_walked hrest hwalk₁ h
    rwa [← SlashPath.resolve_append, List.singleton_append] at hend

/-- **A path leads to its clean form**, if it can be walked. -/
theorem place_eq {d : Disk} {p place : Bytes} (h : d.place p = .ok place) : place = clean p := by
  obtain ⟨-, -, h⟩ := bind_eq_ok.1 h
  have hstart : Walked (isRooted p) [] (Disk.start p) := by
    unfold Disk.start
    cases isRooted p
    · exact ⟨rfl, rfl, rfl⟩
    · exact ⟨rfl, rfl, rfl⟩
  obtain ⟨hrooted, hparts, hspelt⟩ :=
    foldlM_step_walked (fun s => Bytes.not_mem_of_mem_split) hstart h
  rw [← hspelt, SlashPath.clean_eq, hrooted, hparts, SlashPath.clean_eq p]
  rfl

/-- Writing a file touches no other file. -/
theorem write_addsOnly {d d' : Disk} {p data : Bytes} (h : d.write p data = .ok d') :
    AddsOnly (· = clean p) d d' := by
  obtain ⟨place, hplace, h⟩ := bind_eq_ok.1 h
  obtain rfl := place_eq hplace
  split at h
  · cases h
  · cases h
    intro x data' hfile
    by_cases hx : x = clean p
    · exact .inr hx
    · rw [Table.find?_insert_other hx] at hfile
      exact .inl hfile

/-! ## Saving -/

/-- The disk that an action leaves, whether it ended well or not. -/
def diskAfter (action : DiskAction Unit) (d : Disk) : Disk :=
  match action d with
  | .ok _ d' | .error _ d' => d'

theorem diskAfter_bind (x y : DiskAction Unit) (d : Disk) :
    diskAfter (do x; y) d = diskAfter x d ∨ diskAfter (do x; y) d = diskAfter y (diskAfter x d) := by
  simp only [diskAfter, bind, EStateM.bind]
  cases x d <;> simp

theorem attempt_eq (path action : Bytes) (change : Disk → Except Disk.Trouble Disk) (d : Disk) :
    attempt path action change d =
      match change d with
      | .ok d' => .ok () d'
      | .error _ => .error (.write path action (some .external)) d := by
  have hget : attempt path action change d = (match change d with
      | .ok d' => set d'
      | .error _ => throw (.write path action (some .external)) : DiskAction Unit) d := rfl
  rw [hget]
  cases change d <;> rfl

theorem attempt_addsOnly {S : Bytes → Prop} {path action : Bytes} {change : Disk → Except Disk.Trouble Disk} {d : Disk}
    (h : ∀ d', change d = .ok d' → AddsOnly S d d') : AddsOnly S d (diskAfter (attempt path action change) d) := by
  rw [diskAfter, attempt_eq]
  cases hchange : change d with
  | ok d' => exact h d' hchange
  | error e => exact .refl

theorem diskAfter_seq {S : Bytes → Prop} {x y : DiskAction Unit} {d : Disk} (hx : AddsOnly S d (diskAfter x d))
    (hy : ∀ d', AddsOnly S d' (diskAfter y d')) : AddsOnly S d (diskAfter (do x; y) d) := by
  rcases diskAfter_bind x y d with h | h
  · rwa [h]
  · rw [h]
    exact hx.trans (hy _)

theorem saveFile_addsOnly (root p data : Bytes) (d : Disk) :
    AddsOnly (· = clean (SlashPath.join [root, p])) d (diskAfter (saveFile root p data) d) :=
  diskAfter_seq (attempt_addsOnly fun _ => makeDirectory_addsOnly) fun _ =>
    attempt_addsOnly fun _ => write_addsOnly

/-- **Saving a tree** writes its files, each at its path behind the root, and no other file. -/
theorem save_addsOnly (t : FileTree) (root : Bytes) (d : Disk) :
    AddsOnly (fun place => ∃ p ∈ t.paths, place = clean (SlashPath.join [root, p])) d (diskAfter (t.save root) d) := by
  have hall : ∀ (fs : Table Bytes), (∀ f ∈ fs, f ∈ t.files) → ∀ d,
      AddsOnly (fun place => ∃ p ∈ t.paths, place = clean (SlashPath.join [root, p])) d
        (diskAfter (fs.forM fun f => saveFile root f.1 f.2) d) := by
    intro fs
    induction fs with
    | nil => exact fun _ d => .refl
    | cons f fs ih =>
      intro hfs d
      obtain ⟨hf, hrest⟩ := List.forall_mem_cons.1 hfs
      refine diskAfter_seq ?_ (ih hrest)
      refine (saveFile_addsOnly root f.1 f.2 d).mono fun place hplace => ?_
      exact ⟨f.1, List.mem_map_of_mem hf, hplace⟩
  exact hall t.files (fun f hf => hf) d

/-- A place strictly below a directory: it goes on from there by names. -/
def IsBelow (root place : Bytes) : Prop :=
  isRooted place = isRooted root ∧
    ∃ ns, ns ≠ [] ∧ (∀ s ∈ ns, IsName s) ∧ parts place = parts root ++ ns

/-- Saving the tree to any place writes files strictly below that place only. -/
def SavesBelow (t : FileTree) : Prop := ∀ root d, AddsOnly (IsBelow root) d (diskAfter (t.save root) d)

/-- **A tree whose paths never climb** is saved strictly below its root. -/
theorem Filled.savesBelow {t : FileTree} {ns : List Bytes} (hfilled : t.Filled ns)
    (h : ∀ p ∈ t.paths, p ≠ [] ∧ up ∉ p.split slash) : t.SavesBelow := by
  intro root d
  refine (save_addsOnly t root d).mono fun place hplace => ?_
  obtain ⟨p, hp, rfl⟩ := hplace
  obtain ⟨hne, hclimb⟩ := h p hp
  obtain ⟨y, -, rfl⟩ := (hfilled p).1 hp
  obtain ⟨hclimb, hnames⟩ := SlashPath.climb_of_normalize hne hclimb
  have hns : ∀ s ∈ names y, IsName s := fun s => SlashPath.isName_of_mem_names
  obtain ⟨hparts, hrooted⟩ := SlashPath.parts_clean (SlashPath.join [root, normalize y])
  refine ⟨?_, names y, hnames, hns, ?_⟩
  · rw [hrooted]
    exact (SlashPath.parts_pair root (SlashPath.isRooted_normalize y)).2
  · rw [hparts, SlashPath.parts_under, SlashPath.parts_split y, hclimb, List.replicate_zero, List.nil_append,
      SlashPath.resolve_names _ _ hns, List.reverse_reverse]

end FileTree

end Bindery
