/-
Reading a container and asking it never slices out of range. `Checked` holds the same
computations with a slice that halts when its bounds are not in order or lie behind the
end; the slices that reading takes are within the octets (`Checked.parse_eq`), and those
that a look-up takes lie where a file of the index lies, which reading has checked
wherever the file stands (`slices_stay_in_range`).
-/
import Bindery.Proofs.Container.Grammar
import Bindery.Proofs.Container.Tree

namespace Bindery

/-! ## Computations with checked slices -/

namespace Checked

/-- Why a computation ends without a result. -/
inductive Halt where
  | outOfRange
  | refused
  deriving DecidableEq

/-- The octets from one place up to another, if there are such places. -/
def slice (s : Bytes) (start stop : Nat) : Except Halt Bytes :=
  if start ≤ stop ∧ stop ≤ s.length then .ok ((s.take stop).drop start) else .error .outOfRange

def upTo (s : Bytes) (n : Nat) : Except Halt Bytes := slice s 0 n

def behind (s : Bytes) (n : Nat) : Except Halt Bytes := slice s n s.length

/-- `Frame.decode`, checked. -/
def frame (s : Bytes) : Except Halt (Bytes × Bytes) := do
  if s.length < 8 then throw .refused
  let n := Endian.ofLittle (← upTo s 8)
  let rest ← behind s 8
  if rest.length < n then throw .refused
  return (← upTo rest n, ← behind rest n)

/-- `Container.body`, checked. -/
def body (k : Codec) (s : Bytes) : Except Halt Bytes := do
  if s.length < Container.headerSize then throw .refused
  if (← upTo s Container.magic.length) ≠ Container.magic then throw .refused
  let s ← behind s Container.magic.length
  if (← upTo s Container.version.length) ≠ Container.version then throw .refused
  let s ← behind s Container.version.length
  let tag ← upTo s Container.tagSize
  let sum ← upTo (← behind s Container.tagSize) Container.sumSize
  let rest ← behind s (Container.tagSize + Container.sumSize)
  if tag = Container.blake3Tag then
    if k.digest rest = sum then return rest else throw .refused
  else if tag = Container.noneTag then return rest
  else throw .refused

/-- `Volume.decode`, checked. -/
def volume (k : Codec) (raw : Bytes) : Except Halt Volume := do
  let (index, rest) ← frame raw
  let (data, rest) ← frame rest
  if !rest.isEmpty then throw .refused
  match Volume.readIndex index k with
  | none => throw .refused
  | some root => if (Volume.anyOutside? data.length root).isSome then throw .refused else return ⟨root, data⟩

/-- `Container.readVolumes`, checked. -/
def volumes (k : Codec) : Nat → Table Volume → Bytes → Except Halt (Table Volume)
  | _, vs, [] => .ok vs
  | 0, vs, _ => .ok vs
  | fuel + 1, vs, s => do
    let (name, s) ← frame s
    let (raw, s) ← frame s
    if vs.contains name then throw .refused
    volumes k fuel (vs.insert name (← volume k raw)) s

/-- `Container.parse`, checked. -/
def parse (k : Codec) (data : Bytes) : Except Halt Container := do
  let s ← body k data
  let (raw, s) ← frame s
  let some manifest := k.manifest? raw | throw .refused
  let (raw, s) ← frame s
  let atoms ← volume k raw
  let volumes ← volumes k s.length [] s
  let .ok id := Container.idOf manifest k | throw .refused
  return { id, manifest, atoms, volumes }

/-- `Volume.file`, checked. -/
def file (v : Volume) (p : Bytes) : Except Halt Bytes :=
  match Volume.walk v.root (Volume.segments p) with
  | .file n => slice v.data n.start n.stop
  | _ => .error .refused

/-- `Volume.listedFile`, checked. -/
def listedFile (v : Volume) (p : Bytes) : Except Halt Bytes :=
  match v.entries.find? p with
  | none => .error .refused
  | some e =>
    if e.kind = Node.fileKind ∧ e.start ≤ e.stop ∧ e.stop ≤ v.data.length then slice v.data e.start e.stop
    else .error .refused

/-- `Volume.files`, checked. -/
def files (v : Volume) : Except Halt (Table Bytes) :=
  (v.entries.filter fun e => e.2.kind = Node.fileKind).mapM fun e => do
    return (e.1, ← slice v.data e.2.start e.2.stop)

/-- `Container.atom`, checked. -/
def atom (c : Container) (package name : Bytes) : Except Halt Bytes :=
  if package = c.id then
    match c.atoms.root.find? fun n => n.name == name && n.kind == Node.fileKind with
    | some n => slice c.atoms.data n.start n.stop
    | none => .error .refused
  else .error .refused

/-! ## Reading -/

/-- The outcome without the report of a failure. -/
def outcome {α : Type} (x : Except Report α) : Except Halt α := x.mapError fun _ => .refused

@[simp] theorem outcome_ok {α : Type} (a : α) : outcome (.ok a) = .ok a := rfl

theorem outcome_bind {α β : Type} (x : Except Report α) (f : α → Except Report β) :
    outcome (x >>= f) = outcome x >>= fun a => outcome (f a) := by
  cases x <;> rfl

theorem upTo_eq {s : Bytes} {n : Nat} (h : n ≤ s.length) : upTo s n = .ok (s.take n) := by
  rw [upTo, slice, if_pos ⟨Nat.zero_le n, h⟩, List.drop_zero]

theorem behind_eq {s : Bytes} {n : Nat} (h : n ≤ s.length) : behind s n = .ok (s.drop n) := by
  rw [behind, slice, if_pos ⟨h, Nat.le_refl _⟩, List.take_length]

theorem frame_eq (what s : Bytes) : frame s = outcome (Frame.decode what s) := by
  rw [frame, Frame.decode]
  split
  · rfl
  · rename_i hlen
    rw [upTo_eq (by omega), behind_eq (by omega)]
    simp only [ok_bind]
    split
    · rfl
    · rename_i hrest
      rw [upTo_eq (by omega), behind_eq (by omega)]
      rfl

theorem body_eq (k : Codec) (s : Bytes) : body k s = outcome (Container.body s k) := by
  rw [body, Container.body]
  have hfixed : Container.magic.length = 5 ∧ Container.version.length = 3 := ⟨rfl, rfl⟩
  split
  · rfl
  · rename_i hlen
    simp only [Container.headerSize, Nat.not_lt] at hlen
    rw [upTo_eq (by omega), behind_eq (by omega)]
    simp only [ok_bind]
    split
    · rfl
    · have hmagic : (s.drop Container.magic.length).length = s.length - 5 := by simp [hfixed]
      rw [upTo_eq (by omega), behind_eq (by omega)]
      simp only [ok_bind]
      split
      · rfl
      · generalize hrest : (s.drop Container.magic.length).drop Container.version.length = rest
        have hversion : rest.length = s.length - 8 := by
          rw [← hrest, List.length_drop]
          omega
        have htag : Container.tagSize = 16 ∧ Container.sumSize = 32 := ⟨rfl, rfl⟩
        rw [upTo_eq (by omega), behind_eq (by omega), behind_eq (by omega)]
        simp only [ok_bind]
        rw [upTo_eq (by rw [List.length_drop]; omega)]
        simp only [ok_bind]
        split
        · split <;> rfl
        · split <;> rfl

theorem volume_eq (k : Codec) (name raw : Bytes) : volume k raw = outcome (Volume.decode name raw k) := by
  rw [volume, Volume.decode, frame_eq (utf8 "volume " ++ name ++ utf8 " index"), outcome_bind]
  refine bind_congr fun index => ?_
  obtain ⟨index, rest⟩ := index
  dsimp only
  rw [frame_eq (utf8 "volume " ++ name ++ utf8 " data"), outcome_bind]
  refine bind_congr fun data => ?_
  obtain ⟨data, rest⟩ := data
  dsimp only
  split
  · rfl
  · cases Volume.readIndex index k with
    | none => rfl
    | some root => cases hout : Volume.anyOutside? data.length root <;> simp only [hout] <;> rfl

theorem volumes_eq (k : Codec) : ∀ (fuel : Nat) (vs : Table Volume) (s : Bytes),
    volumes k fuel vs s = outcome (Container.readVolumes fuel vs s k)
  | 0, vs, [] | 0, vs, _ :: _ | _ + 1, vs, [] => rfl
  | fuel + 1, vs, b :: s => by
    rw [volumes, Container.readVolumes, Container.namedVolume, frame_eq (utf8 "volume name")]
    · simp only [bind_assoc, outcome_bind]
      refine bind_congr fun name => ?_
      obtain ⟨name, s⟩ := name
      dsimp only
      rw [frame_eq (utf8 "volume " ++ name)]
      refine bind_congr fun raw => ?_
      obtain ⟨raw, s⟩ := raw
      dsimp only [pure, Except.pure]
      rw [outcome_ok, ok_bind]
      split
      · rfl
      · rw [outcome_bind, volume_eq k name]
        exact bind_congr fun v => volumes_eq k fuel _ s
    · simp
    · simp

/-- **Reading takes no slice that is out of range.** -/
theorem parse_eq (k : Codec) (d : Bytes) : parse k d = outcome (Container.parse d k) := by
  rw [parse, Container.parse, body_eq, outcome_bind]
  refine bind_congr fun s => ?_
  rw [frame_eq (utf8 "manifest"), outcome_bind]
  refine bind_congr fun raw => ?_
  obtain ⟨raw, s⟩ := raw
  dsimp only
  rw [outcome_bind, Container.readManifest]
  cases k.manifest? raw with
  | none => rfl
  | some manifest =>
    dsimp only
    rw [outcome_ok, ok_bind, frame_eq (utf8 "atoms"), outcome_bind]
    refine bind_congr fun raw => ?_
    obtain ⟨raw, s⟩ := raw
    dsimp only
    rw [volume_eq k (utf8 "atoms"), outcome_bind]
    refine bind_congr fun atoms => ?_
    rw [volumes_eq, outcome_bind]
    refine bind_congr fun volumes => ?_
    rw [outcome_bind]
    cases Container.idOf manifest k <;> rfl

end Checked

/-! ## Looking up -/

namespace Volume

open Node

/-- The octets are the contents of a file of the index, wherever it stands, and lie in the
data of the volume. -/
def Stores (v : Volume) (b : Bytes) : Prop :=
  ∃ n : Node, n.Below v.root ∧ n.kind = fileKind ∧ n.start ≤ n.stop ∧ n.stop ≤ v.data.length ∧
    b = v.slice n.start n.stop

theorem file_eq_ok {v : Volume} {p b : Bytes} :
    v.file p = .ok b ↔ ∃ n, walk v.root (segments p) = .file n ∧ v.slice n.start n.stop = b := by
  rw [file]
  cases walk v.root (segments p) <;> simp

/-- A walk ends in a file of the index. -/
theorem below_of_walk {n : Node} : ∀ {path : List Bytes} {level : List Node}, walk level path = .file n →
    n.Below level ∧ n.kind = fileKind
  | [], level, h => by simp [walk] at h
  | seg :: path, level, h => by
    obtain ⟨m, hfind, ⟨-, rfl, hkind⟩ | ⟨-, h⟩⟩ := walk_cons_eq_file h
    · exact ⟨.here (List.mem_of_find?_eq_some hfind), hkind⟩
    · obtain ⟨hbelow, hkind⟩ := below_of_walk h
      exact ⟨.under (List.mem_of_find?_eq_some hfind) hbelow, hkind⟩

mutual

theorem below_of_mem_listOf {dir : Bytes} {e : Bytes × Entry} : ∀ {m : Node}, e ∈ listOf dir m →
    e.2 = m.entry ∨ ∃ n : Node, n.Below m.children ∧ e.2 = n.entry
  | ⟨name, kind, start, stop, children⟩, h => by
    rw [listOf, List.mem_cons] at h
    rcases h with rfl | h
    · exact .inl rfl
    · exact .inr (below_of_mem_listUnder h)

theorem below_of_mem_listUnder {dir : Bytes} {e : Bytes × Entry} : ∀ {ns : List Node}, e ∈ listUnder dir ns →
    ∃ n : Node, n.Below ns ∧ e.2 = n.entry
  | [], h => by simp [listUnder] at h
  | m :: ns, h => by
    rw [listUnder, List.mem_append] at h
    rcases h with h | h
    · rcases below_of_mem_listOf h with h | ⟨n, hn, h⟩
      · exact ⟨m, .here (by simp), h⟩
      · exact ⟨n, .under (by simp) hn, h⟩
    · obtain ⟨n, hn, h⟩ := below_of_mem_listUnder h
      exact ⟨n, below_cons.2 (.inr (.inr hn)), h⟩

end

/-- A listing holds nodes of the index only. -/
theorem below_of_mem_entries {v : Volume} {e : Bytes × Entry} (h : e ∈ v.entries) :
    ∃ n : Node, n.Below v.root ∧ e.2 = n.entry := by
  rw [entries, entriesUnder_eq] at h
  exact below_of_mem_listUnder ((Table.mem_foldl_insert h).resolve_right (by simp))

theorem InRange.slice_eq {v : Volume} (h : v.InRange) {n : Node} (hn : n.Below v.root) (hkind : n.kind = fileKind) :
    Checked.slice v.data n.start n.stop = .ok (v.slice n.start n.stop) := if_pos (h n hn hkind)

theorem InRange.stores {v : Volume} (h : v.InRange) {n : Node} (hn : n.Below v.root) (hkind : n.kind = fileKind) :
    v.Stores (v.slice n.start n.stop) := ⟨n, hn, hkind, (h n hn hkind).1, (h n hn hkind).2, rfl⟩

/-- The look-ups of a volume with checked slices give what they give without, and all that
they return is stored. -/
structure Guarded (v : Volume) : Prop where
  file : ∀ p, Checked.file v p = Checked.outcome (v.file p)
  listedFile : ∀ p, Checked.listedFile v p = (v.listedFile p).elim (.error .refused) .ok
  files : Checked.files v = .ok v.files
  entries : ∀ e ∈ v.entries, ∃ n : Node, n.Below v.root ∧ e.2 = n.entry
  returned : ∀ p b, v.file p = .ok b ∨ v.listedFile p = some b ∨ (p, b) ∈ v.files → v.Stores b

theorem checked_file {v : Volume} (h : v.InRange) (p : Bytes) : Checked.file v p = Checked.outcome (v.file p) := by
  rw [Checked.file, file]
  cases hwalk : walk v.root (segments p) with
  | file n =>
    obtain ⟨hn, hkind⟩ := below_of_walk hwalk
    exact h.slice_eq hn hkind
  | notFile | missing => rfl

theorem checked_listedFile (v : Volume) (p : Bytes) :
    Checked.listedFile v p = (v.listedFile p).elim (.error .refused) .ok := by
  rw [Checked.listedFile, listedFile]
  cases v.entries.find? p with
  | none => rfl
  | some e =>
    dsimp only
    split
    · rename_i he
      exact if_pos he.2
    · rfl

theorem checked_files {v : Volume} (h : v.InRange) : Checked.files v = .ok v.files := by
  have hlisted : ∀ {es : Table Entry}, (∀ e ∈ es, e ∈ v.entries) →
      List.Forall₂ (fun e f => (do return (e.1, ← Checked.slice v.data e.2.start e.2.stop)) = Except.ok f)
        (es.filter fun e => e.2.kind = fileKind)
        (es.filterMap fun e => if e.2.kind = fileKind then some (e.1, v.slice e.2.start e.2.stop) else none) := by
    intro es hes
    induction es with
    | nil => exact .nil
    | cons e es ih =>
      obtain ⟨he, hes⟩ := List.forall_mem_cons.1 hes
      by_cases hkind : e.2.kind = fileKind
      · obtain ⟨n, hn, hentry⟩ := below_of_mem_entries he
        have hslice := h.slice_eq hn ((congrArg Entry.kind hentry).symm.trans hkind)
        simp only [List.filter_cons, hkind, decide_true, if_true, List.filterMap_cons]
        refine .cons ?_ (ih hes)
        rw [hentry]
        show (Checked.slice v.data n.start n.stop >>= _) = _
        rw [hslice]
        rfl
      · simpa [List.filter_cons, List.filterMap_cons, hkind] using ih hes
  exact mapM_eq_ok.2 (hlisted fun e he => he)

theorem stores_of_returned {v : Volume} (h : v.InRange) {p b : Bytes}
    (hb : v.file p = .ok b ∨ v.listedFile p = some b ∨ (p, b) ∈ v.files) : v.Stores b := by
  -- a listed file is a file of the index
  have hentry : ∀ {p e}, (p, e) ∈ v.entries → e.kind = fileKind → v.Stores (v.slice e.start e.stop) := by
    intro p e he hkind
    obtain ⟨n, hn, hentry⟩ := below_of_mem_entries he
    obtain rfl : e = n.entry := hentry
    exact h.stores hn hkind
  rcases hb with hb | hb | hb
  · obtain ⟨n, hwalk, rfl⟩ := file_eq_ok.1 hb
    obtain ⟨hn, hkind⟩ := below_of_walk hwalk
    exact h.stores hn hkind
  · rw [listedFile] at hb
    cases hfind : v.entries.find? p with
    | none => simp [hfind] at hb
    | some e =>
      simp only [hfind] at hb
      split at hb
      · rename_i he
        obtain rfl := Option.some.inj hb
        exact hentry (Table.mem_of_find? hfind) he.1
      · simp at hb
  · obtain ⟨⟨p', e⟩, he, hfile⟩ := List.mem_filterMap.1 hb
    dsimp only at hfile
    split at hfile
    · rename_i hkind
      obtain ⟨-, rfl⟩ := Prod.mk.inj (Option.some.inj hfile)
      exact hentry he hkind
    · simp at hfile

theorem InRange.guarded {v : Volume} (h : v.InRange) : v.Guarded where
  file := checked_file h
  listedFile := checked_listedFile v
  files := checked_files h
  entries _ he := below_of_mem_entries he
  returned _ _ hb := stores_of_returned h hb

end Volume

namespace Container

/-- The volumes of a container, its atoms among them. -/
def Holds (c : Container) (v : Volume) : Prop := v = c.atoms ∨ ∃ n, c.volumes.find? n = some v

theorem Spells.inRange {k : Codec} {d : Bytes} {p : Parts} {c : Container} (h : Spells k d p c) {v : Volume}
    (hv : c.Holds v) : v.InRange := by
  rcases hv with rfl | ⟨n, hn⟩
  · exact h.atoms.inRange
  · obtain ⟨raw, -, hspelled⟩ := h.find?_volumes.1 hn
    exact hspelled.inRange

/-- What is found among the atoms is a file of that name at the root. -/
theorem node_of_find? {root : List Node} {n : Bytes} {node : Node}
    (h : root.find? (fun node => node.name == n && node.kind == Node.fileKind) = some node) :
    node ∈ root ∧ node.name = n ∧ node.kind = Node.fileKind := by
  have hboth := List.find?_some h
  simp only [Bool.and_eq_true, beq_iff_eq] at hboth
  exact ⟨List.mem_of_find?_eq_some h, hboth⟩

theorem node_of_atom {c : Container} {package n b : Bytes} (h : c.atom package n = .ok b) :
    ∃ node ∈ c.atoms.root, node.name = n ∧ node.kind = Node.fileKind ∧ c.atoms.slice node.start node.stop = b := by
  rw [atom, checkPackage] at h
  split at h
  · rw [ok_bind] at h
    cases hfind : c.atoms.root.find? fun node => node.name == n && node.kind == Node.fileKind with
    | none =>
      rw [hfind] at h
      cases h
    | some node =>
      rw [hfind] at h
      obtain ⟨hmem, hname, hkind⟩ := node_of_find? hfind
      exact ⟨node, hmem, hname, hkind, Except.ok.inj h⟩
  · cases h

theorem checked_atom {c : Container} (h : c.atoms.InRange) (package n : Bytes) :
    Checked.atom c package n = Checked.outcome (c.atom package n) := by
  rw [Checked.atom, atom, checkPackage]
  split
  · rw [ok_bind]
    cases hfind : c.atoms.root.find? fun node => node.name == n && node.kind == Node.fileKind with
    | none => rfl
    | some node =>
      obtain ⟨hmem, -, hkind⟩ := node_of_find? hfind
      exact h.slice_eq (.here hmem) hkind
  · rfl

/-- **No slice is out of range**, whatever the octets and whatever the codec reads from
them. Reading with checked slices comes to the same outcome as without. In a container
that was read, every file of every volume lies in the data of its volume, at whatever
depth and under whatever nodes it stands; the look-ups of files, listed files and atoms
with checked slices give what they give without, and return contents of files only. -/
theorem slices_stay_in_range (k : Codec) (d : Bytes) :
    Checked.parse k d = Checked.outcome (parse d k) ∧
    ∀ c, parse d k = .ok c →
      (∀ v, c.Holds v → v.InRange ∧ v.Guarded) ∧
      ∀ package n, Checked.atom c package n = Checked.outcome (c.atom package n) ∧
        ∀ b, c.atom package n = .ok b → c.atoms.Stores b := by
  refine ⟨Checked.parse_eq k d, fun c hc => ?_⟩
  obtain ⟨p, h⟩ := parse_eq_ok.1 hc
  have hatoms := h.inRange (.inl rfl)
  refine ⟨fun v hv => ?_, fun package n => ⟨checked_atom hatoms package n, fun b hb => ?_⟩⟩
  · have hrange := h.inRange hv
    exact ⟨hrange, hrange.guarded⟩
  · obtain ⟨node, hmem, -, hkind, rfl⟩ := node_of_atom hb
    exact hatoms.stores (.here hmem) hkind

/-- A container with a file below a node that is no directory. -/
def oddOctets : Bytes :=
  magic ++ version ++ noneTag ++ List.replicate sumSize 0 ++ Parts.body
    { manifest := [0xa0]
      atoms := Volume.encode {}
      volumes := [(utf8 "v", Volume.encode
        { root := [{ name := utf8 "a", kind := utf8 "link", children := [.file (utf8 "b") 1 3] }]
          data := [1, 2, 3] })] }

theorem slices_stay_in_range_odd : ∃ c v, parse oddOctets = .ok c ∧ c.volumes.find? (utf8 "v") = some v ∧
    v.listedFile (utf8 "a/b") = some [2, 3] ∧ v.Stores [2, 3] := by
  have hread : (match parse oddOctets with
      | .ok c => (c.volumes.find? (utf8 "v")).bind (·.listedFile (utf8 "a/b"))
      | .error _ => none) = some [2, 3] := by decide +kernel
  cases hc : parse oddOctets with
  | error r => simp [hc] at hread
  | ok c =>
    rw [hc] at hread
    obtain ⟨v, hv, hlisted⟩ := Option.bind_eq_some_iff.1 hread
    obtain ⟨-, hguarded⟩ := ((slices_stay_in_range .standard oddOctets).2 c hc).1 v (.inr ⟨_, hv⟩)
    exact ⟨c, v, rfl, hv, hlisted, hguarded.returned _ _ (.inr (.inl hlisted))⟩

end Container

end Bindery
