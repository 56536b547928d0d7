/-
A container built by any sequence of calls. `Builder.Call` is one call on a builder; what
one call changes is said once for the atoms, the files, the commands and the bindings, and
by induction (`last_foldl`) a sequence leaves the last atom and command of each name, the last
contents of each path, and all bindings in order (`find?_atoms_run`, `find?_commands_run`,
`fileAt_run`, `bindings_foldl`). The container that is built from it is then read off
`Builder.build_eq` (`build_round_trip`).
-/
import Bindery.Proofs.Container.RoundTrip

namespace Bindery

open Cbor
open Utf8 (valid)

namespace Builder

/-- A call on a builder. -/
inductive Call where
  | description (text : Bytes)
  | atom (name wasm : Bytes)
  | file (volume path data : Bytes)
  | command (name atom : Bytes)
  | wai (name version : Bytes) (bindings : WaiBindings)
  | wit (name version : Bytes) (bindings : WitBindings)
  | flat (on : Bool)
  | checksum (on : Bool)

namespace Call

def apply (b : Builder) : Call → Builder
  | .description t => b.setDescription t
  | .atom n wasm => b.addAtom n wasm
  | .file v p d => b.addFile v p d
  | .command n a => b.addCommand n a
  | .wai n v w => b.addWai n v w
  | .wit n v w => b.addWit n v w
  | .flat on => { b with flat := on }
  | .checksum on => { b with checksum := on }

/-- The names, paths and references of a call are in UTF-8. -/
def Readable : Call → Prop
  | .description t => valid t = true
  | .atom n _ => valid n = true
  | .file v p _ => valid v = true ∧ valid p = true
  | .command n a => valid n = true ∧ valid a = true
  | .wai n v w => valid n = true ∧ valid v = true ∧ w.Readable
  | .wit n v w => valid n = true ∧ valid v = true ∧ w.Readable
  | .flat _ | .checksum _ => True

instance : DecidablePred Readable
  | .description t => inferInstanceAs (Decidable (valid t = true))
  | .atom n _ => inferInstanceAs (Decidable (valid n = true))
  | .file v p _ => inferInstanceAs (Decidable (valid v = true ∧ valid p = true))
  | .command n a => inferInstanceAs (Decidable (valid n = true ∧ valid a = true))
  | .wai n v w => inferInstanceAs (Decidable (valid n = true ∧ valid v = true ∧ w.Readable))
  | .wit n v w => inferInstanceAs (Decidable (valid n = true ∧ valid v = true ∧ w.Readable))
  | .flat _ | .checksum _ => .isTrue trivial

/-- What a call puts under the name of an atom. -/
def atom? (n : Bytes) : Call → Option Bytes
  | .atom n' wasm => if n' = n then some wasm else none
  | _ => none

/-- What a call puts at a path of a volume. -/
def file? (v p : Bytes) : Call → Option Bytes
  | .file v' p' d => if v' = v ∧ p' = p then some d else none
  | _ => none

/-- The atom that a call puts behind the name of a command. -/
def command? (n : Bytes) : Call → Option Bytes
  | .command n' a => if n' = n then some a else none
  | _ => none

/-- The description that a call gives. -/
def description? : Call → Option Bytes
  | .description t => some t
  | _ => none

/-- The layout that a call chooses. -/
def flat? : Call → Option Bool
  | .flat on => some on
  | _ => none

/-- Whether a call asks for a checksum. -/
def checksum? : Call → Option Bool
  | .checksum on => some on
  | _ => none

/-- The binding that a call adds. -/
def binding? : Call → Option Binding
  | .wai n v w => some { name := n, kind := utf8 "wai@" ++ v, wai := some w }
  | .wit n v w => some { name := n, kind := utf8 "wit@" ++ v, wit := some w }
  | _ => none

end Call

/-- The builder after some calls. -/
def run (name version : Bytes) (calls : List Call) : Builder := calls.foldl Call.apply (new name version)

/-- The octets of the last atom of a name. -/
def lastAtom (n : Bytes) (calls : List Call) : Option Bytes := calls.reverse.findSome? (Call.atom? n)

/-- The last contents of a path of a volume. -/
def lastFile (v p : Bytes) (calls : List Call) : Option Bytes := calls.reverse.findSome? (Call.file? v p)

/-- The atom behind the last command of a name. -/
def lastCommand (n : Bytes) (calls : List Call) : Option Bytes := calls.reverse.findSome? (Call.command? n)

/-- The last description, empty when there is none. -/
def lastDescription (calls : List Call) : Bytes := (calls.reverse.findSome? Call.description?).getD []

/-! ## What calls keep -/

theorem sound_new {name version : Bytes} (hname : valid name = true) (hversion : valid version = true) :
    (new name version).Sound where
  note := ⟨hname, hversion, Utf8.valid_of_ascii rfl⟩
  atomsOrdered := .nil
  atoms := List.forall_mem_nil _
  volumesOrdered := .nil
  files := List.forall_mem_nil _
  commandsOrdered := .nil
  commands := List.forall_mem_nil _
  bindings := List.forall_mem_nil _

theorem Sound.addAtom {b : Builder} (h : b.Sound) {n : Bytes} (hn : valid n = true) (wasm : Bytes) :
    (b.addAtom n wasm).Sound where
  __ := h
  atomsOrdered := Table.ordered_insert n wasm h.atomsOrdered
  atoms e he := by
    rcases Table.mem_insert he with rfl | he
    · exact hn
    · exact h.atoms e he

theorem Sound.addFile {b : Builder} (h : b.Sound) (v : Bytes) {p : Bytes} (hp : valid p = true) (d : Bytes) :
    (b.addFile v p d).Sound where
  __ := h
  volumesOrdered := Table.ordered_insert v _ h.volumesOrdered
  files e he := by
    rcases Table.mem_insert he with rfl | he
    · have hold : Table.Ordered ((b.volumes.find? v).getD []) ∧
          ∀ f ∈ (b.volumes.find? v).getD [], valid f.1 = true := by
        cases hv : b.volumes.find? v with
        | none => exact ⟨.nil, List.forall_mem_nil _⟩
        | some files => exact h.files _ (Table.mem_of_find? hv)
      refine ⟨Table.ordered_insert p d hold.1, fun f hf => ?_⟩
      rcases Table.mem_insert hf with rfl | hf
      · exact hp
      · exact hold.2 f hf
    · exact h.files e he

theorem valid_wasiRunner : valid wasiRunner = true := Utf8.valid_of_ascii (by decide)

theorem valid_runKey : valid RunNote.key = true := Utf8.valid_of_ascii (by decide)

theorem Sound.addCommand {b : Builder} (h : b.Sound) {n : Bytes} (hn : valid n = true) (a : Bytes) :
    (b.addCommand n a).Sound where
  __ := h
  commandsOrdered := Table.ordered_insert n _ h.commandsOrdered
  commands e he := by
    rcases Table.mem_insert he with rfl | he
    · refine ⟨hn, ⟨valid_wasiRunner, List.pairwise_singleton _ _, ?_⟩, ?_⟩
      · simpa using ⟨valid_runKey, rfl⟩
      · simpa using RunNote.canonical_toItem _
    · exact h.commands e he

theorem Sound.addBinding {b : Builder} (h : b.Sound) {x : Binding} (hx : x.Readable) :
    { b with bindings := b.bindings ++ [x] }.Sound where
  __ := h
  bindings := List.forall_mem_append.2 ⟨h.bindings, by simpa using hx⟩

/-- A call keeps a builder in a good state. -/
theorem Sound.apply {b : Builder} (h : b.Sound) : ∀ {c : Call}, c.Readable → (c.apply b).Sound
  | .description t, ht => { h with note := ⟨h.note.name, h.note.version, ht⟩ }
  | .atom _ wasm, hn => h.addAtom hn wasm
  | .file v _ d, hp => h.addFile v hp.2 d
  | .command _ a, hn => h.addCommand hn.1 a
  | .wai _ _ _, hw => h.addBinding
    ⟨hw.1, Utf8.valid_append (Utf8.valid_of_ascii (by decide)) hw.2.1, by simpa using hw.2.2, by simp⟩
  | .wit _ _ _, hw => h.addBinding
    ⟨hw.1, Utf8.valid_append (Utf8.valid_of_ascii (by decide)) hw.2.1, by simp, by simpa using hw.2.2⟩
  | .flat _, _ | .checksum _, _ => { h with }

theorem Sound.foldl {calls : List Call} : ∀ {b : Builder}, b.Sound → (∀ c ∈ calls, c.Readable) →
    (calls.foldl Call.apply b).Sound := by
  induction calls with
  | nil => exact fun h _ => h
  | cons c calls ih =>
    intro b h hcalls
    obtain ⟨hc, hcalls⟩ := List.forall_mem_cons.1 hcalls
    exact ih (h.apply hc) hcalls

theorem sound_run {name version : Bytes} {calls : List Call} (hname : valid name = true)
    (hversion : valid version = true) (hcalls : ∀ c ∈ calls, c.Readable) : (run name version calls).Sound :=
  (sound_new hname hversion).foldl hcalls

/-! ## What calls leave -/

section Last

variable {α : Type}

/-- What later calls say counts before what the first one says. -/
theorem last_cons (f : Call → Option α) (c : Call) (calls : List Call) :
    (c :: calls).reverse.findSome? f = (calls.reverse.findSome? f).or (f c) := by
  rw [List.reverse_cons, List.findSome?_append, List.findSome?_singleton]

/-- What each call either gives or leaves is what the last call gives. -/
theorem last_foldl (part : Builder → Option α) {f : Call → Option α}
    (hstep : ∀ (b : Builder) (c : Call), part (c.apply b) = (f c).or (part b)) :
    ∀ (calls : List Call) (b : Builder),
      part (calls.foldl Call.apply b) = (calls.reverse.findSome? f).or (part b)
  | [], _ => rfl
  | c :: calls, b => by rw [List.foldl_cons, last_foldl part hstep calls, last_cons, hstep, Option.or_assoc]

/-- What each call either sets or leaves is what the last call sets. -/
theorem part_foldl (part : Builder → α) {f : Call → Option α}
    (hstep : ∀ (b : Builder) (c : Call), part (c.apply b) = (f c).getD (part b)) (calls : List Call) (b : Builder) :
    part (calls.foldl Call.apply b) = (calls.reverse.findSome? f).getD (part b) := by
  have hlast := last_foldl (fun b => some (part b)) (f := f) (fun b c => by rw [hstep, Option.or_some]) calls b
  rw [Option.or_some] at hlast
  exact Option.some.inj hlast

end Last

/-- A call changes the atoms at most under one name. -/
theorem find?_atoms_apply (n : Bytes) (b : Builder) : ∀ c : Call,
    Table.find? n (c.apply b).atoms = (c.atom? n).or (Table.find? n b.atoms)
  | .atom n' wasm => Table.find?_insert n n' wasm b.atoms
  | .description _ | .file _ _ _ | .command _ _ | .wai _ _ _ | .wit _ _ _ | .flat _ | .checksum _ => rfl

/-- The contents of a path of a volume, as they stand. -/
def fileAt (b : Builder) (v p : Bytes) : Option Bytes := (b.volumes.find? v).bind (Table.find? p)

/-- A call changes the files at most at one path. -/
theorem fileAt_apply (v p : Bytes) (b : Builder) : ∀ c : Call,
    (c.apply b).fileAt v p = (c.file? v p).or (b.fileAt v p)
  | .file v' p' d => by
    rw [Call.apply, Builder.addFile, Call.file?, fileAt, fileAt]
    by_cases hv : v' = v
    · subst hv
      rw [Table.find?_insert_self, Option.bind_some]
      by_cases hp : p' = p
      · simp [hp]
      · rw [Table.find?_insert_other (Ne.symm hp), if_neg (by simp [hp]), Option.none_or]
        cases b.volumes.find? v' <;> rfl
    · rw [Table.find?_insert_other (Ne.symm hv), if_neg (by simp [hv]), Option.none_or]
  | .description _ | .atom _ _ | .command _ _ | .wai _ _ _ | .wit _ _ _ | .flat _ | .checksum _ =>
    Option.none_or.symm

/-- A call adds at most the volume of its file. -/
theorem isSome_volume_apply (v : Bytes) (b : Builder) : ∀ c : Call,
    ((c.apply b).volumes.find? v).isSome ↔ (∃ p d, c = .file v p d) ∨ (b.volumes.find? v).isSome
  | .file v' p' d => by
    rw [Call.apply, Builder.addFile]
    by_cases hv : v' = v
    · subst hv
      simp
    · rw [Table.find?_insert_other (Ne.symm hv)]
      simp [hv]
  | .description _ | .atom _ _ | .command _ _ | .wai _ _ _ | .wit _ _ _ | .flat _ | .checksum _ => by
    simp [Call.apply, setDescription, Builder.addAtom, Builder.addCommand, addWai, addWit]

theorem isSome_volume_foldl (v : Bytes) : ∀ (calls : List Call) (b : Builder),
    ((calls.foldl Call.apply b).volumes.find? v).isSome
      ↔ (∃ p d, .file v p d ∈ calls) ∨ (b.volumes.find? v).isSome
  | [], b => by simp
  | c :: calls, b => by
    rw [List.foldl_cons, isSome_volume_foldl v calls, isSome_volume_apply]
    simp only [List.mem_cons, exists_or, eq_comm, or_assoc]
    exact or_left_comm

theorem find?_atoms_run (name version : Bytes) (calls : List Call) (n : Bytes) :
    Table.find? n (run name version calls).atoms = lastAtom n calls :=
  (last_foldl (fun b => Table.find? n b.atoms) (find?_atoms_apply n) calls _).trans Option.or_none

theorem fileAt_run (name version : Bytes) (calls : List Call) (v p : Bytes) :
    (run name version calls).fileAt v p = lastFile v p calls :=
  (last_foldl (fun b => b.fileAt v p) (fileAt_apply v p) calls _).trans Option.or_none

theorem mem_of_lastFile {v p d : Bytes} {calls : List Call} (h : lastFile v p calls = some d) :
    .file v p d ∈ calls := by
  obtain ⟨c, hc, hfile⟩ := List.exists_of_findSome?_eq_some h
  cases c with
  | file v' p' d' =>
    rw [Call.file?] at hfile
    split at hfile
    · rename_i heq
      obtain ⟨rfl, rfl⟩ := heq
      obtain rfl := Option.some.inj hfile
      exact List.mem_reverse.1 hc
    · simp at hfile
  | _ => simp [Call.file?] at hfile

theorem note_apply (b : Builder) : ∀ c : Call,
    (c.apply b).note.name = b.note.name ∧ (c.apply b).note.version = b.note.version
  | .description _ | .atom _ _ | .file _ _ _ | .command _ _ | .wai _ _ _ | .wit _ _ _ | .flat _ | .checksum _ =>
    ⟨rfl, rfl⟩

theorem note_foldl : ∀ (calls : List Call) (b : Builder),
    (calls.foldl Call.apply b).note.name = b.note.name ∧ (calls.foldl Call.apply b).note.version = b.note.version
  | [], _ => ⟨rfl, rfl⟩
  | c :: calls, b => by
    rw [List.foldl_cons, (note_foldl calls _).1, (note_foldl calls _).2]
    exact note_apply b c

/-- The command that an atom of a package implements. -/
def commandSpec (package atom : Bytes) : CommandSpec :=
  { runner := wasiRunner, annotations := [(RunNote.key, RunNote.toItem { atom, package })] }

/-- A call changes the commands at most under one name. -/
theorem find?_commands_apply (n : Bytes) (b : Builder) : ∀ c : Call,
    Table.find? n (c.apply b).commands
      = ((c.command? n).map (commandSpec b.note.name)).or (Table.find? n b.commands)
  | .command n' a => by
    rw [Call.command?, apply_ite (Option.map _)]
    exact Table.find?_insert n n' _ b.commands
  | .description _ | .atom _ _ | .file _ _ _ | .wai _ _ _ | .wit _ _ _ | .flat _ | .checksum _ => rfl

theorem find?_commands_foldl (n : Bytes) : ∀ (calls : List Call) (b : Builder),
    Table.find? n (calls.foldl Call.apply b).commands
      = ((lastCommand n calls).map (commandSpec b.note.name)).or (Table.find? n b.commands)
  | [], b => rfl
  | c :: calls, b => by
    rw [List.foldl_cons, find?_commands_foldl n calls, find?_commands_apply, (note_apply b c).1, lastCommand,
      lastCommand, last_cons, ← Option.or_assoc, Option.map_or]

theorem find?_commands_run (name version : Bytes) (calls : List Call) (n : Bytes) :
    Table.find? n (run name version calls).commands = (lastCommand n calls).map (commandSpec name) := by
  rw [run, find?_commands_foldl]
  exact Option.or_none

theorem description_apply (b : Builder) (c : Call) :
    (c.apply b).note.description = c.description?.getD b.note.description := by
  cases c <;> rfl

theorem flat_apply (b : Builder) (c : Call) : (c.apply b).flat = c.flat?.getD b.flat := by
  cases c <;> rfl

theorem checksum_apply (b : Builder) (c : Call) : (c.apply b).checksum = c.checksum?.getD b.checksum := by
  cases c <;> rfl

/-- A call adds at most one binding. -/
theorem bindings_apply (b : Builder) : ∀ c : Call, (c.apply b).bindings = b.bindings ++ c.binding?.toList
  | .wai _ _ _ | .wit _ _ _ => rfl
  | .description _ | .atom _ _ | .file _ _ _ | .command _ _ | .flat _ | .checksum _ => (List.append_nil _).symm

/-- The bindings are those that the calls add, in their order. -/
theorem bindings_foldl : ∀ (calls : List Call) (b : Builder),
    (calls.foldl Call.apply b).bindings = b.bindings ++ calls.filterMap Call.binding?
  | [], _ => (List.append_nil _).symm
  | c :: calls, b => by
    rw [List.foldl_cons, bindings_foldl calls, bindings_apply, List.append_assoc, List.filterMap_cons]
    cases c.binding? <;> rfl

theorem note_run (name version : Bytes) (calls : List Call) :
    (run name version calls).note = { name, version, description := lastDescription calls } := by
  obtain ⟨hname, hversion⟩ := note_foldl calls (new name version)
  have hdescription := part_foldl (·.note.description) description_apply calls (new name version)
  rw [run]
  generalize (calls.foldl Call.apply (new name version)).note = note at hname hversion hdescription ⊢
  obtain rfl : note.name = name := hname
  obtain rfl : note.version = version := hversion
  have hlast : lastDescription calls = note.description := hdescription.symm
  rw [hlast]

/-! ## The container -/

/-- The atoms of a container are those of its builder. -/
theorem atom_container (b : Builder) (n : Bytes) : b.container.atom b.container.id n
    = match Table.find? n b.atoms with
      | some wasm => .ok wasm
      | none => .error (.notFound .load (utf8 "atom") n) := by
  have hfind : b.container.atoms.root.find? (fun node => node.name == n && node.kind == Node.fileKind)
      = ((Volume.spans 0 b.atoms).find? (·.1 == n)).map fun s => Node.file s.1 s.2.1 s.2.2 := by
    show (Volume.indexOf true b.atoms).find? _ = _
    rw [Volume.indexOf_flat, List.find?_map]
    congr 2
    funext s
    simp [Node.file]
  rw [Container.atom, Container.checkPackage, if_pos rfl, ok_bind, hfind,
    Volume.find?_spans (Volume.spans_zero_hold b.atoms)]
  cases (Volume.spans 0 b.atoms).find? (·.1 == n) <;> rfl

theorem find?_container_volumes (b : Builder) (v : Bytes) :
    b.container.volumes.find? v = (b.volumes.find? v).map (Volume.ofFiles b.flat) :=
  Table.find?_map_values (Volume.ofFiles b.flat) v b.volumes

/-- **A container holds what its builder was told last.** Within the limits of the reader,
and of lengths written in eight octets, any sequence of calls gives a container; it is
named by its builder, carries the builder's manifest, and has for every name the last
atom and for every volume the last contents of its paths, in the order of the paths. -/
theorem build_round_trip (name version : Bytes) (calls : List Call) (hname : valid name = true)
    (hversion : valid version = true) (hcalls : ∀ c ∈ calls, c.Readable)
    (hfits : (run name version calls).fits = true) (hlen : (run name version calls).encode.length < 2 ^ 64) :
    ∃ c, (run name version calls).build = .ok c ∧
      c.id = name ++ utf8 "@" ++ version ∧
      c.manifest = (run name version calls).manifest ∧
      (∀ n, c.atom c.id n = match lastAtom n calls with
        | some wasm => .ok wasm
        | none => .error (.notFound .load (utf8 "atom") n)) ∧
      (Table.Ordered c.atoms.files ∧ ∀ n, Table.find? n c.atoms.files = lastAtom n calls) ∧
      (∀ v, (c.volumes.find? v).isSome ↔ ∃ p d, .file v p d ∈ calls) ∧
      ∀ v volume, c.volumes.find? v = some volume → ∃ files : Table Bytes, Table.Ordered files ∧
        (∀ p, Table.find? p files = lastFile v p calls) ∧ volume.data = files.flatMap (·.2) := by
  have hsound := sound_run hname hversion hcalls
  have hatoms := find?_atoms_run name version calls
  refine ⟨_, build_eq hsound hfits hlen, ?_, rfl, fun n => ?_, ?_, fun v => ?_, fun v volume hv => ?_⟩
  · show (run name version calls).note.name ++ _ ++ (run name version calls).note.version = _
    rw [run, (note_foldl calls _).1, (note_foldl calls _).2]
    rfl
  · rw [atom_container, hatoms]
  · rw [container, Volume.files_flat hsound.atomsOrdered]
    exact ⟨hsound.atomsOrdered, hatoms⟩
  · rw [find?_container_volumes, Option.isSome_map, run, isSome_volume_foldl]
    simp [new, Table.find?]
  · rw [find?_container_volumes] at hv
    obtain ⟨files, hfiles, rfl⟩ := Option.map_eq_some_iff.1 hv
    refine ⟨files, (hsound.files _ (Table.mem_of_find? hfiles)).1, fun p => ?_, rfl⟩
    rw [← fileAt_run name version, fileAt, hfiles, Option.bind_some]

/-- Calls that add an atom twice, a command, and a file under the name of a directory. -/
def sampleCalls : List Call :=
  [.atom (utf8 "main") [1], .atom (utf8 "main") [0, 97], .command (utf8 "run") (utf8 "main"),
   .file (utf8 "metadata") (utf8 "a/b.wai") (utf8 "x"), .file (utf8 "metadata") (utf8 "a") (utf8 "yz")]

theorem build_round_trip_sample : ∃ c, (run (utf8 "demo") (utf8 "1.0.0") sampleCalls).build = .ok c ∧
    c.id = utf8 "demo@1.0.0" ∧ c.atom c.id (utf8 "main") = .ok [0, 97] := by
  have hcalls : ∀ c ∈ sampleCalls, c.Readable := by
    simp only [sampleCalls, List.forall_mem_cons, Call.Readable]
    exact ⟨Utf8.valid_of_ascii rfl, Utf8.valid_of_ascii rfl, ⟨Utf8.valid_of_ascii rfl, Utf8.valid_of_ascii rfl⟩,
      ⟨Utf8.valid_of_ascii rfl, Utf8.valid_of_ascii rfl⟩, ⟨Utf8.valid_of_ascii rfl, Utf8.valid_of_ascii rfl⟩,
      List.forall_mem_nil _⟩
  have hlen : (run (utf8 "demo") (utf8 "1.0.0") sampleCalls).encode.length < 2 ^ 64 := by
    rw [length_encode]
    decide +kernel
  obtain ⟨c, hbuild, hid, -, hatom, -⟩ := build_round_trip (utf8 "demo") (utf8 "1.0.0") sampleCalls
    (Utf8.valid_of_ascii rfl) (Utf8.valid_of_ascii rfl) hcalls (by decide +kernel) hlen
  exact ⟨c, hbuild, hid, hatom (utf8 "main")⟩

end Builder

end Bindery
