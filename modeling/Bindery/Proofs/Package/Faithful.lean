/-
What was built is what is loaded. The calls on a builder describe a package: each binding
a library (`Describes`), each command an atom. A file that alone leads to its place is
read from the container that is built (`file_of_alone`), so every library and command
comes out as it was described, in order, under the builder's name, version and
description (`load_build_faithful`).
-/
import Bindery.Proofs.Container.Acceptance
import Bindery.Proofs.Container.Overlap
import Bindery.Proofs.Package.Layout

namespace Bindery

open Utf8 (valid valid_of_ascii)

/-! ## Names given twice -/

namespace Package

theorem firstRepeated_nil (seen : List Bytes) : firstRepeated seen [] = none := rfl

theorem firstRepeated_cons (seen : List Bytes) (n : Bytes) (names : List Bytes) :
    firstRepeated seen (n :: names) = if n ∈ seen then some n else firstRepeated (n :: seen) names := rfl

theorem firstRepeated_eq_none : ∀ {seen names : List Bytes},
    firstRepeated seen names = none ↔ names.Nodup ∧ ∀ n ∈ names, n ∉ seen
  | seen, [] => by simp [firstRepeated_nil]
  | seen, n :: names => by
    rw [firstRepeated_cons]
    split
    · rename_i hn
      simp [hn]
    · rename_i hn
      rw [firstRepeated_eq_none, List.nodup_cons, List.forall_mem_cons]
      simp only [List.mem_cons, not_or]
      constructor
      · rintro ⟨hnodup, hother⟩
        exact ⟨⟨fun hmem => (hother n hmem).1 rfl, hnodup⟩, hn, fun m hm => (hother m hm).2⟩
      · rintro ⟨⟨hmem, hnodup⟩, -, hseen⟩
        exact ⟨hnodup, fun m hm => ⟨fun heq => hmem (heq ▸ hm), hseen m hm⟩⟩

theorem firstRepeated_eq_some {n : Bytes} : ∀ {seen names : List Bytes}, firstRepeated seen names = some n →
    n ∈ names ∧ (n ∈ seen ∨ 2 ≤ names.count n)
  | seen, [], h => by simp [firstRepeated_nil] at h
  | seen, m :: names, h => by
    rw [firstRepeated_cons] at h
    split at h
    · rename_i hm
      obtain rfl := Option.some.inj h
      exact ⟨List.mem_cons_self, .inl hm⟩
    · obtain ⟨hmem, hrepeated⟩ := firstRepeated_eq_some h
      refine ⟨List.mem_cons_of_mem m hmem, ?_⟩
      rcases hrepeated with hseen | hcount
      · rcases List.mem_cons.1 hseen with rfl | hseen
        · have hone := List.one_le_count_iff.2 hmem
          rw [List.count_cons_self]
          exact .inr (Nat.succ_le_succ hone)
        · exact .inl hseen
      · exact .inr (hcount.trans (List.count_le_count_cons))

theorem checkUnique_of_nodup (what : String) {names : List Bytes} (h : names.Nodup) :
    checkUnique what names = .ok () := by
  rw [checkUnique, firstRepeated_eq_none.2 ⟨h, by simp⟩]

/-- The failure names a name that was given twice. -/
theorem checkUnique_of_not_nodup (what : String) {names : List Bytes} (h : ¬names.Nodup) :
    ∃ n, 2 ≤ names.count n ∧ checkUnique what names = .error (.duplicateName (utf8 what) n) := by
  cases hfirst : firstRepeated [] names with
  | none => exact absurd (firstRepeated_eq_none.1 hfirst).1 h
  | some n =>
    refine ⟨n, (firstRepeated_eq_some hfirst).2.resolve_left (by simp), ?_⟩
    rw [checkUnique, hfirst]

end Package

/-! ## References -/

theorem splitUri_append {v : Bytes} (hv : ¬utf8 "://" <:+: v) (p : Bytes) :
    splitUri (v ++ utf8 "://" ++ p) = some (v, p) := by
  have hsep : utf8 "://" = 58 :: utf8 "//" := by decide
  rw [hsep] at hv
  rw [splitUri, hsep]
  exact Bytes.cutOn_append (by decide) hv p

theorem Package.Load.context_ok {α : Type} (what : Bytes) (a : α) : context what (.ok a) = .ok a := rfl

theorem Package.Load.splitId_append (name : Bytes) {version : Bytes} (h : 64 ∉ version) :
    splitId (name ++ utf8 "@" ++ version) = some (name, version) := by
  have hat : utf8 "@" = [64] := by decide
  rw [splitId, hat, List.append_assoc, List.singleton_append, if_pos (by simp),
    Bytes.uptoLast_append_sep h, Bytes.afterLast_append_sep h, List.dropLast_concat]

namespace Builder

open Package

/-! ## What calls describe -/

/-- No other file leads to the place of this one. Files at the root never share a place; in
directories two files do whose paths differ in empty segments only. -/
def Alone (flat : Bool) (calls : List Call) (v p : Bytes) : Prop :=
  flat = true ∨ ∀ q, (lastFile v q calls).isSome → Volume.route q = Bytes.split 47 p → q = p

/-- A reference to an interface: it names a volume and, by a clean path, a file in it whose
text is read as the interface. -/
inductive Refers (read : InterfaceReader) (flat : Bool) (calls : List Call) : Bytes → Interface → Prop
  | mk {v p d : Bytes} {i : Interface} : ¬utf8 "://" <:+: v → CleanPath p → lastFile v p calls = some d →
    Alone flat calls v p → valid d = true → read p d = .ok i → Refers read flat calls (v ++ utf8 "://" ++ p) i

/-- The library that a binding describes. -/
structure Describes (read : InterfaceReader) (flat : Bool) (calls : List Call) (x : Binding) (l : Library) :
    Prop where
  exports : ∃ ref i, x.exports = .ok ref ∧ Refers read flat calls ref i ∧ l.exports = some i
  imports : List.Forall₂ (Refers read flat calls) x.imports l.imports
  module : ∃ atom wasm, x.module = .ok (utf8 "atoms://" ++ atom) ∧ lastAtom atom calls = some wasm ∧
    l.module = { name := Load.moduleStem atom, abi := Abi.detect wasm, wasm }

theorem alone_of_calls {calls : List Call} {v p : Bytes} (flat : Bool)
    (h : ∀ q d, .file v q d ∈ calls → Volume.route q = Bytes.split 47 p → q = p) : Alone flat calls v p := by
  refine .inr fun q hq hroute => ?_
  obtain ⟨d, hd⟩ := Option.isSome_iff_exists.1 hq
  exact h q d (mem_of_lastFile hd) hroute

theorem mem_of_lastCommand {n a : Bytes} {calls : List Call} (h : lastCommand n calls = some a) :
    .command n a ∈ calls := by
  obtain ⟨c, hc, hcommand⟩ := List.exists_of_findSome?_eq_some h
  cases c with
  | command n' a' =>
    obtain ⟨rfl, rfl⟩ : n' = n ∧ a' = a := by simpa [Call.command?] using hcommand
    exact List.mem_reverse.1 hc
  | _ => simp [Call.command?] at hcommand

/-! ## What is loaded -/

variable {b : Builder}

theorem metadata_container (h : b.Sound) {name : PackageName} (hname : PackageName.parse b.note.name = .ok name)
    (hversion : 64 ∉ b.note.version) : Load.metadata b.container
      = .ok { name, version := b.note.version, description := b.note.description } := by
  have hnote : b.manifest.annotation PackageNote.key = .ok (some b.note) := by
    have hfind : Table.find? PackageNote.key b.manifest.package = some b.note.toItem := by
      simp [Builder.manifest, Table.find?]
    simp only [Manifest.annotation, hfind, PackageNote.ofItem?_toItem h.note]
  have hid : Load.splitId b.container.id = some (b.note.name, b.note.version) :=
    Load.splitId_append b.note.name hversion
  rw [Load.metadata, hid]
  simp only [hname, Load.context, ok_bind]
  show (b.manifest.annotation PackageNote.key >>= _) = _
  rw [hnote]
  rfl

/-- A file that alone leads to its place is read from the container. -/
theorem file_of_alone (h : b.Sound) {v p d : Bytes} (hp : CleanPath p) (hfile : b.fileAt v p = some d)
    (halone : b.flat = true ∨ ∀ q, (b.fileAt v q).isSome → Volume.route q = Bytes.split 47 p → q = p) :
    Load.file b.container v p = .ok d := by
  rw [← toOption_eq_some, Load.toOption_file, find?_container_volumes]
  rw [fileAt] at hfile
  obtain ⟨files, hv, hfile⟩ := Option.bind_eq_some_iff.1 hfile
  have hordered := (h.files _ (Table.mem_of_find? hv)).1
  rw [hv, Option.map_some, Option.bind_some]
  cases hflat : b.flat with
  | true => rw [Volume.lookup_flat hordered hp, hfile]
  | false =>
    refine Volume.lookup_of_alone hordered hp hfile fun f hf hroute => ?_
    refine halone.resolve_left (by simp [hflat]) f.1 ?_ hroute
    rw [fileAt, hv, Option.bind_some, Table.find?_of_mem hordered hf]
    rfl

theorem command_container (h : b.Sound) {n a wasm : Bytes} (ha : a ≠ []) (hatom : Table.find? a b.atoms = some wasm) :
    Load.command b.container n (commandSpec b.note.name a) = .ok { name := n, wasm } := by
  have hnote : (commandSpec b.note.name a).runNote = .ok (some { atom := a, package := b.note.name }) := by
    have hreadable : RunNote.Readable { atom := a, package := b.note.name } :=
      ⟨h.atoms _ (Table.mem_of_find? hatom), h.note.name, valid_of_ascii rfl⟩
    simp only [commandSpec, CommandSpec.runNote, Table.find?, if_true, RunNote.ofItem?_toItem hreadable]
  rw [Load.command, hnote]
  simp only [Load.context, ok_bind, Load.atomOf]
  rw [if_neg (by simpa using ha), atom_container, hatom]
  rfl

section Run

variable {read : InterfaceReader} {name version : Bytes} {calls : List Call}

theorem interface_run (h : (run name version calls).Sound) {ref : Bytes} {i : Interface}
    (href : Refers read (run name version calls).flat calls ref i) :
    Load.interface read (run name version calls).container ref = .ok i := by
  obtain ⟨hv, hp, hfile, halone, hvalid, hread⟩ := href
  rw [← fileAt_run name version] at hfile
  simp only [Alone, ← fileAt_run name version] at halone
  rw [Load.interface, splitUri_append hv]
  simp only [file_of_alone h hp hfile halone, ok_bind, hvalid, hread, Load.context, Bool.not_true, Bool.false_eq_true,
    if_false]

theorem library_run (h : (run name version calls).Sound) {x : Binding} {l : Library}
    (hx : Describes read (run name version calls).flat calls x l) :
    Load.library read (run name version calls).container x = .ok l := by
  obtain ⟨ref, i, hexports, href, hi⟩ := hx.exports
  obtain ⟨atom, wasm, hmodule, hatom, hm⟩ := hx.module
  have himports : x.imports.mapM (fun ref =>
      Load.context (utf8 "unable to load the imported interface " ++ ref)
        (Load.interface read (run name version calls).container ref)) = .ok l.imports := by
    refine mapM_eq_ok.2 (hx.imports.imp fun ref i href => ?_)
    rw [interface_run h href]
    rfl
  rw [← find?_atoms_run name version] at hatom
  have hwasm : (run name version calls).container.atom (run name version calls).container.id atom = .ok wasm := by
    rw [atom_container, hatom]
  rw [Load.library, hexports, ok_bind, interface_run h href, Load.context_ok, ok_bind, himports, ok_bind, hmodule,
    ok_bind]
  dsimp only
  rw [Bytes.dropStart_append, hwasm, Load.context_ok, ok_bind, ← hm, ← hi]
  rfl

/-- The commands that are loaded: one for every name, with the octets of the last atom of
the name that was declared last. -/
theorem commands_run (h : (run name version calls).Sound)
    (hcommands : ∀ n a, lastCommand n calls = some a → a ≠ [] ∧ (lastAtom a calls).isSome) :
    ∃ cmds : List Command,
      ((run name version calls).commands.mapM fun e => Load.command (run name version calls).container e.1 e.2)
        = .ok cmds ∧
      (cmds.map (·.name)).Pairwise (fun m n => Table.before m n = true) ∧
      ∀ n wasm, { name := n, wasm } ∈ cmds ↔ ∃ a, lastCommand n calls = some a ∧ lastAtom a calls = some wasm := by
  have hfind := find?_commands_run name version calls
  have hname : (run name version calls).note.name = name := by rw [note_run]
  have hstep : ∀ e ∈ (run name version calls).commands, ∃ cmd,
      Load.command (run name version calls).container e.1 e.2 = .ok cmd ∧ cmd.name = e.1 ∧
        ∃ a, lastCommand e.1 calls = some a ∧ lastAtom a calls = some cmd.wasm := by
    rintro ⟨n, spec⟩ he
    have hspec := Table.find?_of_mem h.commandsOrdered he
    rw [hfind n] at hspec
    obtain ⟨a, ha, rfl⟩ := Option.map_eq_some_iff.1 hspec
    obtain ⟨hne, hsome⟩ := hcommands n a ha
    obtain ⟨wasm, hwasm⟩ := Option.isSome_iff_exists.1 hsome
    have hload := command_container (n := n) h hne (by rw [find?_atoms_run, hwasm])
    rw [hname] at hload
    exact ⟨{ name := n, wasm }, hload, rfl, a, ha, hwasm⟩
  obtain ⟨cmds, hcmds⟩ := exists_forall₂_iff.2 hstep
  refine ⟨cmds, mapM_eq_ok.2 (hcmds.imp fun _ _ hcmd => hcmd.1), ?_, fun n wasm => ⟨fun hmem => ?_, ?_⟩⟩
  · rw [← map_eq_map_of_forall₂ (f := (·.1)) hcmds fun _ _ hcmd => hcmd.2.1.symm]
    exact List.pairwise_map.2 h.commandsOrdered
  · obtain ⟨e, -, -, hn, hatom⟩ := exists_of_mem_forall₂ hcmds hmem
    obtain rfl : n = e.1 := hn
    exact hatom
  · rintro ⟨a, ha, hwasm⟩
    have hmem := Table.mem_of_find? ((hfind n).trans (by rw [ha]; rfl))
    obtain ⟨cmd, hcmd, -, hn, a', ha', hwasm'⟩ := exists_of_mem_forall₂ hcmds.flip hmem
    obtain rfl : cmd.name = n := hn
    obtain rfl : a' = a := Option.some.inj (ha'.symm.trans ha)
    obtain rfl : cmd.wasm = wasm := Option.some.inj (hwasm'.symm.trans hwasm)
    exact hcmd

end Run

/-- **What was built is what is loaded.** A builder whose texts are in UTF-8 and whose
manifest and indexes are within the limits of the reader describes a package when its
name is one, its version has no `@`, each of its bindings describes a library, and its
commands name atoms. When the exported interfaces have distinct names, the container is
built and loads to the package with the builder's name, version and description, these
libraries in the order of the bindings, and the commands that were declared, ascending
by name. When a name comes twice, loading fails on a name that does. -/
theorem load_build_faithful (read : InterfaceReader) (name version : Bytes) (calls : List Call)
    (hsound : (run name version calls).Sound) (hlimits : (run name version calls).WithinLimits)
    (packageName : PackageName) (hname : PackageName.parse name = .ok packageName) (hversion : 64 ∉ version)
    (libraries : List Library) (hlibraries : List.Forall₂ (Describes read (run name version calls).flat calls)
      (calls.filterMap Call.binding?) libraries)
    (hcommands : ∀ n a, lastCommand n calls = some a → a ≠ [] ∧ (lastAtom a calls).isSome) :
    ((libraries.map Library.interfaceName).Nodup → ∃ commands : List Command,
      ((run name version calls).build >>= load read)
        = .ok { metadata := { name := packageName, version, description := lastDescription calls }
                libraries, commands } ∧
      (commands.map (·.name)).Pairwise (fun m n => Table.before m n = true) ∧
      ∀ n wasm, { name := n, wasm } ∈ commands ↔ ∃ a, lastCommand n calls = some a ∧ lastAtom a calls = some wasm) ∧
    (¬(libraries.map Library.interfaceName).Nodup → ∃ n, 2 ≤ (libraries.map Library.interfaceName).count n ∧
      ((run name version calls).build >>= load read) = .error (.duplicateName (utf8 "library") n)) := by
  obtain ⟨commands, hload, hordered, hmem⟩ := commands_run hsound hcommands
  have hmetadata : Load.metadata (run name version calls).container
      = .ok { name := packageName, version, description := lastDescription calls } := by
    have hnote := note_run name version calls
    rw [metadata_container hsound (by rwa [hnote]) (by rwa [hnote]), hnote]
  have hbindings : (run name version calls).bindings = calls.filterMap Call.binding? :=
    bindings_foldl calls (new name version)
  have hlibs : ((run name version calls).bindings.mapM fun x =>
      Load.context (utf8 "load library from binding " ++ x.name.quote)
        (Load.library read (run name version calls).container x)) = .ok libraries := by
    rw [hbindings]
    refine mapM_eq_ok.2 (hlibraries.imp fun x l hx => ?_)
    rw [library_run hsound hx, Load.context_ok]
  have hbuild : ((run name version calls).build >>= load read)
      = Package.new { name := packageName, version, description := lastDescription calls } libraries commands := by
    rw [build_eq hsound hlimits.1 hlimits.2, ok_bind, load, hmetadata, ok_bind]
    show ((run name version calls).bindings.mapM _ >>= _) = _
    rw [hlibs, ok_bind]
    show ((run name version calls).commands.mapM _ >>= _) = _
    rw [hload, ok_bind]
  rw [hbuild, Package.new]
  refine ⟨fun hnodup => ⟨commands, ?_, hordered, hmem⟩, fun hdup => ?_⟩
  · have hnames : (commands.map (·.name)).Nodup := hordered.imp fun hlt heq => by simp [heq, Table.before_irrefl] at hlt
    rw [checkUnique_of_nodup _ hnodup, ok_bind, checkUnique_of_nodup _ hnames]
    rfl
  · obtain ⟨n, hcount, hcheck⟩ := checkUnique_of_not_nodup "library" hdup
    refine ⟨n, hcount, ?_⟩
    rw [hcheck]
    rfl

/-- A binding to the file at a path, which is both exported and imported. -/
def bindingTo (path : Bytes) : Call :=
  .wai (utf8 "library-bindings") (utf8 "0.2.0")
    { exports := utf8 "metadata://" ++ path, module := utf8 "atoms://m.wasm", imports := [utf8 "metadata://" ++ path] }

/-- The text of an interface with one function. -/
def functionText (name : String) : Bytes := utf8 name ++ utf8 ": func()\n"

/-- Calls that pack an interface and its module. -/
def packCalls (path : Bytes) : List Call :=
  [.file (utf8 "metadata") path (functionText "g"), .atom (utf8 "m.wasm") [0, 97], .checksum false, bindingTo path]

theorem readable_bindingTo {path : Bytes} (hpath : CleanPath path) : (bindingTo path).Readable := by
  have huri : valid (utf8 "metadata://" ++ path) = true := Utf8.valid_append (valid_of_ascii rfl) hpath.1
  exact ⟨valid_of_ascii rfl, valid_of_ascii rfl, huri, valid_of_ascii rfl, by simpa using huri⟩

theorem readable_packCalls {path : Bytes} (hpath : CleanPath path) : ∀ c ∈ packCalls path, c.Readable := by
  simp only [packCalls, List.forall_mem_cons]
  exact ⟨⟨valid_of_ascii rfl, hpath.1⟩, valid_of_ascii rfl, trivial, readable_bindingTo hpath, List.forall_mem_nil _⟩

/-- The library that such calls describe, whatever other calls follow that put nothing in the
place of the interface or of the module. -/
theorem describes_packCalls {path : Bytes} {i : Interface} {others : List Call} (hpath : CleanPath path)
    (hread : Interface.parse path (functionText "g") = .ok i)
    (hothers : ∀ c ∈ others, c.atom? (utf8 "m.wasm") = none ∧ c.file? (utf8 "metadata") path = none)
    (halone : ∀ q d, .file (utf8 "metadata") q d ∈ others → Volume.route q ≠ Bytes.split 47 path) :
    ∃ x, (bindingTo path).binding? = some x ∧ Describes Interface.parse false (packCalls path ++ others) x
      { module := { name := utf8 "m", abi := .none, wasm := [0, 97] }, exports := some i, imports := [i] } := by
  have hrefers : Refers Interface.parse false (packCalls path ++ others)
      (utf8 "metadata" ++ utf8 "://" ++ path) i := by
    have hvolume : ¬utf8 "://" <:+: utf8 "metadata" := fun h => absurd (h.subset (a := 58) (by decide)) (by decide)
    have htext : valid (functionText "g") = true := valid_of_ascii (by decide)
    refine .mk hvolume hpath ?_ (alone_of_calls false fun q d hmem hroute => ?_) htext hread
    · rw [lastFile, List.reverse_append, List.findSome?_append,
        List.findSome?_eq_none_iff.2 fun c hc => (hothers c (List.mem_reverse.1 hc)).2]
      simp [packCalls, bindingTo, List.findSome?_cons, Call.file?]
    · rcases List.mem_append.1 hmem with hmem | hmem
      · simp only [packCalls, bindingTo, List.mem_cons, Call.file.injEq, reduceCtorEq, List.not_mem_nil, or_false]
          at hmem
        exact hmem.2.1
      · exact absurd hroute (halone q d hmem)
  have huri : utf8 "metadata" ++ utf8 "://" = utf8 "metadata://" := by decide
  rw [huri] at hrefers
  have hmodule : utf8 "atoms://m.wasm" = utf8 "atoms://" ++ utf8 "m.wasm" := by decide
  have hstem : Load.moduleStem (utf8 "m.wasm") = utf8 "m" ∧ Abi.detect [0, 97] = .none := by decide +kernel
  refine ⟨_, rfl, ⟨⟨_, i, rfl, hrefers, rfl⟩, .cons hrefers .nil, utf8 "m.wasm", [0, 97], ?_, ?_, ?_⟩⟩
  · exact congrArg Except.ok hmodule
  · rw [lastAtom, List.reverse_append, List.findSome?_append,
      List.findSome?_eq_none_iff.2 fun c hc => (hothers c (List.mem_reverse.1 hc)).1]
    simp [packCalls, bindingTo, List.findSome?_cons, Call.atom?]
  · rw [hstem.1, hstem.2]

/-- Calls around an interface in a directory: a file in an odd place, a command, and the
binding once more or not. -/
def packedCalls (again : Bool) : List Call :=
  packCalls (utf8 "a/i.wai") ++
    ([.file (utf8 "metadata") (utf8 "/a//") [1], .atom (utf8 "main") [1], .command (utf8 "run") (utf8 "main")]
      ++ if again then [bindingTo (utf8 "a/i.wai")] else [])

theorem load_build_faithful_packed :
    (∃ p, ((run (utf8 "demo") (utf8 "1.0.0") (packedCalls false)).build >>= load Interface.parse) = .ok p ∧
      p.libraries.map Library.interfaceName = [utf8 "i"] ∧ { name := utf8 "run", wasm := [1] } ∈ p.commands) ∧
    ∃ n, ((run (utf8 "demo") (utf8 "1.0.0") (packedCalls true)).build >>= load Interface.parse)
      = .error (.duplicateName (utf8 "library") n) := by
  have hread : ((Interface.parse (utf8 "a/i.wai") (functionText "g")).toOption.map (·.name)) = some (utf8 "i") := by
    decide +kernel
  obtain ⟨i, hi, hname⟩ := Option.map_eq_some_iff.1 hread
  rw [toOption_eq_some] at hi
  have hpath : CleanPath (utf8 "a/i.wai") := ⟨valid_of_ascii rfl, by decide⟩
  have hreadable : ∀ again, ∀ c ∈ packedCalls again, c.Readable := by
    intro again
    refine List.forall_mem_append.2 ⟨readable_packCalls hpath, List.forall_mem_append.2 ⟨?_, ?_⟩⟩
    · simp only [List.forall_mem_cons]
      exact ⟨⟨valid_of_ascii rfl, valid_of_ascii rfl⟩, valid_of_ascii rfl, ⟨valid_of_ascii rfl, valid_of_ascii rfl⟩,
        List.forall_mem_nil _⟩
    · cases again with
      | false => exact List.forall_mem_nil _
      | true => simpa using readable_bindingTo hpath
  have hsound : ∀ again, (run (utf8 "demo") (utf8 "1.0.0") (packedCalls again)).Sound := fun again =>
    sound_run (valid_of_ascii rfl) (valid_of_ascii rfl) (hreadable again)
  have hlimits : ∀ again, (run (utf8 "demo") (utf8 "1.0.0") (packedCalls again)).WithinLimits := by
    unfold packedCalls packCalls bindingTo functionText
    rw [utf8_eq_toByteArray]
    decide +kernel
  have hdescribes : ∀ again, ∃ x, (bindingTo (utf8 "a/i.wai")).binding? = some x ∧
      Describes Interface.parse false (packedCalls again) x
        { module := { name := utf8 "m", abi := .none, wasm := [0, 97] }, exports := some i, imports := [i] } := by
    intro again
    refine describes_packCalls hpath hi ?_ fun q d hmem => ?_
    · cases again <;> decide
    · have hq : q = utf8 "/a//" := by
        cases again <;> simp [bindingTo] at hmem <;> exact hmem.1
      rw [hq]
      decide
  have hcommands : ∀ again n a, lastCommand n (packedCalls again) = some a →
      a ≠ [] ∧ (lastAtom a (packedCalls again)).isSome := by
    intro again n a h
    have hmem := mem_of_lastCommand h
    obtain rfl : a = utf8 "main" := by
      cases again <;> simp [packedCalls, packCalls, bindingTo] at hmem <;> exact hmem.2
    exact ⟨by decide, by cases again <;> decide⟩
  constructor
  · obtain ⟨x, hx, hdescribed⟩ := hdescribes false
    obtain rfl := Option.some.inj hx
    obtain ⟨hloaded, -⟩ := load_build_faithful Interface.parse (utf8 "demo") (utf8 "1.0.0") (packedCalls false)
      (hsound false) (hlimits false) { name := utf8 "demo" } rfl (by decide) _ (.cons hdescribed .nil)
      (hcommands false)
    obtain ⟨commands, hload, -, hmem⟩ := hloaded (by simp)
    refine ⟨_, hload, ?_, (hmem _ _).2 ⟨utf8 "main", by decide, by decide⟩⟩
    simp [Library.interfaceName, hname]
  · obtain ⟨x, hx, hdescribed⟩ := hdescribes true
    obtain rfl := Option.some.inj hx
    obtain ⟨-, hrefused⟩ := load_build_faithful Interface.parse (utf8 "demo") (utf8 "1.0.0") (packedCalls true)
      (hsound true) (hlimits true) { name := utf8 "demo" } rfl (by decide) _
      (.cons hdescribed (.cons hdescribed .nil)) (hcommands true)
    obtain ⟨n, -, hload⟩ := hrefused (by simp)
    exact ⟨n, hload⟩

/-- A clean path of so many directories that its index is nested deeper than the reader
goes. -/
def deepPath : Bytes := (List.replicate 16 (utf8 "a/")).flatten ++ utf8 "i.wai"

/-- Calls that put an interface where another file leads, but for a slash in front. -/
def sharedCalls : List Call :=
  .file (utf8 "metadata") (utf8 "/i.wai") (functionText "f") :: packCalls (utf8 "i.wai")

/-- **Builders that are not loaded as they were described**, for what lies outside the limits
of the reader, for a version that is not in UTF-8, and for a file that is not alone in
its place: the last one loads to the interface of the other file. -/
theorem described_but_not_loaded :
    PackageName.parse (utf8 "demo") = .ok { name := utf8 "demo" } ∧
    64 ∉ utf8 "1.0.0" ∧ 64 ∉ ([0xff] : Bytes) ∧
    (∃ libraries : List Library, List.Forall₂ (Describes Interface.parse false (packCalls deepPath))
        ((packCalls deepPath).filterMap Call.binding?) libraries ∧
      (libraries.map Library.interfaceName).Nodup ∧
      ∃ r, ((run (utf8 "demo") (utf8 "1.0.0") (packCalls deepPath)).build >>= load Interface.parse) = .error r) ∧
    (∃ r, ((run (utf8 "demo") [0xff] [.checksum false]).build >>= load Interface.parse) = .error r) ∧
    lastFile (utf8 "metadata") (utf8 "i.wai") sharedCalls = some (functionText "g") ∧
    (∃ i, Interface.parse (utf8 "i.wai") (functionText "g") = .ok i ∧ i.functions.map (·.name) = [utf8 "g"]) ∧
    ∃ p, ((run (utf8 "demo") (utf8 "1.0.0") sharedCalls).build >>= load Interface.parse) = .ok p ∧
      p.libraries.map (fun l => l.interface.functions.map (·.name)) = [[utf8 "f"]] := by
  have hrefused : ∀ {x : Except Report Container}, x.toOption.isNone → ∃ r, (x >>= load Interface.parse) = .error r := by
    intro x hx
    cases x with
    | ok c => simp [Except.toOption] at hx
    | error r => exact ⟨r, rfl⟩
  have hdeep : ((Interface.parse deepPath (functionText "g")).toOption).isSome := by decide +kernel
  have hshared : ((Interface.parse (utf8 "i.wai") (functionText "g")).toOption.map fun i => i.functions.map (·.name))
      = some [utf8 "g"] := by decide +kernel
  have hlimits : (run (utf8 "demo") (utf8 "1.0.0") sharedCalls).WithinLimits := by
    unfold sharedCalls packCalls bindingTo functionText
    rw [utf8_eq_toByteArray]
    decide +kernel
  have hbuild : (run (utf8 "demo") (utf8 "1.0.0") sharedCalls).build = .ok _ :=
    build_eq (sound_run (valid_of_ascii rfl) (valid_of_ascii rfl) (List.forall_mem_cons.2
      ⟨⟨valid_of_ascii rfl, valid_of_ascii rfl⟩, readable_packCalls ⟨valid_of_ascii rfl, by decide⟩⟩)) hlimits.1 hlimits.2
  have hloaded : ((load Interface.parse (run (utf8 "demo") (utf8 "1.0.0") sharedCalls).container).toOption.map
      fun p => p.libraries.map fun l => l.interface.functions.map (·.name)) = some [[utf8 "f"]] := by
    unfold sharedCalls packCalls bindingTo functionText
    rw [utf8_eq_toByteArray]
    decide +kernel
  refine ⟨rfl, by decide, by decide, ?_, hrefused (by decide +kernel), by decide, ?_, ?_⟩
  · obtain ⟨i, hi⟩ := Option.isSome_iff_exists.1 hdeep
    have hpath : CleanPath deepPath := ⟨valid_of_ascii (by decide), by decide⟩
    have hnone : ∀ c ∈ ([] : List Call), c.atom? (utf8 "m.wasm") = none ∧ c.file? (utf8 "metadata") deepPath = none :=
      List.forall_mem_nil _
    obtain ⟨x, hx, hdescribed⟩ := describes_packCalls hpath (toOption_eq_some.1 hi) hnone (by simp)
    obtain rfl := Option.some.inj hx
    rw [List.append_nil] at hdescribed
    have hunfit : (run (utf8 "demo") (utf8 "1.0.0") (packCalls deepPath)).fits = false ∧
        Container.headerSize + (run (utf8 "demo") (utf8 "1.0.0") (packCalls deepPath)).body.length < 2 ^ 64 := by
      unfold packCalls bindingTo functionText deepPath
      rw [utf8_eq_toByteArray]
      decide +kernel
    rw [← length_encode] at hunfit
    have hpaths : ∀ v p d, .file v p d ∈ packCalls deepPath → valid p = true := fun v p d hmem =>
      (readable_packCalls hpath _ hmem).2
    refine ⟨_, .cons hdescribed .nil, by simp, hrefused ?_⟩
    rw [Option.isNone_iff_eq_none, Option.eq_none_iff_forall_ne_some]
    intro c hc
    obtain ⟨-, hfits, -⟩ := (build_eq_ok hunfit.2 hpaths).1 (toOption_eq_some.1 hc)
    exact absurd (hunfit.1.symm.trans hfits) (by decide)
  · obtain ⟨i, hi, hnames⟩ := Option.map_eq_some_iff.1 hshared
    exact ⟨i, toOption_eq_some.1 hi, hnames⟩
  · obtain ⟨p, hp, hnames⟩ := Option.map_eq_some_iff.1 hloaded
    rw [hbuild, ok_bind]
    exact ⟨p, toOption_eq_some.1 hp, hnames⟩

end Builder

end Bindery
