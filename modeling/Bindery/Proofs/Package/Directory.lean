/-
What a directory packs into. Of modules with one name the octets of the last one are the
atom, and of commands with one name the last one is kept; interface files are told apart
by where they lead. So the package that is loaded is the one that the package file
describes just when no module that is used and no command gives way to a later one of its
name (`packed_directory`).
-/
import Bindery.Proofs.Package.Faithful
import Bindery.Proofs.Package.Packing
import Bindery.Proofs.SlashPath
import Mathlib.Data.List.Induction
import Mathlib.Data.List.Nodup

namespace Bindery

open Utf8 (valid valid_of_ascii)

/-! ## Places -/

namespace Volume

/-- A segment that says where to go. -/
def isKept (seg : Bytes) : Bool := seg != [] && seg != [46]

theorem filter_route (p : Bytes) : (route p).filter isKept = (Bytes.split 47 p).filter isKept := by
  have hsplit : (Bytes.split 47 p).dropLast ++ [(Bytes.split 47 p).getLast (Bytes.split_ne_nil p)] = Bytes.split 47 p :=
    List.dropLast_append_getLast (Bytes.split_ne_nil p)
  have hkept : ∀ seg : Bytes, (isKept seg && !seg.isEmpty) = isKept seg := by
    intro seg
    cases seg <;> simp [isKept]
  rw [route, dirs, base, List.filter_append, List.filter_filter]
  simp only [hkept]
  rw [← List.filter_append, hsplit]

theorem filter_split_dropWhile (s : Bytes) :
    (Bytes.split 47 (s.dropWhile (· == 47))).filter isKept = (Bytes.split 47 s).filter isKept := by
  induction s with
  | nil => rfl
  | cons b s ih =>
    by_cases hb : b = 47
    · rw [List.dropWhile_cons_of_pos (by simpa using hb), ih, Bytes.split, if_pos (beq_iff_eq.2 hb)]
      rfl
    · rw [List.dropWhile_cons_of_neg (by simpa using hb)]

theorem filter_split_dropEnd (s : Bytes) :
    (Bytes.split 47 (s.reverse.dropWhile (· == 47)).reverse).filter isKept = (Bytes.split 47 s).filter isKept := by
  induction s using List.reverseRecOn with
  | nil => rfl
  | append_singleton s b ih =>
    rw [List.reverse_concat]
    by_cases hb : b = 47
    · rw [List.dropWhile_cons_of_pos (by simpa using hb), ih, hb, Bytes.split_append_sep, List.filter_append]
      simp [Bytes.split, isKept]
    · rw [List.dropWhile_cons_of_neg (by simpa using hb), List.reverse_cons, List.reverse_reverse]

theorem filter_segments (p : Bytes) : (segments p).filter isKept = (Bytes.split 47 p).filter isKept := by
  rw [segments]
  exact (filter_split_dropEnd _).trans (filter_split_dropWhile p)

end Volume

namespace SlashPath

/-- The segments that cleaning leaves are those of the clean path that say where to go. -/
theorem filter_split_clean (p : Bytes) : ((clean p).split slash).filter Volume.isKept = parts p := by
  have hparts : ∀ s ∈ parts p, IsPart s := fun s => isPart_of_mem_parts
  have hkept : (parts p).filter Volume.isKept = parts p := by
    refine List.filter_eq_self.2 fun s hs => ?_
    have hdot : s ≠ [46] := (hparts s hs).ne_dot
    simp [Volume.isKept, (hparts s hs).ne_nil, hdot]
  rw [clean_eq, spell]
  split
  · rw [Bytes.split, if_pos (beq_iff_eq.2 rfl), List.filter_cons_of_neg (by decide)]
    by_cases hnil : parts p = []
    · rw [hnil]
      rfl
    · rw [split_join_parts hnil hparts, hkept]
  · split
    · rename_i hnil
      rw [hnil]
      rfl
    · rename_i hnil
      rw [split_join_parts hnil hparts, hkept]

end SlashPath

/-- A file that is loaded was packed under a path that leads to the same place. -/
theorem Builder.exists_fileAt_of_load {b : Builder} (h : b.Sound) (hflat : b.flat = false) {v rel d : Bytes}
    (hload : Package.Load.file b.container v (SlashPath.clean rel) = .ok d) :
    ∃ q, b.fileAt v q = some d ∧ (q.split 47).filter Volume.isKept = SlashPath.parts rel := by
  rw [← toOption_eq_some, Package.Load.toOption_file, find?_container_volumes, hflat] at hload
  obtain ⟨volume, hvolume, hlookup⟩ := Option.bind_eq_some_iff.1 hload
  obtain ⟨files, hfiles, rfl⟩ := Option.map_eq_some_iff.1 hvolume
  obtain ⟨e, he, hroute, rfl⟩ := Volume.exists_file_of_lookup hlookup
  refine ⟨e.1, ?_, ?_⟩
  · rw [fileAt, hfiles, Option.bind_some]
    exact Table.find?_of_mem (h.files _ (Table.mem_of_find? hfiles)).1 he
  · rw [← Volume.filter_route, ← SlashPath.filter_split_clean]
    -- the file was found under the segments of its path or under the path as one name
    rcases hroute with hroute | hroute
    · rw [hroute]
      exact Volume.filter_segments _
    · rw [hroute]
      rfl

/-! ## What loading gave -/

namespace Package

namespace Load

variable {parse : InterfaceReader} {c : Container}

theorem context_eq_ok {α : Type} {what : Bytes} {x : Except Report α} {a : α} : context what x = .ok a ↔ x = .ok a := by
  cases x <;> simp [context]

theorem interface_of_ok {ref : Bytes} {i : Interface} (h : interface parse c ref = .ok i) {v p : Bytes}
    (hsplit : splitUri ref = some (v, p)) : ∃ d, file c v p = .ok d ∧ valid d = true ∧ parse p d = .ok i := by
  rw [interface, hsplit] at h
  obtain ⟨d, hfile, h⟩ := bind_eq_ok.1 h
  split at h
  · cases h
  · rename_i hvalid
    exact ⟨d, hfile, by simpa using hvalid, context_eq_ok.1 h⟩

/-- A library that was loaded from a binding. -/
theorem library_of_ok {x : Binding} {l : Library} (h : library parse c x = .ok l) {ref atom : Bytes}
    (hexports : x.exports = .ok ref) (hmodule : x.module = .ok (utf8 "atoms://" ++ atom)) :
    (∃ i, interface parse c ref = .ok i ∧ l.exports = some i) ∧
    List.Forall₂ (fun ref i => interface parse c ref = .ok i) x.imports l.imports ∧
    ∃ wasm, c.atom c.id atom = .ok wasm ∧
      l.module = { name := moduleStem atom, abi := Abi.detect wasm, wasm } := by
  rw [library, hexports, ok_bind, hmodule] at h
  obtain ⟨i, hi, h⟩ := bind_eq_ok.1 h
  obtain ⟨imports, himports, h⟩ := bind_eq_ok.1 h
  rw [ok_bind] at h
  dsimp only at h
  rw [Bytes.dropStart_append] at h
  obtain ⟨wasm, hwasm, h⟩ := bind_eq_ok.1 h
  obtain rfl := Except.ok.inj h
  exact ⟨⟨i, context_eq_ok.1 hi, rfl⟩, (mapM_eq_ok.1 himports).imp fun _ _ h => context_eq_ok.1 h,
    wasm, context_eq_ok.1 hwasm, rfl⟩

end Load

/-- A package that was loaded has a library for each binding and a command for each command. -/
theorem parts_of_load {parse : InterfaceReader} {c : Container} {p : Package} (h : load parse c = .ok p) :
    List.Forall₂ (fun x l => Load.library parse c x = .ok l) c.manifest.bindings p.libraries ∧
    c.manifest.commands.mapM (fun e => Load.command c e.1 e.2) = .ok p.commands := by
  rw [load] at h
  obtain ⟨metadata, -, h⟩ := bind_eq_ok.1 h
  obtain ⟨libraries, hlibraries, h⟩ := bind_eq_ok.1 h
  obtain ⟨commands, hcommands, h⟩ := bind_eq_ok.1 h
  rw [new] at h
  obtain ⟨-, -, h⟩ := bind_eq_ok.1 h
  obtain ⟨-, -, h⟩ := bind_eq_ok.1 h
  obtain rfl := Except.ok.inj h
  exact ⟨(mapM_eq_ok.1 hlibraries).imp fun _ _ h => Load.context_eq_ok.1 h, hcommands⟩

end Package

/-! ## The builder of a package file -/

theorem Binding.Readable.refs {x : Binding} (h : x.Readable) : ∀ ref ∈ x.refs, valid ref = true := by
  obtain ⟨name, kind, wai, wit⟩ := x
  intro ref href
  rcases List.mem_append.1 href with href | href
  · cases wai with
    | some w =>
      obtain rfl := List.mem_singleton.1 href
      exact (h.wai w rfl).exports
    | none =>
      cases wit with
      | some w =>
        obtain rfl := List.mem_singleton.1 href
        exact (h.wit w rfl).exports
      | none => cases href
  · cases wai with
    | some w => exact (h.wai w rfl).imports ref href
    | none => cases href

theorem Builder.flat_foldl {calls : List Builder.Call} {b : Builder} (h : ∀ on, .flat on ∉ calls) :
    (calls.foldl Call.apply b).flat = b.flat := by
  have hnone : calls.reverse.findSome? Call.flat? = none := by
    refine List.findSome?_eq_none_iff.2 fun c hc => ?_
    cases c with
    | flat on => exact absurd (List.mem_reverse.1 hc) (h on)
    | _ => rfl
  rw [part_foldl (·.flat) flat_apply, hnone, Option.getD_none]

namespace PackageFile

variable {read : Bytes → Except Report Bytes} {parse : InterfaceReader} {f : PackageFile} {data : Bytes → Bytes}
variable {b : Builder} {c : Container} {p : Package}

/-- The builder of a package file whose files have some contents. -/
def builder (data : Bytes → Bytes) (f : PackageFile) : Builder := Builder.run f.name f.version (f.calls data)

theorem flat_builder : (f.builder data).flat = false := by
  refine Builder.flat_foldl fun on hon => ?_
  rcases mem_calls.1 hon with h | ⟨m, -, h⟩ | ⟨e, -, h⟩
  · cases h
  · rcases mem_moduleCalls.1 h with h | ⟨bs, -, h⟩
    · cases h
    · rcases BindingsEntry.mem_calls.1 h with ⟨rel, -, h⟩ | h
      · cases h
      · rw [BindingsEntry.call] at h
        split at h <;> cases h
  · cases h

theorem bindings_builder : (f.builder data).bindings = f.bound.map fun e => e.2.binding e.1.name := by
  rw [← filterMap_binding?_calls]
  exact Builder.bindings_foldl (f.calls data) (Builder.new f.name f.version)

/-- A file of the builder is an interface file under its clean path. -/
theorem exists_interface_of_fileAt {v q d : Bytes} (h : (f.builder data).fileAt v q = some d) :
    ∃ rel ∈ f.interfaces, q = SlashPath.clean rel ∧ d = data rel := by
  rw [builder, Builder.fileAt_run] at h
  obtain ⟨rel, hrel, hcall⟩ := file_of_mem_calls (Builder.mem_of_lastFile h)
  obtain ⟨-, rfl, rfl⟩ := Builder.Call.file.inj hcall
  exact ⟨rel, hrel, rfl, rfl⟩

theorem reference_mem_refs {e : ModuleEntry × BindingsEntry} {rel : Bytes} (hrel : rel ∈ e.2.interfaces) :
    reference rel ∈ (e.2.binding e.1.name).refs := by
  rw [Binding.refs, e.2.exports_binding, e.2.imports_binding]
  rcases List.mem_cons.1 hrel with rfl | hrel
  · exact List.mem_append_left _ (List.mem_singleton_self _)
  · exact List.mem_append_right _ (List.mem_map_of_mem hrel)

theorem splitUri_reference (rel : Bytes) :
    splitUri (reference rel) = some (Builder.metadataVolume, SlashPath.clean rel) := by
  have hvolume : ¬utf8 "://" <:+: Builder.metadataVolume := fun h => absurd (h.subset (a := 58) (by decide)) (by decide)
  rw [reference]
  exact splitUri_append hvolume _

theorem valid_of_reference {rel : Bytes} (h : valid (reference rel) = true) : valid (SlashPath.clean rel) = true := by
  have hcut : reference rel = Builder.metadataVolume ++ utf8 ":/" ++ 47 :: SlashPath.clean rel := by
    have hsep : utf8 "://" = utf8 ":/" ++ [47] := by decide
    rw [reference, hsep]
    simp
  exact Utf8.valid_of_text ((Utf8.text_of_valid h).cut (by decide) hcut).2

/-- When the container of a package file is built, it is the one its builder describes. -/
theorem build_builder (hlen : (f.builder data).encode.length < 2 ^ 64) (hbuild : (f.builder data).build = .ok c) :
    (f.builder data).Sound ∧ c = (f.builder data).container := by
  have hmanifest := (Builder.readable_of_build (Builder.arranged_run _ _ _) hlen hbuild).1
  have hpaths : ∀ v q d, .file v q d ∈ f.calls data → valid q = true := by
    intro v q d hcall
    obtain ⟨rel, hrel, hcall⟩ := file_of_mem_calls hcall
    obtain ⟨-, rfl, -⟩ := Builder.Call.file.inj hcall
    obtain ⟨e, he, hrel⟩ := mem_interfaces.1 hrel
    have hbinding : e.2.binding e.1.name ∈ (f.builder data).bindings := by
      rw [bindings_builder]
      exact List.mem_map_of_mem he
    exact valid_of_reference ((hmanifest.bindings _ hbinding).refs _ (reference_mem_refs hrel))
  obtain ⟨hsound, -, rfl⟩ := (Builder.build_eq_ok hlen hpaths).1 hbuild
  exact ⟨hsound, rfl⟩

/-- A package file that is packed is built when its texts are in UTF-8 and it is within the
limits of the reader. -/
theorem build_of_readable (hname : valid f.name = true) (hversion : valid f.version = true)
    (hcalls : ∀ call ∈ f.calls (contents read), call.Readable) (hpack : f.pack read = .ok b) (hfits : b.fits = true)
    (hlen : b.encode.length < 2 ^ 64) : b.build = .ok b.container := by
  obtain ⟨-, rfl⟩ := pack_eq_ok.1 hpack
  exact Builder.build_eq (Builder.sound_run hname hversion hcalls) hfits hlen

/-! ## What a package file describes -/

/-- The interface in the text of a file, read under the file's clean path. -/
def Parsed (parse : InterfaceReader) (text : Bytes → Bytes → Prop) (rel : Bytes) (i : Interface) : Prop :=
  ∃ d, text rel d ∧ valid d = true ∧ parse (SlashPath.clean rel) d = .ok i

/-- The library of a module with bindings: the module's octets are given, its interfaces are
in the texts of its files. -/
structure LibraryOf (parse : InterfaceReader) (text : Bytes → Bytes → Prop) (wasm : Bytes)
    (e : ModuleEntry × BindingsEntry) (l : Library) : Prop where
  module : l.module = { name := Package.Load.moduleStem e.1.name, abi := Abi.detect wasm, wasm }
  exports : ∃ i, Parsed parse text e.2.exported i ∧ l.exports = some i
  imports : List.Forall₂ (Parsed parse text) e.2.imported l.imports

/-- **The package is the one that the package file describes.** For each module with
bindings, in order, it has a library of the module's own source and interface files, and
for each command a command of the source of any module that it names, and no others. -/
structure Faithful (read : Bytes → Except Report Bytes) (parse : InterfaceReader) (f : PackageFile) (p : Package) :
    Prop where
  libraries : List.Forall₂ (fun e l => ∃ wasm, read e.1.source = .ok wasm ∧
    LibraryOf parse (fun rel d => read rel = .ok d) wasm e l) f.bound p.libraries
  commands : ∀ e ∈ f.commands, ∀ m ∈ f.modules, m.name = e.module →
    ∃ cmd ∈ p.commands, cmd.name = e.name ∧ read m.source = .ok cmd.wasm
  length : p.commands.length = f.commands.length

/-- The contents of an interface file that leads to the same place. -/
def TextAt (read : Bytes → Except Report Bytes) (f : PackageFile) (rel d : Bytes) : Prop :=
  ∃ q ∈ f.interfaces, FileTree.normalize q = FileTree.normalize rel ∧ read q = .ok d

/-- What the package is in any case: of modules and of commands with one name the last one
counts, and the commands are in the order of their names. -/
structure Packed (read : Bytes → Except Report Bytes) (parse : InterfaceReader) (f : PackageFile) (p : Package) :
    Prop where
  libraries : List.Forall₂ (fun e l => ∃ m wasm, f.lastModule? e.1.name = some m ∧ read m.source = .ok wasm ∧
    LibraryOf parse (TextAt read f) wasm e l) f.bound p.libraries
  ascending : (p.commands.map (·.name)).Pairwise fun m n => Table.before m n = true
  commands : ∀ n wasm, { name := n, wasm } ∈ p.commands ↔
    ∃ e m, f.lastCommand? n = some e ∧ f.lastModule? e.module = some m ∧ read m.source = .ok wasm

/-- No command gives way to a later one of its name, and no module that has bindings or a
command gives way to a later one with other octets. -/
structure NoneReplaced (read : Bytes → Except Report Bytes) (f : PackageFile) : Prop where
  commands : (f.commands.map (·.name)).Nodup
  modules : ∀ m ∈ f.modules, m.bindings.isSome ∨ m.name ∈ f.commands.map (·.module) →
    ∀ m', f.lastModule? m.name = some m' → read m.source = read m'.source

/-- Interface files that lead to one place have the same contents. -/
def OnePlace (read : Bytes → Except Report Bytes) (f : PackageFile) : Prop :=
  ∀ q ∈ f.interfaces, ∀ q' ∈ f.interfaces, FileTree.normalize q = FileTree.normalize q' → read q = read q'

theorem interface_builder (hpack : Packable read f) (hsound : (f.builder (contents read)).Sound) {rel : Bytes}
    {i : Interface}
    (h : Package.Load.interface parse (f.builder (contents read)).container (reference rel) = .ok i) :
    Parsed parse (TextAt read f) rel i := by
  obtain ⟨d, hfile, hvalid, hparse⟩ := Package.Load.interface_of_ok h (splitUri_reference rel)
  obtain ⟨q, hat, hplace⟩ := Builder.exists_fileAt_of_load hsound flat_builder hfile
  obtain ⟨rel', hrel', rfl, rfl⟩ := exists_interface_of_fileAt hat
  have hfound : Found read rel' := by
    obtain ⟨e, he, hmem⟩ := mem_interfaces.1 hrel'
    obtain ⟨hm, hbs⟩ := mem_bound.1 he
    exact ((hpack.modules _ hm).bindings _ hbs).2 rel' hmem
  have hsame : FileTree.normalize rel' = FileTree.normalize rel := by
    rw [SlashPath.normalize_eq, SlashPath.normalize_eq, ← hplace, ← SlashPath.filter_split_clean]
    rfl
  exact ⟨_, ⟨rel', hrel', hsame, hfound⟩, hvalid, hparse⟩

theorem mem_of_find?_reverse {α : Type} {name : α → Bytes} {xs : List α} {n : Bytes} {x : α}
    (h : xs.reverse.find? (name · == n) = some x) : x ∈ xs ∧ name x = n :=
  ⟨List.mem_reverse.1 (List.mem_of_find?_eq_some h), by simpa using List.find?_some h⟩

theorem exists_find?_reverse {α : Type} {name : α → Bytes} {xs : List α} {n : Bytes} (h : n ∈ xs.map name) :
    ∃ x, xs.reverse.find? (name · == n) = some x := by
  obtain ⟨x, hx, hname⟩ := List.mem_map.1 h
  rw [← Option.isSome_iff_exists, List.find?_isSome]
  exact ⟨x, List.mem_reverse.2 hx, by simpa using hname⟩

theorem mem_of_lastModule? {n : Bytes} {m : ModuleEntry} (h : f.lastModule? n = some m) :
    m ∈ f.modules ∧ m.name = n := mem_of_find?_reverse h

theorem exists_lastModule? {n : Bytes} (h : n ∈ f.modules.map (·.name)) : ∃ m, f.lastModule? n = some m :=
  exists_find?_reverse h

theorem mem_of_lastCommand? {n : Bytes} {e : CommandEntry} (h : f.lastCommand? n = some e) :
    e ∈ f.commands ∧ e.name = n := mem_of_find?_reverse h

theorem exists_lastCommand? {n : Bytes} (h : n ∈ f.commands.map (·.name)) : ∃ e, f.lastCommand? n = some e :=
  exists_find?_reverse h

/-- The atom of a name holds the source of the last module of this name. -/
theorem find?_atoms_builder (hpack : Packable read f) {n wasm : Bytes} :
    Table.find? n (f.builder (contents read)).atoms = some wasm ↔
      ∃ m, f.lastModule? n = some m ∧ read m.source = .ok wasm := by
  rw [builder, Builder.find?_atoms_run, lastAtom_calls, Option.map_eq_some_iff]
  refine exists_congr fun m => and_congr_right fun hm => ?_
  have hfound : read m.source = .ok (contents read m.source) := (hpack.modules m (mem_of_lastModule? hm).1).octets
  rw [hfound, Except.ok.injEq]

/-- Commands stand for atoms of the builder. -/
theorem isSome_lastAtom (hpack : Packable read f) {n a : Bytes}
    (h : Builder.lastCommand n (f.calls data) = some a) :
    a ≠ [] ∧ (Builder.lastAtom a (f.calls data)).isSome := by
  rw [lastCommand_calls, Option.map_eq_some_iff] at h
  obtain ⟨e, he, rfl⟩ := h
  obtain ⟨m, hm⟩ := exists_lastModule? (hpack.commands e (mem_of_lastCommand? he).1)
  obtain ⟨hmem, hname⟩ := mem_of_lastModule? hm
  refine ⟨hname ▸ (hpack.modules m hmem).name, ?_⟩
  rw [lastAtom_calls, hm]
  rfl

theorem find?_of_atom {n wasm : Bytes} (h : b.container.atom b.container.id n = .ok wasm) :
    Table.find? n b.atoms = some wasm := by
  rw [Builder.atom_container] at h
  split at h
  · rename_i hfind
    rw [hfind, Except.ok.inj h]
  · cases h

/-- What the package is in any case. -/
theorem packed_of_load (hpack : Packable read f) (hlen : (f.builder (contents read)).encode.length < 2 ^ 64)
    (hbuild : (f.builder (contents read)).build = .ok c) (hload : Package.load parse c = .ok p) :
    Packed read parse f p := by
  obtain ⟨hsound, rfl⟩ := build_builder hlen hbuild
  obtain ⟨hlibraries, hcommands⟩ := Package.parts_of_load hload
  have hbindings : (f.builder (contents read)).container.manifest.bindings
      = f.bound.map fun e => e.2.binding e.1.name :=
    bindings_builder
  rw [hbindings, List.forall₂_map_left_iff] at hlibraries
  obtain ⟨cmds, hcmds, hascending, hmem⟩ := Builder.commands_run hsound fun _ _ => isSome_lastAtom hpack
  obtain rfl : cmds = p.commands := Except.ok.inj (hcmds.symm.trans hcommands)
  refine ⟨forall₂_imp_of_mem hlibraries fun e _ l hl => ?_, hascending, fun n wasm => ?_⟩
  · obtain ⟨⟨i, hi, hexports⟩, himports, wasm, hwasm, hmodule⟩ :=
      Package.Load.library_of_ok hl (e.2.exports_binding e.1.name) (e.2.module_binding e.1.name)
    rw [e.2.imports_binding, List.forall₂_map_left_iff] at himports
    obtain ⟨m, hm, hread⟩ := (find?_atoms_builder hpack).1 (find?_of_atom hwasm)
    exact ⟨m, wasm, hm, hread, hmodule, ⟨i, interface_builder hpack hsound hi, hexports⟩,
      himports.imp fun _ _ h => interface_builder hpack hsound h⟩
  · rw [hmem, lastCommand_calls]
    simp only [← Builder.find?_atoms_run f.name f.version]
    constructor
    · rintro ⟨a, ha, hatom⟩
      obtain ⟨e, he, rfl⟩ := Option.map_eq_some_iff.1 ha
      obtain ⟨m, hm⟩ := (find?_atoms_builder hpack).1 hatom
      exact ⟨e, m, he, hm⟩
    · rintro ⟨e, m, he, hm⟩
      exact ⟨e.module, by rw [he]; rfl, (find?_atoms_builder hpack).2 ⟨m, hm⟩⟩

/-- The names of the commands are those that are declared. -/
theorem Packed.mem_names (h : Packed read parse f p) (hpack : Packable read f) {n : Bytes} :
    n ∈ p.commands.map (·.name) ↔ n ∈ f.commands.map (·.name) := by
  constructor
  · intro hn
    obtain ⟨⟨n', wasm⟩, hcmd, rfl⟩ := List.mem_map.1 hn
    obtain ⟨e, m, he, -⟩ := (h.commands n' wasm).1 hcmd
    obtain ⟨hmem, hname⟩ := mem_of_lastCommand? he
    exact List.mem_map.2 ⟨e, hmem, hname⟩
  · intro hn
    obtain ⟨e, he⟩ := exists_lastCommand? hn
    obtain ⟨m, hm⟩ := exists_lastModule? (hpack.commands e (mem_of_lastCommand? he).1)
    have hread := (hpack.modules m (mem_of_lastModule? hm).1).octets
    exact List.mem_map.2 ⟨_, (h.commands n _).2 ⟨e, m, he, hm, hread⟩, rfl⟩

/-- There are as many commands as are declared just when each is declared once. -/
theorem Packed.length_commands (h : Packed read parse f p) (hpack : Packable read f) :
    p.commands.length = f.commands.length ↔ (f.commands.map (·.name)).Nodup := by
  have hnodup : (p.commands.map (·.name)).Nodup := by
    refine h.ascending.imp fun hlt heq => ?_
    rw [heq, Table.before_irrefl] at hlt
    cases hlt
  -- names in the package are distinct, so as many of them as are declared are all of these
  have hsub : (p.commands.map (·.name)).Subperm (f.commands.map (·.name)) :=
    List.subperm_of_subset hnodup fun n hn => (h.mem_names hpack).1 hn
  constructor
  · intro hlen
    have hperm := hsub.perm_of_length_le (by rw [List.length_map, List.length_map, hlen])
    exact hperm.nodup_iff.1 hnodup
  · intro hdeclared
    have hperm := (List.perm_ext_iff_of_nodup hnodup hdeclared).2 fun n => h.mem_names hpack
    simpa using hperm.length_eq

/-- A command whose name is declared once is the one that counts. -/
theorem lastCommand?_of_nodup (h : (f.commands.map (·.name)).Nodup) {e : CommandEntry} (he : e ∈ f.commands) :
    f.lastCommand? e.name = some e := by
  obtain ⟨e', he'⟩ := exists_lastCommand? (List.mem_map_of_mem he)
  obtain ⟨hmem, hname⟩ := mem_of_lastCommand? he'
  rw [he', List.inj_on_of_nodup_map h hmem he hname]

/-- Text at the place of an interface file is the file's own, where a place has one text. -/
theorem LibraryOf.own (hplace : OnePlace read f) {e : ModuleEntry × BindingsEntry} (he : e ∈ f.bound) {wasm : Bytes}
    {l : Library} (h : LibraryOf parse (TextAt read f) wasm e l) :
    LibraryOf parse (fun rel d => read rel = .ok d) wasm e l := by
  have hown : ∀ rel ∈ e.2.interfaces, ∀ i, Parsed parse (TextAt read f) rel i →
      Parsed parse (fun rel d => read rel = .ok d) rel i := by
    rintro rel hrel i ⟨d, ⟨q, hq, hsame, hread⟩, hvalid, hparse⟩
    exact ⟨d, (hplace q hq rel (mem_interfaces.2 ⟨e, he, hrel⟩) hsame).symm.trans hread, hvalid, hparse⟩
  obtain ⟨i, hi, hexports⟩ := h.exports
  refine ⟨h.module, ⟨i, hown _ List.mem_cons_self i hi, hexports⟩, ?_⟩
  exact forall₂_imp_of_mem h.imports fun rel hrel => hown rel (List.mem_cons_of_mem _ hrel)

theorem Packed.noneReplaced (h : Packed read parse f p) (hpack : Packable read f)
    (hfaithful : Faithful read parse f p) : NoneReplaced read f := by
  have hcommands := (h.length_commands hpack).1 hfaithful.length
  refine ⟨hcommands, fun m hm hused m' hlast => ?_⟩
  -- what uses the module has the octets of the last one of its name, and those of its own source
  rcases hused with hbound | hcommand
  · obtain ⟨bs, hbs⟩ := Option.isSome_iff_exists.1 hbound
    obtain ⟨l, -, ⟨m'', wasm, hlast', hread, hpacked⟩, wasm', hread', hdescribed⟩ :=
      exists_of_mem_forall₂ (forall₂_and h.libraries hfaithful.libraries).flip (mem_bound.2 ⟨hm, hbs⟩)
    obtain rfl : m' = m'' := Option.some.inj (hlast.symm.trans hlast')
    have hsame := congrArg CompiledModule.wasm (hpacked.module.symm.trans hdescribed.module)
    obtain rfl : wasm = wasm' := hsame
    rw [hread, hread']
  · obtain ⟨e, he, hmodule⟩ := List.mem_map.1 hcommand
    obtain ⟨⟨n, wasm⟩, hcmd, rfl, hread⟩ := hfaithful.commands e he m hm hmodule.symm
    obtain ⟨e', m'', he', hlast', hread'⟩ := (h.commands _ wasm).1 hcmd
    obtain rfl : e = e' := Option.some.inj ((lastCommand?_of_nodup hcommands he).symm.trans he')
    rw [hmodule] at hlast'
    obtain rfl : m' = m'' := Option.some.inj (hlast.symm.trans hlast')
    exact hread.trans hread'.symm

theorem Packed.faithful (h : Packed read parse f p) (hpack : Packable read f) (hplace : OnePlace read f)
    (hnone : NoneReplaced read f) : Faithful read parse f p where
  libraries := forall₂_imp_of_mem h.libraries fun e he l ⟨m, wasm, hlast, hread, hlibrary⟩ => by
    obtain ⟨hm, hbs⟩ := mem_bound.1 he
    have hsame := hnone.modules e.1 hm (.inl (by rw [hbs]; rfl)) m hlast
    exact ⟨wasm, hsame.trans hread, hlibrary.own hplace he⟩
  commands e he m hm hname := by
    obtain ⟨m', hlast⟩ := exists_lastModule? (hpack.commands e he)
    have hsame := hnone.modules m hm (.inr (hname ▸ List.mem_map_of_mem he)) m' (hname ▸ hlast)
    have hread := (hpack.modules m hm).octets
    refine ⟨{ name := e.name, wasm := contents read m.source }, (h.commands _ _).2 ?_, rfl, hread⟩
    exact ⟨e, m', lastCommand?_of_nodup hnone.commands he, hlast, hsame.symm.trans hread⟩
  length := (h.length_commands hpack).2 hnone.commands

/-- A place has one text when paths are relative and only the clean path matters. -/
theorem onePlace_of_relative (hread : ∀ q q', SlashPath.clean q = SlashPath.clean q' → read q = read q')
    (hrelative : ∀ q d, read q = .ok d → SlashPath.isRooted q = false) (hpack : Packable read f) :
    OnePlace read f := by
  intro q hq q' hq' hsame
  have hfound : ∀ rel ∈ f.interfaces, SlashPath.isRooted rel = false := by
    intro rel hrel
    obtain ⟨e, he, hmem⟩ := mem_interfaces.1 hrel
    obtain ⟨hm, hbs⟩ := mem_bound.1 he
    exact hrelative rel _ (((hpack.modules _ hm).bindings _ hbs).2 rel hmem)
  refine hread q q' ?_
  rw [SlashPath.clean_eq, SlashPath.clean_eq, hfound q hq, hfound q' hq', ← SlashPath.parts_normalize q, hsame,
    SlashPath.parts_normalize]

/-- **What a directory packs into.** Let a package file be packed with a reader of its
directory that looks at clean paths only, and the container be built and loaded. The
package has one library for each module with bindings and one command for each name of a
command, where of modules and of commands with one name the last one counts. It is the
one that the package file describes if and only if no command and no module that is used
gives way to a later one, provided that interface files at one place have the same
contents, as they have when all paths are relative. -/
theorem packed_directory (read : Bytes → Except Report Bytes) (parse : InterfaceReader) (f : PackageFile)
    (b : Builder) (c : Container) (p : Package)
    (hread : ∀ q q', SlashPath.clean q = SlashPath.clean q' → read q = read q') (hpack : f.pack read = .ok b)
    (hlen : b.encode.length < 2 ^ 64) (hbuild : b.build = .ok c) (hload : Package.load parse c = .ok p) :
    Packed read parse f p ∧
    (OnePlace read f → (Faithful read parse f p ↔ NoneReplaced read f)) ∧
    ((∀ q d, read q = .ok d → SlashPath.isRooted q = false) → OnePlace read f) := by
  obtain ⟨hpackable, rfl⟩ := pack_eq_ok.1 hpack
  have hpacked := packed_of_load hpackable hlen hbuild hload
  refine ⟨hpacked, fun hplace => ⟨hpacked.noneReplaced hpackable, hpacked.faithful hpackable hplace⟩, ?_⟩
  exact fun hrelative => onePlace_of_relative hread hrelative hpackable

/-- The files of a directory, by their clean paths. -/
def sampleRead (rel : Bytes) : Except Report Bytes :=
  let path := SlashPath.clean rel
  match Table.find? path [(utf8 "a.wai", utf8 "f: func()\n"), (utf8 "a.wasm", [1]),
      (utf8 "b.wai", utf8 "g: func()\n"), (utf8 "b.wasm", [2])] with
  | some d => .ok d
  | none => .error (.notFound .load (utf8 "file") path)

/-- Two modules with bindings under given names, and a command of the second. -/
def sampleFile (first second : Bytes) : PackageFile where
  name := utf8 "demo"
  version := utf8 "1.0.0"
  modules :=
    [{ name := first, source := utf8 "./a.wasm",
       bindings := some { waiVersion := utf8 "0.2.0", exports := utf8 "a.wai", imports := [utf8 "b.wai"] } },
     { name := second, source := utf8 "b.wasm",
       bindings := some { witBindgen := utf8 "0.2.0", witExports := utf8 "x/../b.wai" } }]
  commands := [{ name := utf8 "run", module := second }]

theorem sampleRead_clean {q q' : Bytes} (h : SlashPath.clean q = SlashPath.clean q') :
    sampleRead q = sampleRead q' := by
  rw [sampleRead, sampleRead, h]

/-- The container of the sample is built, whether or not the modules have one name. -/
theorem build_sampleFile {second : Bytes} (h : second = utf8 "a" ∨ second = utf8 "b") :
    let f := sampleFile (utf8 "a") second
    let b := f.builder (contents sampleRead)
    f.pack sampleRead = .ok b ∧ b.encode.length < 2 ^ 64 ∧ b.build = .ok b.container := by
  intro f b
  have hall : ∀ n ∈ [utf8 "a", utf8 "b"], ((sampleFile (utf8 "a") n).pack sampleRead).toOption.isSome = true ∧
      (∀ call ∈ (sampleFile (utf8 "a") n).calls (contents sampleRead), call.Readable) ∧
      ((sampleFile (utf8 "a") n).builder (contents sampleRead)).WithinLimits := by
    unfold sampleFile
    rw [utf8_eq_toByteArray]
    decide +kernel
  obtain ⟨hpacked, hcalls, hfits, hlen⟩ := hall second (by simpa using h)
  obtain ⟨b', hb'⟩ := Option.isSome_iff_exists.1 hpacked
  obtain ⟨-, rfl⟩ := pack_eq_ok.1 (toOption_eq_some.1 hb')
  refine ⟨toOption_eq_some.1 hb', hlen, ?_⟩
  exact build_of_readable (valid_of_ascii rfl) (valid_of_ascii rfl) hcalls (toOption_eq_some.1 hb') hfits hlen

theorem packed_directory_sample : ∃ b c p, (sampleFile (utf8 "a") (utf8 "b")).pack sampleRead = .ok b ∧
    b.build = .ok c ∧ Package.load Interface.parse c = .ok p ∧
    Faithful sampleRead Interface.parse (sampleFile (utf8 "a") (utf8 "b")) p := by
  obtain ⟨hpack, hlen, hbuild⟩ := build_sampleFile (.inr rfl)
  have hloaded : (Package.load Interface.parse
      ((sampleFile (utf8 "a") (utf8 "b")).builder (contents sampleRead)).container).toOption.isSome = true := by
    decide +kernel
  obtain ⟨p, hp⟩ := Option.isSome_iff_exists.1 hloaded
  have hload := toOption_eq_some.1 hp
  obtain ⟨-, hfaithful, -⟩ := packed_directory sampleRead Interface.parse _ _ _ p (fun _ _ => sampleRead_clean) hpack
    hlen hbuild hload
  have hplace : OnePlace sampleRead (sampleFile (utf8 "a") (utf8 "b")) := by
    unfold OnePlace
    decide +kernel
  have hmodules : ∀ m ∈ (sampleFile (utf8 "a") (utf8 "b")).modules,
      (sampleFile (utf8 "a") (utf8 "b")).lastModule? m.name = some m := by decide +kernel
  refine ⟨_, _, p, hpack, hbuild, hload, (hfaithful hplace).2 ⟨by decide +kernel, fun m hm _ m' hlast => ?_⟩⟩
  rw [Option.some.inj ((hmodules m hm).symm.trans hlast)]

/-- **A later module replaces an earlier one of its name**: both libraries have its octets. -/
theorem later_module_replaces_earlier :
    (∀ q q', SlashPath.clean q = SlashPath.clean q' → sampleRead q = sampleRead q') ∧
    ∃ b c p, (sampleFile (utf8 "a") (utf8 "a")).pack sampleRead = .ok b ∧
    b.build = .ok c ∧ Package.load Interface.parse c = .ok p ∧
    p.libraries.map (·.module.wasm) = [[2], [2]] ∧
    ¬Faithful sampleRead Interface.parse (sampleFile (utf8 "a") (utf8 "a")) p := by
  obtain ⟨hpack, -, hbuild⟩ := build_sampleFile (.inl rfl)
  have hloaded : ((Package.load Interface.parse
      ((sampleFile (utf8 "a") (utf8 "a")).builder (contents sampleRead)).container).toOption.map
        fun p => p.libraries.map (·.module.wasm)) = some [[2], [2]] := by
    decide +kernel
  obtain ⟨p, hp, hwasm⟩ := Option.map_eq_some_iff.1 hloaded
  refine ⟨fun _ _ => sampleRead_clean, _, _, p, hpack, hbuild, toOption_eq_some.1 hp, hwasm, fun hfaithful => ?_⟩
  have hlibraries := hfaithful.libraries
  generalize p.libraries = ls at hwasm hlibraries
  obtain ⟨l, ls, ⟨wasm, hread, hlibrary⟩, -, rfl⟩ := List.forall₂_cons_left_iff.1 hlibraries
  have hfirst : sampleRead (utf8 "./a.wasm") = .ok [1] := by decide +kernel
  have hone : wasm = [1] := Except.ok.inj (hread.symm.trans hfirst)
  have htwo : l.module.wasm = [2] := (List.cons.inj hwasm).1
  rw [hlibrary.module] at htwo
  exact absurd (hone.symm.trans htwo) (by decide)

end PackageFile

end Bindery
