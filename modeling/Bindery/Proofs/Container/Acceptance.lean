/-
When a container is built. What a builder writes is read again, so it refuses texts that
are not in UTF-8 and a manifest or an index beyond the reader's limits, and nothing else:
`build_eq_ok` says so for every sequence of calls that puts its files at paths in UTF-8.
-/
import Bindery.Proofs.Cbor.Limits
import Bindery.Proofs.Container.Calls
import Bindery.Proofs.Container.Grammar

namespace Bindery

open Cbor
open Utf8 (valid)

/-! ## Records that are read -/

theorem Cbor.Item.value_of_field {α : Type} {es : List (Bytes × Item)} {name : Bytes} {absent v : α}
    {value : Item → Option α} {i : Item} (hfind : Table.find? name es = some i)
    (h : Item.field es name absent value = some v) : value i = some v := by
  rwa [Item.field, hfind] at h

theorem Cbor.Item.valid_of_field {es : List (Bytes × Item)} {name absent s t : Bytes}
    (hfind : Table.find? name es = some (.ofText s)) (h : Item.field es name absent Item.text? = some t) :
    valid s = true := (Item.text?_ofText_iff.1 (Item.value_of_field hfind h)).2

/-- A text that is written only when it is not empty. -/
theorem Cbor.Item.valid_of_fieldIf {es : List (Bytes × Item)} {name absent s t : Bytes}
    (hfind : Table.find? name es = if !s.isEmpty then some (.ofText s) else none)
    (h : Item.field es name absent Item.text? = some t) : valid s = true := by
  cases s with
  | nil => rfl
  | cons c s => exact Item.valid_of_field hfind h

/-- A table that is written only when it is not empty. -/
theorem Cbor.Item.valid_of_tableIf {α β : Type} {es : List (Bytes × Item)} {name : Bytes} {absent v : Table α}
    {value : Item → Option α} {t : Table β} {f : Bytes × β → Item}
    (hfind : Table.find? name es = if !t.isEmpty then some (.ofTable (t.map fun e => (e.1, f e))) else none)
    (h : Item.field es name absent (Item.table? value) = some v) : ∀ e ∈ t, valid e.1 = true := by
  intro e he
  have hwritten : (!t.isEmpty) = true := by simpa using List.ne_nil_of_mem he
  rw [if_pos hwritten] at hfind
  exact List.forall_mem_map.1 (Item.valid_of_table? (Item.value_of_field hfind h)) e he

theorem Cbor.Item.exists_of_optional? {α : Type} {value : Item → Option α} {i : Item} {v : Option α}
    (hnull : i.isNull = false) (h : Item.optional? value i = some v) : ∃ a, value i = some a := by
  rw [Item.optional?, hnull] at h
  obtain ⟨a, ha, -⟩ := Option.map_eq_some_iff.1 h
  exact ⟨a, ha⟩

theorem PackageNote.readable_of_ofItem? {n n' : PackageNote} (h : ofItem? n.toItem = some n') : n.Readable := by
  rw [ofItem?, fields?_toItem, Option.bind_eq_bind, Option.bind_some] at h
  obtain ⟨name, hname, h⟩ := Option.bind_eq_some_iff.1 h
  obtain ⟨version, hversion, h⟩ := Option.bind_eq_some_iff.1 h
  obtain ⟨description, hdescription, -⟩ := Option.bind_eq_some_iff.1 h
  exact ⟨Item.valid_of_field rfl hname, Item.valid_of_field rfl hversion,
    Item.valid_of_fieldIf (by simp +decide [Item.find?_fieldIf, Table.find?]) hdescription⟩

theorem WaiBindings.readable_of_ofItem? {w w' : WaiBindings} (h : ofItem? w.toItem = some w') : w.Readable := by
  rw [ofItem?, fields?_toItem, Option.bind_eq_bind, Option.bind_some] at h
  obtain ⟨exports, hexports, h⟩ := Option.bind_eq_some_iff.1 h
  obtain ⟨module, hmodule, h⟩ := Option.bind_eq_some_iff.1 h
  obtain ⟨imports, himports, -⟩ := Option.bind_eq_some_iff.1 h
  refine ⟨Item.valid_of_field rfl hexports, Item.valid_of_field rfl hmodule, fun i hi => ?_⟩
  have hwritten : (!w.imports.isEmpty) = true := by simpa using List.ne_nil_of_mem hi
  have hlist := Item.value_of_field (i := .ofList (w.imports.map .ofText))
    (by simp +decide [Item.find?_fieldIf, Table.find?, hwritten]) himports
  obtain ⟨t, ht⟩ := Option.isSome_iff_exists.1 (Item.isSome_of_list? hlist i hi)
  exact (Item.text?_ofText_iff.1 ht).2

theorem WitBindings.readable_of_ofItem? {w w' : WitBindings} (h : ofItem? w.toItem = some w') : w.Readable := by
  have hfields : w.toItem.fields? [utf8 "exports", utf8 "module"]
      = some [(utf8 "module", .ofText w.module), (utf8 "exports", .ofText w.exports)] :=
    Item.fields?_ofEntries [utf8 "module", utf8 "exports"] (.refl _) (by decide) (by decide) (by decide)
  rw [ofItem?, hfields, Option.bind_eq_bind, Option.bind_some] at h
  obtain ⟨exports, hexports, h⟩ := Option.bind_eq_some_iff.1 h
  obtain ⟨module, hmodule, -⟩ := Option.bind_eq_some_iff.1 h
  exact ⟨Item.valid_of_field rfl hexports, Item.valid_of_field rfl hmodule⟩

namespace Binding

theorem find?_dialects (x : Binding) : Table.find? (utf8 "wai") x.dialects = x.wai.map WaiBindings.toItem ∧
    Table.find? (utf8 "wit") x.dialects = x.wit.map WitBindings.toItem := by
  obtain ⟨-, -, wai, wit⟩ := x
  cases wai <;> cases wit <;> simp +decide [dialects, Table.find?]

theorem readable_of_ofItem? {x x' : Binding} (h : ofItem? x.toItem = some x') : x.Readable := by
  have hfields : x.toItem.fields? [utf8 "name", utf8 "kind", utf8 "annotations"]
      = some [(utf8 "kind", .ofText x.kind), (utf8 "name", .ofText x.name),
        (utf8 "annotations", .ofEntries x.dialects)] :=
    Item.fields?_ofEntries [utf8 "kind", utf8 "name", utf8 "annotations"] (.refl _) (by decide) (by decide)
      (by decide)
  rw [ofItem?, hfields, Option.bind_eq_bind, Option.bind_some] at h
  obtain ⟨name, hname, h⟩ := Option.bind_eq_some_iff.1 h
  obtain ⟨kind, hkind, h⟩ := Option.bind_eq_some_iff.1 h
  obtain ⟨dialects, hdialects, -⟩ := Option.bind_eq_some_iff.1 h
  have hread : dialectsOfItem? (.ofEntries x.dialects) = some dialects := Item.value_of_field rfl hdialects
  rw [dialectsOfItem?, fields?_dialects, Option.bind_eq_bind, Option.bind_some] at hread
  obtain ⟨wai, hwai, hread⟩ := Option.bind_eq_some_iff.1 hread
  obtain ⟨wit, hwit, -⟩ := Option.bind_eq_some_iff.1 hread
  obtain ⟨hfindWai, hfindWit⟩ := x.find?_dialects
  refine ⟨Item.valid_of_field rfl hname, Item.valid_of_field rfl hkind, fun w hw => ?_, fun w hw => ?_⟩
  · rw [Option.mem_def.1 hw] at hfindWai
    obtain ⟨w', hw'⟩ := Item.exists_of_optional? rfl (Item.value_of_field hfindWai hwai)
    exact WaiBindings.readable_of_ofItem? hw'
  · rw [Option.mem_def.1 hw] at hfindWit
    obtain ⟨w', hw'⟩ := Item.exists_of_optional? rfl (Item.value_of_field hfindWit hwit)
    exact WitBindings.readable_of_ofItem? hw'

end Binding

/-! ## Volumes -/

theorem Volume.fits_of_spelled {v w : Volume} (hroot : ∀ n ∈ v.root, n.Each (Node.Sound v.data.length))
    (hlen : v.encode.length < 2 ^ 64) (h : w.Spelled .standard v.encode) : v.fits = true := by
  by_cases hempty : v.root.isEmpty = true
  · rw [Volume.fits, List.isEmpty_iff.1 hempty]
    rfl
  · rw [encode, if_neg hempty] at h hlen
    rw [List.length_append, Frame.length_encode, Frame.length_encode] at hlen
    obtain ⟨index, hindex, -, hraw, hread⟩ := h.frames
    obtain ⟨rfl, -⟩ := Frame.encode_append_inj (by omega) hindex hraw
    have hcanonical : Canonical (Node.listItem v.root) := Node.canonical_listItem (by omega) hroot
    obtain ⟨-, hnodes⟩ := hread.resolve_left fun h => by
      have hpos := hcanonical.length_encode_pos
      simp [h.1] at hpos
    obtain ⟨i, hi, -⟩ := Option.bind_eq_some_iff.1 hnodes
    exact ((parse_encode_iff hcanonical (by omega)).1 hi).2

/-! ## Builders -/

namespace Builder

/-- The tables of a builder are in order, and its commands are those of atoms. -/
structure Arranged (b : Builder) : Prop where
  atoms : Table.Ordered b.atoms
  volumes : Table.Ordered b.volumes
  files : ∀ e ∈ b.volumes, Table.Ordered e.2
  commands : Table.Ordered b.commands
  specs : ∀ e ∈ b.commands, ∃ a, e.2 = commandSpec b.note.name a

theorem arranged_new (name version : Bytes) : (new name version).Arranged :=
  ⟨.nil, .nil, List.forall_mem_nil _, .nil, List.forall_mem_nil _⟩

/-- A call keeps the tables of a builder in order. -/
theorem Arranged.apply {b : Builder} (h : b.Arranged) : ∀ c : Call, (c.apply b).Arranged
  | .atom n wasm => { h with atoms := Table.ordered_insert n wasm h.atoms }
  | .file v p d =>
    { h with
      volumes := Table.ordered_insert v _ h.volumes
      files := fun e he => by
        rcases Table.mem_insert he with rfl | he
        · refine Table.ordered_insert p d ?_
          cases hv : b.volumes.find? v with
          | none => exact .nil
          | some files => exact h.files _ (Table.mem_of_find? hv)
        · exact h.files e he }
  | .command n a =>
    { h with
      commands := Table.ordered_insert n _ h.commands
      specs := fun e he => by
        rcases Table.mem_insert he with rfl | he
        · exact ⟨a, rfl⟩
        · exact h.specs e he }
  | .description _ | .wai _ _ _ | .wit _ _ _ | .flat _ | .checksum _ => { h with }

theorem Arranged.foldl : ∀ {calls : List Call} {b : Builder}, b.Arranged → (calls.foldl Call.apply b).Arranged
  | [], _, h => h
  | c :: _, _, h => (h.apply c).foldl

theorem arranged_run (name version : Bytes) (calls : List Call) : (run name version calls).Arranged :=
  (arranged_new name version).foldl

theorem readable_commandSpec (package atom : Bytes) : (commandSpec package atom).Readable where
  runner := valid_wasiRunner
  ordered := List.pairwise_singleton _ _
  annotations e he := by
    obtain rfl := List.mem_singleton.1 he
    exact ⟨valid_runKey, rfl⟩

theorem canonical_commandSpec (package atom : Bytes) :
    ∀ e ∈ (commandSpec package atom).annotations, Canonical e.2 := by
  intro e he
  obtain rfl := List.mem_singleton.1 he
  exact RunNote.canonical_toItem _

/-- What the frames of the container hold. -/
def parts (b : Builder) : Parts where
  manifest := b.manifest.toItem.encode
  atoms := (Volume.ofFiles true b.atoms).encode
  volumes := b.packed.map fun e => (e.1, e.2.encode)

theorem body_parts (b : Builder) : b.parts.body = b.body := by
  rw [body_eq, Parts.body, Parts.named, parts, List.flatMap_map]

theorem measured_parts {b : Builder} (h : b.encode.length < 2 ^ 64) : b.parts.Measured := by
  obtain ⟨hmanifest, hatoms, hvolumes⟩ := length_parts h
  exact ⟨hmanifest, hatoms, List.forall_mem_map.2 hvolumes⟩

theorem sealed_encode (b : Builder) : Container.Sealed .standard b.encode b.body := by
  obtain ⟨tag, sum, htag, hsum, hcheck, hencode⟩ := b.encode_eq
  refine ⟨tag, sum, htag, hsum, hcheck.imp_left fun h => ⟨h.1, h.2.symm⟩, ?_⟩
  rw [hencode, ← List.append_assoc (Container.magic ++ Container.version)]

/-- The container that is built is spelled by the builder's own parts. -/
theorem spells_of_build {b : Builder} {c : Container} (hlen : b.encode.length < 2 ^ 64) (h : b.build = .ok c) :
    Container.Spells .standard b.encode b.parts c := by
  obtain ⟨p, hspells⟩ := Container.parse_eq_ok.1 h
  have hbody : p.body = b.parts.body := by
    rw [body_parts]
    exact hspells.header.body_unique b.sealed_encode
  obtain rfl := Parts.body_inj hspells.measured (measured_parts hlen) hbody
  exact hspells

theorem canonical_manifest {b : Builder} (h : b.Arranged) : Canonical b.manifest.toItem := by
  refine Manifest.canonical_toItem (fun e he => ?_) fun e he => ?_
  · obtain rfl := List.mem_singleton.1 he
    exact b.note.canonical_toItem
  · obtain ⟨a, ha⟩ := h.specs e he
    exact ha ▸ canonical_commandSpec b.note.name a

/-- A manifest that is read back has names and references in UTF-8. -/
theorem readable_manifest {b : Builder} (h : b.Arranged) {m : Manifest}
    (hread : Manifest.ofItem? b.manifest.toItem = some m) : b.manifest.Readable := by
  rw [Manifest.ofItem?, Manifest.fields?_toItem, Option.bind_eq_bind, Option.bind_some] at hread
  obtain ⟨package, -, hread⟩ := Option.bind_eq_some_iff.1 hread
  obtain ⟨atoms, hatoms, hread⟩ := Option.bind_eq_some_iff.1 hread
  obtain ⟨commands, hcommands, hread⟩ := Option.bind_eq_some_iff.1 hread
  obtain ⟨bindings, hbindings, -⟩ := Option.bind_eq_some_iff.1 hread
  have hatomNames := Item.valid_of_tableIf (t := b.manifest.atoms) (f := fun e => e.2.toItem)
    (by simp +decide [Table.find?_append, Item.find?_fieldIf]) hatoms
  have hcommandNames := Item.valid_of_tableIf (t := b.manifest.commands) (f := fun e => e.2.toItem)
    (by simp +decide [Table.find?_append, Item.find?_fieldIf]) hcommands
  exact
    { packageOrdered := List.pairwise_singleton _ _
      package := fun e he => by
        obtain rfl := List.mem_singleton.1 he
        exact ⟨valid_noteKey, rfl⟩
      atomsOrdered := h.atoms.map_values fun e => signature e.2
      atoms := fun e he => by
        obtain ⟨a, -, rfl⟩ := List.mem_map.1 he
        exact ⟨hatomNames _ he, readable_signature a.2⟩
      commandsOrdered := h.commands
      commands := fun e he => by
        obtain ⟨a, ha⟩ := h.specs e he
        exact ⟨hcommandNames e he, ha ▸ readable_commandSpec b.note.name a⟩
      bindings := fun x hx => by
        have hwritten : (!b.manifest.bindings.isEmpty) = true := by simpa using List.ne_nil_of_mem hx
        have hlist := Item.value_of_field (i := .ofList (b.manifest.bindings.map Binding.toItem))
          (by simp +decide [Table.find?_append, Item.find?_fieldIf, hwritten]) hbindings
        obtain ⟨x', hx'⟩ := Option.isSome_iff_exists.1 (Item.isSome_of_list? hlist x hx)
        exact Binding.readable_of_ofItem? hx' }

/-- A container that is built has a manifest within the limits, with its texts in UTF-8. -/
theorem readable_of_build {b : Builder} (h : b.Arranged) {c : Container} (hlen : b.encode.length < 2 ^ 64)
    (hbuild : b.build = .ok c) : b.manifest.Readable ∧ b.note.Readable ∧ b.manifest.toItem.fits 0 = true := by
  have hspells := spells_of_build hlen hbuild
  obtain ⟨i, hi, hread⟩ := Option.bind_eq_some_iff.1 hspells.manifest
  obtain ⟨rfl, hfits⟩ := (parse_encode_iff (canonical_manifest h) (length_parts hlen).1).1 hi
  have hmanifest := readable_manifest h hread
  rw [Manifest.ofItem?_toItem hmanifest] at hread
  have hid := hspells.id
  rw [← Option.some.inj hread] at hid
  obtain ⟨note, hnote⟩ := Option.isSome_iff_exists.1 (Container.exists_idOf_iff.1 ⟨c.id, hid⟩ b.note.toItem
    (by simp [Builder.manifest, Table.find?]))
  exact ⟨hmanifest, PackageNote.readable_of_ofItem? hnote, hfits⟩

/-- A builder whose container is read back is in a good state, when its paths are in UTF-8. -/
theorem sound_of_build {b : Builder} (h : b.Arranged) (hpaths : ∀ e ∈ b.volumes, ∀ f ∈ e.2, valid f.1 = true)
    {c : Container} (hlen : b.encode.length < 2 ^ 64) (hbuild : b.build = .ok c) : b.Sound ∧ b.fits = true := by
  obtain ⟨hmanifest, hnote, hfits⟩ := readable_of_build h hlen hbuild
  have hspells := spells_of_build hlen hbuild
  have hsound : b.Sound :=
    { note := hnote
      atomsOrdered := h.atoms
      atoms := fun e he => (hmanifest.atoms _ (List.mem_map_of_mem he)).1
      volumesOrdered := h.volumes
      files := fun e he => ⟨h.files e he, hpaths e he⟩
      commandsOrdered := h.commands
      commands := fun e he => by
        obtain ⟨a, ha⟩ := h.specs e he
        exact ⟨(hmanifest.commands e he).1, (hmanifest.commands e he).2, ha ▸ canonical_commandSpec b.note.name a⟩
      bindings := hmanifest.bindings }
  refine ⟨hsound, ?_⟩
  simp only [fits, Bool.and_eq_true, List.all_eq_true]
  refine ⟨⟨hfits, ?_⟩, fun e he => ?_⟩
  · exact Volume.fits_of_spelled (Volume.ofFiles_sound hsound.atoms) (length_parts hlen).2.1 hspells.atoms
  · have hpacked : (e.1, Volume.ofFiles b.flat e.2) ∈ b.packed := List.mem_map_of_mem he
    obtain ⟨vs, hvs, -⟩ := hspells.volumes
    obtain ⟨w, hw⟩ := exists_forall₂_iff.1 ⟨vs, hvs⟩ _ (List.mem_map_of_mem hpacked)
    exact Volume.fits_of_spelled (Volume.ofFiles_sound (hsound.files e he).2) ((length_parts hlen).2.2 _ hpacked).2
      hw.2

/-- **When a container is built.** After any calls that put files at paths in UTF-8, the
container is built just when all its texts are in UTF-8 and its manifest and indexes are
within the limits of the reader; it is then the one that the builder describes. -/
theorem build_eq_ok {name version : Bytes} {calls : List Call} {c : Container}
    (hlen : (run name version calls).encode.length < 2 ^ 64)
    (hpaths : ∀ v p d, .file v p d ∈ calls → valid p = true) :
    (run name version calls).build = .ok c ↔
      (run name version calls).Sound ∧ (run name version calls).fits = true ∧
        c = (run name version calls).container := by
  constructor
  · intro hbuild
    have harranged := arranged_run name version calls
    have hfiles : ∀ e ∈ (run name version calls).volumes, ∀ f ∈ e.2, valid f.1 = true := by
      intro e he f hf
      refine hpaths e.1 f.1 f.2 (mem_of_lastFile ?_)
      rw [← fileAt_run name version, fileAt, Table.find?_of_mem harranged.volumes he, Option.bind_some,
        Table.find?_of_mem (harranged.files e he) hf]
    obtain ⟨hsound, hfits⟩ := sound_of_build harranged hfiles hlen hbuild
    rw [build_eq hsound hfits hlen] at hbuild
    exact ⟨hsound, hfits, (Except.ok.inj hbuild).symm⟩
  · rintro ⟨hsound, hfits, rfl⟩
    exact build_eq hsound hfits hlen

end Builder

end Bindery
