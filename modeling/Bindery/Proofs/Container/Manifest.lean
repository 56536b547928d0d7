/-
A manifest is read back from its stored form. Each record is stored under fixed names,
with fields left out that are empty; reading finds the fields by name and fills in the
empty ones again.
-/
import Bindery.Container.Manifest
import Bindery.Proofs.Cbor.Records

namespace Bindery

open Cbor
open Utf8 (valid)

/-! ## Notes and signatures -/

namespace PackageNote

/-- The texts of a note are in UTF-8. -/
structure Readable (n : PackageNote) : Prop where
  name : valid n.name = true
  version : valid n.version = true
  description : valid n.description = true

theorem fields?_toItem (n : PackageNote) :
    n.toItem.fields? [utf8 "name", utf8 "version", utf8 "description"]
      = some ([(utf8 "name", .ofText n.name), (utf8 "version", .ofText n.version)]
        ++ Item.fieldIf (!n.description.isEmpty) "description" (.ofText n.description)) := by
  refine Item.fields?_ofEntries [utf8 "name", utf8 "version", utf8 "description"] ?_ ?_ ?_ ?_
  · rw [List.map_append]
    exact .append (.refl _) (Item.fieldIf_sublist _ _ _)
  all_goals decide

theorem ofItem?_toItem {n : PackageNote} (h : n.Readable) : ofItem? n.toItem = some n := by
  rw [ofItem?, fields?_toItem]
  simp only [Option.bind_eq_bind, Option.bind_some]
  rw [Item.field_stored rfl (Item.text?_ofText h.name), Item.field_stored rfl (Item.text?_ofText h.version),
    Item.field_storedIf (!n.description.isEmpty) (by simp +decide [Item.find?_fieldIf, Table.find?]) (by simp)
      fun _ => Item.text?_ofText h.description]
  rfl

theorem canonical_toItem (n : PackageNote) : Canonical n.toItem := by
  refine .entries (List.forall_mem_append.2 ⟨?_, Item.forall_mem_fieldIf.2 fun _ => .text _⟩)
  simp [Canonical.text]

end PackageNote

namespace RunNote

/-- The texts of a note are in UTF-8. -/
structure Readable (n : RunNote) : Prop where
  atom : valid n.atom = true
  package : valid n.package = true
  mainArgs : valid n.mainArgs = true

theorem fields?_toItem (n : RunNote) :
    n.toItem.fields? [utf8 "atom", utf8 "package", utf8 "main_args"]
      = some ([(utf8 "atom", .ofText n.atom)] ++ Item.fieldIf (!n.package.isEmpty) "package" (.ofText n.package)
        ++ Item.fieldIf (!n.mainArgs.isEmpty) "main_args" (.ofText n.mainArgs)) := by
  refine Item.fields?_ofEntries [utf8 "atom", utf8 "package", utf8 "main_args"] ?_ ?_ ?_ ?_
  · rw [List.map_append, List.map_append]
    exact .append (.append (.refl _) (Item.fieldIf_sublist _ _ _)) (Item.fieldIf_sublist _ _ _)
  all_goals decide

theorem ofItem?_toItem {n : RunNote} (h : n.Readable) : ofItem? n.toItem = some n := by
  rw [ofItem?, fields?_toItem]
  simp only [Option.bind_eq_bind, Option.bind_some]
  rw [Item.field_stored (by simp +decide [Table.find?]) (Item.text?_ofText h.atom),
    Item.field_storedIf (!n.package.isEmpty)
      (by simp +decide [Item.find?_fieldIf, Table.find?, Table.find?_append]) (by simp)
      fun _ => Item.text?_ofText h.package,
    Item.field_storedIf (!n.mainArgs.isEmpty)
      (by simp +decide [Item.find?_fieldIf, Table.find?, Table.find?_append]) (by simp)
      fun _ => Item.text?_ofText h.mainArgs]
  rfl

theorem canonical_toItem (n : RunNote) : Canonical n.toItem := by
  refine .entries (List.forall_mem_append.2 ⟨List.forall_mem_append.2 ⟨?_, ?_⟩, ?_⟩)
  · simp [Canonical.text]
  · exact Item.forall_mem_fieldIf.2 fun _ => .text _
  · exact Item.forall_mem_fieldIf.2 fun _ => .text _

end RunNote

namespace AtomSignature

structure Readable (s : AtomSignature) : Prop where
  kind : valid s.kind = true
  signature : valid s.signature = true

theorem ofItem?_toItem {s : AtomSignature} (h : s.Readable) : ofItem? s.toItem = some s := by
  have hfields : s.toItem.fields? [utf8 "kind", utf8 "signature"]
      = some [(utf8 "kind", .ofText s.kind), (utf8 "signature", .ofText s.signature)] :=
    Item.fields?_ofEntries [utf8 "kind", utf8 "signature"] (.refl _) (by decide) (by decide) (by decide)
  rw [ofItem?, hfields]
  simp only [Option.bind_eq_bind, Option.bind_some]
  rw [Item.field_stored rfl (Item.text?_ofText h.kind), Item.field_stored rfl (Item.text?_ofText h.signature)]
  rfl

theorem canonical_toItem (s : AtomSignature) : Canonical s.toItem :=
  .entries (by simp [Canonical.text])

end AtomSignature

/-! ## Commands -/

namespace CommandSpec

/-- The texts of a command are in UTF-8, and its annotations are kept as they come. -/
structure Readable (c : CommandSpec) : Prop where
  runner : valid c.runner = true
  ordered : Table.Ordered c.annotations
  annotations : ∀ e ∈ c.annotations, valid e.1 = true ∧ e.2.kept? = some e.2

theorem fields?_toItem (c : CommandSpec) :
    c.toItem.fields? [utf8 "runner", utf8 "annotations"]
      = some ([(utf8 "runner", .ofText c.runner)]
        ++ Item.fieldIf (!c.annotations.isEmpty) "annotations" (.ofTable c.annotations)) := by
  refine Item.fields?_ofEntries [utf8 "runner", utf8 "annotations"] ?_ ?_ ?_ ?_
  · rw [List.map_append]
    exact .append (.refl _) (Item.fieldIf_sublist _ _ _)
  all_goals decide

theorem ofItem?_toItem {c : CommandSpec} (h : c.Readable) : ofItem? c.toItem = some c := by
  have htable : (Item.ofTable c.annotations).table? Item.kept? = some c.annotations := by
    simpa using Item.table?_ofTable (g := (·.2)) h.ordered h.annotations
  rw [ofItem?, fields?_toItem]
  simp only [Option.bind_eq_bind, Option.bind_some]
  rw [Item.field_stored rfl (Item.text?_ofText h.runner),
    Item.field_storedIf (!c.annotations.isEmpty) (by simp +decide [Item.find?_fieldIf, Table.find?]) (by simp)
      fun _ => htable]
  rfl

theorem canonical_toItem {c : CommandSpec} (h : ∀ e ∈ c.annotations, Canonical e.2) : Canonical c.toItem := by
  refine .entries (List.forall_mem_append.2 ⟨?_, Item.forall_mem_fieldIf.2 fun _ => Item.canonical_ofTable h⟩)
  simp [Canonical.text]

end CommandSpec

/-! ## Bindings -/

namespace WaiBindings

structure Readable (b : WaiBindings) : Prop where
  exports : valid b.exports = true
  module : valid b.module = true
  imports : ∀ i ∈ b.imports, valid i = true

instance (b : WaiBindings) : Decidable b.Readable :=
  decidable_of_iff (valid b.exports = true ∧ valid b.module = true ∧ ∀ i ∈ b.imports, valid i = true)
    ⟨fun h => ⟨h.1, h.2.1, h.2.2⟩, fun h => ⟨h.exports, h.module, h.imports⟩⟩

theorem fields?_toItem (b : WaiBindings) :
    b.toItem.fields? [utf8 "exports", utf8 "module", utf8 "imports"]
      = some ([(utf8 "module", .ofText b.module), (utf8 "exports", .ofText b.exports)]
        ++ Item.fieldIf (!b.imports.isEmpty) "imports" (.ofList (b.imports.map .ofText))) := by
  refine Item.fields?_ofEntries [utf8 "module", utf8 "exports", utf8 "imports"] ?_ ?_ ?_ ?_
  · rw [List.map_append]
    exact .append (.refl _) (Item.fieldIf_sublist _ _ _)
  all_goals decide

theorem ofItem?_toItem {b : WaiBindings} (h : b.Readable) : ofItem? b.toItem = some b := by
  rw [ofItem?, fields?_toItem]
  simp only [Option.bind_eq_bind, Option.bind_some]
  rw [Item.field_stored rfl (Item.text?_ofText h.exports), Item.field_stored rfl (Item.text?_ofText h.module),
    Item.field_storedIf (!b.imports.isEmpty) (by simp +decide [Item.find?_fieldIf, Table.find?]) (by simp)
      fun _ => Item.list?_ofList fun i hi => Item.text?_ofText (h.imports i hi)]
  rfl

theorem canonical_toItem (b : WaiBindings) : Canonical b.toItem := by
  refine .entries (List.forall_mem_append.2 ⟨?_, Item.forall_mem_fieldIf.2 fun _ => ?_⟩)
  · simp [Canonical.text]
  · exact Item.canonical_list fun s _ => .text s

end WaiBindings

namespace WitBindings

structure Readable (b : WitBindings) : Prop where
  exports : valid b.exports = true
  module : valid b.module = true

instance (b : WitBindings) : Decidable b.Readable :=
  decidable_of_iff (valid b.exports = true ∧ valid b.module = true)
    ⟨fun h => ⟨h.1, h.2⟩, fun h => ⟨h.exports, h.module⟩⟩

theorem ofItem?_toItem {b : WitBindings} (h : b.Readable) : ofItem? b.toItem = some b := by
  have hfields : b.toItem.fields? [utf8 "exports", utf8 "module"]
      = some [(utf8 "module", .ofText b.module), (utf8 "exports", .ofText b.exports)] :=
    Item.fields?_ofEntries [utf8 "module", utf8 "exports"] (.refl _) (by decide) (by decide) (by decide)
  rw [ofItem?, hfields]
  simp only [Option.bind_eq_bind, Option.bind_some]
  rw [Item.field_stored rfl (Item.text?_ofText h.exports), Item.field_stored rfl (Item.text?_ofText h.module)]
  rfl

theorem canonical_toItem (b : WitBindings) : Canonical b.toItem := .entries (by simp [Canonical.text])

end WitBindings

namespace Binding

structure Readable (b : Binding) : Prop where
  name : valid b.name = true
  kind : valid b.kind = true
  wai : ∀ w ∈ b.wai, w.Readable
  wit : ∀ w ∈ b.wit, w.Readable

theorem fields?_dialects (b : Binding) :
    (Item.ofEntries b.dialects).fields? [utf8 "wai", utf8 "wit"] = some b.dialects := by
  refine Item.fields?_ofEntries [utf8 "wai", utf8 "wit"] ?_ (by decide) (by decide) (by decide)
  obtain ⟨-, -, wai, wit⟩ := b
  cases wai <;> cases wit <;> simp [dialects]

theorem dialectsOfItem?_dialects {b : Binding} (h : b.Readable) :
    dialectsOfItem? (.ofEntries b.dialects) = some (b.wai, b.wit) := by
  rw [dialectsOfItem?, fields?_dialects]
  obtain ⟨name, kind, wai, wit⟩ := b
  have hwai : ∀ w ∈ wai, Item.optional? WaiBindings.ofItem? w.toItem = some (some w) :=
    fun w hw => Item.optional?_eq_some rfl (WaiBindings.ofItem?_toItem (h.wai w hw))
  have hwit : ∀ w ∈ wit, Item.optional? WitBindings.ofItem? w.toItem = some (some w) :=
    fun w hw => Item.optional?_eq_some rfl (WitBindings.ofItem?_toItem (h.wit w hw))
  cases wai <;> cases wit <;> simp_all +decide [dialects, Item.field, Table.find?]

theorem ofItem?_toItem {b : Binding} (h : b.Readable) : ofItem? b.toItem = some b := by
  have hfields : b.toItem.fields? [utf8 "name", utf8 "kind", utf8 "annotations"]
      = some [(utf8 "kind", .ofText b.kind), (utf8 "name", .ofText b.name),
        (utf8 "annotations", .ofEntries b.dialects)] :=
    Item.fields?_ofEntries [utf8 "kind", utf8 "name", utf8 "annotations"] (.refl _) (by decide) (by decide)
      (by decide)
  rw [ofItem?, hfields]
  simp only [Option.bind_eq_bind, Option.bind_some]
  rw [Item.field_stored rfl (Item.text?_ofText h.name), Item.field_stored rfl (Item.text?_ofText h.kind),
    Item.field_stored rfl (dialectsOfItem?_dialects h)]
  rfl

theorem canonical_toItem (b : Binding) : Canonical b.toItem := by
  have hdialects : Canonical (.ofEntries b.dialects) := by
    refine .entries ?_
    obtain ⟨-, -, wai, wit⟩ := b
    cases wai <;> cases wit <;> simp [dialects, WaiBindings.canonical_toItem, WitBindings.canonical_toItem]
  exact .entries (by simp [Canonical.text, hdialects])

end Binding

/-! ## Manifests -/

namespace Manifest

/-- The texts of a manifest are in UTF-8, its tables are in order, and its annotations are
kept as they come. -/
structure Readable (m : Manifest) : Prop where
  packageOrdered : Table.Ordered m.package
  package : ∀ e ∈ m.package, valid e.1 = true ∧ e.2.kept? = some e.2
  atomsOrdered : Table.Ordered m.atoms
  atoms : ∀ e ∈ m.atoms, valid e.1 = true ∧ e.2.Readable
  commandsOrdered : Table.Ordered m.commands
  commands : ∀ e ∈ m.commands, valid e.1 = true ∧ e.2.Readable
  bindings : ∀ b ∈ m.bindings, b.Readable

theorem fields?_toItem (m : Manifest) :
    m.toItem.fields? [utf8 "package", utf8 "atoms", utf8 "commands", utf8 "bindings"]
      = some (Item.fieldIf (!m.atoms.isEmpty) "atoms" (.ofTable (m.atoms.map fun e => (e.1, e.2.toItem)))
        ++ Item.fieldIf (!m.package.isEmpty) "package" (.ofTable m.package)
        ++ Item.fieldIf (!m.bindings.isEmpty) "bindings" (.ofList (m.bindings.map Binding.toItem))
        ++ Item.fieldIf (!m.commands.isEmpty) "commands"
          (.ofTable (m.commands.map fun e => (e.1, e.2.toItem)))) := by
  refine Item.fields?_ofEntries [utf8 "atoms", utf8 "package", utf8 "bindings", utf8 "commands"] ?_ ?_ ?_ ?_
  · rw [List.map_append, List.map_append, List.map_append]
    exact (((Item.fieldIf_sublist _ _ _).append (Item.fieldIf_sublist _ _ _)).append
      (Item.fieldIf_sublist _ _ _)).append (Item.fieldIf_sublist _ _ _)
  all_goals decide

/-- **A manifest is read back from its stored form.** -/
theorem ofItem?_toItem {m : Manifest} (h : m.Readable) : ofItem? m.toItem = some m := by
  have hpackage : (Item.ofTable m.package).table? Item.kept? = some m.package := by
    simpa using Item.table?_ofTable (g := (·.2)) h.packageOrdered h.package
  have hatoms : (Item.ofTable (m.atoms.map fun e => (e.1, e.2.toItem))).table? AtomSignature.ofItem? = some m.atoms :=
    Item.table?_ofTable h.atomsOrdered fun e he =>
      ⟨(h.atoms e he).1, AtomSignature.ofItem?_toItem (h.atoms e he).2⟩
  have hcommands : (Item.ofTable (m.commands.map fun e => (e.1, e.2.toItem))).table? CommandSpec.ofItem?
      = some m.commands :=
    Item.table?_ofTable h.commandsOrdered fun e he =>
      ⟨(h.commands e he).1, CommandSpec.ofItem?_toItem (h.commands e he).2⟩
  have hbindings : (Item.ofList (m.bindings.map Binding.toItem)).list? Binding.ofItem? = some m.bindings :=
    Item.list?_ofList fun b hb => Binding.ofItem?_toItem (h.bindings b hb)
  rw [ofItem?, fields?_toItem]
  simp only [Option.bind_eq_bind, Option.bind_some]
  rw [Item.field_storedIf (!m.package.isEmpty)
      (by simp +decide [Table.find?_append, Item.find?_fieldIf]) (by simp) fun _ => hpackage,
    Item.field_storedIf (!m.atoms.isEmpty)
      (by simp +decide [Table.find?_append, Item.find?_fieldIf]) (by simp) fun _ => hatoms,
    Item.field_storedIf (!m.commands.isEmpty)
      (by simp +decide [Table.find?_append, Item.find?_fieldIf]) (by simp) fun _ => hcommands,
    Item.field_storedIf (!m.bindings.isEmpty)
      (by simp +decide [Table.find?_append, Item.find?_fieldIf]) (by simp) fun _ => hbindings]
  rfl

theorem canonical_toItem {m : Manifest} (hpackage : ∀ e ∈ m.package, Canonical e.2)
    (hcommands : ∀ e ∈ m.commands, ∀ a ∈ e.2.annotations, Canonical a.2) : Canonical m.toItem := by
  refine .entries (List.forall_mem_append.2
    ⟨List.forall_mem_append.2 ⟨List.forall_mem_append.2 ⟨?_, ?_⟩, ?_⟩, ?_⟩)
  · refine Item.forall_mem_fieldIf.2 fun _ => Item.canonical_ofTable (List.forall_mem_map.2 fun e _ => ?_)
    exact e.2.canonical_toItem
  · exact Item.forall_mem_fieldIf.2 fun _ => Item.canonical_ofTable hpackage
  · exact Item.forall_mem_fieldIf.2 fun _ => Item.canonical_list fun b _ => b.canonical_toItem
  · refine Item.forall_mem_fieldIf.2 fun _ => Item.canonical_ofTable (List.forall_mem_map.2 fun e he => ?_)
    exact CommandSpec.canonical_toItem (hcommands e he)

end Manifest

end Bindery
