/-
Packing as calls on a builder. A package file is packed just when it is complete and every
file it names can be read, and then by one call for the description, for each module the
calls for its octets, its interface files and its bindings, and one call for each command
(`pack_eq_ok`). Of modules or commands with one name the last one counts, as it does for
the calls.
-/
import Bindery.Package.Directory
import Bindery.Proofs.Container.Calls
import Bindery.Proofs.Outcome

namespace Bindery

open Builder (Call)

namespace PackageFile

/-- The reference to an interface file that was packed. -/
def reference (rel : Bytes) : Bytes := Builder.metadataVolume ++ utf8 "://" ++ SlashPath.clean rel

/-- The call that packs an interface file; `data` gives the contents of files. -/
def fileCall (data : Bytes → Bytes) (rel : Bytes) : Call :=
  .file Builder.metadataVolume (SlashPath.clean rel) (data rel)

end PackageFile

open PackageFile (reference fileCall)

namespace BindingsEntry

/-- The interface file that the module implements. -/
def exported (bs : BindingsEntry) : Bytes := if !bs.waiVersion.isEmpty then bs.exports else bs.witExports

/-- The interface files that the module asks for. Only the first generation of bindings has any. -/
def imported (bs : BindingsEntry) : List Bytes := if !bs.waiVersion.isEmpty then bs.imports else []

/-- The interface files of the bindings. -/
def interfaces (bs : BindingsEntry) : List Bytes := bs.exported :: bs.imported

/-- The call that binds interfaces to a module. -/
def call (bs : BindingsEntry) (name : Bytes) : Call :=
  let module := utf8 "atoms://" ++ name
  if !bs.waiVersion.isEmpty then
    .wai Builder.bindingName bs.waiVersion
      { exports := reference bs.exported, module, imports := bs.imported.map reference }
  else .wit Builder.bindingName bs.witBindgen { exports := reference bs.exported, module }

/-- The calls that pack the interface files and bind them to a module. -/
def calls (data : Bytes → Bytes) (bs : BindingsEntry) (name : Bytes) : List Call :=
  bs.interfaces.map (fileCall data) ++ [bs.call name]

end BindingsEntry

/-- The calls that pack a module. -/
def ModuleEntry.calls (data : Bytes → Bytes) (m : ModuleEntry) : List Call :=
  .atom m.name (data m.source) :: match m.bindings with
    | none => []
    | some bs => bs.calls data m.name

namespace PackageFile

/-- The calls that pack everything a package file names. -/
def calls (data : Bytes → Bytes) (f : PackageFile) : List Call :=
  .description f.description :: (f.modules.flatMap (ModuleEntry.calls data)
    ++ f.commands.map fun c => .command c.name c.module)

/-! ## When a package file is packed -/

variable {read : Bytes → Except Report Bytes} {b b' : Builder}

/-- The contents of a file, empty when it cannot be read. -/
def contents (read : Bytes → Except Report Bytes) (rel : Bytes) : Bytes := (read rel).toOption.getD []

/-- A file that can be read. -/
def Found (read : Bytes → Except Report Bytes) (rel : Bytes) : Prop := read rel = .ok (contents read rel)

theorem read_eq_ok {rel d : Bytes} (h : read rel = .ok d) : Found read rel ∧ d = contents read rel := by
  have hd : contents read rel = d := by rw [contents, h]; rfl
  exact ⟨by rw [Found, hd, h], hd.symm⟩

theorem pure_eq_ok {ε α : Type} {a b : α} : (pure a : Except ε α) = .ok b ↔ b = a := by
  rw [pure, Applicative.toPure]
  exact ⟨fun h => (Except.ok.inj h).symm, fun h => h ▸ rfl⟩

/-- The module has a name and a source, and its files can be read. -/
structure Complete (read : Bytes → Except Report Bytes) (m : ModuleEntry) : Prop where
  name : m.name ≠ []
  source : m.source ≠ []
  octets : Found read m.source
  bindings : ∀ bs ∈ m.bindings, (bs.waiVersion ≠ [] ∨ bs.witBindgen ≠ []) ∧
    ∀ rel ∈ bs.interfaces, Found read rel

/-- The package has a name and a version, its modules are complete, and its commands are
those of its modules. -/
structure Packable (read : Bytes → Except Report Bytes) (f : PackageFile) : Prop where
  name : f.name ≠ []
  version : f.version ≠ []
  modules : ∀ m ∈ f.modules, Complete read m
  commands : ∀ c ∈ f.commands, c.module ∈ f.modules.map (·.name)

theorem packInterface_eq_ok {rel ref : Bytes} : packInterface read b rel = .ok (b', ref) ↔
    Found read rel ∧ b' = (fileCall (contents read) rel).apply b ∧ ref = reference rel := by
  rw [packInterface, bind_eq_ok]
  constructor
  · rintro ⟨d, hread, h⟩
    obtain ⟨hfound, rfl⟩ := read_eq_ok hread
    obtain ⟨rfl, rfl⟩ := Prod.mk.inj (Except.ok.inj h)
    exact ⟨hfound, rfl, rfl⟩
  · rintro ⟨hfound, rfl, rfl⟩
    exact ⟨_, hfound, rfl⟩

theorem packInterfaces_eq_ok : ∀ {rels refs : List Bytes} {b b' : Builder},
    packInterfaces read b rels = .ok (b', refs) ↔ (∀ rel ∈ rels, Found read rel) ∧
      b' = (rels.map (fileCall (contents read))).foldl Call.apply b ∧ refs = rels.map reference
  | [], refs, b, b' => by simp [packInterfaces, eq_comm]
  | rel :: rels, refs, b, b' => by
    rw [packInterfaces, bind_eq_ok, List.forall_mem_cons]
    constructor
    · rintro ⟨⟨b₁, ref⟩, hfirst, h⟩
      obtain ⟨⟨b₂, refs'⟩, hrest, h⟩ := bind_eq_ok.1 h
      obtain ⟨hrel, rfl, rfl⟩ := packInterface_eq_ok.1 hfirst
      obtain ⟨hrels, rfl, rfl⟩ := packInterfaces_eq_ok.1 hrest
      obtain ⟨rfl, rfl⟩ := Prod.mk.inj (Except.ok.inj h)
      exact ⟨⟨hrel, hrels⟩, rfl, rfl⟩
    · rintro ⟨⟨hrel, hrels⟩, rfl, rfl⟩
      refine ⟨_, packInterface_eq_ok.2 ⟨hrel, rfl, rfl⟩, bind_eq_ok.2 ⟨_, packInterfaces_eq_ok.2 ⟨hrels, rfl, rfl⟩, ?_⟩⟩
      rfl

theorem packBindings_eq_ok {name : Bytes} {bs : BindingsEntry} : packBindings read b name bs = .ok b' ↔
    ((bs.waiVersion ≠ [] ∨ bs.witBindgen ≠ []) ∧ ∀ rel ∈ bs.interfaces, Found read rel) ∧
      b' = (bs.calls (contents read) name).foldl Call.apply b := by
  rw [packBindings, BindingsEntry.calls, List.foldl_append, BindingsEntry.interfaces, List.forall_mem_cons,
    List.map_cons, List.foldl_cons, BindingsEntry.call, BindingsEntry.exported, BindingsEntry.imported]
  by_cases hwai : bs.waiVersion.isEmpty = true
  · by_cases hwit : bs.witBindgen.isEmpty = true
    · have hneither : ¬(bs.waiVersion ≠ [] ∨ bs.witBindgen ≠ []) := by simp_all
      simp [hwai, hwit, hneither, throw, throwThe, MonadExceptOf.throw]
    · have hone : bs.waiVersion ≠ [] ∨ bs.witBindgen ≠ [] := .inr (by simpa using hwit)
      simp only [hwai, hwit, hone, Bool.not_true, Bool.not_false, Bool.false_eq_true, if_true, if_false, true_and,
        bind_eq_ok, Prod.exists, packInterface_eq_ok, pure_eq_ok]
      constructor
      · rintro ⟨b₁, ref, ⟨hfound, rfl, rfl⟩, rfl⟩
        exact ⟨⟨hfound, List.forall_mem_nil _⟩, rfl⟩
      · rintro ⟨⟨hfound, -⟩, rfl⟩
        exact ⟨_, _, ⟨hfound, rfl, rfl⟩, rfl⟩
  · have hone : bs.waiVersion ≠ [] ∨ bs.witBindgen ≠ [] := .inl (by simpa using hwai)
    simp only [hwai, hone, Bool.not_false, if_true, true_and, bind_eq_ok, Prod.exists, packInterface_eq_ok,
      packInterfaces_eq_ok, pure_eq_ok]
    constructor
    · rintro ⟨b₁, ref, ⟨hfound, rfl, rfl⟩, b₂, refs, ⟨hrels, rfl, rfl⟩, rfl⟩
      exact ⟨⟨hfound, hrels⟩, rfl⟩
    · rintro ⟨⟨hfound, hrels⟩, rfl⟩
      exact ⟨_, _, ⟨hfound, rfl, rfl⟩, _, _, ⟨hrels, rfl, rfl⟩, rfl⟩

/-- A fold whose every step makes some calls, when it can, makes them all. -/
theorem foldlM_eq_ok {α : Type} {f : Builder → α → Except Report Builder} {P : α → Prop} {g : α → List Call}
    (hstep : ∀ b a b', f b a = .ok b' ↔ P a ∧ b' = (g a).foldl Call.apply b) : ∀ {as : List α} {b b' : Builder},
    as.foldlM f b = .ok b' ↔ (∀ a ∈ as, P a) ∧ b' = (as.flatMap g).foldl Call.apply b
  | [], b, b' => by simp [eq_comm, pure, Except.pure]
  | a :: as, b, b' => by
    rw [List.foldlM_cons, bind_eq_ok, List.forall_mem_cons, List.flatMap_cons, List.foldl_append]
    constructor
    · rintro ⟨b₁, hfirst, hrest⟩
      obtain ⟨ha, rfl⟩ := (hstep _ _ _).1 hfirst
      obtain ⟨has, rfl⟩ := (foldlM_eq_ok hstep).1 hrest
      exact ⟨⟨ha, has⟩, rfl⟩
    · rintro ⟨⟨ha, has⟩, rfl⟩
      exact ⟨_, (hstep _ _ _).2 ⟨ha, rfl⟩, (foldlM_eq_ok hstep).2 ⟨has, rfl⟩⟩

theorem packModule_eq_ok {m : ModuleEntry} : packModule read b m = .ok b' ↔
    Complete read m ∧ b' = (m.calls (contents read)).foldl Call.apply b := by
  rw [packModule, ModuleEntry.calls, List.foldl_cons]
  by_cases hnamed : (m.name.isEmpty || m.source.isEmpty) = true
  · have hincomplete : ¬Complete read m := fun h => by simp [h.name, h.source] at hnamed
    simp [hnamed, hincomplete, throw, throwThe, MonadExceptOf.throw, bind, Except.bind]
  · obtain ⟨hname, hsource⟩ : m.name ≠ [] ∧ m.source ≠ [] := by simpa using hnamed
    rw [if_neg hnamed]
    dsimp only
    rw [bind_eq_ok]
    constructor
    · rintro ⟨wasm, hread, h⟩
      obtain ⟨hfound, rfl⟩ := read_eq_ok hread
      cases hbindings : m.bindings with
      | none =>
        rw [hbindings] at h
        exact ⟨⟨hname, hsource, hfound, by simp [hbindings]⟩, (Except.ok.inj h).symm⟩
      | some bs =>
        rw [hbindings] at h
        obtain ⟨hcomplete, rfl⟩ := packBindings_eq_ok.1 h
        exact ⟨⟨hname, hsource, hfound, by simpa [hbindings] using hcomplete⟩, rfl⟩
    · rintro ⟨hcomplete, rfl⟩
      refine ⟨_, hcomplete.octets, ?_⟩
      cases hbindings : m.bindings with
      | none => rfl
      | some bs => exact packBindings_eq_ok.2 ⟨hcomplete.bindings bs hbindings, rfl⟩

theorem packModules_eq_ok {ms : List ModuleEntry} : ms.foldlM (packModule read) b = .ok b' ↔
    (∀ m ∈ ms, Complete read m) ∧ b' = (ms.flatMap (ModuleEntry.calls (contents read))).foldl Call.apply b :=
  foldlM_eq_ok (f := packModule read) (P := Complete read) fun _ _ _ => packModule_eq_ok

theorem packCommand_eq_ok {modules : List Bytes} {c : CommandEntry} : packCommand modules b c = .ok b' ↔
    c.module ∈ modules ∧ b' = [Call.command c.name c.module].foldl Call.apply b := by
  rw [packCommand]
  by_cases hmodule : c.module ∈ modules
  · rw [if_pos (by simpa using hmodule)]
    simp [hmodule, Call.apply, eq_comm]
  · rw [if_neg (by simpa using hmodule)]
    simp [hmodule]

theorem packCommands_eq_ok {modules : List Bytes} {cs : List CommandEntry} :
    cs.foldlM (packCommand modules) b = .ok b' ↔ (∀ c ∈ cs, c.module ∈ modules) ∧
      b' = (cs.map fun c => Call.command c.name c.module).foldl Call.apply b := by
  rw [List.map_eq_flatMap]
  exact foldlM_eq_ok (f := packCommand modules) (P := fun c => c.module ∈ modules) fun _ _ _ => packCommand_eq_ok

/-- **Packing is a sequence of calls.** A package file is packed just when it and its modules
are complete and its commands name modules, and into the builder after its calls. -/
theorem pack_eq_ok {f : PackageFile} : f.pack read = .ok b ↔
    Packable read f ∧ b = Builder.run f.name f.version (f.calls (contents read)) := by
  rw [pack, Builder.run, calls, List.foldl_cons, List.foldl_append]
  by_cases hnamed : (f.name.isEmpty || f.version.isEmpty) = true
  · have hunpackable : ¬Packable read f := fun h => by simp [h.name, h.version] at hnamed
    simp [hnamed, hunpackable, throw, throwThe, MonadExceptOf.throw, bind, Except.bind]
  · obtain ⟨hname, hversion⟩ : f.name ≠ [] ∧ f.version ≠ [] := by simpa using hnamed
    rw [if_neg hnamed]
    dsimp only
    rw [bind_eq_ok]
    constructor
    · rintro ⟨b₁, hmodules, hcommands⟩
      obtain ⟨hcomplete, rfl⟩ := packModules_eq_ok.1 hmodules
      obtain ⟨hnames, rfl⟩ := packCommands_eq_ok.1 hcommands
      exact ⟨⟨hname, hversion, hcomplete, hnames⟩, rfl⟩
    · rintro ⟨h, rfl⟩
      exact ⟨_, packModules_eq_ok.2 ⟨h.modules, rfl⟩, packCommands_eq_ok.2 ⟨h.commands, rfl⟩⟩

end PackageFile

/-! ## What the calls leave -/

namespace BindingsEntry

/-- What is bound to a module. -/
def binding (bs : BindingsEntry) (name : Bytes) : Binding :=
  let module := utf8 "atoms://" ++ name
  if !bs.waiVersion.isEmpty then
    { name := Builder.bindingName
      kind := utf8 "wai@" ++ bs.waiVersion
      wai := some { exports := reference bs.exported, module, imports := bs.imported.map reference } }
  else
    { name := Builder.bindingName
      kind := utf8 "wit@" ++ bs.witBindgen
      wit := some { exports := reference bs.exported, module } }

variable (bs : BindingsEntry) (name : Bytes)

theorem binding?_call : (bs.call name).binding? = some (bs.binding name) := by
  rw [call, binding]
  split <;> rfl

theorem exports_binding : (bs.binding name).exports = .ok (reference bs.exported) := by
  rw [binding]
  split <;> rfl

theorem module_binding : (bs.binding name).module = .ok (utf8 "atoms://" ++ name) := by
  rw [binding]
  split <;> rfl

theorem imports_binding : (bs.binding name).imports = bs.imported.map reference := by
  rw [binding, imported]
  split <;> rfl

theorem atom?_call (n : Bytes) : (bs.call name).atom? n = none := by
  rw [call]
  split <;> rfl

theorem command?_call (n : Bytes) : (bs.call name).command? n = none := by
  rw [call]
  split <;> rfl

variable {bs name} {data : Bytes → Bytes}

theorem mem_calls {c : Call} :
    c ∈ bs.calls data name ↔ (∃ rel ∈ bs.interfaces, c = fileCall data rel) ∨ c = bs.call name := by
  simp [calls, eq_comm]

theorem filterMap_binding?_calls : (bs.calls data name).filterMap Call.binding? = [bs.binding name] := by
  have hfiles : (bs.interfaces.map (fileCall data)).filterMap Call.binding? = [] := by
    rw [List.filterMap_map, List.filterMap_eq_nil_iff]
    exact fun _ _ => rfl
  rw [calls, List.filterMap_append, hfiles, List.nil_append, List.filterMap_cons, binding?_call]
  rfl

end BindingsEntry

namespace PackageFile

/-- The modules that have bindings, with these. -/
def bound (f : PackageFile) : List (ModuleEntry × BindingsEntry) :=
  f.modules.filterMap fun m => m.bindings.map (m, ·)

/-- The interface files that a package file names. -/
def interfaces (f : PackageFile) : List Bytes := f.bound.flatMap fun e => e.2.interfaces

/-- The module of a name that counts, the last one. -/
def lastModule? (f : PackageFile) (n : Bytes) : Option ModuleEntry := f.modules.reverse.find? (·.name == n)

/-- The command of a name that counts, the last one. -/
def lastCommand? (f : PackageFile) (n : Bytes) : Option CommandEntry := f.commands.reverse.find? (·.name == n)

theorem mem_bound {f : PackageFile} {m : ModuleEntry} {bs : BindingsEntry} :
    (m, bs) ∈ f.bound ↔ m ∈ f.modules ∧ m.bindings = some bs := by
  simp [bound]

theorem mem_interfaces {f : PackageFile} {rel : Bytes} :
    rel ∈ f.interfaces ↔ ∃ e ∈ f.bound, rel ∈ e.2.interfaces := by
  simp [interfaces]

/-- What the last of some parts says counts. -/
theorem findSome?_reverse_flatMap {α β γ : Type} (g : α → List β) (h : β → Option γ) (as : List α) :
    (as.flatMap g).reverse.findSome? h = as.reverse.findSome? fun a => (g a).reverse.findSome? h := by
  induction as with
  | nil => rfl
  | cons a as ih =>
    rw [List.flatMap_cons, List.reverse_append, List.findSome?_append, List.reverse_cons, List.findSome?_append, ih,
      List.findSome?_singleton]

theorem findSome?_ite {α β : Type} (p : α → Bool) (g : α → β) (as : List α) :
    (as.findSome? fun a => if p a then some (g a) else none) = (as.find? p).map g := by
  induction as with
  | nil => rfl
  | cons a as ih =>
    rw [List.findSome?_cons, List.find?_cons]
    cases p a with
    | true => rfl
    | false => exact ih

variable {f : PackageFile} {data : Bytes → Bytes}

theorem mem_moduleCalls {m : ModuleEntry} {c : Call} : c ∈ m.calls data ↔
    c = .atom m.name (data m.source) ∨ ∃ bs, m.bindings = some bs ∧ c ∈ bs.calls data m.name := by
  rw [ModuleEntry.calls, List.mem_cons]
  cases m.bindings <;> simp

theorem mem_calls {c : Call} : c ∈ f.calls data ↔ c = .description f.description ∨
    (∃ m ∈ f.modules, c ∈ m.calls data) ∨ ∃ e ∈ f.commands, c = .command e.name e.module := by
  simp [calls, eq_comm]

/-- The files that are packed are the interface files. -/
theorem file_of_mem_calls {v p d : Bytes} (h : .file v p d ∈ f.calls data) :
    ∃ rel ∈ f.interfaces, .file v p d = fileCall data rel := by
  rcases mem_calls.1 h with h | ⟨m, hm, h⟩ | ⟨e, -, h⟩
  · cases h
  · rcases mem_moduleCalls.1 h with h | ⟨bs, hbs, h⟩
    · cases h
    · rcases BindingsEntry.mem_calls.1 h with ⟨rel, hrel, h⟩ | h
      · exact ⟨rel, mem_interfaces.2 ⟨(m, bs), mem_bound.2 ⟨hm, hbs⟩, hrel⟩, h⟩
      · rw [BindingsEntry.call] at h
        split at h <;> cases h
  · cases h

/-- The bindings are those of the modules that have any, in their order. -/
theorem filterMap_binding?_calls :
    (f.calls data).filterMap Call.binding? = f.bound.map fun e => e.2.binding e.1.name := by
  have hcommands : (f.commands.map fun c => Call.command c.name c.module).filterMap Call.binding? = [] := by
    rw [List.filterMap_map, List.filterMap_eq_nil_iff]
    exact fun _ _ => rfl
  have hmodule : ∀ m : ModuleEntry, (m.calls data).filterMap Call.binding?
      = ((m.bindings.map (m, ·)).map fun e : ModuleEntry × BindingsEntry => e.2.binding e.1.name).toList := by
    intro m
    rw [ModuleEntry.calls, List.filterMap_cons]
    cases m.bindings with
    | none => rfl
    | some bs => exact BindingsEntry.filterMap_binding?_calls
  show ((f.modules.flatMap (ModuleEntry.calls data)) ++ _).filterMap Call.binding? = _
  rw [List.filterMap_append, hcommands, List.append_nil, List.filterMap_flatMap]
  simp only [hmodule]
  rw [bound, List.map_filterMap]
  induction f.modules with
  | nil => rfl
  | cons m ms ih =>
    rw [List.flatMap_cons, List.filterMap_cons, ih]
    cases m.bindings <;> rfl

/-- What a module's own calls put under the name of an atom. -/
theorem lastAtom_moduleCalls (n : Bytes) (m : ModuleEntry) :
    (m.calls data).reverse.findSome? (Call.atom? n) = if m.name == n then some (data m.source) else none := by
  have hrest : (match m.bindings with
      | none => []
      | some bs => bs.calls data m.name).reverse.findSome? (Call.atom? n) = none := by
    rw [List.findSome?_eq_none_iff]
    intro c hc
    cases hbs : m.bindings with
    | none => simp [hbs] at hc
    | some bs =>
      rw [hbs, List.mem_reverse] at hc
      rcases BindingsEntry.mem_calls.1 hc with ⟨rel, -, rfl⟩ | rfl
      · rfl
      · exact bs.atom?_call m.name n
  rw [ModuleEntry.calls, Builder.last_cons, hrest, Option.none_or, Call.atom?]
  simp only [beq_iff_eq]

/-- The octets of the last module of a name count. -/
theorem lastAtom_calls (n : Bytes) :
    Builder.lastAtom n (f.calls data) = (f.lastModule? n).map fun m => data m.source := by
  have hcommands : (f.commands.map fun c => Call.command c.name c.module).reverse.findSome? (Call.atom? n) = none := by
    rw [← List.map_reverse, List.findSome?_map, List.findSome?_eq_none_iff]
    exact fun _ _ => rfl
  rw [Builder.lastAtom, calls, Builder.last_cons, List.reverse_append, List.findSome?_append, hcommands, Option.none_or,
    findSome?_reverse_flatMap]
  simp only [lastAtom_moduleCalls, findSome?_ite]
  exact Option.or_none

/-- The last command of a name counts. -/
theorem lastCommand_calls (n : Bytes) :
    Builder.lastCommand n (f.calls data) = (f.lastCommand? n).map (·.module) := by
  have hmodules : (f.modules.flatMap (ModuleEntry.calls data)).reverse.findSome? (Call.command? n) = none := by
    rw [List.findSome?_eq_none_iff]
    intro c hc
    obtain ⟨m, -, hc⟩ := List.mem_flatMap.1 (List.mem_reverse.1 hc)
    rcases mem_moduleCalls.1 hc with rfl | ⟨bs, -, hc⟩
    · rfl
    · rcases BindingsEntry.mem_calls.1 hc with ⟨rel, -, rfl⟩ | rfl
      · rfl
      · exact bs.command?_call m.name n
  have hcommand : ∀ c : CommandEntry, Call.command? n (.command c.name c.module)
      = if c.name == n then some c.module else none := by
    intro c
    simp only [Call.command?, beq_iff_eq]
  rw [Builder.lastCommand, calls, Builder.last_cons, List.reverse_append, List.findSome?_append, hmodules,
    ← List.map_reverse, List.findSome?_map]
  have hcomp : Call.command? n ∘ (fun c : CommandEntry => Call.command c.name c.module)
      = fun c => if c.name == n then some c.module else none := funext hcommand
  rw [hcomp, findSome?_ite, Option.or_none]
  exact Option.or_none

end PackageFile

end Bindery
