/-
Whether a container keeps its files in directories or at the root of their volumes makes
no difference to a package. Loading reads the volumes only through the files that its
bindings refer to (`load_volumes`), and a file is found by its path in either layout
(`file_container`), so both layouts load to one package or both fail
(`lookup_independent_of_layout`).
-/
import Bindery.Package.Load
import Bindery.Proofs.Container.Calls
import Bindery.Proofs.Container.Lookup

namespace Bindery

open Utf8 (valid valid_of_ascii)

/-! ## Outcomes -/

/-- Both give the same value, or both fail. -/
inductive SameOutcome {α : Type} : Except Report α → Except Report α → Prop
  | ok (a : α) : SameOutcome (.ok a) (.ok a)
  | error (r r' : Report) : SameOutcome (.error r) (.error r')

namespace SameOutcome

variable {α β : Type} {x y : Except Report α}

theorem refl : ∀ x : Except Report α, SameOutcome x x
  | .ok a => .ok a
  | .error r => .error r r

theorem bind {f g : α → Except Report β} (h : SameOutcome x y)
    (hfg : ∀ a, x = .ok a → SameOutcome (f a) (g a)) : SameOutcome (x >>= f) (y >>= g) := by
  cases h with
  | ok a => exact hfg a rfl
  | error r r' => exact .error r r'

theorem context (what : Bytes) (h : SameOutcome x y) :
    SameOutcome (Package.Load.context what x) (Package.Load.context what y) := by
  cases h with
  | ok a => exact .ok a
  | error r r' => exact .error _ _

theorem mapM {f g : α → Except Report β} {xs : List α} (h : ∀ x ∈ xs, SameOutcome (f x) (g x)) :
    SameOutcome (xs.mapM f) (xs.mapM g) := by
  induction xs with
  | nil => exact .ok []
  | cons x xs ih =>
    obtain ⟨hx, hxs⟩ := List.forall_mem_cons.1 h
    rw [List.mapM_cons, List.mapM_cons]
    exact hx.bind fun _ _ => (ih hxs).bind fun _ _ => .refl _

theorem of_toOption : ∀ {x y : Except Report α}, x.toOption = y.toOption → SameOutcome x y
  | .ok a, .ok _, rfl => .ok a
  | .error r, .error r', _ => .error r r'

end SameOutcome

/-! ## What loading reads -/

/-- The references of a binding to interface files. -/
def Binding.refs (b : Binding) : List Bytes := b.exports.toOption.toList ++ b.imports

namespace Package

namespace Load

variable {read : InterfaceReader} {c : Container} {vs : Table Volume}

/-- A file of a volume is looked up there, if there is such a volume. -/
theorem toOption_file (c : Container) (v p : Bytes) :
    (file c v p).toOption = (c.volumes.find? v).bind (·.lookup p) := by
  rw [file, Container.volume, Container.checkPackage, if_pos rfl, ok_bind]
  cases c.volumes.find? v with
  | none => rfl
  | some volume =>
    show (Except.ok volume >>= _).toOption = volume.lookup p
    rw [ok_bind, Volume.lookup]
    cases volume.file p with
    | ok data => rfl
    | error r =>
      dsimp only
      cases volume.listedFile p <;> rfl

theorem interface_volumes {ref : Bytes} (h : ∀ v p, splitUri ref = some (v, p) →
    SameOutcome (file c v p) (file { c with volumes := vs } v p)) :
    SameOutcome (interface read c ref) (interface read { c with volumes := vs } ref) := by
  rw [interface, interface]
  cases href : splitUri ref with
  | none => exact .refl _
  | some vp => exact (h vp.1 vp.2 href).bind fun data _ => .refl _

theorem library_volumes {b : Binding} (h : ∀ ref ∈ b.refs, ∀ v p, splitUri ref = some (v, p) →
    SameOutcome (file c v p) (file { c with volumes := vs } v p)) :
    SameOutcome (library read c b) (library read { c with volumes := vs } b) := by
  rw [library, library]
  refine (SameOutcome.refl b.exports).bind fun ref href => ?_
  have hexports : ref ∈ b.refs := by simp [Binding.refs, href, Except.toOption]
  refine ((interface_volumes (h ref hexports)).context _).bind fun exports _ => ?_
  have himports : ∀ ref ∈ b.imports, ref ∈ b.refs := fun ref hmem => List.mem_append_right _ hmem
  refine (SameOutcome.mapM fun ref hmem => ?_).bind fun imports _ => .refl _
  exact (interface_volumes (h ref (himports ref hmem))).context _

end Load

/-- Loading reads the volumes only through the files that the bindings refer to. -/
theorem load_volumes {read : InterfaceReader} {c : Container} {vs : Table Volume}
    (h : ∀ b ∈ c.manifest.bindings, ∀ ref ∈ b.refs, ∀ v p, splitUri ref = some (v, p) →
      SameOutcome (Load.file c v p) (Load.file { c with volumes := vs } v p)) :
    SameOutcome (load read c) (load read { c with volumes := vs }) := by
  rw [load, load]
  refine (SameOutcome.refl (Load.metadata c)).bind fun metadata _ => ?_
  refine (SameOutcome.mapM fun b hb => ?_).bind fun libraries _ => .refl _
  exact (Load.library_volumes (h b hb)).context _

end Package

/-! ## Layouts -/

namespace Builder

open Package

/-- A builder whose manifest, indexes and length are within the limits of the reader. -/
def WithinLimits (b : Builder) : Prop := b.fits = true ∧ b.encode.length < 2 ^ 64

instance (b : Builder) : Decidable b.WithinLimits :=
  decidable_of_iff (b.fits = true ∧ Container.headerSize + b.body.length < 2 ^ 64) (by rw [WithinLimits, length_encode])

/-- In a container of either layout a clean path leads to its file. -/
theorem file_container {b : Builder} (h : b.Sound) {v : Bytes}
    (hclean : ∀ p d, b.fileAt v p = some d → CleanPath p) {p : Bytes} (hp : CleanPath p) :
    (Load.file b.container v p).toOption = b.fileAt v p := by
  rw [Load.toOption_file, find?_container_volumes, fileAt]
  cases hv : b.volumes.find? v with
  | none => rfl
  | some files =>
    have hordered := (h.files _ (Table.mem_of_find? hv)).1
    refine Volume.lookup_ofFiles b.flat hordered (fun f hf => ?_) hp
    refine hclean f.1 f.2 ?_
    rw [fileAt, hv, Option.bind_some]
    exact Table.find?_of_mem hordered hf

/-- The builder after some calls, told its layout last. -/
def laidOut (name version : Bytes) (calls : List Call) (flat : Bool) : Builder :=
  run name version (calls ++ [.flat flat])

theorem laidOut_eq (name version : Bytes) (calls : List Call) (flat : Bool) :
    laidOut name version calls flat = { run name version calls with flat } :=
  List.foldl_concat _ _ _ _

theorem sound_laidOut {name version : Bytes} {calls : List Call} (hname : valid name = true)
    (hversion : valid version = true) (hcalls : ∀ c ∈ calls, c.Readable) (flat : Bool) :
    (laidOut name version calls flat).Sound :=
  sound_run hname hversion (List.forall_mem_append.2 ⟨hcalls, by simp [Call.Readable]⟩)

theorem fileAt_laidOut (name version : Bytes) (calls : List Call) (flat : Bool) (v p : Bytes) :
    (laidOut name version calls flat).fileAt v p = lastFile v p calls := by
  rw [laidOut_eq]
  exact fileAt_run name version calls v p

/-- In a container of either layout a clean path leads to the last contents put there. -/
theorem file_laidOut {name version : Bytes} {calls : List Call} {flat : Bool}
    (h : (laidOut name version calls flat).Sound) {v : Bytes} (hclean : ∀ p d, .file v p d ∈ calls → CleanPath p)
    {p : Bytes} (hp : CleanPath p) :
    (Load.file (laidOut name version calls flat).container v p).toOption = lastFile v p calls := by
  rw [file_container h (fun p d hat => ?_) hp, fileAt_laidOut]
  rw [fileAt_laidOut] at hat
  exact hclean p d (mem_of_lastFile hat)

/-- **Looking up does not depend on the layout.** With the files of a volume at clean paths,
a clean path leads to the last contents that were put there, and fails where none were,
in both layouts. Two builders that differ in the layout only, with clean paths in
their files and references, load to one package or both fail. -/
theorem lookup_independent_of_layout (name version : Bytes) (calls : List Call) (hname : valid name = true)
    (hversion : valid version = true) (hcalls : ∀ c ∈ calls, c.Readable) :
    (∀ flat, (laidOut name version calls flat).WithinLimits →
      ∃ c, (laidOut name version calls flat).build = .ok c ∧
        ∀ v, (∀ p d, .file v p d ∈ calls → CleanPath p) → ∀ p, CleanPath p →
          match lastFile v p calls with
          | some d => Load.file c v p = .ok d
          | none => ∃ r, Load.file c v p = .error r) ∧
    ((∀ flat, (laidOut name version calls flat).WithinLimits) →
      (∀ v p d, .file v p d ∈ calls → CleanPath p) →
      (∀ b ∈ (run name version calls).bindings, ∀ ref ∈ b.refs,
        ∀ v p, splitUri ref = some (v, p) → CleanPath p) →
      ∀ read, SameOutcome ((laidOut name version calls false).build >>= load read)
        ((laidOut name version calls true).build >>= load read)) := by
  have hsound := sound_laidOut hname hversion hcalls
  refine ⟨fun flat hlimits => ?_, fun hlimits hclean hrefs read => ?_⟩
  · refine ⟨_, build_eq (hsound flat) hlimits.1 hlimits.2, fun v hclean p hp => ?_⟩
    rw [← file_laidOut (hsound flat) hclean hp]
    cases Load.file (laidOut name version calls flat).container v p with
    | ok d => rfl
    | error r => exact ⟨r, rfl⟩
  · have hagree : ∀ v p, CleanPath p →
        SameOutcome (Load.file (laidOut name version calls false).container v p)
          (Load.file (laidOut name version calls true).container v p) := by
      intro v p hp
      refine .of_toOption ?_
      rw [file_laidOut (hsound false) (hclean v) hp, file_laidOut (hsound true) (hclean v) hp]
    rw [build_eq (hsound false) (hlimits false).1 (hlimits false).2,
      build_eq (hsound true) (hlimits true).1 (hlimits true).2, ok_bind, ok_bind]
    -- the two containers differ in nothing but their volumes
    rw [laidOut_eq, laidOut_eq] at hagree ⊢
    exact load_volumes fun b hb ref href v p huri => hagree v p (hrefs b hb ref href v p huri)

/-- Calls that put a file under the name of a directory and refer to the file in it. -/
def clashCalls : List Call :=
  [.file (utf8 "metadata") (utf8 "a/b.wai") (utf8 "x"), .file (utf8 "metadata") (utf8 "a") (utf8 "yz"),
   .file (utf8 "metadata") (utf8 "a/b.wai") [], .atom (utf8 "m.wasm") [0, 97],
   .wai (utf8 "library-bindings") (utf8 "0.2.0")
    { exports := utf8 "metadata://a/b.wai", module := utf8 "atoms://m.wasm" }]

theorem lookup_independent_of_layout_clash :
    (∃ c, (laidOut (utf8 "demo") (utf8 "1.0.0") clashCalls false).build = .ok c ∧
      Load.file c (utf8 "metadata") (utf8 "a") = .ok (utf8 "yz") ∧
      Load.file c (utf8 "metadata") (utf8 "a/b.wai") = .ok [] ∧
      ∃ r, Load.file c (utf8 "metadata") (utf8 "b.wai") = .error r) ∧
    SameOutcome ((laidOut (utf8 "demo") (utf8 "1.0.0") clashCalls false).build >>= load Interface.parse)
      ((laidOut (utf8 "demo") (utf8 "1.0.0") clashCalls true).build >>= load Interface.parse) := by
  have hcalls : ∀ c ∈ clashCalls, c.Readable := by
    simp only [clashCalls, List.forall_mem_cons, Call.Readable]
    have hvolume : valid (utf8 "metadata") = true := valid_of_ascii rfl
    exact ⟨⟨hvolume, valid_of_ascii rfl⟩, ⟨hvolume, valid_of_ascii rfl⟩, ⟨hvolume, valid_of_ascii rfl⟩,
      valid_of_ascii rfl, ⟨valid_of_ascii rfl, valid_of_ascii rfl,
        ⟨valid_of_ascii rfl, valid_of_ascii rfl, List.forall_mem_nil _⟩⟩, List.forall_mem_nil _⟩
  have hdir : CleanPath (utf8 "a") := ⟨valid_of_ascii rfl, by decide⟩
  have hinner : CleanPath (utf8 "a/b.wai") := ⟨valid_of_ascii rfl, by decide⟩
  have hother : CleanPath (utf8 "b.wai") := ⟨valid_of_ascii rfl, by decide⟩
  have hfiles : ∀ v p d, .file v p d ∈ clashCalls → CleanPath p := by
    intro v p d h
    simp only [clashCalls, List.mem_cons, Call.file.injEq, reduceCtorEq, List.not_mem_nil, or_false] at h
    rcases h with ⟨-, rfl, -⟩ | ⟨-, rfl, -⟩ | ⟨-, rfl, -⟩
    · exact hinner
    · exact hdir
    · exact hinner
  have hrefs : ∀ b ∈ (run (utf8 "demo") (utf8 "1.0.0") clashCalls).bindings, ∀ ref ∈ b.refs, ∀ v p,
      splitUri ref = some (v, p) → CleanPath p := by
    intro b hb ref href v p huri
    obtain rfl := List.mem_singleton.1 hb
    obtain rfl := List.mem_singleton.1 href
    have hsplit : splitUri (utf8 "metadata://a/b.wai") = some (utf8 "metadata", utf8 "a/b.wai") := by decide
    rw [hsplit] at huri
    obtain ⟨-, rfl⟩ := Prod.mk.inj (Option.some.inj huri)
    exact hinner
  have hlimits : ∀ flat, (laidOut (utf8 "demo") (utf8 "1.0.0") clashCalls flat).WithinLimits := by
    rw [clashCalls, utf8_eq_toByteArray]
    decide +kernel
  obtain ⟨hlookup, hload⟩ := lookup_independent_of_layout (utf8 "demo") (utf8 "1.0.0") clashCalls
    (valid_of_ascii rfl) (valid_of_ascii rfl) hcalls
  obtain ⟨c, hbuild, hfile⟩ := hlookup false (hlimits false)
  have hmetadata := hfile (utf8 "metadata") (hfiles _)
  refine ⟨⟨c, hbuild, hmetadata _ hdir, hmetadata _ hinner, hmetadata _ hother⟩, ?_⟩
  exact hload hlimits hfiles hrefs Interface.parse

end Builder

end Bindery
