/-
The order of calls on a builder. A call is about one thing: the description, an atom, a
file, a command, the bindings, or one of the two switches. What the calls about one thing
leave behind depends on these calls only (`Reordered.last`), and a builder holds nothing
else, in tables that do not show the order in which they were filled. So calls may change
places as long as those about one thing stay in order: the builder is the same, and so
are the octets of its container (`encode_reordered`).
-/
import Bindery.Proofs.Container.Acceptance

namespace Bindery.Builder

variable {α : Type} {calls calls' : List Call}

/-! ## What a call is about -/

/-- What a call can be about. -/
inductive Topic where
  | description
  | atom (name : Bytes)
  | file (volume path : Bytes)
  | command (name : Bytes)
  /-- all bindings stand in one list -/
  | bindings
  | flat
  | checksum
  deriving DecidableEq

namespace Call

def topic : Call → Topic
  | .description _ => .description
  | .atom n _ => .atom n
  | .file v p _ => .file v p
  | .command n _ => .command n
  | .wai _ _ _ | .wit _ _ _ => .bindings
  | .flat _ => .flat
  | .checksum _ => .checksum

/-! A call says something about its own topic only. -/

variable {c : Call}

theorem atom?_eq_none {n : Bytes} (h : c.topic ≠ .atom n) : c.atom? n = none := by
  cases c <;> simp_all [topic, atom?]

theorem file?_eq_none {v p : Bytes} (h : c.topic ≠ .file v p) : c.file? v p = none := by
  cases c <;> simp_all [topic, file?]

theorem command?_eq_none {n : Bytes} (h : c.topic ≠ .command n) : c.command? n = none := by
  cases c <;> simp_all [topic, command?]

theorem binding?_eq_none (h : c.topic ≠ .bindings) : c.binding? = none := by
  cases c <;> simp_all [topic, binding?]

theorem description?_eq_none (h : c.topic ≠ .description) : c.description? = none := by
  cases c <;> simp_all [topic, description?]

theorem flat?_eq_none (h : c.topic ≠ .flat) : c.flat? = none := by
  cases c <;> simp_all [topic, flat?]

theorem checksum?_eq_none (h : c.topic ≠ .checksum) : c.checksum? = none := by
  cases c <;> simp_all [topic, checksum?]

end Call

/-- The same calls in another order, in which those about one thing come as they came before. -/
structure Reordered (calls calls' : List Call) : Prop where
  perm : calls.Perm calls'
  order : ∀ t, calls.filter (·.topic = t) = calls'.filter (·.topic = t)

namespace Reordered

/-- Two calls about different things that follow one another may change places. -/
theorem swap {c c' : Call} (h : c.topic ≠ c'.topic) (cs : List Call) : Reordered (c :: c' :: cs) (c' :: c :: cs) where
  perm := .swap c' c cs
  order t := by
    by_cases hc : c.topic = t
    · have hc' : c'.topic ≠ t := fun hc' => h (hc.trans hc'.symm)
      simp [hc, hc']
    · simp [hc, List.filter_cons]

theorem cons {calls calls' : List Call} (h : Reordered calls calls') (c : Call) :
    Reordered (c :: calls) (c :: calls') where
  perm := h.perm.cons c
  order t := by rw [List.filter_cons, List.filter_cons, h.order]

theorem trans {calls₁ calls₂ calls₃ : List Call} (h : Reordered calls₁ calls₂) (h' : Reordered calls₂ calls₃) :
    Reordered calls₁ calls₃ := ⟨h.perm.trans h'.perm, fun t => (h.order t).trans (h'.order t)⟩

end Reordered

/-! ## What is left of calls about one thing -/

/-- What calls about one thing give comes in the same order. -/
theorem Reordered.filterMap (h : Reordered calls calls') {f : Call → Option α} {t : Topic}
    (hf : ∀ {c : Call}, c.topic ≠ t → f c = none) : calls.filterMap f = calls'.filterMap f := by
  have honly : ∀ cs : List Call, cs.filterMap f = (cs.filter (·.topic = t)).filterMap f := by
    intro cs
    rw [List.filterMap_filter]
    refine List.filterMap_congr fun c _ => ?_
    by_cases hc : c.topic = t
    · simp [hc]
    · simp [hc, hf hc]
  rw [honly calls, honly calls', h.order]

/-- **The last of the calls about one thing is the same.** -/
theorem Reordered.last (h : Reordered calls calls') {f : Call → Option α} {t : Topic}
    (hf : ∀ {c : Call}, c.topic ≠ t → f c = none) : calls.reverse.findSome? f = calls'.reverse.findSome? f := by
  rw [← List.head?_filterMap, ← List.head?_filterMap, List.filterMap_reverse, List.filterMap_reverse,
    h.filterMap hf]

/-- Volumes that hold the same files are the same. -/
theorem volumes_eq {b b' : Builder} (h : b.Arranged) (h' : b'.Arranged)
    (hvolumes : ∀ v, (b.volumes.find? v).isSome ↔ (b'.volumes.find? v).isSome)
    (hfiles : ∀ v p, b.fileAt v p = b'.fileAt v p) : b.volumes = b'.volumes := by
  refine Table.ext h.volumes h'.volumes fun v => ?_
  have hsame := hvolumes v
  have hpaths := hfiles v
  simp only [fileAt] at hpaths
  cases hv : b.volumes.find? v with
  | none =>
    rw [hv, Option.isSome_none] at hsame
    exact (Option.isNone_iff_eq_none.1 (by simpa using hsame)).symm
  | some files =>
    rw [hv] at hsame hpaths
    obtain ⟨files', hv'⟩ := Option.isSome_iff_exists.1 (hsame.1 rfl)
    rw [hv'] at hpaths ⊢
    exact congrArg some
      (Table.ext (h.files _ (Table.mem_of_find? hv)) (h'.files _ (Table.mem_of_find? hv')) hpaths)

/-- **Calls about different things may change places.** They leave the same builder. -/
theorem Reordered.run_eq (h : Reordered calls calls') (name version : Bytes) :
    run name version calls = run name version calls' := by
  have harranged := arranged_run name version
  have hatoms : (run name version calls).atoms = (run name version calls').atoms := by
    refine Table.ext (harranged calls).atoms (harranged calls').atoms fun n => ?_
    rw [find?_atoms_run, find?_atoms_run, lastAtom, lastAtom, h.last Call.atom?_eq_none]
  have hcommands : (run name version calls).commands = (run name version calls').commands := by
    refine Table.ext (harranged calls).commands (harranged calls').commands fun n => ?_
    rw [find?_commands_run, find?_commands_run, lastCommand, lastCommand, h.last Call.command?_eq_none]
  have hvolumes : (run name version calls).volumes = (run name version calls').volumes := by
    refine volumes_eq (harranged calls) (harranged calls') (fun v => ?_) fun v p => ?_
    · rw [run, run, isSome_volume_foldl, isSome_volume_foldl]
      simp only [h.perm.mem_iff]
    · rw [fileAt_run, fileAt_run, lastFile, lastFile, h.last Call.file?_eq_none]
  have hnote : (run name version calls).note = (run name version calls').note := by
    rw [note_run, note_run, lastDescription, lastDescription, h.last Call.description?_eq_none]
  have hbindings : (run name version calls).bindings = (run name version calls').bindings := by
    rw [run, run, bindings_foldl, bindings_foldl, h.filterMap Call.binding?_eq_none]
  have hflat : (run name version calls).flat = (run name version calls').flat := by
    rw [run, run, part_foldl (·.flat) flat_apply, part_foldl (·.flat) flat_apply, h.last Call.flat?_eq_none]
  have hchecksum : (run name version calls).checksum = (run name version calls').checksum := by
    rw [run, run, part_foldl (·.checksum) checksum_apply, part_foldl (·.checksum) checksum_apply, h.last Call.checksum?_eq_none]
  generalize run name version calls = b at *
  generalize run name version calls' = b' at *
  cases b
  cases b'
  simp_all

/-- **The octets of a container do not show the order of calls about different things.** -/
theorem encode_reordered (name version : Bytes) {calls calls' : List Call} (h : Reordered calls calls') :
    (run name version calls).encode = (run name version calls').encode := by
  rw [h.run_eq]

/-- Atoms and a file change places; of the two atoms of one name the later stays the later. -/
theorem encode_reordered_atoms :
    (run (utf8 "demo") (utf8 "1")
        [.atom (utf8 "b") [1], .file (utf8 "v") (utf8 "p") [2], .atom (utf8 "a") [3], .atom (utf8 "b") [4]]).encode
      = (run (utf8 "demo") (utf8 "1")
        [.file (utf8 "v") (utf8 "p") [2], .atom (utf8 "b") [1], .atom (utf8 "b") [4], .atom (utf8 "a") [3]]).encode :=
  encode_reordered (utf8 "demo") (utf8 "1") <|
    (Reordered.swap (by decide) _).trans (((Reordered.swap (by decide) []).cons _).cons _)

end Bindery.Builder
