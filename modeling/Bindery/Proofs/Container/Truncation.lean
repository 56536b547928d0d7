/-
Containers cut short. A header without a checksum says nothing about what follows it, so
the frames alone have to show that something is missing. Frames in front of longer octets
are the first of the frames there (`Parts.prefix_of_named`), so a container that is cut is
read just when the cut leaves whole parts, and then with the volumes that are left
(`Container.Spells.parse_take_eq_ok`). For builders `truncated_parse_eq_ok` says where
that is.
-/
import Bindery.Proofs.Container.Acceptance

namespace Bindery

open Utf8 (valid)

/-! ## Parts in front of longer octets -/

namespace Parts

/-- The parts with the first `n` volumes only. -/
def first (p : Parts) (n : Nat) : Parts := { p with volumes := p.volumes.take n }

/-- Where the atoms end in the octets of a container. -/
def atomsEnd (p : Parts) : Nat :=
  Container.headerSize + (Frame.encode p.manifest).length + (Frame.encode p.atoms).length

/-- Where the volume at a position ends in the octets of a container. -/
def volumeEnd (p : Parts) (i : Nat) : Nat := p.atomsEnd + (named (p.volumes.take (i + 1))).length

theorem named_append (es es' : List (Bytes × Bytes)) : named (es ++ es') = named es ++ named es' :=
  List.flatMap_append

theorem prefix_body_first (p : Parts) (n : Nat) : (p.first n).body <+: p.body := by
  have hnamed : named (p.volumes.take n) <+: named p.volumes :=
    ⟨named (p.volumes.drop n), by rw [← named_append, List.take_append_drop]⟩
  exact (List.prefix_append_right_inj _).2 ((List.prefix_append_right_inj _).2 hnamed)

theorem Measured.first {p : Parts} (h : p.Measured) (n : Nat) : (p.first n).Measured :=
  ⟨h.manifest, h.atoms, fun e he => h.volumes e (List.mem_of_mem_take he)⟩

/-- **Parts whose octets begin those of others are the first of them.** -/
theorem eq_first_of_prefix_body {p p' : Parts} (h : p.Measured) (h' : p'.Measured) (hbody : p'.body <+: p.body) :
    p' = p.first p'.volumes.length := by
  rw [body, body] at hbody
  obtain ⟨hmanifest, hrest⟩ := Frame.prefix_append_inj h'.manifest h.manifest hbody
  obtain ⟨hatoms, hnamed⟩ := Frame.prefix_append_inj h'.atoms h.atoms hrest
  have hvolumes := List.prefix_iff_eq_take.1 (prefix_of_named h'.volumes h.volumes hnamed)
  rw [first, ← hmanifest, ← hatoms, ← hvolumes]

theorem length_first (p : Parts) (n : Nat) :
    Container.headerSize + (p.first n).body.length = p.atomsEnd + (named (p.volumes.take n)).length := by
  simp only [body, first, atomsEnd, List.length_append]
  omega

/-- Every volume takes some octets, so more of them end further on. -/
theorem length_named_take_le_iff {es : List (Bytes × Bytes)} {m n : Nat} (hm : m ≤ es.length) :
    (named (es.take m)).length ≤ (named (es.take n)).length ↔ m ≤ n := by
  constructor
  · intro hle
    by_contra hlt
    obtain ⟨j, rfl⟩ := Nat.exists_eq_add_of_lt (Nat.lt_of_not_le hlt)
    have hn : n < es.length := by omega
    rw [Nat.add_assoc, List.take_add, named_append, List.length_append, List.drop_eq_getElem_cons hn,
      List.take_succ_cons, named_cons, List.length_append, Frame.length_encode] at hle
    omega
  · intro hle
    obtain ⟨j, rfl⟩ := Nat.exists_eq_add_of_le hle
    rw [List.take_add, named_append, List.length_append]
    omega

/-- The first `n` volumes end where the atoms do, or where the last of them does. -/
theorem exists_first_iff (p : Parts) (k : Nat) :
    (∃ n ≤ p.volumes.length, k = Container.headerSize + (p.first n).body.length)
      ↔ k = p.atomsEnd ∨ ∃ i < p.volumes.length, k = p.volumeEnd i := by
  constructor
  · rintro ⟨n, hn, rfl⟩
    cases n with
    | zero => exact .inl (p.length_first 0)
    | succ i => exact .inr ⟨i, hn, p.length_first (i + 1)⟩
  · rintro (rfl | ⟨i, hi, rfl⟩)
    · exact ⟨0, Nat.zero_le _, (p.length_first 0).symm⟩
    · exact ⟨i + 1, hi, (p.length_first (i + 1)).symm⟩

end Parts

/-! ## Containers without a checksum -/

namespace Container

variable {k : Codec} {d d' b b' : Bytes} {p : Parts} {c c' : Container}

/-- The octets are a header that names no checksum in front of a body. -/
def Unchecked (d body : Bytes) : Prop :=
  ∃ sum : Bytes, sum.length = sumSize ∧ d = magic ++ version ++ noneTag ++ sum ++ body

theorem Unchecked.sealed (h : Unchecked d b) (k : Codec) : Sealed k d b := by
  obtain ⟨sum, hsum, hd⟩ := h
  exact ⟨noneTag, sum, rfl, hsum, .inr rfl, hd⟩

theorem Sealed.length (h : Sealed k d b) : d.length = headerSize + b.length := by
  obtain ⟨tag, sum, htag, hsum, -, rfl⟩ := h
  have hfixed : magic.length = 5 ∧ version.length = 3 := ⟨rfl, rfl⟩
  simp only [List.length_append, htag, hsum, hfixed, headerSize]

/-- Cut behind its header, a container without a checksum has its header still. -/
theorem Unchecked.take (h : Unchecked d b) (n : Nat) : Unchecked (d.take (headerSize + n)) (b.take n) := by
  obtain ⟨sum, hsum, rfl⟩ := h
  have hhead : (magic ++ version ++ noneTag ++ sum).length = headerSize := by
    simp only [List.length_append, hsum]
    rfl
  exact ⟨sum, hsum, by rw [← hhead, List.take_length_add_append]⟩

theorem Sealed.prefix_body (h : Sealed k d b) (h' : Sealed k d' b') (hd : d' <+: d) : b' <+: b := by
  obtain ⟨tag, sum, htag, hsum, -, rfl⟩ := h
  obtain ⟨tag', sum', htag', hsum', -, rfl⟩ := h'
  obtain ⟨x, hx⟩ := hd
  rw [List.append_assoc] at hx
  refine ⟨x, (List.append_inj hx ?_).2⟩
  simp only [List.length_append, htag, hsum, htag', hsum']

/-- Octets are read as one container only. -/
theorem Spells.parse_eq (h : Spells k d p c) : parse d k = .ok c := parse_eq_ok.2 ⟨p, h⟩

/-- Cut behind its first volumes, a container without a checksum is spelled by what is left. -/
theorem Spells.first (h : Spells k d p c) (hd : Unchecked d p.body) {vs : List (Bytes × Volume)}
    (hvs : List.Forall₂ (Packs k) p.volumes vs) (n : Nat) :
    Spells k (d.take (headerSize + (p.first n).body.length)) (p.first n)
      { c with volumes := Table.ofEntries (vs.take n) } where
  header := by
    have htake := hd.take (p.first n).body.length
    rw [← List.prefix_iff_eq_take.1 (p.prefix_body_first n)] at htake
    exact htake.sealed k
  measured := h.measured.first n
  distinct := h.distinct.sublist ((List.take_sublist n _).map _)
  manifest := h.manifest
  id := h.id
  atoms := h.atoms
  volumes := ⟨vs.take n, List.forall₂_take n hvs, rfl⟩

/-- **A container that is cut short is read just when the cut is behind the atoms or one of the
volumes**, and then it has the volumes before the cut. -/
theorem Spells.parse_take_eq_ok (h : Spells k d p c) (hd : Unchecked d p.body) {vs : List (Bytes × Volume)}
    (hvs : List.Forall₂ (Packs k) p.volumes vs) {m : Nat} (hm : m < d.length) :
    parse (d.take m) k = .ok c' ↔ ∃ n ≤ p.volumes.length, m = headerSize + (p.first n).body.length ∧
      c' = { c with volumes := Table.ofEntries (vs.take n) } := by
  constructor
  · intro hread
    obtain ⟨p', h'⟩ := parse_eq_ok.1 hread
    have htake := List.take_prefix m d
    have hbody := h.header.prefix_body h'.header htake
    have hp := Parts.eq_first_of_prefix_body h.measured h'.measured hbody
    have hlen := h'.header.length
    rw [List.length_take, Nat.min_eq_left (Nat.le_of_lt hm), hp] at hlen
    refine ⟨p'.volumes.length, ?_, hlen, ?_⟩
    · exact (congrArg (fun p : Parts => p.volumes.length) hp).trans_le (List.length_take_le' _ _)
    · have hfirst := (h.first hd hvs p'.volumes.length).parse_eq
      rw [← hlen, hread] at hfirst
      exact Except.ok.inj hfirst
  · rintro ⟨n, -, rfl, rfl⟩
    exact (h.first hd hvs n).parse_eq

end Container

/-! ## Builders -/

namespace Builder

variable {b : Builder}

theorem unchecked_encode (h : b.checksum = false) : Container.Unchecked b.encode b.parts.body := by
  refine ⟨List.replicate Container.sumSize 0, List.length_replicate, ?_⟩
  rw [body_parts, encode, h]
  simp only [Bool.false_eq_true, if_false, List.append_assoc]

/-- The volumes of a builder in a good state are spelled in the order of their names. -/
theorem Sound.packs (h : b.Sound) (hfits : b.fits = true) (hlen : b.encode.length < 2 ^ 64) :
    List.Forall₂ (Container.Packs .standard) b.parts.volumes b.packed := by
  obtain ⟨-, -, hvolumes⟩ := length_parts hlen
  simp only [fits, Bool.and_eq_true, List.all_eq_true] at hfits
  refine List.forall₂_map_left_iff.2 (List.forall₂_same.2 fun e he => ⟨rfl, ?_⟩)
  obtain ⟨f, hf, rfl⟩ := List.mem_map.1 he
  exact Volume.decode_eq_ok.1 <|
    Volume.decode_encode (Volume.ofFiles_sound (h.files f hf).2) (hfits.2 f hf) (hvolumes _ he).2 []

theorem Sound.packed_ordered (h : b.Sound) : Table.Ordered b.packed :=
  h.volumesOrdered.map_values fun e => Volume.ofFiles b.flat e.2

/-- What is read of a builder's container that is cut short. -/
theorem Sound.parse_take_eq_ok (h : b.Sound) (hchecksum : b.checksum = false) (hfits : b.fits = true)
    (hlen : b.encode.length < 2 ^ 64) {k : Nat} (hk : k < b.encode.length) {c : Container} :
    Container.parse (b.encode.take k) = .ok c ↔
      ∃ n ≤ b.parts.volumes.length, k = Container.headerSize + (b.parts.first n).body.length ∧
        c = { b.container with volumes := b.packed.take n } := by
  have hspells := spells_of_build hlen (build_eq h hfits hlen)
  rw [hspells.parse_take_eq_ok (unchecked_encode hchecksum) (h.packs hfits hlen) hk]
  have hentries : ∀ n, Table.ofEntries (b.packed.take n) = b.packed.take n := fun n =>
    Table.ofEntries_eq (.refl _) (h.packed_ordered.sublist (List.take_sublist n _))
  simp only [hentries]

/-- A volume is among the first `n` just when it ends no later than they do. -/
theorem Sound.mem_take_packed_iff (h : b.Sound) {n i : Nat} {e : Bytes × Volume} (he : b.packed[i]? = some e) :
    e ∈ b.packed.take n ↔
      b.parts.volumeEnd i ≤ Container.headerSize + (b.parts.first n).body.length := by
  obtain ⟨hi, -⟩ := List.getElem?_eq_some_iff.1 he
  have hcount : i + 1 ≤ b.parts.volumes.length := by
    rw [parts, List.length_map]
    exact hi
  rw [Parts.length_first, Parts.volumeEnd, Nat.add_le_add_iff_left, Parts.length_named_take_le_iff hcount,
    Nat.succ_le_iff, List.mem_iff_getElem?]
  simp only [List.getElem?_take]
  constructor
  · rintro ⟨j, hj⟩
    split at hj
    · rename_i hlt
      rw [← he] at hj
      rwa [(List.getElem?_inj hi (Table.nodup_of_ordered h.packed_ordered)).1 hj.symm]
    · cases hj
  · exact fun hlt => ⟨i, by rw [if_pos hlt, he]⟩

/-- **A container that is cut short is refused, except at the end of a volume.** Whatever a
builder without a checksum was told, the octets before a place are read as a container just
when the atoms or one of the volumes end there. What is read has the manifest and the atoms of
the whole container, and of its volumes, which follow one another in the order of their names,
those that end no later. -/
theorem truncated_parse_eq_ok (name version : Bytes) (calls : List Call) (hname : valid name = true)
    (hversion : valid version = true) (hcalls : ∀ c ∈ calls, c.Readable)
    (hchecksum : (run name version calls).checksum = false) (hfits : (run name version calls).fits = true)
    (hlen : (run name version calls).encode.length < 2 ^ 64) :
    ∃ full, Container.parse (run name version calls).encode = .ok full ∧
      Table.Ordered full.volumes ∧
      full.volumes.map (fun e => (e.1, e.2.encode)) = (run name version calls).parts.volumes ∧
      ∀ k < (run name version calls).encode.length,
        ((∃ c, Container.parse ((run name version calls).encode.take k) = .ok c) ↔
          k = (run name version calls).parts.atomsEnd ∨
            ∃ i < (run name version calls).parts.volumes.length, k = (run name version calls).parts.volumeEnd i) ∧
        ∀ c, Container.parse ((run name version calls).encode.take k) = .ok c →
          c.id = full.id ∧ c.manifest = full.manifest ∧ c.atoms = full.atoms ∧ c.volumes <+: full.volumes ∧
            ∀ i e, full.volumes[i]? = some e →
              (e ∈ c.volumes ↔ (run name version calls).parts.volumeEnd i ≤ k) := by
  have hsound := sound_run hname hversion hcalls
  generalize run name version calls = b at hchecksum hfits hlen hsound ⊢
  refine ⟨b.container, build_eq hsound hfits hlen, hsound.packed_ordered, rfl, fun k hk => ?_⟩
  have hread : ∀ c, Container.parse (b.encode.take k) = .ok c ↔ _ := fun c =>
    hsound.parse_take_eq_ok hchecksum hfits hlen hk
  constructor
  · rw [← Parts.exists_first_iff]
    constructor
    · rintro ⟨c, hc⟩
      obtain ⟨n, hn, hend, -⟩ := (hread c).1 hc
      exact ⟨n, hn, hend⟩
    · rintro ⟨n, hn, hend⟩
      exact ⟨_, (hread _).2 ⟨n, hn, hend, rfl⟩⟩
  · intro c hc
    obtain ⟨n, -, rfl, rfl⟩ := (hread c).1 hc
    exact ⟨rfl, rfl, rfl, List.take_prefix n _, fun i e he => hsound.mem_take_packed_iff he⟩

/-- Calls that leave two volumes and an atom behind a header without a checksum. -/
def uncheckedCalls : List Call :=
  [.checksum false, .file (utf8 "w") (utf8 "a") [1, 2], .file (utf8 "v") (utf8 "b/c") [3],
   .atom (utf8 "main") [0, 97]]

theorem truncated_parse_eq_ok_two_volumes :
    (∃ c, Container.parse ((run (utf8 "demo") (utf8 "1") uncheckedCalls).encode.take 367) = .ok c ∧
      c.volumes.keys = [utf8 "v"]) ∧
    ¬∃ c, Container.parse ((run (utf8 "demo") (utf8 "1") uncheckedCalls).encode.take 366) = .ok c := by
  have hcalls : ∀ c ∈ uncheckedCalls, c.Readable := by
    simp only [uncheckedCalls, List.forall_mem_cons, Call.Readable]
    exact ⟨trivial, ⟨Utf8.valid_of_ascii rfl, Utf8.valid_of_ascii rfl⟩,
      ⟨Utf8.valid_of_ascii rfl, Utf8.valid_of_ascii rfl⟩, Utf8.valid_of_ascii rfl, List.forall_mem_nil _⟩
  have hends : (run (utf8 "demo") (utf8 "1") uncheckedCalls).fits = true ∧
      (run (utf8 "demo") (utf8 "1") uncheckedCalls).encode.length = 426 ∧
      (run (utf8 "demo") (utf8 "1") uncheckedCalls).parts.atomsEnd = 282 ∧
      (run (utf8 "demo") (utf8 "1") uncheckedCalls).parts.volumes.map (·.1) = [utf8 "v", utf8 "w"] ∧
      (run (utf8 "demo") (utf8 "1") uncheckedCalls).parts.volumeEnd 0 = 367 ∧
      (run (utf8 "demo") (utf8 "1") uncheckedCalls).parts.volumeEnd 1 = 426 := by
    rw [length_encode, uncheckedCalls, utf8_eq_toByteArray]
    decide +kernel
  obtain ⟨hfits, hlen, hatoms, hnames, hend, hend'⟩ := hends
  have hcount := congrArg List.length hnames
  rw [List.length_map, List.length_cons, List.length_singleton] at hcount
  obtain ⟨full, -, -, hvolumes, hread⟩ := truncated_parse_eq_ok (utf8 "demo") (utf8 "1") uncheckedCalls
    (Utf8.valid_of_ascii rfl) (Utf8.valid_of_ascii rfl) hcalls rfl hfits (by omega)
  obtain ⟨haccept, hparts⟩ := hread 367 (by omega)
  obtain ⟨c, hc⟩ := haccept.2 (.inr ⟨0, by omega, hend.symm⟩)
  obtain ⟨-, -, -, hprefix, hmem⟩ := hparts c hc
  refine ⟨⟨c, hc, ?_⟩, fun h => ?_⟩
  · have hkeys : full.volumes.map (·.1) = [utf8 "v", utf8 "w"] := by
      rw [← hnames, ← hvolumes, List.map_map]
      rfl
    obtain ⟨v, rest, hfull, hv, hrest⟩ := List.map_eq_cons_iff.1 hkeys
    obtain ⟨w, rest, rfl, hw, hrest⟩ := List.map_eq_cons_iff.1 hrest
    obtain rfl := List.map_eq_nil_iff.1 hrest
    rw [hfull] at hprefix hmem
    have hfirst := (hmem 0 v rfl).2 (by omega)
    have hsecond := mt (hmem 1 w rfl).1 (by omega)
    rcases List.prefix_cons_iff.1 hprefix with hnil | ⟨t, ht, htail⟩
    · simp [hnil] at hfirst
    · rcases List.prefix_cons_iff.1 htail with rfl | ⟨t', rfl, -⟩
      · rw [ht, Table.keys, List.map_cons, hv, List.map_nil]
      · exact absurd (by simp [ht]) hsecond
  · rcases (hread 366 (by omega)).1.1 h with h | ⟨i, hi, h⟩
    · omega
    · obtain rfl | rfl : i = 0 ∨ i = 1 := by omega
      · omega
      · omega

end Builder

end Bindery
