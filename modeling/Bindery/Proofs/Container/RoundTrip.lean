/-
What a builder writes, a container reads. Frames, volumes, the header and the manifest
are read back one by one (`Frame.decode_encode`, `Volume.decode_encode`,
`Container.body_header`), so that a builder in a good state (`Builder.Sound`) gives the
container it describes (`Builder.build_eq`).
-/
import Bindery.Container.Builder
import Bindery.Proofs.Container.Index
import Bindery.Proofs.Container.Manifest

namespace Bindery

open Cbor
open Utf8 (valid)

/-! ## Frames and volumes -/

theorem ok_bind {ε α β : Type} (a : α) (f : α → Except ε β) : (Except.ok a >>= f) = f a := rfl

namespace Frame

theorem decode_encode {s : Bytes} (h : s.length < 2 ^ 64) (what rest : Bytes) :
    decode what (encode s ++ rest) = .ok (s, rest) := by
  have hlen : (Endian.little 8 s.length).length = 8 := Endian.length_little 8 _
  have hnum : Endian.ofLittle (Endian.little 8 s.length) = s.length := Endian.ofLittle_little h
  have htake : (encode s ++ rest).take 8 = Endian.little 8 s.length := by
    rw [encode, List.append_assoc]
    exact List.take_left' hlen
  have hdrop : (encode s ++ rest).drop 8 = s ++ rest := by
    rw [encode, List.append_assoc]
    exact List.drop_left' hlen
  rw [decode, if_neg, htake, hdrop, hnum]
  · simp
  · simp [encode, hlen]

theorem length_encode (s : Bytes) : (encode s).length = 8 + s.length := by
  rw [encode, List.length_append, Endian.length_little]

end Frame

namespace Volume

/-- The index of a volume within the limits of the reader. -/
def fits (v : Volume) : Bool := (Node.listItem v.root).fits 0

theorem readIndex_encode {v : Volume} (hroot : ∀ n ∈ v.root, n.Each (Node.Sound v.data.length))
    (hfits : v.fits = true) (hlen : v.encode.length < 2 ^ 64) :
    readIndex (if v.root.isEmpty then Item.null else Node.listItem v.root).encode = some v.root := by
  rw [encode, List.length_append, Frame.length_encode, Frame.length_encode] at hlen
  split
  · rename_i hempty
    rw [List.isEmpty_iff.1 hempty]
    rfl
  · rename_i hempty
    rw [if_neg hempty] at hlen
    have hparse : parse (Node.listItem v.root).encode = some (Node.listItem v.root) :=
      parse_encode (Node.canonical_listItem (by omega) hroot) hfits (by omega)
    have hsome : (Node.listItem v.root).encode.isEmpty = false := by
      cases h : (Node.listItem v.root).encode with
      | nil => simp [h, parse, item, head] at hparse
      | cons _ _ => rfl
    simp [readIndex, Codec.standard, hsome, hparse, Node.listOfItem?_listItem hroot hfits]

/-- **A volume is read back from its octets.** -/
theorem decode_encode {v : Volume} (hroot : ∀ n ∈ v.root, n.Each (Node.Sound v.data.length))
    (hfits : v.fits = true) (hlen : v.encode.length < 2 ^ 64) (name : Bytes) :
    decode name v.encode = .ok v := by
  have hindex := readIndex_encode hroot hfits hlen
  rw [encode, List.length_append, Frame.length_encode, Frame.length_encode] at hlen
  have hdata := Frame.decode_encode (s := v.data) (by omega) (utf8 "volume " ++ name ++ utf8 " data") []
  rw [List.append_nil] at hdata
  rw [decode, encode, Frame.decode_encode (by omega)]
  simp only [ok_bind, hdata, hindex, anyOutside?_eq_none hroot, List.isEmpty_nil, Bool.not_true,
    Bool.false_eq_true, if_false]
  rfl

theorem ofFiles_sound {flat : Bool} {files : Table Bytes} (h : ∀ f ∈ files, valid f.1 = true) :
    ∀ n ∈ (ofFiles flat files).root, n.Each (Node.Sound (ofFiles flat files).data.length) := indexOf_sound h

end Volume

/-! ## The header -/

theorem Blake3.length_hash (s : Bytes) : (Blake3.hash s).length = 32 := by
  have hdigest : ∀ n : Blake3.Node, n.digest.length = 32 := by
    intro n
    simp [Blake3.Node.digest, List.range, List.range.loop, Endian.length_little]
  rw [Blake3.hash]
  split
  · exact hdigest _
  · exact Endian.length_little 32 0

namespace Container

/-- The octets behind a header with a tag and a checksum. -/
theorem body_header {k : Codec} {tag sum rest : Bytes} (htag : tag.length = tagSize) (hsum : sum.length = sumSize)
    (h : tag = blake3Tag ∧ k.digest rest = sum ∨ tag = noneTag) :
    body (magic ++ version ++ (tag ++ sum) ++ rest) k = .ok rest := by
  have hmagic : magic.length = 5 := rfl
  have hversion : version.length = 3 := rfl
  have hother : noneTag ≠ blake3Tag := by decide
  have hlen : ¬(magic ++ version ++ (tag ++ sum) ++ rest).length < headerSize := by
    simp only [List.length_append, hmagic, hversion, htag, hsum, tagSize, sumSize, headerSize]
    omega
  have hbody : magic ++ version ++ (tag ++ sum) ++ rest = magic ++ (version ++ (tag ++ (sum ++ rest))) := by
    simp only [List.append_assoc]
  have hskip : (tag ++ (sum ++ rest)).drop (tagSize + sumSize) = rest := by
    rw [← List.drop_drop, List.drop_left' htag, List.drop_left' hsum]
  rw [body, if_neg hlen, hbody]
  simp only [List.take_left, List.drop_left, ne_eq, not_true_eq_false, if_false, List.take_left' htag,
    List.drop_left' htag, List.take_left' hsum, hskip]
  rcases h with ⟨rfl, hhash⟩ | rfl
  · rw [if_pos rfl, if_pos hhash]
  · rw [if_neg hother, if_pos rfl]

/-! ## Volumes one after the other -/

theorem length_le_named (vs : List (Bytes × Volume)) :
    vs.length ≤ (vs.flatMap fun e => Frame.encode e.1 ++ Frame.encode e.2.encode).length := by
  refine length_le_length_flatMap fun e _ => ?_
  rw [List.length_append, Frame.length_encode]
  omega

theorem namedVolume_encode {name raw : Bytes} (hname : name.length < 2 ^ 64) (hraw : raw.length < 2 ^ 64)
    (rest : Bytes) : namedVolume (Frame.encode name ++ Frame.encode raw ++ rest) = .ok ((name, raw), rest) := by
  rw [namedVolume, List.append_assoc, Frame.decode_encode hname]
  simp only [ok_bind, Frame.decode_encode hraw]
  rfl

/-- Volumes are read back under their names, when each is and no name comes twice. -/
theorem readVolumes_encode : ∀ {vs : List (Bytes × Volume)} {fuel : Nat} {t : Table Volume},
    (∀ e ∈ vs, e.1.length < 2 ^ 64 ∧ e.2.encode.length < 2 ^ 64 ∧ Volume.decode e.1 e.2.encode = .ok e.2) →
    (vs.map (·.1)).Nodup → (∀ e ∈ vs, ∀ e' ∈ t, e'.1 ≠ e.1) → vs.length ≤ fuel →
    readVolumes fuel t (vs.flatMap fun e => Frame.encode e.1 ++ Frame.encode e.2.encode)
      = .ok (vs.foldl (fun t e => t.insert e.1 e.2) t)
  | [], fuel, t, _, _, _, _ => by
    rw [List.flatMap_nil, readVolumes]
    rfl
  | (name, v) :: vs, fuel, t, hread, hnodup, hnew, hfuel => by
    obtain ⟨hname, hraw, hdecode⟩ := hread (name, v) (by simp)
    obtain ⟨hfirst, hnodup⟩ := List.nodup_cons.1 hnodup
    obtain ⟨fuel, rfl⟩ : ∃ m, fuel = m + 1 := ⟨fuel - 1, by simp at hfuel; omega⟩
    have habsent : t.contains name = false := by
      rw [Table.contains, Table.find?_eq_none.2 fun e' he' => hnew (name, v) (by simp) e' he']
      rfl
    have hnew' : ∀ e ∈ vs, ∀ e' ∈ t.insert name v, e'.1 ≠ e.1 := by
      intro e he e' he' heq
      rcases Table.mem_insert he' with rfl | he'
      · exact hfirst (List.mem_map.2 ⟨e, he, heq.symm⟩)
      · exact hnew e (by simp [he]) e' he' heq
    have hrest := readVolumes_encode (fun e he => hread e (by simp [he])) hnodup hnew'
      (Nat.le_of_succ_le_succ hfuel)
    rw [List.flatMap_cons, readVolumes]
    · simp only [namedVolume_encode hname hraw, ok_bind, habsent, hdecode, Bool.false_eq_true, if_false]
      exact hrest
    · intro hnil
      have hlen := congrArg List.length hnil
      rw [List.length_append, List.length_append, Frame.length_encode] at hlen
      simp at hlen

end Container

/-! ## Builders -/

namespace Builder

/-- The state that calls leave a builder in: texts in UTF-8 and tables in order. -/
structure Sound (b : Builder) : Prop where
  note : b.note.Readable
  atomsOrdered : Table.Ordered b.atoms
  atoms : ∀ e ∈ b.atoms, valid e.1 = true
  volumesOrdered : Table.Ordered b.volumes
  files : ∀ e ∈ b.volumes, Table.Ordered e.2 ∧ ∀ f ∈ e.2, valid f.1 = true
  commandsOrdered : Table.Ordered b.commands
  commands : ∀ e ∈ b.commands, valid e.1 = true ∧ e.2.Readable ∧ ∀ a ∈ e.2.annotations, Canonical a.2
  bindings : ∀ x ∈ b.bindings, x.Readable

/-- The manifest and the indexes are within the limits of the reader. -/
def fits (b : Builder) : Bool :=
  b.manifest.toItem.fits 0 && (Volume.ofFiles true b.atoms).fits
    && b.volumes.all fun e => (Volume.ofFiles b.flat e.2).fits

theorem valid_hex (s : Bytes) : valid s.hex = true := by
  have hdigit : ∀ n < 16, Byte.hexDigit n < 0x80 := by decide
  refine Utf8.valid_of_text (Utf8.text_of_ascii fun c hc => ?_)
  obtain ⟨b, -, hc⟩ := List.mem_flatMap.1 hc
  have hb := b.toNat_lt
  simp only [List.mem_cons, List.not_mem_nil, or_false] at hc
  rcases hc with rfl | rfl
  · exact hdigit _ (by omega)
  · exact hdigit _ (by omega)

theorem valid_wasmKind : valid wasmKind = true := Utf8.valid_of_ascii (by decide)

theorem valid_noteKey : valid PackageNote.key = true := Utf8.valid_of_ascii (by decide)

theorem readable_signature (wasm : Bytes) : (signature wasm).Readable where
  kind := valid_wasmKind
  signature := Utf8.valid_append (Utf8.valid_of_ascii (by decide)) (valid_hex _)

theorem Sound.manifest {b : Builder} (h : b.Sound) : b.manifest.Readable where
  packageOrdered := List.pairwise_singleton _ _
  package e he := by
    obtain rfl := List.mem_singleton.1 he
    exact ⟨valid_noteKey, rfl⟩
  atomsOrdered := h.atomsOrdered.map_values fun e => signature e.2
  atoms := List.forall_mem_map.2 fun e he => ⟨h.atoms e he, readable_signature e.2⟩
  commandsOrdered := h.commandsOrdered
  commands e he := ⟨(h.commands e he).1, (h.commands e he).2.1⟩
  bindings := h.bindings

theorem Sound.canonical {b : Builder} (h : b.Sound) : Canonical b.manifest.toItem := by
  refine Manifest.canonical_toItem (fun e he => ?_) fun e he => (h.commands e he).2.2
  obtain rfl := List.mem_singleton.1 he
  exact b.note.canonical_toItem

theorem Sound.idOf {b : Builder} (h : b.Sound) :
    Container.idOf b.manifest = .ok (b.note.name ++ utf8 "@" ++ b.note.version) := by
  have hfind : Table.find? PackageNote.key b.manifest.package = some b.note.toItem := by
    simp [Builder.manifest, Table.find?]
  rw [Container.idOf, Manifest.annotation, hfind]
  simp only [Codec.standard, PackageNote.ofItem?_toItem h.note, ok_bind]
  rfl

/-- The volumes the container will hold. -/
def packed (b : Builder) : Table Volume := b.volumes.map fun e => (e.1, Volume.ofFiles b.flat e.2)

/-- The container that a builder describes. -/
def container (b : Builder) : Container where
  id := b.note.name ++ utf8 "@" ++ b.note.version
  manifest := b.manifest
  atoms := Volume.ofFiles true b.atoms
  volumes := b.packed

/-- The checksum, without a look into the hash function. -/
theorem digest_standard (d : Bytes) : Codec.standard.digest d = Blake3.hash d := by
  rw [Codec.standard]

theorem encode_eq (b : Builder) : ∃ tag sum, tag.length = Container.tagSize ∧ sum.length = Container.sumSize ∧
    (tag = Container.blake3Tag ∧ Codec.standard.digest b.body = sum ∨ tag = Container.noneTag) ∧
    b.encode = Container.magic ++ Container.version ++ (tag ++ sum) ++ b.body := by
  rw [encode]
  cases b.checksum with
  | true => exact ⟨_, _, rfl, Blake3.length_hash _, .inl ⟨rfl, digest_standard _⟩, rfl⟩
  | false => exact ⟨_, _, rfl, List.length_replicate, .inr rfl, rfl⟩

/-- The length of a container, without a look at its checksum. -/
theorem length_encode (b : Builder) : b.encode.length = Container.headerSize + b.body.length := by
  obtain ⟨tag, sum, htag, hsum, -, hencode⟩ := b.encode_eq
  simp only [hencode, List.length_append, htag, hsum]
  rfl

theorem body_eq (b : Builder) : b.body = Frame.encode b.manifest.toItem.encode
    ++ (Frame.encode (Volume.ofFiles true b.atoms).encode
      ++ b.packed.flatMap fun e => Frame.encode e.1 ++ Frame.encode e.2.encode) := by
  rw [body, packed, List.flatMap_map, List.append_assoc]

/-- No part of a container is longer than the whole. -/
theorem length_parts {b : Builder} {n : Nat} (h : b.encode.length < n) :
    b.manifest.toItem.encode.length < n ∧ (Volume.ofFiles true b.atoms).encode.length < n
      ∧ ∀ e ∈ b.packed, e.1.length < n ∧ e.2.encode.length < n := by
  obtain ⟨tag, sum, -, -, -, hencode⟩ := b.encode_eq
  rw [hencode, body_eq] at h
  simp only [List.length_append, Frame.length_encode] at h
  refine ⟨by omega, by omega, fun e he => ?_⟩
  have hle := length_le_flatMap (fun e : Bytes × Volume => Frame.encode e.1 ++ Frame.encode e.2.encode) he
  simp only [List.length_append, Frame.length_encode] at hle
  exact ⟨by omega, by omega⟩

/-- **A builder gives the container it describes.** -/
theorem build_eq {b : Builder} (h : b.Sound) (hfits : b.fits = true) (hlen : b.encode.length < 2 ^ 64) :
    b.build = .ok b.container := by
  obtain ⟨hmanifest, hatoms, hvolumes⟩ := length_parts hlen
  simp only [fits, Bool.and_eq_true, List.all_eq_true] at hfits
  obtain ⟨⟨hfitsManifest, hfitsAtoms⟩, hfitsVolumes⟩ := hfits
  obtain ⟨tag, sum, htag, hsum, hcheck, hencode⟩ := b.encode_eq
  have hread : Container.readManifest b.manifest.toItem.encode = .ok b.manifest := by
    simp only [Container.readManifest, Codec.standard, parse_encode h.canonical hfitsManifest hmanifest,
      Option.bind_some, Manifest.ofItem?_toItem h.manifest]
  have hatomsRead : Volume.decode (utf8 "atoms") (Volume.ofFiles true b.atoms).encode
      = .ok (Volume.ofFiles true b.atoms) :=
    Volume.decode_encode (Volume.ofFiles_sound h.atoms) hfitsAtoms hatoms _
  have hordered : Table.Ordered b.packed := h.volumesOrdered.map_values fun e => Volume.ofFiles b.flat e.2
  have hdecode : ∀ e ∈ b.packed, Volume.decode e.1 e.2.encode = .ok e.2 := by
    intro e he
    obtain ⟨f, hf, rfl⟩ := List.mem_map.1 he
    exact Volume.decode_encode (Volume.ofFiles_sound (h.files f hf).2) (hfitsVolumes f hf) (hvolumes _ he).2 _
  have hvolumesRead : Container.readVolumes
      (b.packed.flatMap fun e => Frame.encode e.1 ++ Frame.encode e.2.encode).length []
      (b.packed.flatMap fun e => Frame.encode e.1 ++ Frame.encode e.2.encode) = .ok b.packed := by
    have hread := fun e he => And.intro (hvolumes e he).1 (And.intro (hvolumes e he).2 (hdecode e he))
    rw [Container.readVolumes_encode hread hordered.nodup (by simp) (Container.length_le_named b.packed),
      ← Table.ofEntries, Table.ofEntries_eq (.refl _) hordered]
  rw [build, hencode, Container.parse, Container.body_header (k := .standard) htag hsum hcheck, body_eq]
  simp only [ok_bind, Frame.decode_encode hmanifest, hread, Frame.decode_encode hatoms, hatomsRead, hvolumesRead,
    h.idOf]
  rfl

end Builder

end Bindery
