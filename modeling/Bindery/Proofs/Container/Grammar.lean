/-
The grammar of containers. Reading a frame, a volume, a header or a container succeeds on
exactly the octets that its grammar describes: `Frame.decode_eq_ok`,
`Volume.decode_eq_ok`, `Container.body_eq_ok` and `Container.parse_eq_ok` say so for any
codec, with what is read. Frames come apart in one way only (`Frame.encode_append_inj`),
so the parts of a container are determined by its octets.
-/
import Bindery.Proofs.Container.RoundTrip
import Bindery.Proofs.Outcome

namespace Bindery

open Cbor

/-! ## Frames -/

namespace Frame

/-- **A frame is read exactly where one stands.** -/
theorem decode_eq_ok {what s a rest : Bytes} :
    decode what s = .ok (a, rest) ↔ a.length < 2 ^ 64 ∧ s = encode a ++ rest := by
  constructor
  · intro h
    rw [decode] at h
    split at h
    · simp at h
    · rename_i hlen
      dsimp only at h
      split at h
      · simp at h
      · rename_i hrest
        obtain ⟨rfl, rfl⟩ := Prod.mk.inj (Except.ok.inj h)
        have hhead : (s.take 8).length = 8 := by
          rw [List.length_take]
          omega
        have hnum := Endian.ofLittle_lt (s.take 8)
        have hback := Endian.little_ofLittle (s.take 8)
        rw [hhead] at hnum hback
        have hbody : ((s.drop 8).take (Endian.ofLittle (s.take 8))).length = Endian.ofLittle (s.take 8) := by
          rw [List.length_take]
          omega
        refine ⟨by rw [hbody]; exact hnum, ?_⟩
        rw [encode, hbody, hback, List.append_assoc, List.take_append_drop, List.take_append_drop]
  · rintro ⟨h, rfl⟩
    exact decode_encode h what rest

/-- Frames come apart in one way only. -/
theorem encode_append_inj {a b r r' : Bytes} (ha : a.length < 2 ^ 64) (hb : b.length < 2 ^ 64)
    (h : encode a ++ r = encode b ++ r') : a = b ∧ r = r' := by
  have hread := decode_encode ha [] r
  rw [h, decode_encode hb] at hread
  obtain ⟨hab, hr⟩ := Prod.mk.inj (Except.ok.inj hread)
  exact ⟨hab.symm, hr.symm⟩

theorem prefix_append_inj {a b r r' : Bytes} (ha : a.length < 2 ^ 64) (hb : b.length < 2 ^ 64)
    (h : encode a ++ r <+: encode b ++ r') : a = b ∧ r <+: r' := by
  obtain ⟨x, hx⟩ := h
  rw [List.append_assoc] at hx
  obtain ⟨hab, hr⟩ := encode_append_inj ha hb hx
  exact ⟨hab, x, hr⟩

theorem encode_ne_nil (s : Bytes) : encode s ≠ [] := by
  intro h
  have hlen := length_encode s
  rw [h, List.length_nil] at hlen
  omega

end Frame

/-! ## Volumes -/

namespace Node

/-- A node stands somewhere in a tree, whatever the kinds of the nodes above it. -/
inductive Below (n : Node) : List Node → Prop
  | here {level : List Node} : n ∈ level → Below n level
  | under {level : List Node} {m : Node} : m ∈ level → Below n m.children → Below n level

theorem not_below_nil (n : Node) : ¬Below n [] := by
  rintro (h | ⟨h, -⟩) <;> simp at h

theorem below_cons {n m : Node} {level : List Node} :
    Below n (m :: level) ↔ n = m ∨ Below n m.children ∨ Below n level := by
  constructor
  · rintro (h | @⟨_, m', hm, h⟩)
    · exact (List.mem_cons.1 h).imp_right fun h => .inr (.here h)
    · rcases List.mem_cons.1 hm with rfl | hm
      · exact .inr (.inl h)
      · exact .inr (.inr (.under hm h))
  · rintro (rfl | h | h)
    · exact .here (by simp)
    · exact .under List.mem_cons_self h
    · cases h with
      | here hmem => exact .here (by simp [hmem])
      | under hmem h => exact .under (List.mem_cons_of_mem m hmem) h

/-- A file lies in so many octets; other nodes have no place. -/
def InRange (size : Nat) (n : Node) : Prop := n.kind = fileKind → n.start ≤ n.stop ∧ n.stop ≤ size

end Node

namespace Volume

/-- Every file of the index, wherever it stands, lies in the data. -/
def InRange (v : Volume) : Prop := ∀ n : Node, n.Below v.root → n.InRange v.data.length

mutual

theorem outside?_eq_none_iff {size : Nat} (m : Node) : outside? size m = none ↔
    m.InRange size ∧ ∀ n : Node, n.Below m.children → n.InRange size := by
  cases m with
  | mk name kind start stop children =>
    rw [outside?, Node.InRange]
    split
    · rename_i h
      simp only [reduceCtorEq, false_iff, not_and]
      intro hrange
      have hle := hrange h.1
      omega
    · rename_i h
      rw [anyOutside?_eq_none_iff children]
      refine ⟨fun hbelow => ⟨fun hkind => ?_, hbelow⟩, fun hrange => hrange.2⟩
      have hle := not_and.1 h hkind
      show start ≤ stop ∧ stop ≤ size
      omega

theorem anyOutside?_eq_none_iff {size : Nat} (ns : List Node) : anyOutside? size ns = none ↔
    ∀ n : Node, n.Below ns → n.InRange size := by
  cases ns with
  | nil => simp [anyOutside?, Node.not_below_nil]
  | cons m ns =>
    rw [anyOutside?, Option.or_eq_none_iff, outside?_eq_none_iff m, anyOutside?_eq_none_iff ns]
    simp only [Node.below_cons, or_imp, forall_and, forall_eq, and_assoc]

end

/-- The octets are a volume: its index and its data in a frame each, with nothing behind
them. The index is empty or read by the codec, and its files lie in the data. -/
structure Spelled (k : Codec) (raw : Bytes) (v : Volume) : Prop where
  frames : ∃ index : Bytes, index.length < 2 ^ 64 ∧ v.data.length < 2 ^ 64 ∧
    raw = Frame.encode index ++ Frame.encode v.data ∧
    (index = [] ∧ v.root = [] ∨ index ≠ [] ∧ k.nodes? index = some v.root)
  inRange : v.InRange

theorem readIndex_eq_some {k : Codec} {index : Bytes} {root : List Node} : readIndex index k = some root ↔
    index = [] ∧ root = [] ∨ index ≠ [] ∧ k.nodes? index = some root := by
  rw [readIndex]
  cases index with
  | nil => simp [eq_comm]
  | cons b index => simp

/-- **A volume is read exactly where one is spelled**, whatever it is called. -/
theorem decode_eq_ok {k : Codec} {name raw : Bytes} {v : Volume} :
    decode name raw k = .ok v ↔ Spelled k raw v := by
  constructor
  · intro h
    rw [decode] at h
    obtain ⟨⟨index, rest⟩, hindex, hafter⟩ := bind_eq_ok.1 h
    obtain ⟨⟨data, rest'⟩, hdata, hchecks⟩ := bind_eq_ok.1 hafter
    clear h hafter
    obtain ⟨hindexLen, rfl⟩ := Frame.decode_eq_ok.1 hindex
    obtain ⟨hdataLen, rfl⟩ := Frame.decode_eq_ok.1 hdata
    dsimp only at hchecks
    split at hchecks
    · cases hchecks
    · rename_i hrest
      obtain rfl : rest' = [] := by simpa using hrest
      cases hroot : readIndex index k with
      | none => simp [hroot] at hchecks
      | some root =>
        cases hout : anyOutside? data.length root with
        | some n => simp [hroot, hout] at hchecks
        | none =>
          simp only [hroot, hout] at hchecks
          obtain rfl := Except.ok.inj hchecks
          refine ⟨⟨index, hindexLen, hdataLen, by simp, readIndex_eq_some.1 hroot⟩, ?_⟩
          exact (anyOutside?_eq_none_iff root).1 hout
  · rintro ⟨⟨index, hindexLen, hdataLen, rfl, hroot⟩, hrange⟩
    have hdata := Frame.decode_encode hdataLen (utf8 "volume " ++ name ++ utf8 " data") []
    rw [List.append_nil] at hdata
    rw [decode, Frame.decode_encode hindexLen]
    simp only [ok_bind, hdata, readIndex_eq_some.2 hroot, (anyOutside?_eq_none_iff v.root).2 hrange, List.isEmpty_nil,
      Bool.not_true, Bool.false_eq_true, if_false]
    rfl

/-- Octets are a volume in one way only. -/
theorem Spelled.unique {k : Codec} {raw : Bytes} {v v' : Volume} (h : Spelled k raw v) (h' : Spelled k raw v') :
    v = v' := by
  have hread : decode [] raw k = .ok v := decode_eq_ok.2 h
  rw [decode_eq_ok.2 h'] at hread
  exact (Except.ok.inj hread).symm

end Volume

/-! ## Containers -/

/-- What the frames behind the header of a container hold. -/
structure Parts where
  manifest : Bytes
  atoms : Bytes
  /-- the volumes behind their names -/
  volumes : List (Bytes × Bytes)

namespace Parts

/-- Volumes behind their names, one after the other. -/
def named (es : List (Bytes × Bytes)) : Bytes := es.flatMap fun e => Frame.encode e.1 ++ Frame.encode e.2

/-- The octets behind the header. -/
def body (p : Parts) : Bytes := Frame.encode p.manifest ++ (Frame.encode p.atoms ++ named p.volumes)

/-- Every part has a length that eight octets hold. -/
structure Measured (p : Parts) : Prop where
  manifest : p.manifest.length < 2 ^ 64
  atoms : p.atoms.length < 2 ^ 64
  volumes : ∀ e ∈ p.volumes, e.1.length < 2 ^ 64 ∧ e.2.length < 2 ^ 64

theorem named_cons (e : Bytes × Bytes) (es : List (Bytes × Bytes)) :
    named (e :: es) = Frame.encode e.1 ++ (Frame.encode e.2 ++ named es) := by
  rw [named, List.flatMap_cons, List.append_assoc, ← named]

theorem named_cons_ne_nil (e : Bytes × Bytes) (es : List (Bytes × Bytes)) : named (e :: es) ≠ [] := by
  rw [named_cons]
  exact fun h => Frame.encode_ne_nil e.1 (List.append_eq_nil_iff.1 h).1

/-- Named volumes in front of longer ones are the first of them. -/
theorem prefix_of_named : ∀ {es es' : List (Bytes × Bytes)},
    (∀ e ∈ es, e.1.length < 2 ^ 64 ∧ e.2.length < 2 ^ 64) →
    (∀ e ∈ es', e.1.length < 2 ^ 64 ∧ e.2.length < 2 ^ 64) → named es <+: named es' → es <+: es'
  | [], _, _, _, _ => List.nil_prefix
  | e :: es, [], _, _, h => absurd (List.prefix_nil.1 h) (named_cons_ne_nil e es)
  | (n, raw) :: es, (n', raw') :: es', hes, hes', h => by
    obtain ⟨⟨hn, hraw⟩, htail⟩ := List.forall_mem_cons.1 hes
    obtain ⟨⟨hn', hraw'⟩, htail'⟩ := List.forall_mem_cons.1 hes'
    rw [named_cons, named_cons] at h
    obtain ⟨rfl, hrest⟩ := Frame.prefix_append_inj hn hn' h
    obtain ⟨rfl, hnamed⟩ := Frame.prefix_append_inj hraw hraw' hrest
    exact List.cons_prefix_cons.2 ⟨rfl, prefix_of_named htail htail' hnamed⟩

theorem named_inj {es es' : List (Bytes × Bytes)} (hes : ∀ e ∈ es, e.1.length < 2 ^ 64 ∧ e.2.length < 2 ^ 64)
    (hes' : ∀ e ∈ es', e.1.length < 2 ^ 64 ∧ e.2.length < 2 ^ 64) (h : named es = named es') : es = es' := by
  have hprefix : es <+: es' := prefix_of_named hes hes' (h ▸ List.prefix_rfl)
  have hprefix' : es' <+: es := prefix_of_named hes' hes (h ▸ List.prefix_rfl)
  exact hprefix.eq_of_length_le hprefix'.length_le

/-- **The parts are determined by the octets behind the header.** -/
theorem body_inj {p p' : Parts} (h : p.Measured) (h' : p'.Measured) (hbody : p.body = p'.body) : p = p' := by
  rw [body, body] at hbody
  obtain ⟨hmanifest, hrest⟩ := Frame.encode_append_inj h.manifest h'.manifest hbody
  obtain ⟨hatoms, hnamed⟩ := Frame.encode_append_inj h.atoms h'.atoms hrest
  have hvolumes := named_inj h.volumes h'.volumes hnamed
  cases p
  cases p'
  simp_all

end Parts

namespace Container

/-- The octets are a header in front of a body: the header carries the body's checksum, or
names none and carries any octets in its place. -/
def Sealed (k : Codec) (d body : Bytes) : Prop :=
  ∃ tag sum : Bytes, tag.length = 16 ∧ sum.length = 32 ∧
    (tag = blake3Tag ∧ sum = k.digest body ∨ tag = noneTag) ∧ d = magic ++ version ++ tag ++ sum ++ body

theorem Sealed.body_unique {k : Codec} {d b b' : Bytes} (h : Sealed k d b) (h' : Sealed k d b') : b = b' := by
  obtain ⟨tag, sum, htag, hsum, -, rfl⟩ := h
  obtain ⟨tag', sum', htag', hsum', -, heq⟩ := h'
  refine (List.append_inj heq ?_).2
  simp only [List.length_append, htag, hsum, htag', hsum']

/-- Octets that begin with the magic number and the version. -/
theorem eq_magic_version {d : Bytes} (hmagic : d.take magic.length = magic)
    (hversion : (d.drop magic.length).take version.length = version) :
    d = magic ++ version ++ (d.drop magic.length).drop version.length := by
  have hfirst := List.take_append_drop magic.length d
  have hsecond := List.take_append_drop version.length (d.drop magic.length)
  rw [hmagic] at hfirst
  rw [hversion] at hsecond
  rw [List.append_assoc, hsecond, hfirst]

/-- A tag and a checksum that were looked at stand in front of a body. -/
theorem sealed_of_checked {k : Codec} {s : Bytes} (hlen : tagSize + sumSize ≤ s.length)
    (hcheck : s.take tagSize = blake3Tag ∧ (s.drop tagSize).take sumSize = k.digest (s.drop (tagSize + sumSize)) ∨
      s.take tagSize = noneTag) : Sealed k (magic ++ version ++ s) (s.drop (tagSize + sumSize)) := by
  refine ⟨s.take tagSize, (s.drop tagSize).take sumSize, ?_, ?_, hcheck, ?_⟩
  · rw [List.length_take]
    exact Nat.min_eq_left (by omega)
  · rw [List.length_take, List.length_drop]
    exact Nat.min_eq_left (by omega)
  · rw [← List.drop_drop]
    simp only [List.append_assoc, List.take_append_drop]

/-- **A header is accepted exactly where one stands.** -/
theorem body_eq_ok {k : Codec} {d b : Bytes} : body d k = .ok b ↔ Sealed k d b := by
  constructor
  · intro h
    rw [body] at h
    split at h
    · cases h
    rename_i hlen
    split at h
    · cases h
    rename_i hmagic
    dsimp only at h
    split at h
    · cases h
    rename_i hversion
    rw [ne_eq, Decidable.not_not] at hmagic hversion
    have hd := eq_magic_version hmagic hversion
    generalize (d.drop magic.length).drop version.length = s at h hd
    subst hd
    have hslen : tagSize + sumSize ≤ s.length := by
      have hfixed : magic.length = 5 ∧ version.length = 3 := ⟨rfl, rfl⟩
      simp only [headerSize, List.length_append] at hlen
      simp only [tagSize, sumSize]
      omega
    split at h
    · rename_i htag
      split at h
      · rename_i hsum
        obtain rfl := Except.ok.inj h
        exact sealed_of_checked hslen (.inl ⟨htag, hsum.symm⟩)
      · cases h
    · split at h
      · rename_i htag
        obtain rfl := Except.ok.inj h
        exact sealed_of_checked hslen (.inr htag)
      · cases h
  · rintro ⟨tag, sum, htag, hsum, hcheck, rfl⟩
    rw [List.append_assoc (magic ++ version)]
    exact body_header htag hsum (hcheck.imp_left fun h => ⟨h.1, h.2.symm⟩)

/-! ### Volumes up to the end -/

/-- A volume stands behind its name. -/
def Packs (k : Codec) (e : Bytes × Bytes) (v : Bytes × Volume) : Prop := v.1 = e.1 ∧ v.2.Spelled k e.2

theorem namedVolume_eq_ok {s rest : Bytes} {e : Bytes × Bytes} : namedVolume s = .ok (e, rest) ↔
    (e.1.length < 2 ^ 64 ∧ e.2.length < 2 ^ 64) ∧ s = Frame.encode e.1 ++ (Frame.encode e.2 ++ rest) := by
  constructor
  · intro h
    rw [namedVolume] at h
    obtain ⟨⟨name, s'⟩, hname, hafter⟩ := bind_eq_ok.1 h
    obtain ⟨⟨raw, s''⟩, hraw, hdone⟩ := bind_eq_ok.1 hafter
    clear h hafter
    obtain ⟨hnameLen, rfl⟩ := Frame.decode_eq_ok.1 hname
    obtain ⟨hrawLen, rfl⟩ := Frame.decode_eq_ok.1 hraw
    obtain ⟨rfl, rfl⟩ := Prod.mk.inj (Except.ok.inj hdone)
    exact ⟨⟨hnameLen, hrawLen⟩, rfl⟩
  · rintro ⟨⟨hname, hraw⟩, rfl⟩
    rw [← List.append_assoc]
    exact namedVolume_encode hname hraw rest

theorem contains_eq_false {t : Table Volume} {n : Bytes} : t.contains n = false ↔ ∀ e ∈ t, e.1 ≠ n := by
  rw [Table.contains, Option.isSome_eq_false_iff, Option.isNone_iff_eq_none, Table.find?_eq_none]

/-- One step: the first volume has a new name, and the rest is read with it added. -/
theorem readVolumes_step {k : Codec} {fuel : Nat} {t t' : Table Volume} {s : Bytes} (hs : s ≠ []) :
    readVolumes (fuel + 1) t s k = .ok t' ↔ ∃ (e : Bytes × Bytes) (v : Volume) (rest : Bytes),
      (e.1.length < 2 ^ 64 ∧ e.2.length < 2 ^ 64) ∧ s = Frame.encode e.1 ++ (Frame.encode e.2 ++ rest) ∧
      (∀ e' ∈ t, e'.1 ≠ e.1) ∧ v.Spelled k e.2 ∧ readVolumes fuel (t.insert e.1 v) rest k = .ok t' := by
  have hunfold : readVolumes (fuel + 1) t s k = (do
      let (e, s) ← namedVolume s
      if t.contains e.1 then
        throw (Frame.invalid (utf8 "volume " ++ e.1.quote ++ utf8 " appears twice"))
      readVolumes fuel (t.insert e.1 (← Volume.decode e.1 e.2 k)) s k) := by
    rw [readVolumes]
    exact hs
  rw [hunfold]
  constructor
  · intro h
    obtain ⟨⟨e, rest⟩, hnamed, hafter⟩ := bind_eq_ok.1 h
    obtain ⟨hlen, heq⟩ := namedVolume_eq_ok.1 hnamed
    dsimp only at hafter
    split at hafter
    · cases hafter
    · rename_i hnew
      obtain ⟨v, hv, hrest⟩ := bind_eq_ok.1 hafter
      refine ⟨e, v, rest, hlen, heq, ?_, Volume.decode_eq_ok.1 hv, hrest⟩
      exact contains_eq_false.1 (by simpa using hnew)
  · rintro ⟨e, v, rest, hlen, heq, hnew, hv, hrest⟩
    simp only [namedVolume_eq_ok.2 ⟨hlen, heq⟩, ok_bind, contains_eq_false.2 hnew, Volume.decode_eq_ok.2 hv,
      Bool.false_eq_true, if_false, hrest]

/-- Names are new to a table with one more volume when they are new to the table and none
is the volume's. -/
theorem new_insert_iff {t : Table Volume} {n : Bytes} (v : Volume) (hn : ∀ e ∈ t, e.1 ≠ n)
    {es : List (Bytes × Bytes)} : (∀ e ∈ es, ∀ e' ∈ t.insert n v, e'.1 ≠ e.1) ↔
      n ∉ es.map (·.1) ∧ ∀ e ∈ es, ∀ e' ∈ t, e'.1 ≠ e.1 := by
  have hmem : ∀ e', e' ∈ t.insert n v ↔ e' = (n, v) ∨ e' ∈ t := fun e' =>
    (Table.insert_perm v hn).mem_iff.trans List.mem_cons
  simp only [hmem, forall_eq_or_imp, forall_and, List.mem_map, not_exists, not_and, ne_eq]
  exact and_congr_left fun _ => forall₂_congr fun e _ => not_congr eq_comm

/-- **Volumes are read up to the end exactly where volumes with new names stand.** -/
theorem readVolumes_eq_ok {k : Codec} : ∀ {fuel : Nat} {t t' : Table Volume} {s : Bytes}, s.length ≤ fuel →
    (readVolumes fuel t s k = .ok t' ↔ ∃ es vs, s = Parts.named es ∧
      (∀ e ∈ es, e.1.length < 2 ^ 64 ∧ e.2.length < 2 ^ 64) ∧ List.Forall₂ (Packs k) es vs ∧
      (es.map (·.1)).Nodup ∧ (∀ e ∈ es, ∀ e' ∈ t, e'.1 ≠ e.1) ∧
      t' = vs.foldl (fun t v => t.insert v.1 v.2) t)
  | fuel, t, t', [], _ => by
    rw [readVolumes]
    constructor
    · intro h
      exact ⟨[], [], rfl, by simp, .nil, by simp, by simp, (Except.ok.inj h).symm⟩
    · rintro ⟨es, vs, hes, -, hpacks, -, -, rfl⟩
      cases hpacks with
      | nil => rfl
      | cons => exact absurd hes.symm (Parts.named_cons_ne_nil _ _)
  | fuel + 1, t, t', b :: s, hfuel => by
    rw [readVolumes_step (List.cons_ne_nil b s)]
    constructor
    · rintro ⟨⟨n, raw⟩, v, rest, hlen, heq, hnew, hv, hrest⟩
      have hshorter : rest.length ≤ fuel := by
        have hlens := congrArg List.length heq
        simp only [List.length_append, Frame.length_encode, List.length_cons] at hlens hfuel
        omega
      obtain ⟨es, vs, rfl, hlens, hpacks, hnodup, hnames, rfl⟩ := (readVolumes_eq_ok hshorter).1 hrest
      obtain ⟨hn, hnames⟩ := (new_insert_iff v hnew).1 hnames
      refine ⟨(n, raw) :: es, (n, v) :: vs, ?_, ?_, .cons ⟨rfl, hv⟩ hpacks, ?_, ?_, rfl⟩
      · rw [heq, Parts.named_cons]
      · exact List.forall_mem_cons.2 ⟨hlen, hlens⟩
      · exact List.nodup_cons.2 ⟨hn, hnodup⟩
      · exact List.forall_mem_cons.2 ⟨hnew, hnames⟩
    · rintro ⟨es, vs, heq, hlens, hpacks, hnodup, hnew, rfl⟩
      cases hpacks with
      | nil => exact absurd heq (List.cons_ne_nil b s)
      | @cons e v es vs hv hpacks =>
        obtain ⟨hlen, hlens⟩ := List.forall_mem_cons.1 hlens
        obtain ⟨hn, hnodup⟩ := List.nodup_cons.1 hnodup
        obtain ⟨hfirst, hnew⟩ := List.forall_mem_cons.1 hnew
        obtain ⟨n, v⟩ := v
        obtain ⟨rfl, hv⟩ := hv
        rw [Parts.named_cons] at heq
        refine ⟨e, v, Parts.named es, hlen, heq, hfirst, hv, (readVolumes_eq_ok ?_).2 ?_⟩
        · have hlens := congrArg List.length heq
          simp only [List.length_append, Frame.length_encode, List.length_cons] at hlens hfuel
          omega
        · exact ⟨es, vs, rfl, hlens, hpacks, hnodup, (new_insert_iff v hfirst).2 ⟨hn, hnew⟩, rfl⟩

/-! ### Whole containers -/

/-- The octets are a container of some parts, and this is the container. -/
structure Spells (k : Codec) (d : Bytes) (p : Parts) (c : Container) : Prop where
  header : Sealed k d p.body
  measured : p.Measured
  distinct : (p.volumes.map (·.1)).Nodup
  manifest : k.manifest? p.manifest = some c.manifest
  id : idOf c.manifest k = .ok c.id
  atoms : c.atoms.Spelled k p.atoms
  volumes : ∃ vs, List.Forall₂ (Packs k) p.volumes vs ∧ c.volumes = Table.ofEntries vs

theorem readManifest_eq_ok {k : Codec} {s : Bytes} {m : Manifest} :
    readManifest s k = .ok m ↔ k.manifest? s = some m := by
  rw [readManifest]
  cases k.manifest? s <;> simp

/-- **A container is read exactly where one is spelled.** -/
theorem parse_eq_ok {k : Codec} {d : Bytes} {c : Container} : parse d k = .ok c ↔ ∃ p, Spells k d p c := by
  constructor
  · intro h
    rw [parse] at h
    obtain ⟨body, hbody, h₁⟩ := bind_eq_ok.1 h
    obtain ⟨⟨manifest, s₁⟩, hmanifest, h₂⟩ := bind_eq_ok.1 h₁
    obtain ⟨m, hm, h₃⟩ := bind_eq_ok.1 h₂
    obtain ⟨⟨atoms, s₂⟩, hatoms, h₄⟩ := bind_eq_ok.1 h₃
    obtain ⟨a, ha, h₅⟩ := bind_eq_ok.1 h₄
    obtain ⟨volumes, hvolumes, h₆⟩ := bind_eq_ok.1 h₅
    obtain ⟨id, hid, h₇⟩ := bind_eq_ok.1 h₆
    clear h h₁ h₂ h₃ h₄ h₅ h₆
    obtain rfl := Except.ok.inj h₇
    obtain ⟨hmanifestLen, rfl⟩ := Frame.decode_eq_ok.1 hmanifest
    obtain ⟨hatomsLen, rfl⟩ := Frame.decode_eq_ok.1 hatoms
    obtain ⟨es, vs, rfl, hlens, hpacks, hnodup, -, rfl⟩ := (readVolumes_eq_ok (Nat.le_refl _)).1 hvolumes
    exact ⟨⟨manifest, atoms, es⟩, body_eq_ok.1 hbody, ⟨hmanifestLen, hatomsLen, hlens⟩, hnodup,
      readManifest_eq_ok.1 hm, hid, Volume.decode_eq_ok.1 ha, vs, hpacks, rfl⟩
  · rintro ⟨p, hheader, hmeasured, hnodup, hmanifest, hid, hatoms, vs, hpacks, hvolumes⟩
    have hread : readVolumes (Parts.named p.volumes).length [] (Parts.named p.volumes) k = .ok c.volumes :=
      (readVolumes_eq_ok (Nat.le_refl _)).2
        ⟨p.volumes, vs, rfl, hmeasured.volumes, hpacks, hnodup, by simp, hvolumes⟩
    rw [parse, body_eq_ok.2 hheader, Parts.body]
    simp only [ok_bind, Frame.decode_encode hmeasured.manifest, readManifest_eq_ok.2 hmanifest,
      Frame.decode_encode hmeasured.atoms, Volume.decode_eq_ok.2 hatoms, hread, hid]
    rfl

/-- The octets are a container of some parts: a header in front of frames that hold a
manifest whose note on the package, if any, is read by the codec, the atoms, and volumes
under distinct names. -/
structure Grammar (k : Codec) (d : Bytes) (p : Parts) : Prop where
  header : Sealed k d p.body
  measured : p.Measured
  distinct : (p.volumes.map (·.1)).Nodup
  manifest : ∃ m, k.manifest? p.manifest = some m ∧
    ∀ i, m.package.find? PackageNote.key = some i → (k.note? i).isSome
  atoms : ∃ v : Volume, v.Spelled k p.atoms
  volumes : ∀ e ∈ p.volumes, ∃ v : Volume, v.Spelled k e.2

theorem exists_idOf_iff {k : Codec} {m : Manifest} : (∃ id, idOf m k = .ok id) ↔
    ∀ i, m.package.find? PackageNote.key = some i → (k.note? i).isSome := by
  rw [idOf, Manifest.annotation]
  cases hfind : m.package.find? PackageNote.key with
  | none => simp [ok_bind, pure, Except.pure]
  | some i =>
    cases hnote : k.note? i with
    | none => simp [bind, Except.bind, hnote]
    | some n => simp [ok_bind, pure, Except.pure, hnote]

theorem exists_spells_iff {k : Codec} {d : Bytes} {p : Parts} : (∃ c, Spells k d p c) ↔ Grammar k d p := by
  constructor
  · rintro ⟨c, h⟩
    obtain ⟨vs, hpacks, -⟩ := h.volumes
    refine ⟨h.header, h.measured, h.distinct, ⟨c.manifest, h.manifest, exists_idOf_iff.1 ⟨c.id, h.id⟩⟩,
      ⟨c.atoms, h.atoms⟩, fun e he => ?_⟩
    obtain ⟨v, hv⟩ := exists_forall₂_iff.1 ⟨vs, hpacks⟩ e he
    exact ⟨v.2, hv.2⟩
  · intro h
    obtain ⟨m, hm, hnote⟩ := h.manifest
    obtain ⟨id, hid⟩ := exists_idOf_iff.2 hnote
    obtain ⟨a, ha⟩ := h.atoms
    have hpartner : ∀ e ∈ p.volumes, ∃ v, Packs k e v := by
      intro e he
      obtain ⟨v, hv⟩ := h.volumes e he
      exact ⟨(e.1, v), rfl, hv⟩
    obtain ⟨vs, hpacks⟩ := exists_forall₂_iff.2 hpartner
    exact ⟨⟨id, m, a, Table.ofEntries vs⟩, h.header, h.measured, h.distinct, hm, hid, ha, vs, hpacks, rfl⟩

/-- Octets are a container of one choice of parts only. -/
theorem Grammar.unique {k : Codec} {d : Bytes} {p p' : Parts} (h : Grammar k d p) (h' : Grammar k d p') :
    p = p' := Parts.body_inj h.measured h'.measured (h.header.body_unique h'.header)

theorem map_fst_of_packs {k : Codec} {es : List (Bytes × Bytes)} {vs : List (Bytes × Volume)}
    (h : List.Forall₂ (Packs k) es vs) : vs.map (·.1) = es.map (·.1) :=
  (map_eq_map_of_forall₂ h fun _ _ hpacks => hpacks.1.symm).symm

/-- The table of volumes has one entry for every volume that the parts spell. -/
theorem Spells.volumes_perm {k : Codec} {d : Bytes} {p : Parts} {c : Container} (h : Spells k d p c) :
    ∃ vs, List.Forall₂ (Packs k) p.volumes vs ∧ Table.Ordered c.volumes ∧ c.volumes.Perm vs := by
  obtain ⟨vs, hpacks, hvolumes⟩ := h.volumes
  have hnodup : (vs.map (·.1)).Nodup := map_fst_of_packs hpacks ▸ h.distinct
  rw [hvolumes]
  refine ⟨vs, hpacks, Table.foldl_insert_ordered vs .nil, ?_⟩
  simpa [Table.ofEntries] using Table.foldl_insert_perm (t := []) hnodup (by simp)

/-- A volume of a container is what the parts spell under its name. -/
theorem Spells.find?_volumes {k : Codec} {d : Bytes} {p : Parts} {c : Container} (h : Spells k d p c)
    {n : Bytes} {v : Volume} : c.volumes.find? n = some v ↔ ∃ raw, (n, raw) ∈ p.volumes ∧ v.Spelled k raw := by
  obtain ⟨vs, hpacks, hordered, hperm⟩ := h.volumes_perm
  rw [Table.find?_eq_some hordered, hperm.mem_iff]
  constructor
  · intro hmem
    obtain ⟨⟨n', raw⟩, he, hname, hv⟩ := exists_of_mem_forall₂ hpacks hmem
    obtain rfl : n = n' := hname
    exact ⟨raw, he, hv⟩
  · rintro ⟨raw, he, hv⟩
    obtain ⟨⟨n', v'⟩, hmem, hname, hv'⟩ := exists_of_mem_forall₂ hpacks.flip he
    obtain rfl : n' = n := hname
    rwa [hv.unique hv']

/-- **A container is accepted exactly where the grammar describes one**, with nothing left
over. Its parts are then determined by the octets, its volumes are those of the parts,
each under its name, and its manifest and atoms are read from theirs. -/
theorem accepts_exactly_grammar (k : Codec) (d : Bytes) :
    ((∃ c, parse d k = .ok c) ↔ ∃ p, Grammar k d p) ∧
    (∀ p p', Grammar k d p → Grammar k d p' → p = p') ∧
    ∀ c p, parse d k = .ok c → Grammar k d p →
      c.volumes.keys.Perm (p.volumes.map (·.1)) ∧
      (∀ n v, c.volumes.find? n = some v ↔ ∃ raw, (n, raw) ∈ p.volumes ∧ v.Spelled k raw) ∧
      k.manifest? p.manifest = some c.manifest ∧ c.atoms.Spelled k p.atoms := by
  refine ⟨?_, fun p p' => Grammar.unique, fun c p hc hp => ?_⟩
  · simp only [parse_eq_ok, ← exists_spells_iff]
    exact exists_comm
  · obtain ⟨p', h⟩ := parse_eq_ok.1 hc
    obtain rfl := hp.unique (exists_spells_iff.1 ⟨c, h⟩)
    obtain ⟨vs, hpacks, -, hperm⟩ := h.volumes_perm
    refine ⟨?_, fun n v => h.find?_volumes, h.manifest, h.atoms⟩
    rw [← map_fst_of_packs hpacks]
    exact hperm.map _

/-- An empty manifest, no atoms, and a volume of one file. -/
def sampleParts : Parts :=
  { manifest := [0xa0]
    atoms := Volume.encode {}
    volumes := [(utf8 "v", Volume.encode (.ofFiles false [(utf8 "a/b", [1, 2])]))] }

/-- A container of these parts, with no checksum but some octets in its place. -/
def sampleOctets : Bytes := magic ++ version ++ noneTag ++ List.replicate sumSize 7 ++ sampleParts.body

theorem accepts_exactly_grammar_sample : Grammar .standard sampleOctets sampleParts ∧
    ∃ c, parse sampleOctets = .ok c ∧ c.volumes.keys.Perm [utf8 "v"] := by
  have hatoms : Volume.Spelled .standard (Volume.encode {}) {} :=
    Volume.decode_eq_ok.1 (Volume.decode_encode (List.forall_mem_nil _) (by decide) (by decide) [])
  have hvolume : Volume.Spelled .standard (Volume.encode (.ofFiles false [(utf8 "a/b", [1, 2])]))
      (.ofFiles false [(utf8 "a/b", [1, 2])]) := by
    refine Volume.decode_eq_ok.1 (Volume.decode_encode (Volume.ofFiles_sound ?_) ?_ ?_ [])
    · simpa using Utf8.valid_of_ascii rfl
    · decide +kernel
    · decide +kernel
  have hgrammar : Grammar .standard sampleOctets sampleParts :=
    { header := ⟨noneTag, List.replicate sumSize 7, rfl, rfl, .inr rfl, rfl⟩
      measured := ⟨by decide, by decide +kernel, by decide +kernel⟩
      distinct := by decide
      manifest := ⟨{}, by rfl, by simp [Table.find?]⟩
      atoms := ⟨_, hatoms⟩
      volumes := by simpa [sampleParts] using ⟨_, hvolume⟩ }
  obtain ⟨haccepts, -, hparts⟩ := accepts_exactly_grammar .standard sampleOctets
  obtain ⟨c, hc⟩ := haccepts.2 ⟨sampleParts, hgrammar⟩
  exact ⟨hgrammar, c, hc, (hparts c sampleParts hc hgrammar).1⟩

end Container

end Bindery
