/-
Reading undoes writing. `Canonical` are the items that the stored forms are made of:
null, numbers, texts, lists, and maps keyed by texts, each with its numbers in as few
octets as they take. Such an item is read back from its octets (`parse_encode`) as long
as it stays within the reader's limits, which `Item.fits` counts out.
-/
import Bindery.Cbor.Canonical
import Bindery.Proofs.Bytes.Octets

namespace Bindery.Cbor

/-! ## Limits -/

namespace Item

mutual

/-- The arrays and maps of an item that lies `depth` deep are neither nested too deep nor
too long for the reader. -/
def fits (depth : Nat) : Item → Bool
  | .array _ is | .openArray is =>
    decide (depth < maxDepth) && decide (is.length ≤ maxCount) && allFit (depth + 1) is
  | .map _ es | .openMap es =>
    decide (depth < maxDepth) && decide (es.length ≤ maxCount) && entriesFit (depth + 1) es
  | .tag _ i => i.fits depth
  | _ => true

def allFit (depth : Nat) : List Item → Bool
  | [] => true
  | i :: is => i.fits depth && allFit depth is

def entriesFit (depth : Nat) : List (Item × Item) → Bool
  | [] => true
  | (k, v) :: es => k.fits depth && v.fits depth && entriesFit depth es

end

theorem allFit_iff {depth : Nat} {is : List Item} : allFit depth is = true ↔ ∀ i ∈ is, i.fits depth = true := by
  induction is with
  | nil => simp [allFit]
  | cons i is ih => simp [allFit, ih]

theorem entriesFit_iff {depth : Nat} {es : List (Item × Item)} :
    entriesFit depth es = true ↔ ∀ e ∈ es, e.1.fits depth = true ∧ e.2.fits depth = true := by
  induction es with
  | nil => simp [entriesFit]
  | cons e es ih =>
    obtain ⟨k, v⟩ := e
    simp [entriesFit, ih]

theorem fits_ofList {depth : Nat} {is : List Item} : (ofList is).fits depth = true ↔
    (depth < maxDepth ∧ is.length ≤ maxCount) ∧ ∀ i ∈ is, i.fits (depth + 1) = true := by
  simp [ofList, fits, allFit_iff]

theorem fits_ofEntries {depth : Nat} {es : List (Bytes × Item)} : (ofEntries es).fits depth = true ↔
    (depth < maxDepth ∧ es.length ≤ maxCount) ∧ ∀ e ∈ es, e.2.fits (depth + 1) = true := by
  have hentries : (∀ e ∈ es.map fun e => (ofText e.1, e.2), e.1.fits (depth + 1) = true ∧ e.2.fits (depth + 1) = true)
      ↔ ∀ e ∈ es, e.2.fits (depth + 1) = true := by
    rw [List.forall_mem_map]
    exact forall₂_congr fun e _ => and_iff_right rfl
  simp only [ofEntries, fits, Bool.and_eq_true, decide_eq_true_eq, List.length_map, entriesFit_iff, hentries]

end Item

/-! ## Canonical items -/

/-- An item as the stored forms are written. -/
inductive Canonical : Item → Prop
  | null : Canonical .null
  | nat {n : Nat} : n < 2 ^ 64 → Canonical (.ofNat n)
  | text (s : Bytes) : Canonical (.ofText s)
  | list {is : List Item} : (∀ i ∈ is, Canonical i) → Canonical (.ofList is)
  | entries {es : List (Bytes × Item)} : (∀ e ∈ es, Canonical e.2) → Canonical (.ofEntries es)

/-! ## Heads -/

theorem takeN_append (s rest : Bytes) : takeN s.length (s ++ rest) = some (s, rest) := by
  simp [takeN]

theorem wide_big {w : Width} {n : Nat} (h : n < 256 ^ w.size) (major : Nat) (rest : Bytes) :
    wide major w (Endian.big w.size n ++ rest) = some (.sized major ⟨w, n⟩, rest) := by
  have htake := takeN_append (Endian.big w.size n) rest
  rw [Endian.length_big] at htake
  simp [wide, htake, Endian.ofBig_big h]

theorem toNat_headByte {major info : Nat} (hm : major < 8) (hi : info < 32) :
    (major * 32 + info).toUInt8.toNat = major * 32 + info := by
  rw [Nat.toUInt8, UInt8.toNat_ofNat']
  omega

theorem head_wide {major : Nat} (hm : major < 8) {w : Width} (hw : w ≠ .tiny) (s : Bytes) :
    head ((major * 32 + w.info).toUInt8 :: s) = wide major w s := by
  have hi : w.info < 32 := by cases w <;> decide
  have hdiv : (major * 32 + w.info) / 32 = major := by omega
  have hmod : (major * 32 + w.info) % 32 = w.info := by omega
  simp only [head, toNat_headByte hm hi, hdiv, hmod]
  cases w with
  | tiny => exact absurd rfl hw
  | one | two | four | eight => rfl

theorem head_encode_wide {major n : Nat} (hm : major < 8) {w : Width} (hw : w ≠ .tiny) (hn : n < 256 ^ w.size)
    (rest : Bytes) : head (Arg.encode major ⟨w, n⟩ ++ rest) = some (.sized major ⟨w, n⟩, rest) := by
  have hencode : Arg.encode major ⟨w, n⟩ = (major * 32 + w.info).toUInt8 :: Endian.big w.size n := by
    cases w with
    | tiny => exact absurd rfl hw
    | one | two | four | eight => rfl
  rw [hencode, List.cons_append, head_wide hm hw, wide_big hn]

theorem head_encode_tiny {major n : Nat} (hm : major < 8) (hn : n < 24) (rest : Bytes) :
    head (Arg.encode major ⟨.tiny, n⟩ ++ rest) = some (.sized major ⟨.tiny, n⟩, rest) := by
  have hdiv : (major * 32 + n) / 32 = major := by omega
  have hmod : (major * 32 + n) % 32 = n := by omega
  have hi : n < 32 := by omega
  simp only [Arg.encode, List.singleton_append, head, toNat_headByte hm hi, hdiv, hmod, if_pos hn]

/-- The head of an item is read back. -/
theorem head_encode {major n : Nat} (hm : major < 8) (hn : n < 2 ^ 64) (rest : Bytes) :
    head ((Arg.ofNat n).encode major ++ rest) = some (.sized major (.ofNat n), rest) := by
  unfold Arg.ofNat
  split
  · exact head_encode_tiny hm ‹_› rest
  · split
    · exact head_encode_wide hm (by decide) ‹_› rest
    · split
      · exact head_encode_wide hm (by decide) ‹_› rest
      · split
        · exact head_encode_wide hm (by decide) ‹_› rest
        · exact head_encode_wide hm (by decide) hn rest

theorem value_ofNat (n : Nat) : (Arg.ofNat n).value = n := by
  unfold Arg.ofNat
  split
  · rfl
  · split
    · rfl
    · split
      · rfl
      · split <;> rfl

theorem length_encode_pos (major : Nat) (a : Arg) : 0 < (a.encode major).length := by
  unfold Arg.encode
  split <;> simp

/-! ## Items -/

/-- Values one after the other are read back when each is, whatever follows. -/
theorem times_flatMap {α : Type} {p : Parse α} {encode : α → Bytes} : ∀ {as : List α},
    (∀ a ∈ as, ∀ rest, p (encode a ++ rest) = some (a, rest)) → ∀ rest,
    times p as.length (as.flatMap encode ++ rest) = some (as, rest)
  | [], _, rest => rfl
  | a :: as, h, rest => by
    have hrest := times_flatMap (fun a' ha' => h a' (List.mem_cons_of_mem a ha')) rest
    rw [List.flatMap_cons, List.append_assoc, List.length_cons, times, h a (by simp)]
    simp [hrest]

theorem encodeItems_eq (is : List Item) : Item.encodeItems is = is.flatMap Item.encode := by
  induction is with
  | nil => rfl
  | cons i is ih => rw [Item.encodeItems, ih, List.flatMap_cons]

theorem encodeEntries_eq (es : List (Item × Item)) :
    Item.encodeEntries es = es.flatMap fun e => e.1.encode ++ e.2.encode := by
  induction es with
  | nil => rfl
  | cons e es ih => rw [Item.encodeEntries, ih, List.flatMap_cons]

theorem encode_ofText (s : Bytes) : (Item.ofText s).encode = (Arg.ofNat s.length).encode 3 ++ s := by
  rw [Item.ofText, Item.encode]

theorem encode_ofList (is : List Item) :
    (Item.ofList is).encode = (Arg.ofNat is.length).encode 4 ++ is.flatMap Item.encode := by
  rw [Item.ofList, Item.encode, encodeItems_eq]

theorem encode_ofEntries (es : List (Bytes × Item)) : (Item.ofEntries es).encode = (Arg.ofNat es.length).encode 5
    ++ (es.map fun e => (Item.ofText e.1, e.2)).flatMap fun e => e.1.encode ++ e.2.encode := by
  rw [Item.ofEntries, Item.encode, encodeEntries_eq]

theorem Canonical.length_encode_pos {i : Item} (h : Canonical i) : 0 < i.encode.length := by
  have hhead : ∀ major (a : Arg) (s : Bytes), 0 < (a.encode major ++ s).length := by
    intro major a s
    rw [List.length_append]
    exact Nat.lt_of_lt_of_le (Cbor.length_encode_pos major a) (Nat.le_add_right _ _)
  cases h with
  | null => decide
  | nat => exact Cbor.length_encode_pos 0 _
  | text | list | entries => exact hhead _ _ _

/-- A member of a list takes fewer octets than the list. -/
theorem length_lt_ofList {is : List Item} {i : Item} (h : i ∈ is) :
    i.encode.length < (Item.ofList is).encode.length := by
  have hpos := length_encode_pos 4 (.ofNat is.length)
  have hle := length_le_flatMap Item.encode h
  rw [encode_ofList, List.length_append]
  omega

/-- An entry of a table takes fewer octets than the table. -/
theorem length_lt_ofEntries {es : List (Bytes × Item)} {e : Bytes × Item} (h : e ∈ es) :
    (Item.ofText e.1).encode.length + e.2.encode.length < (Item.ofEntries es).encode.length := by
  have hpos := length_encode_pos 5 (.ofNat es.length)
  have hmem : (Item.ofText e.1, e.2) ∈ es.map fun e => (Item.ofText e.1, e.2) := List.mem_map.2 ⟨e, h, rfl⟩
  have hle : ((Item.ofText e.1).encode ++ e.2.encode).length ≤ _ :=
    length_le_flatMap (fun e : Item × Item => e.1.encode ++ e.2.encode) hmem
  rw [List.length_append] at hle
  rw [encode_ofEntries, List.length_append]
  omega

theorem item_text {fuel depth : Nat} {s : Bytes} (hfuel : (Item.ofText s).encode.length ≤ fuel)
    (hlen : (Item.ofText s).encode.length < 2 ^ 64) (rest : Bytes) :
    item fuel depth ((Item.ofText s).encode ++ rest) = some (.ofText s, rest) := by
  have hpos := length_encode_pos 3 (.ofNat s.length)
  rw [encode_ofText, List.length_append] at hfuel hlen
  obtain ⟨fuel, rfl⟩ : ∃ m, fuel = m + 1 := ⟨fuel - 1, by omega⟩
  rw [encode_ofText, List.append_assoc, item, head_encode (by decide) (by omega)]
  simp [value_ofNat, takeN_append, Item.ofText]

theorem pair_append {p : Parse Item} {k v : Item} {ks vs : Bytes} (hk : ∀ rest, p (ks ++ rest) = some (k, rest))
    (hv : ∀ rest, p (vs ++ rest) = some (v, rest)) (rest : Bytes) :
    pair p (ks ++ vs ++ rest) = some ((k, v), rest) := by
  rw [List.append_assoc, pair, hk]
  simp [hv]

theorem item_list {fuel depth : Nat} {is : List Item} (hdepth : depth < maxDepth) (hcount : is.length ≤ maxCount)
    (h : ∀ i ∈ is, ∀ rest, item fuel (depth + 1) (i.encode ++ rest) = some (i, rest)) (rest : Bytes) :
    item (fuel + 1) depth ((Item.ofList is).encode ++ rest) = some (.ofList is, rest) := by
  have hlen : is.length < 2 ^ 64 := Nat.lt_of_le_of_lt hcount (by decide)
  have hlimits : ¬(depth ≥ maxDepth ∨ is.length > maxCount) := by omega
  rw [encode_ofList, List.append_assoc, item, head_encode (by decide) hlen]
  simp [value_ofNat, hlimits, times_flatMap h, Item.ofList]

theorem item_entries {fuel depth : Nat} {es : List (Bytes × Item)} (hdepth : depth < maxDepth)
    (hcount : es.length ≤ maxCount)
    (hk : ∀ e ∈ es, ∀ rest, item fuel (depth + 1) ((Item.ofText e.1).encode ++ rest) = some (.ofText e.1, rest))
    (hv : ∀ e ∈ es, ∀ rest, item fuel (depth + 1) (e.2.encode ++ rest) = some (e.2, rest)) (rest : Bytes) :
    item (fuel + 1) depth ((Item.ofEntries es).encode ++ rest) = some (.ofEntries es, rest) := by
  have hlen : es.length < 2 ^ 64 := Nat.lt_of_le_of_lt hcount (by decide)
  have hlimits : ¬(depth ≥ maxDepth ∨ es.length > maxCount) := by omega
  have hpairs : ∀ e ∈ es.map fun e => (Item.ofText e.1, e.2), ∀ rest,
      pair (item fuel (depth + 1)) (e.1.encode ++ e.2.encode ++ rest) = some (e, rest) := by
    rw [List.forall_mem_map]
    exact fun e he => pair_append (hk e he) (hv e he)
  have htimes := times_flatMap hpairs rest
  rw [List.length_map] at htimes
  rw [encode_ofEntries, List.append_assoc, item, head_encode (by decide) hlen]
  simp [value_ofNat, hlimits, htimes, Item.ofEntries]

/-- An item is read back with whatever follows it, when there is fuel for its octets. -/
theorem item_encode {i : Item} (h : Canonical i) : ∀ (fuel depth : Nat) (rest : Bytes),
    i.fits depth = true → i.encode.length ≤ fuel → i.encode.length < 2 ^ 64 →
    item fuel depth (i.encode ++ rest) = some (i, rest) := by
  -- one level of nesting costs one unit of fuel, and the head of the item around it at least one octet
  induction h with
  | null =>
    intro fuel depth rest _ hfuel _
    have hlen : Item.null.encode.length = 1 := rfl
    obtain ⟨fuel, rfl⟩ : ∃ m, fuel = m + 1 := ⟨fuel - 1, by omega⟩
    rfl
  | @nat n hn =>
    intro fuel depth rest _ hfuel _
    have hpos := length_encode_pos 0 (.ofNat n)
    rw [Item.ofNat, Item.encode] at *
    obtain ⟨fuel, rfl⟩ : ∃ m, fuel = m + 1 := ⟨fuel - 1, by omega⟩
    rw [item, head_encode (by decide) hn]
    rfl
  | text s =>
    exact fun fuel depth rest _ hfuel hlen => item_text hfuel hlen rest
  | @list is hcanonical ih =>
    intro fuel depth rest hfits hfuel hlen
    obtain ⟨⟨hdepth, hcount⟩, hall⟩ := Item.fits_ofList.1 hfits
    have hpos := (Canonical.list hcanonical).length_encode_pos
    obtain ⟨fuel, rfl⟩ : ∃ m, fuel = m + 1 := ⟨fuel - 1, by omega⟩
    refine item_list hdepth hcount (fun i hi rest => ?_) rest
    have hlt := length_lt_ofList hi
    exact ih i hi fuel (depth + 1) rest (hall i hi) (by omega) (by omega)
  | @entries es hcanonical ih =>
    intro fuel depth rest hfits hfuel hlen
    obtain ⟨⟨hdepth, hcount⟩, hall⟩ := Item.fits_ofEntries.1 hfits
    have hpos := (Canonical.entries hcanonical).length_encode_pos
    obtain ⟨fuel, rfl⟩ : ∃ m, fuel = m + 1 := ⟨fuel - 1, by omega⟩
    refine item_entries hdepth hcount (fun e he rest => ?_) (fun e he rest => ?_) rest
    all_goals have hlt := length_lt_ofEntries he
    · exact item_text (by omega) (by omega) rest
    · exact ih e he fuel (depth + 1) rest (hall e he) (by omega) (by omega)

/-- **A canonical item is read back from its octets**, within the limits of the reader. -/
theorem parse_encode {i : Item} (h : Canonical i) (hfits : i.fits 0 = true) (hlen : i.encode.length < 2 ^ 64) :
    parse i.encode = some i := by
  have hitem := item_encode h (i.encode.length + 1) 0 [] hfits (by omega) hlen
  rw [List.append_nil] at hitem
  simp [parse, hitem]

end Bindery.Cbor
