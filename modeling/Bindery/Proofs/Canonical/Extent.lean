/-
Layouts in exact numbers. `Layout` is computed in 32-bit words and may wrap around;
`Extent` is the same computation without a bound. `layout_eq_extent` says that the
two agree on every type whose exact size is below 2^31, since a part that is held by
value is never larger than the whole.

Alignments are 1, 2, 4 or 8 (`IsAlign`), so the smaller of two divides the larger;
every member of a structure lies inside it at an aligned place (`ofStruct_holds`),
and so does the payload of a variant (`ofVariant_holds`).
-/
import Bindery.Canonical.Layout
import Mathlib.Algebra.Ring.Nat
import Mathlib.Data.List.Forall2

namespace Bindery

/-- The exact size and alignment of a type. -/
structure Extent where
  size : Nat
  align : Nat
  deriving DecidableEq, Repr

namespace Extent

/-- The least multiple of `align` that is not below `off`. -/
def alignTo (off align : Nat) : Nat := (off + align - 1) / align * align

/-- The size of the number that says which of `n` cases a value is. -/
def discriminantSize (n : Nat) : Nat := if n ≤ 256 then 1 else if n ≤ 65536 then 2 else 4

def ofFlags (n : Nat) : Extent :=
  if n = 0 then ⟨0, 1⟩
  else if n ≤ 8 then ⟨1, 1⟩
  else if n ≤ 16 then ⟨2, 2⟩
  else ⟨4 * ((n + 31) / 32), 4⟩

/-- The end of members laid out one after the other from `off` on. -/
def endFrom (off : Nat) : List Extent → Nat
  | [] => off
  | m :: ms => endFrom (alignTo off m.align + m.size) ms

def maxAlign (ms : List Extent) : Nat := ms.foldl (fun a m => max a m.align) 1

def maxSize (ms : List Extent) : Nat := ms.foldl (fun s m => max s m.size) 0

def ofStruct (ms : List Extent) : Extent := ⟨alignTo (endFrom 0 ms) (maxAlign ms), maxAlign ms⟩

/-- Where each member of a structure starts, from `off` on. -/
def offsetsFrom (off : Nat) : List Extent → List Nat
  | [] => []
  | m :: ms => alignTo off m.align :: offsetsFrom (alignTo off m.align + m.size) ms

def payloadOffset (cases : List Extent) : Nat :=
  alignTo (discriminantSize cases.length) (maxAlign cases)

def ofVariant (cases : List Extent) : Extent :=
  let align := max (discriminantSize cases.length) (maxAlign cases)
  ⟨alignTo (payloadOffset cases + maxSize cases) align, align⟩

end Extent

/-- The exact numbers of a layout. -/
def Layout.extent (l : Layout) : Extent := ⟨l.size.toNat, l.align.toNat⟩

namespace Shape

mutual

/-- The exact size and alignment of a type. -/
def extent : Shape → Extent
  | .blank => ⟨0, 1⟩
  | .prim p => (Layout.ofPrim p).extent
  | .string => ⟨8, 4⟩
  | .errorContext => ⟨4, 4⟩
  | .alias _ t => t.extent
  | .record _ fs => .ofStruct (namedExtents fs)
  | .enum _ cs => ⟨Extent.discriminantSize cs.length, Extent.discriminantSize cs.length⟩
  | .flags _ fs => .ofFlags fs.length
  | .variant _ cs => .ofVariant (namedExtents cs)
  | .list _ => ⟨8, 4⟩
  | .option t => .ofVariant [⟨0, 1⟩, t.extent]
  | .result ok err => .ofVariant [ok.extent, err.extent]
  | .tuple ts => .ofStruct (extents ts)

def namedExtents : List (Bytes × Shape) → List Extent
  | [] => []
  | (_, t) :: fs => t.extent :: namedExtents fs

def extents : List Shape → List Extent
  | [] => []
  | t :: ts => t.extent :: extents ts

end

/-! The functions on lists are written out for the recursion, and are maps. -/

theorem namedExtents_eq_map (fs : List (Bytes × Shape)) : namedExtents fs = fs.map (·.2.extent) := by
  induction fs with
  | nil => rfl
  | cons f fs ih => rw [namedExtents, List.map_cons, ih]

theorem extents_eq_map (ts : List Shape) : extents ts = ts.map extent := by
  induction ts with
  | nil => rfl
  | cons t ts ih => rw [extents, List.map_cons, ih]

theorem namedLayouts_eq_map (fs : List (Bytes × Shape)) : namedLayouts fs = fs.map (·.2.layout) := by
  induction fs with
  | nil => rfl
  | cons f fs ih => rw [namedLayouts, List.map_cons, ih]

theorem layouts_eq_map (ts : List Shape) : layouts ts = ts.map layout := by
  induction ts with
  | nil => rfl
  | cons t ts ih => rw [layouts, List.map_cons, ih]

end Shape

/-! ## Alignments -/

/-- One of the four alignments there are. -/
def IsAlign (a : Nat) : Prop := a = 1 ∨ a = 2 ∨ a = 4 ∨ a = 8

theorem IsAlign.pos {a : Nat} (h : IsAlign a) : 0 < a := by
  unfold IsAlign at h
  omega

theorem IsAlign.le_eight {a : Nat} (h : IsAlign a) : a ≤ 8 := by
  unfold IsAlign at h
  omega

/-- The smaller of two alignments divides the larger. -/
theorem IsAlign.dvd_of_le {a b : Nat} (ha : IsAlign a) (hb : IsAlign b) (h : a ≤ b) : a ∣ b := by
  rcases ha with rfl | rfl | rfl | rfl <;> rcases hb with rfl | rfl | rfl | rfl <;> omega

theorem IsAlign.max {a b : Nat} (ha : IsAlign a) (hb : IsAlign b) : IsAlign (max a b) := by
  rcases Nat.le_total a b with h | h
  · rwa [Nat.max_eq_right h]
  · rwa [Nat.max_eq_left h]

theorem isAlign_discriminantSize (n : Nat) : IsAlign (Extent.discriminantSize n) := by
  unfold Extent.discriminantSize IsAlign
  split
  · simp
  · split <;> simp

namespace Extent

theorem le_alignTo (off : Nat) {a : Nat} (ha : 0 < a) : off ≤ alignTo off a := by
  have hdiv := Nat.div_add_mod (off + a - 1) a
  have hmod := Nat.mod_lt (off + a - 1) ha
  have hcomm : alignTo off a = a * ((off + a - 1) / a) := Nat.mul_comm _ _
  omega

theorem alignTo_lt (off : Nat) {a : Nat} (ha : 0 < a) : alignTo off a < off + a := by
  have hle : (off + a - 1) / a * a ≤ off + a - 1 := Nat.div_mul_le_self _ _
  unfold alignTo
  omega

theorem dvd_alignTo (off a : Nat) : a ∣ alignTo off a := Nat.dvd_mul_left _ _

/-! ## Members of structures and variants -/

theorem le_foldl_max (f : Extent → Nat) (ms : List Extent) (a : Nat) :
    a ≤ ms.foldl (fun a m => max a (f m)) a ∧ ∀ m ∈ ms, f m ≤ ms.foldl (fun a m => max a (f m)) a := by
  induction ms generalizing a with
  | nil => simp
  | cons m ms ih =>
    obtain ⟨hstart, hall⟩ := ih (max a (f m))
    rw [List.foldl_cons]
    refine ⟨by omega, fun m' hm' => ?_⟩
    rcases List.mem_cons.1 hm' with rfl | hm'
    · omega
    · exact hall m' hm'

/-- A fold that keeps the larger value of a field ends with its start or with one it has met. -/
theorem foldl_max_mem (f : Extent → Nat) (ms : List Extent) (a : Nat) :
    ms.foldl (fun a m => max a (f m)) a = a ∨ ∃ m ∈ ms, f m = ms.foldl (fun a m => max a (f m)) a := by
  induction ms generalizing a with
  | nil => exact .inl rfl
  | cons m ms ih =>
    rw [List.foldl_cons]
    rcases ih (max a (f m)) with hstart | ⟨m', hm', heq⟩
    · rcases Nat.le_total (f m) a with hle | hle
      · exact .inl (hstart.trans (Nat.max_eq_left hle))
      · exact .inr ⟨m, by simp, (hstart.trans (Nat.max_eq_right hle)).symm⟩
    · exact .inr ⟨m', by simp [hm'], heq⟩

theorem align_le_maxAlign {m : Extent} {ms : List Extent} (h : m ∈ ms) : m.align ≤ maxAlign ms :=
  (le_foldl_max align ms 1).2 m h

theorem size_le_maxSize {m : Extent} {ms : List Extent} (h : m ∈ ms) : m.size ≤ maxSize ms :=
  (le_foldl_max size ms 0).2 m h

theorem isAlign_maxAlign {ms : List Extent} (h : ∀ m ∈ ms, IsAlign m.align) : IsAlign (maxAlign ms) := by
  rcases foldl_max_mem align ms 1 with hstart | ⟨m, hm, heq⟩
  · exact .inl hstart
  · rw [maxAlign, ← heq]
    exact h m hm

/-- `m` lies at `off` inside `whole`: it ends before the whole does, and stands at a
multiple of its alignment, which the whole keeps. -/
structure Holds (whole m : Extent) (off : Nat) : Prop where
  room : off + m.size ≤ whole.size
  aligned : m.align ∣ off
  kept : m.align ∣ whole.align

theorem le_endFrom : ∀ (ms : List Extent) (off : Nat), (∀ m ∈ ms, IsAlign m.align) → off ≤ endFrom off ms
  | [], _, _ => Nat.le_refl _
  | m :: ms, off, h => by
    have hm := le_alignTo off (h m (by simp)).pos
    have hrest := le_endFrom ms (alignTo off m.align + m.size) fun m' hm' => h m' (by simp [hm'])
    rw [endFrom]
    omega

theorem offsetsFrom_holds {whole : Extent} : ∀ (ms : List Extent) (off : Nat),
    (∀ m ∈ ms, IsAlign m.align ∧ m.align ∣ whole.align) → endFrom off ms ≤ whole.size →
    List.Forall₂ whole.Holds ms (offsetsFrom off ms)
  | [], _, _, _ => .nil
  | m :: ms, off, h, hend => by
    have hms : ∀ m' ∈ ms, IsAlign m'.align ∧ m'.align ∣ whole.align := fun m' hm' => h m' (by simp [hm'])
    have hrest := le_endFrom ms (alignTo off m.align + m.size) fun m' hm' => (hms m' hm').1
    rw [endFrom] at hend
    refine .cons ⟨?_, dvd_alignTo off m.align, (h m (by simp)).2⟩ (offsetsFrom_holds ms _ hms hend)
    omega

/-- Every member of a structure lies inside it. -/
theorem ofStruct_holds {ms : List Extent} (h : ∀ m ∈ ms, IsAlign m.align) :
    List.Forall₂ (ofStruct ms).Holds ms (offsetsFrom 0 ms) := by
  have hmax := isAlign_maxAlign h
  refine offsetsFrom_holds ms 0 (fun m hm => ⟨h m hm, ?_⟩) (le_alignTo _ hmax.pos)
  exact (h m hm).dvd_of_le hmax (align_le_maxAlign hm)

/-- Every payload of a variant lies inside it, behind the discriminant. -/
theorem ofVariant_holds {cases : List Extent} (h : ∀ m ∈ cases, IsAlign m.align) {m : Extent}
    (hm : m ∈ cases) : (ofVariant cases).Holds m (payloadOffset cases) := by
  have hmax := isAlign_maxAlign h
  have halign := (isAlign_discriminantSize cases.length).max hmax
  have hdvd := (h m hm).dvd_of_le hmax (align_le_maxAlign hm)
  refine ⟨?_, Nat.dvd_trans hdvd (dvd_alignTo _ _), ?_⟩
  · have hsize := size_le_maxSize hm
    have hroom : payloadOffset cases + maxSize cases ≤ (ofVariant cases).size := le_alignTo _ halign.pos
    omega
  · exact Nat.dvd_trans hdvd (hmax.dvd_of_le halign (Nat.le_max_right _ _))

/-- The discriminant of a variant lies at its start. -/
theorem ofVariant_holds_discriminant {cases : List Extent} (h : ∀ m ∈ cases, IsAlign m.align) :
    (ofVariant cases).Holds
      ⟨discriminantSize cases.length, discriminantSize cases.length⟩ 0 := by
  have hmax := isAlign_maxAlign h
  have hdisc := isAlign_discriminantSize cases.length
  have halign := hdisc.max hmax
  refine ⟨?_, Nat.dvd_zero _, hdisc.dvd_of_le halign (Nat.le_max_left _ _)⟩
  have hpayload : discriminantSize cases.length ≤ payloadOffset cases := le_alignTo _ hmax.pos
  have hroom : payloadOffset cases + maxSize cases ≤ (ofVariant cases).size := le_alignTo _ halign.pos
  simp only [Nat.zero_add]
  omega

theorem isAlign_ofFlags (n : Nat) : IsAlign (ofFlags n).align := by
  unfold ofFlags IsAlign
  split
  · simp
  · split
    · simp
    · split <;> simp

end Extent

/-! ## Words -/

namespace Layout

theorem toNat_max (a b : UInt32) : (max a b).toNat = max a.toNat b.toNat := by
  rw [UInt32.max_def]
  split
  · rename_i h
    rw [Nat.max_eq_right (UInt32.le_iff_toNat_le.1 h)]
  · rename_i h
    rw [UInt32.le_iff_toNat_le] at h
    rw [Nat.max_eq_left (by omega)]

theorem toNat_add {a b : UInt32} (h : a.toNat + b.toNat < 2 ^ 32) : (a + b).toNat = a.toNat + b.toNat := by
  rw [UInt32.toNat_add, Nat.mod_eq_of_lt h]

theorem toNat_alignTo {off align : UInt32} (ha : 0 < align.toNat) (h : off.toNat + align.toNat < 2 ^ 32) :
    (alignTo off align).toNat = Extent.alignTo off.toNat align.toNat := by
  have hsum : (off + align - 1).toNat = off.toNat + align.toNat - 1 := by
    rw [UInt32.toNat_sub_of_le, toNat_add h]
    · rfl
    · rw [UInt32.le_iff_toNat_le, toNat_add h]
      exact Nat.le_add_left_of_le ha
  have hle : (off.toNat + align.toNat - 1) / align.toNat * align.toNat ≤ off.toNat + align.toNat - 1 :=
    Nat.div_mul_le_self _ _
  unfold alignTo Extent.alignTo
  rw [UInt32.toNat_mul, UInt32.toNat_div, hsum, Nat.mod_eq_of_lt]
  omega

theorem toNat_discriminantSize (n : Nat) :
    (discriminantSize n).toNat = Extent.discriminantSize n := by
  unfold discriminantSize Extent.discriminantSize
  split
  · rfl
  · split <;> rfl

/-- Exact layouts are below this bound, which leaves room for rounding up. -/
def Addressable (n : Nat) : Prop := n < 2 ^ 31

instance (n : Nat) : Decidable (Addressable n) := inferInstanceAs (Decidable (n < 2 ^ 31))

/-- The largest word of a field is the largest number of it. -/
theorem toNat_foldl_max {f : Layout → UInt32} {g : Extent → Nat} (hfield : ∀ m, (f m).toNat = g m.extent)
    (ms : List Layout) (a : UInt32) :
    (ms.foldl (fun a m => max a (f m)) a).toNat = (ms.map extent).foldl (fun a m => max a (g m)) a.toNat := by
  induction ms generalizing a with
  | nil => rfl
  | cons m ms ih => rw [List.map_cons, List.foldl_cons, List.foldl_cons, ih, toNat_max, hfield]

theorem toNat_maxAlign (ms : List Layout) : (maxAlign ms).toNat = Extent.maxAlign (ms.map extent) :=
  toNat_foldl_max (fun _ => rfl) ms 1

theorem toNat_maxSize (ms : List Layout) : (maxSize ms).toNat = Extent.maxSize (ms.map extent) :=
  toNat_foldl_max (fun _ => rfl) ms 0

/-- The end of a member, while everything stays small. -/
theorem toNat_memberEnd {off : UInt32} {m : Layout} (hm : IsAlign m.extent.align)
    (h : Addressable (Extent.alignTo off.toNat m.extent.align + m.extent.size)) :
    (alignTo off m.align).toNat = Extent.alignTo off.toNat m.extent.align ∧
      (alignTo off m.align + m.size).toNat =
        Extent.alignTo off.toNat m.extent.align + m.extent.size := by
  have hle := Extent.le_alignTo off.toNat hm.pos
  have height := hm.le_eight
  unfold Addressable at h
  have hstart : (alignTo off m.align).toNat = Extent.alignTo off.toNat m.extent.align :=
    toNat_alignTo hm.pos (by simp only [extent] at *; omega)
  refine ⟨hstart, ?_⟩
  rw [toNat_add, hstart]
  · rfl
  · rw [hstart]
    simp only [extent] at *
    omega

theorem toNat_endFrom : ∀ (ms : List Layout) (off : UInt32), (∀ m ∈ ms, IsAlign m.extent.align) →
    Addressable (Extent.endFrom off.toNat (ms.map extent)) →
    (endFrom off ms).toNat = Extent.endFrom off.toNat (ms.map extent) ∧
      (offsetsFrom off ms).map UInt32.toNat = Extent.offsetsFrom off.toNat (ms.map extent)
  | [], _, _, _ => ⟨rfl, rfl⟩
  | m :: ms, off, h, hsize => by
    have hms : ∀ m' ∈ ms, IsAlign m'.extent.align := fun m' hm' => h m' (by simp [hm'])
    rw [List.map_cons, Extent.endFrom] at hsize
    have hle := Extent.le_endFrom (ms.map extent) (Extent.alignTo off.toNat m.extent.align + m.extent.size)
      (by simpa using hms)
    obtain ⟨hstart, hend⟩ := toNat_memberEnd (h m (by simp)) (Nat.lt_of_le_of_lt hle hsize)
    rw [← hend] at hsize
    obtain ⟨hrest, hoffs⟩ := toNat_endFrom ms _ hms hsize
    rw [endFrom, offsetsFrom, List.map_cons, List.map_cons, Extent.endFrom, Extent.offsetsFrom,
      hrest, hoffs, hstart, hend]
    exact ⟨rfl, rfl⟩

/-- A structure that is small has its exact extent, and its members their exact offsets. -/
theorem extent_ofStruct {ms : List Layout} (h : ∀ m ∈ ms, IsAlign m.extent.align)
    (hsize : Addressable (Extent.ofStruct (ms.map extent)).size) :
    (ofStruct ms).extent = Extent.ofStruct (ms.map extent) ∧
      (offsets ms).map UInt32.toNat = Extent.offsetsFrom 0 (ms.map extent) := by
  have hmax := @Extent.isAlign_maxAlign (ms.map extent) (by simpa using h)
  have hle : Extent.endFrom 0 (ms.map extent) ≤ (Extent.ofStruct (ms.map extent)).size :=
    Extent.le_alignTo _ hmax.pos
  have height := hmax.le_eight
  obtain ⟨hend, hoffs⟩ := toNat_endFrom ms 0 h (Nat.lt_of_le_of_lt hle hsize)
  rw [UInt32.toNat_zero] at hend hoffs
  unfold Addressable at hsize
  refine ⟨?_, hoffs⟩
  rw [ofStruct, extent, Extent.ofStruct, toNat_alignTo]
  · rw [hend, toNat_maxAlign]
  · rw [toNat_maxAlign]
    exact hmax.pos
  · rw [hend, toNat_maxAlign]
    omega

theorem toNat_payloadOffset {cases : List Layout} (h : ∀ m ∈ cases, IsAlign m.extent.align) :
    (payloadOffset cases).toNat = Extent.payloadOffset (cases.map extent) := by
  have hmax := @Extent.isAlign_maxAlign (cases.map extent) (by simpa using h)
  have height := hmax.le_eight
  have hdisc := (isAlign_discriminantSize cases.length).le_eight
  rw [payloadOffset, Extent.payloadOffset, toNat_alignTo]
  · rw [toNat_discriminantSize, toNat_maxAlign, List.length_map]
  · rw [toNat_maxAlign]
    exact hmax.pos
  · rw [toNat_discriminantSize, toNat_maxAlign]
    omega

/-- Rounding up the end of the largest payload stays in a word. -/
theorem room_ofVariant {cases : List Layout} (h : ∀ m ∈ cases, IsAlign m.extent.align)
    (hsize : Addressable (Extent.maxSize (cases.map extent))) :
    Extent.payloadOffset (cases.map extent) + Extent.maxSize (cases.map extent) +
      max (Extent.discriminantSize cases.length) (Extent.maxAlign (cases.map extent)) < 2 ^ 32 := by
  have hmax := @Extent.isAlign_maxAlign (cases.map extent) (by simpa using h)
  have hdisc := isAlign_discriminantSize (cases.map extent).length
  have hpayload : Extent.payloadOffset (cases.map extent) < _ := Extent.alignTo_lt _ hmax.pos
  have hwhole := (hdisc.max hmax).le_eight
  have hpart := hmax.le_eight
  have hfirst := hdisc.le_eight
  unfold Addressable at hsize
  rw [List.length_map] at hwhole hpayload hfirst
  omega

/-- A variant whose payloads are small has its exact extent. -/
theorem extent_ofVariant {cases : List Layout} (h : ∀ m ∈ cases, IsAlign m.extent.align)
    (hsize : Addressable (Extent.maxSize (cases.map extent))) :
    (ofVariant cases).extent = Extent.ofVariant (cases.map extent) := by
  have hmax := @Extent.isAlign_maxAlign (cases.map extent) (by simpa using h)
  have halign := (isAlign_discriminantSize cases.length).max hmax
  have hroom := room_ofVariant h hsize
  have hto : (max (discriminantSize cases.length) (maxAlign cases)).toNat =
      max (Extent.discriminantSize cases.length) (Extent.maxAlign (cases.map extent)) := by
    rw [toNat_max, toNat_discriminantSize, toNat_maxAlign]
  have hsum : (payloadOffset cases + maxSize cases).toNat =
      Extent.payloadOffset (cases.map extent) + Extent.maxSize (cases.map extent) := by
    rw [toNat_add, toNat_payloadOffset h, toNat_maxSize]
    rw [toNat_payloadOffset h, toNat_maxSize]
    omega
  rw [ofVariant, extent, Extent.ofVariant, toNat_alignTo]
  · rw [hsum, hto, List.length_map]
  · rw [hto]
    exact halign.pos
  · rw [hsum, hto]
    exact hroom

theorem extent_ofFlags {n : Nat} (h : Addressable (Extent.ofFlags n).size) :
    (ofFlags n).extent = Extent.ofFlags n := by
  unfold ofFlags Extent.ofFlags at *
  split
  · rfl
  · split
    · rfl
    · split
      · rfl
      · rename_i h0 h8 h16
        rw [if_neg h0, if_neg h8, if_neg h16] at h
        have h : 4 * ((n + 31) / 32) < 2 ^ 31 := h
        have hwords : (UInt32.ofNat ((n + 31) / 32)).toNat = (n + 31) / 32 :=
          UInt32.toNat_ofNat_of_lt (by simp only [UInt32.size]; omega)
        simp only [extent, UInt32.toNat_mul, hwords, Extent.mk.injEq]
        exact ⟨Nat.mod_eq_of_lt (by simp only [UInt32.reduceToNat]; omega), rfl⟩

end Layout

/-! ## Types -/

namespace Extent

theorem size_le_endFrom : ∀ {ms : List Extent} {m : Extent} (off : Nat), m ∈ ms →
    (∀ m ∈ ms, IsAlign m.align) → m.size ≤ endFrom off ms
  | m' :: ms, m, off, hm, h => by
    have hms : ∀ m ∈ ms, IsAlign m.align := fun m hm => h m (by simp [hm])
    have hrest := le_endFrom ms (alignTo off m'.align + m'.size) hms
    rw [endFrom]
    rcases List.mem_cons.1 hm with rfl | hm
    · omega
    · exact size_le_endFrom _ hm hms

theorem size_le_ofStruct {ms : List Extent} {m : Extent} (hm : m ∈ ms)
    (h : ∀ m ∈ ms, IsAlign m.align) : m.size ≤ (ofStruct ms).size :=
  Nat.le_trans (size_le_endFrom 0 hm h) (le_alignTo _ (isAlign_maxAlign h).pos)

theorem maxSize_le_ofVariant {ms : List Extent} (h : ∀ m ∈ ms, IsAlign m.align) :
    maxSize ms ≤ (ofVariant ms).size := by
  have halign := (isAlign_discriminantSize ms.length).max (isAlign_maxAlign h)
  have hroom : payloadOffset ms + maxSize ms ≤ (ofVariant ms).size := le_alignTo _ halign.pos
  omega

theorem size_le_ofVariant {ms : List Extent} {m : Extent} (hm : m ∈ ms)
    (h : ∀ m ∈ ms, IsAlign m.align) : m.size ≤ (ofVariant ms).size :=
  Nat.le_trans (size_le_maxSize hm) (maxSize_le_ofVariant h)

end Extent

namespace Layout

/-- A structure is exact when it is small and its members, being small then, are exact. -/
theorem ofStruct_exact {ls : List Layout} {xs : List Extent} (hxs : ∀ m ∈ xs, IsAlign m.align)
    (heq : (∀ m ∈ xs, Addressable m.size) → ls.map extent = xs) (h : Addressable (Extent.ofStruct xs).size) :
    (ofStruct ls).extent = Extent.ofStruct xs ∧
      (offsets ls).map UInt32.toNat = Extent.offsetsFrom 0 xs := by
  obtain rfl := heq fun m hm => Nat.lt_of_le_of_lt (Extent.size_le_ofStruct hm hxs) h
  exact extent_ofStruct (by simpa using hxs) h

/-- A variant is exact when it is small and its payloads, being small then, are exact. -/
theorem ofVariant_exact {ls : List Layout} {xs : List Extent} (hxs : ∀ m ∈ xs, IsAlign m.align)
    (heq : (∀ m ∈ xs, Addressable m.size) → ls.map extent = xs) (h : Addressable (Extent.ofVariant xs).size) :
    (ofVariant ls).extent = Extent.ofVariant xs ∧
      (payloadOffset ls).toNat = Extent.payloadOffset xs := by
  obtain rfl := heq fun m hm => Nat.lt_of_le_of_lt (Extent.size_le_ofVariant hm hxs) h
  have hsize := Nat.lt_of_le_of_lt (Extent.maxSize_le_ofVariant hxs) h
  exact ⟨extent_ofVariant (by simpa using hxs) hsize, toNat_payloadOffset (by simpa using hxs)⟩

end Layout

namespace Shape

open Layout (Addressable)

/-- The extents of the two cases of an option. -/
abbrev optionExtents (t : Shape) : List Extent := [⟨0, 1⟩, t.extent]

/-- The extents of the two cases of a result. -/
abbrev resultExtents (ok err : Shape) : List Extent := [ok.extent, err.extent]

theorem forall_mem_pair {P : Extent → Prop} {a b : Extent} (ha : P a) (hb : P b) : ∀ m ∈ [a, b], P m := by
  simpa using ⟨ha, hb⟩

mutual

theorem isAlign_extent : ∀ t : Shape, IsAlign t.extent.align
  | .blank => .inl rfl
  | .prim p => by
    rw [extent]
    cases p <;> simp [Layout.ofPrim, Layout.extent, IsAlign]
  | .string | .list _ => .inr (.inr (.inl rfl))
  | .errorContext => .inr (.inr (.inl rfl))
  | .alias _ t => by
    rw [extent]
    exact isAlign_extent t
  | .record _ fs => by
    rw [extent]
    exact Extent.isAlign_maxAlign (isAlign_namedExtents fs)
  | .enum _ cs => by
    rw [extent]
    exact isAlign_discriminantSize cs.length
  | .flags _ fs => by
    rw [extent]
    exact Extent.isAlign_ofFlags fs.length
  | .variant _ cs => by
    rw [extent]
    exact (isAlign_discriminantSize _).max (Extent.isAlign_maxAlign (isAlign_namedExtents cs))
  | .option t => by
    rw [extent]
    refine (isAlign_discriminantSize _).max (Extent.isAlign_maxAlign ?_)
    exact forall_mem_pair (.inl rfl) (isAlign_extent t)
  | .result ok err => by
    rw [extent]
    refine (isAlign_discriminantSize _).max (Extent.isAlign_maxAlign ?_)
    exact forall_mem_pair (isAlign_extent ok) (isAlign_extent err)
  | .tuple ts => by
    rw [extent]
    exact Extent.isAlign_maxAlign (isAlign_extents ts)

theorem isAlign_namedExtents : ∀ (fs : List (Bytes × Shape)), ∀ m ∈ namedExtents fs, IsAlign m.align
  | [] => by simp [namedExtents]
  | (_, t) :: fs => by
    rw [namedExtents]
    exact List.forall_mem_cons.2 ⟨isAlign_extent t, isAlign_namedExtents fs⟩

theorem isAlign_extents : ∀ (ts : List Shape), ∀ m ∈ extents ts, IsAlign m.align
  | [] => by simp [extents]
  | t :: ts => by
    rw [extents]
    exact List.forall_mem_cons.2 ⟨isAlign_extent t, isAlign_extents ts⟩

end

theorem isAlign_optionExtents (t : Shape) : ∀ m ∈ optionExtents t, IsAlign m.align :=
  forall_mem_pair (.inl rfl) (isAlign_extent t)

theorem isAlign_resultExtents (ok err : Shape) : ∀ m ∈ resultExtents ok err, IsAlign m.align :=
  forall_mem_pair (isAlign_extent ok) (isAlign_extent err)

mutual

/-- **The layout of a type is exact** while its exact size is below 2^31. -/
theorem layout_eq_extent : ∀ t : Shape, Addressable t.extent.size → t.layout.extent = t.extent
  | .blank, _ | .string, _ | .errorContext, _ | .list _, _ => rfl
  | .prim _, _ => by rw [layout, extent]
  | .alias _ t, h => by
    rw [extent] at h ⊢
    rw [layout]
    exact layout_eq_extent t h
  | .record _ fs, h => by
    rw [extent] at h ⊢
    rw [layout]
    exact (Layout.ofStruct_exact (isAlign_namedExtents fs) (namedLayouts_eq_extents fs) h).1
  | .enum _ cs, _ => by
    rw [layout, extent, Layout.extent, Layout.ofEnum, Layout.toNat_discriminantSize]
  | .flags _ fs, h => by
    rw [extent] at h ⊢
    rw [layout]
    exact Layout.extent_ofFlags h
  | .variant _ cs, h => by
    rw [extent] at h ⊢
    rw [layout]
    exact (Layout.ofVariant_exact (isAlign_namedExtents cs) (namedLayouts_eq_extents cs) h).1
  | .option t, h => by
    rw [extent] at h ⊢
    rw [layout]
    refine (Layout.ofVariant_exact (isAlign_optionExtents t) (fun hsize => ?_) h).1
    rw [List.map_cons, List.map_cons, layout_eq_extent t (hsize _ (by simp))]
    rfl
  | .result ok err, h => by
    rw [extent] at h ⊢
    rw [layout]
    refine (Layout.ofVariant_exact (isAlign_resultExtents ok err) (fun hsize => ?_) h).1
    rw [List.map_cons, List.map_cons, layout_eq_extent ok (hsize _ (by simp)),
      layout_eq_extent err (hsize _ (by simp))]
    rfl
  | .tuple ts, h => by
    rw [extent] at h ⊢
    rw [layout]
    exact (Layout.ofStruct_exact (isAlign_extents ts) (layouts_eq_extents ts) h).1

theorem namedLayouts_eq_extents : ∀ fs : List (Bytes × Shape), (∀ m ∈ namedExtents fs, Addressable m.size) →
    (namedLayouts fs).map Layout.extent = namedExtents fs
  | [], _ => rfl
  | (_, t) :: fs, h => by
    rw [namedExtents] at h ⊢
    obtain ⟨ht, hfs⟩ := List.forall_mem_cons.1 h
    rw [namedLayouts, List.map_cons, layout_eq_extent t ht, namedLayouts_eq_extents fs hfs]

theorem layouts_eq_extents : ∀ ts : List Shape, (∀ m ∈ extents ts, Addressable m.size) →
    (layouts ts).map Layout.extent = extents ts
  | [], _ => rfl
  | t :: ts, h => by
    rw [extents] at h ⊢
    obtain ⟨ht, hts⟩ := List.forall_mem_cons.1 h
    rw [layouts, List.map_cons, layout_eq_extent t ht, layouts_eq_extents ts hts]

end

end Shape

end Bindery
