/-
Layouts are sound. `Shape.layout?` is the layout of a type computed in words that refuse
to wrap around: on every type whose exact size is below 2^31 it gives the layout that is
computed without looking (`layout?_eq`).

`SoundStruct` and `SoundVariant` say what a structure and a variant owe their members:
aligned places that lie apart and inside the whole, and a discriminant that can name every
case. `layout_sound` puts the three together.
-/
import Bindery.Proofs.Canonical.Extent
import Mathlib.Data.List.Chain

namespace Bindery

/-! ## Words that do not wrap around -/

namespace Layout

/-- A sum, unless it wraps around. -/
def add? (a b : UInt32) : Option UInt32 := if a.toNat + b.toNat < 2 ^ 32 then some (a + b) else none

/-- A difference, unless it wraps around. -/
def sub? (a b : UInt32) : Option UInt32 := if b.toNat ≤ a.toNat then some (a - b) else none

/-- A product, unless it wraps around. -/
def mul? (a b : UInt32) : Option UInt32 := if a.toNat * b.toNat < 2 ^ 32 then some (a * b) else none

/-- A count as a word, unless it does not fit. -/
def ofNat? (n : Nat) : Option UInt32 := if n < 2 ^ 32 then some (UInt32.ofNat n) else none

def alignTo? (off align : UInt32) : Option UInt32 := do
  let top ← sub? (← add? off align) 1
  mul? (top / align) align

def ofFlags? (n : Nat) : Option Layout :=
  if n = 0 then some ⟨0, 1⟩
  else if n ≤ 8 then some ⟨1, 1⟩
  else if n ≤ 16 then some ⟨2, 2⟩
  else do return ⟨← mul? 4 (← ofNat? ((n + 31) / 32)), 4⟩

/-- The places of members from `off` on, and the end of the last one. -/
def placesFrom? (off : UInt32) : List Layout → Option (List UInt32 × UInt32)
  | [] => some ([], off)
  | m :: ms => do
    let start ← alignTo? off m.align
    let (starts, last) ← placesFrom? (← add? start m.size) ms
    return (start :: starts, last)

def offsets? (ms : List Layout) : Option (List UInt32) := do return (← placesFrom? 0 ms).1

def ofStruct? (ms : List Layout) : Option Layout := do
  let (_, last) ← placesFrom? 0 ms
  return ⟨← alignTo? last (maxAlign ms), maxAlign ms⟩

def payloadOffset? (cases : List Layout) : Option UInt32 :=
  alignTo? (discriminantSize cases.length) (maxAlign cases)

def ofVariant? (cases : List Layout) : Option Layout := do
  let align := max (discriminantSize cases.length) (maxAlign cases)
  return ⟨← alignTo? (← add? (← payloadOffset? cases) (maxSize cases)) align, align⟩

end Layout

namespace Shape

mutual

/-- The layout of a type, unless a step on the way to it wraps around. -/
def layout? : Shape → Option Layout
  | .blank => some .ofBlank
  | .prim p => some (.ofPrim p)
  | .string => some .ofSlice
  | .errorContext => some ⟨4, 4⟩
  | .alias _ t => t.layout?
  | .record _ fs => do Layout.ofStruct? (← namedLayouts? fs)
  | .enum _ cs => some (.ofEnum cs.length)
  | .flags _ fs => Layout.ofFlags? fs.length
  | .variant _ cs => do Layout.ofVariant? (← namedLayouts? cs)
  | .list _ => some .ofSlice
  | .option t => do Layout.ofVariant? [.ofBlank, ← t.layout?]
  | .result ok err => do Layout.ofVariant? [← ok.layout?, ← err.layout?]
  | .tuple ts => do Layout.ofStruct? (← layouts? ts)

def namedLayouts? : List (Bytes × Shape) → Option (List Layout)
  | [] => some []
  | (_, t) :: fs => do return (← t.layout?) :: (← namedLayouts? fs)

def layouts? : List Shape → Option (List Layout)
  | [] => some []
  | t :: ts => do return (← t.layout?) :: (← layouts? ts)

end

end Shape

namespace Layout

theorem add?_eq {a b : UInt32} (h : a.toNat + b.toNat < 2 ^ 32) : add? a b = some (a + b) := if_pos h

theorem alignTo?_eq {off align : UInt32} (ha : 0 < align.toNat) (h : off.toNat + align.toNat < 2 ^ 32) :
    alignTo? off align = some (alignTo off align) := by
  have hsum : (off + align).toNat = off.toNat + align.toNat := toNat_add h
  have hone : (1 : UInt32).toNat ≤ (off + align).toNat := by
    rw [hsum]
    exact Nat.le_add_left_of_le ha
  have htop : ((off + align - 1) / align).toNat * align.toNat < 2 ^ 32 := by
    rw [UInt32.toNat_div]
    exact Nat.lt_of_le_of_lt (Nat.div_mul_le_self _ _) (UInt32.toNat_lt _)
  simp only [alignTo?, add?_eq h, sub?, mul?, Option.bind_eq_bind, Option.bind_some, if_pos hone, if_pos htop]
  rfl

theorem placesFrom?_eq : ∀ (ms : List Layout) (off : UInt32), (∀ m ∈ ms, IsAlign m.extent.align) →
    Addressable (Extent.endFrom off.toNat (ms.map extent)) →
    placesFrom? off ms = some (offsetsFrom off ms, endFrom off ms)
  | [], _, _, _ => rfl
  | m :: ms, off, h, hsize => by
    have hm : IsAlign m.extent.align := h m (by simp)
    have hms : ∀ m' ∈ ms, IsAlign m'.extent.align := fun m' hm' => h m' (by simp [hm'])
    rw [List.map_cons, Extent.endFrom] at hsize
    have hle := Extent.le_endFrom (ms.map extent) (Extent.alignTo off.toNat m.extent.align + m.extent.size)
      (by simpa using hms)
    have hmember : Addressable (Extent.alignTo off.toNat m.extent.align + m.extent.size) :=
      Nat.lt_of_le_of_lt hle hsize
    obtain ⟨hstart, hend⟩ := toNat_memberEnd hm hmember
    have hoff := Extent.le_alignTo off.toNat hm.pos
    have height := hm.le_eight
    rw [← hend] at hsize
    unfold Addressable at hmember
    have hplace : alignTo? off m.align = some (alignTo off m.align) :=
      alignTo?_eq hm.pos (by simp only [extent] at *; omega)
    have hsum : add? (alignTo off m.align) m.size = some (alignTo off m.align + m.size) :=
      add?_eq (by rw [hstart]; simp only [extent] at *; omega)
    simp only [placesFrom?, hplace, hsum, placesFrom?_eq ms _ hms hsize, Option.bind_eq_bind, Option.bind_some]
    rfl

theorem ofStruct?_eq {ms : List Layout} (h : ∀ m ∈ ms, IsAlign m.extent.align)
    (hsize : Addressable (Extent.ofStruct (ms.map extent)).size) :
    ofStruct? ms = some (ofStruct ms) ∧ offsets? ms = some (offsets ms) := by
  have hmax := @Extent.isAlign_maxAlign (ms.map extent) (by simpa using h)
  have height := hmax.le_eight
  have hlast : Extent.endFrom 0 (ms.map extent) ≤ (Extent.ofStruct (ms.map extent)).size :=
    Extent.le_alignTo _ hmax.pos
  have hend : Addressable (Extent.endFrom 0 (ms.map extent)) := Nat.lt_of_le_of_lt hlast hsize
  have hplaces : placesFrom? 0 ms = some (offsets ms, endFrom 0 ms) := placesFrom?_eq ms 0 h hend
  have hround : alignTo? (endFrom 0 ms) (maxAlign ms) = some (alignTo (endFrom 0 ms) (maxAlign ms)) := by
    refine alignTo?_eq (by rw [toNat_maxAlign]; exact hmax.pos) ?_
    unfold Addressable at hend
    rw [(toNat_endFrom ms 0 h hend).1, toNat_maxAlign, UInt32.toNat_zero]
    omega
  simp only [ofStruct?, offsets?, hplaces, hround, Option.bind_eq_bind, Option.bind_some]
  exact ⟨rfl, rfl⟩

theorem ofVariant?_eq {cases : List Layout} (h : ∀ m ∈ cases, IsAlign m.extent.align)
    (hsize : Addressable (Extent.maxSize (cases.map extent))) :
    ofVariant? cases = some (ofVariant cases) ∧ payloadOffset? cases = some (payloadOffset cases) := by
  have hmax := @Extent.isAlign_maxAlign (cases.map extent) (by simpa using h)
  have hdisc := isAlign_discriminantSize cases.length
  have hwhole := hdisc.max hmax
  have hroom := room_ofVariant h hsize
  have hpart := hmax.le_eight
  have hfirst := hdisc.le_eight
  have hpayload : payloadOffset? cases = some (payloadOffset cases) :=
    alignTo?_eq (by rw [toNat_maxAlign]; exact hmax.pos)
      (by rw [toNat_discriminantSize, toNat_maxAlign]; omega)
  have hsum : add? (payloadOffset cases) (maxSize cases) = some (payloadOffset cases + maxSize cases) :=
    add?_eq (by rw [toNat_payloadOffset h, toNat_maxSize]; omega)
  have hround : ∀ align, align = max (discriminantSize cases.length) (maxAlign cases) →
      alignTo? (payloadOffset cases + maxSize cases) align =
        some (alignTo (payloadOffset cases + maxSize cases) align) := by
    rintro align rfl
    refine alignTo?_eq ?_ ?_
    · rw [toNat_max, toNat_discriminantSize, toNat_maxAlign]
      exact hwhole.pos
    · rw [toNat_add, toNat_payloadOffset h, toNat_maxSize, toNat_max, toNat_discriminantSize, toNat_maxAlign]
      · exact hroom
      · rw [toNat_payloadOffset h, toNat_maxSize]
        omega
  simp only [ofVariant?, hpayload, hsum, hround _ rfl, Option.bind_eq_bind, Option.bind_some]
  exact ⟨rfl, trivial⟩

theorem ofFlags?_eq {n : Nat} (h : Addressable (Extent.ofFlags n).size) : ofFlags? n = some (ofFlags n) := by
  unfold ofFlags? ofFlags
  split
  · rfl
  · split
    · rfl
    · split
      · rfl
      · rename_i h0 h8 h16
        have hsize : 4 * ((n + 31) / 32) < 2 ^ 31 := by simpa [Extent.ofFlags, h0, h8, h16, Addressable] using h
        have hwords : (UInt32.ofNat ((n + 31) / 32)).toNat = (n + 31) / 32 :=
          UInt32.toNat_ofNat_of_lt (by simp only [UInt32.size]; omega)
        have hcount : ofNat? ((n + 31) / 32) = some (UInt32.ofNat ((n + 31) / 32)) := if_pos (by omega)
        have hproduct : (4 : UInt32).toNat * (UInt32.ofNat ((n + 31) / 32)).toNat < 2 ^ 32 := by
          rw [hwords]
          simp only [UInt32.reduceToNat]
          omega
        simp only [hcount, mul?, if_pos hproduct, Option.bind_eq_bind, Option.bind_some]
        rfl

/-- A structure is computed without wrapping around when it is small and its members,
being small then, are. -/
theorem ofStruct?_of_small {ls : List Layout} {xs : List Extent} (hxs : ∀ m ∈ xs, IsAlign m.align)
    (heq : (∀ m ∈ xs, Addressable m.size) → ls.map extent = xs) (h : Addressable (Extent.ofStruct xs).size) :
    ofStruct? ls = some (ofStruct ls) := by
  obtain rfl := heq fun m hm => Nat.lt_of_le_of_lt (Extent.size_le_ofStruct hm hxs) h
  exact (ofStruct?_eq (by simpa using hxs) h).1

/-- A variant is computed without wrapping around when it is small and its payloads,
being small then, are. -/
theorem ofVariant?_of_small {ls : List Layout} {xs : List Extent} (hxs : ∀ m ∈ xs, IsAlign m.align)
    (heq : (∀ m ∈ xs, Addressable m.size) → ls.map extent = xs) (h : Addressable (Extent.ofVariant xs).size) :
    ofVariant? ls = some (ofVariant ls) := by
  obtain rfl := heq fun m hm => Nat.lt_of_le_of_lt (Extent.size_le_ofVariant hm hxs) h
  exact (ofVariant?_eq (by simpa using hxs) (Nat.lt_of_le_of_lt (Extent.maxSize_le_ofVariant hxs) h)).1

end Layout

namespace Shape

open Layout (Addressable)

mutual

/-- **No step of a layout wraps around** while the exact size is below 2^31. -/
theorem layout?_eq : ∀ t : Shape, Addressable t.extent.size → t.layout? = some t.layout
  | .blank, _ | .string, _ | .errorContext, _ | .list _, _ | .enum _ _, _ | .prim _, _ => by
    rw [layout?, layout]
  | .alias _ t, h => by
    rw [extent] at h
    rw [layout?, layout]
    exact layout?_eq t h
  | .record _ fs, h => by
    rw [extent] at h
    have hfs := namedLayouts?_eq fs fun m hm =>
      Nat.lt_of_le_of_lt (Extent.size_le_ofStruct hm (isAlign_namedExtents fs)) h
    rw [layout?, layout, hfs]
    exact Layout.ofStruct?_of_small (isAlign_namedExtents fs) (namedLayouts_eq_extents fs) h
  | .flags _ fs, h => by
    rw [extent] at h
    rw [layout?, layout]
    exact Layout.ofFlags?_eq h
  | .variant _ cs, h => by
    rw [extent] at h
    have hcs := namedLayouts?_eq cs fun m hm =>
      Nat.lt_of_le_of_lt (Extent.size_le_ofVariant hm (isAlign_namedExtents cs)) h
    rw [layout?, layout, hcs]
    exact Layout.ofVariant?_of_small (isAlign_namedExtents cs) (namedLayouts_eq_extents cs) h
  | .option t, h => by
    rw [extent] at h
    have ht : Addressable t.extent.size :=
      Nat.lt_of_le_of_lt (Extent.size_le_ofVariant (by simp) (isAlign_optionExtents t)) h
    rw [layout?, layout, layout?_eq t ht]
    refine Layout.ofVariant?_of_small (isAlign_optionExtents t) (fun _ => ?_) h
    rw [List.map_cons, List.map_cons, layout_eq_extent t ht]
    rfl
  | .result ok err, h => by
    rw [extent] at h
    have hok : Addressable ok.extent.size :=
      Nat.lt_of_le_of_lt (Extent.size_le_ofVariant (by simp) (isAlign_resultExtents ok err)) h
    have herr : Addressable err.extent.size :=
      Nat.lt_of_le_of_lt (Extent.size_le_ofVariant (by simp) (isAlign_resultExtents ok err)) h
    rw [layout?, layout, layout?_eq ok hok, layout?_eq err herr]
    refine Layout.ofVariant?_of_small (isAlign_resultExtents ok err) (fun _ => ?_) h
    rw [List.map_cons, List.map_cons, layout_eq_extent ok hok, layout_eq_extent err herr]
    rfl
  | .tuple ts, h => by
    rw [extent] at h
    have hts := layouts?_eq ts fun m hm =>
      Nat.lt_of_le_of_lt (Extent.size_le_ofStruct hm (isAlign_extents ts)) h
    rw [layout?, layout, hts]
    exact Layout.ofStruct?_of_small (isAlign_extents ts) (layouts_eq_extents ts) h

theorem namedLayouts?_eq : ∀ fs : List (Bytes × Shape), (∀ m ∈ namedExtents fs, Addressable m.size) →
    namedLayouts? fs = some (namedLayouts fs)
  | [], _ => rfl
  | (_, t) :: fs, h => by
    rw [namedExtents] at h
    obtain ⟨ht, hfs⟩ := List.forall_mem_cons.1 h
    rw [namedLayouts?, namedLayouts, layout?_eq t ht, namedLayouts?_eq fs hfs]
    rfl

theorem layouts?_eq : ∀ ts : List Shape, (∀ m ∈ extents ts, Addressable m.size) →
    layouts? ts = some (layouts ts)
  | [], _ => rfl
  | t :: ts, h => by
    rw [extents] at h
    obtain ⟨ht, hts⟩ := List.forall_mem_cons.1 h
    rw [layouts?, layouts, layout?_eq t ht, layouts?_eq ts hts]
    rfl

end

/-- The size of a type is a multiple of its alignment, so values can stand one after the other. -/
theorem align_dvd_size : ∀ t : Shape, t.extent.align ∣ t.extent.size
  | .blank | .errorContext => by simp [extent]
  | .string | .list _ => ⟨2, rfl⟩
  | .prim p => by
    rw [extent]
    cases p <;> decide
  | .alias _ t => by
    rw [extent]
    exact align_dvd_size t
  | .record _ _ | .variant _ _ | .option _ | .result _ _ | .tuple _ => by
    rw [extent]
    exact Extent.dvd_alignTo _ _
  | .enum _ _ => by simp [extent]
  | .flags _ fs => by
    rw [extent]
    unfold Extent.ofFlags
    split
    · simp
    · split
      · simp
      · split
        · simp
        · exact Nat.dvd_mul_right 4 _

end Shape

/-! ## Members -/

namespace Extent

/-- Each member ends before the next one starts. -/
theorem offsetsFrom_apart : ∀ (ms : List Extent) (off : Nat), (∀ m ∈ ms, IsAlign m.align) →
    (ms.zip (offsetsFrom off ms)).IsChain fun p q => p.2 + p.1.size ≤ q.2
  | [], _, _ => .nil
  | [m], _, _ => .singleton _
  | m :: m' :: ms, off, h => by
    have hms : ∀ m₁ ∈ m' :: ms, IsAlign m₁.align := fun m₁ hm₁ => h m₁ (List.mem_cons_of_mem _ hm₁)
    have ih := offsetsFrom_apart (m' :: ms) (alignTo off m.align + m.size) hms
    exact .cons_cons (le_alignTo _ (hms m' (by simp)).pos) ih

theorem exists_align_eq_maxAlign {ms : List Extent} (h : ∀ m ∈ ms, IsAlign m.align) (hne : ms ≠ []) :
    ∃ m ∈ ms, m.align = maxAlign ms := by
  rcases foldl_max_mem align ms 1 with hstart | hmem
  · obtain ⟨m, hm⟩ := List.exists_mem_of_ne_nil ms hne
    have hle : m.align ≤ maxAlign ms := align_le_maxAlign hm
    have hpos := (h m hm).pos
    have hone : maxAlign ms = 1 := hstart
    exact ⟨m, hm, by omega⟩
  · exact hmem

theorem maxSize_lt {ms : List Extent} {n : Nat} (hn : 0 < n) (h : ∀ m ∈ ms, m.size < n) : maxSize ms < n := by
  rcases foldl_max_mem size ms 0 with hstart | ⟨m, hm, heq⟩
  · rwa [maxSize, hstart]
  · rw [maxSize, ← heq]
    exact h m hm

end Extent

namespace Layout

/-- What a structure owes its members, with the places it gives them. -/
structure SoundStruct (ms : List Layout) : Prop where
  /-- no step of the computation wraps around -/
  computed : ofStruct? ms = some (ofStruct ms)
  placed : offsets? ms = some (offsets ms)
  length : (offsets ms).length = ms.length
  aligned : ∀ p ∈ ms.zip (offsets ms), p.1.align.toNat ∣ p.2.toNat
  /-- each member ends before the next one starts -/
  apart : (ms.zip (offsets ms)).IsChain fun p q => p.2.toNat + p.1.size.toNat ≤ q.2.toNat
  room : ∀ p ∈ ms.zip (offsets ms), p.2.toNat + p.1.size.toNat ≤ (ofStruct ms).size.toNat
  /-- the alignment is the largest of a member -/
  strictest : ∀ m ∈ ms, m.align.toNat ≤ (ofStruct ms).align.toNat
  attained : if ms = [] then (ofStruct ms).align = 1 else ∃ m ∈ ms, m.align = (ofStruct ms).align

/-- What a variant owes its cases. -/
structure SoundVariant (cases : List Layout) : Prop where
  /-- no step of the computation wraps around -/
  computed : ofVariant? cases = some (ofVariant cases)
  placed : payloadOffset? cases = some (payloadOffset cases)
  discriminant : (discriminantSize cases.length).toNat ≤ (payloadOffset cases).toNat
  aligned : ∀ c ∈ cases, c.align.toNat ∣ (payloadOffset cases).toNat
  room : ∀ c ∈ cases, (payloadOffset cases).toNat + c.size.toNat ≤ (ofVariant cases).size.toNat
  /-- every case has a number that the discriminant can hold -/
  numbered : ∀ i < cases.length, i < 256 ^ (discriminantSize cases.length).toNat

theorem soundStruct {ms : List Layout} (h : ∀ m ∈ ms, IsAlign m.extent.align)
    (hsize : Addressable (Extent.ofStruct (ms.map extent)).size) : SoundStruct ms := by
  obtain ⟨hcomputed, hplaced⟩ := ofStruct?_eq h hsize
  obtain ⟨hwhole, hoffs⟩ := extent_ofStruct h hsize
  have hxs : ∀ m ∈ ms.map extent, IsAlign m.align := by simpa using h
  have hzip : (ms.map extent).zip (Extent.offsetsFrom 0 (ms.map extent))
      = (ms.zip (offsets ms)).map (Prod.map extent UInt32.toNat) := by
    rw [← hoffs, List.zip_map]
  have hholds := Extent.ofStruct_holds hxs
  have hlength : (offsets ms).length = ms.length := by
    have hlen := hholds.length_eq
    rw [← hoffs, List.length_map, List.length_map] at hlen
    exact hlen.symm
  have hinside : ∀ p ∈ ms.zip (offsets ms), (ofStruct ms).extent.Holds p.1.extent p.2.toNat := by
    intro p hp
    rw [hwhole]
    refine (List.forall₂_iff_zip.1 hholds).2 ?_
    rw [hzip]
    exact List.mem_map.2 ⟨p, hp, rfl⟩
  have hapart := Extent.offsetsFrom_apart _ 0 hxs
  rw [hzip, List.isChain_map] at hapart
  refine ⟨hcomputed, hplaced, hlength, fun p hp => (hinside p hp).aligned, hapart,
    fun p hp => (hinside p hp).room, fun m hm => ?_, ?_⟩
  · have hle := Extent.align_le_maxAlign (List.mem_map_of_mem (f := extent) hm)
    rwa [← toNat_maxAlign] at hle
  · split
    · rename_i hnil
      rw [hnil]
      rfl
    · rename_i hne
      obtain ⟨x, hx, heq⟩ := Extent.exists_align_eq_maxAlign hxs (by simpa using hne)
      obtain ⟨m, hm, rfl⟩ := List.mem_map.1 hx
      rw [← toNat_maxAlign] at heq
      exact ⟨m, hm, UInt32.toNat_inj.1 heq⟩

/-- The discriminant is wide enough for every case. -/
theorem lt_pow_discriminantSize {n i : Nat} (hn : n < 2 ^ 32) (hi : i < n) :
    i < 256 ^ (discriminantSize n).toNat := by
  rw [toNat_discriminantSize]
  unfold Extent.discriminantSize
  split
  · omega
  · split <;> omega

theorem soundVariant {cases : List Layout} (hn : cases.length < 2 ^ 32)
    (h : ∀ m ∈ cases, IsAlign m.extent.align) (hsize : ∀ m ∈ cases, Addressable m.extent.size) :
    SoundVariant cases := by
  have hxs : ∀ m ∈ cases.map extent, IsAlign m.align := by simpa using h
  have hmax : Addressable (Extent.maxSize (cases.map extent)) :=
    Extent.maxSize_lt (by decide) (List.forall_mem_map.2 hsize)
  obtain ⟨hcomputed, hplaced⟩ := ofVariant?_eq h hmax
  have hwhole := extent_ofVariant h hmax
  have hpayload := toNat_payloadOffset h
  have hinside : ∀ c ∈ cases, (ofVariant cases).extent.Holds c.extent (payloadOffset cases).toNat := by
    intro c hc
    rw [hwhole, hpayload]
    exact Extent.ofVariant_holds hxs (List.mem_map_of_mem hc)
  refine ⟨hcomputed, hplaced, ?_, fun c hc => (hinside c hc).aligned, fun c hc => (hinside c hc).room,
    fun i hi => lt_pow_discriminantSize hn hi⟩
  rw [hpayload, toNat_discriminantSize, Extent.payloadOffset, List.length_map]
  exact Extent.le_alignTo _ (Extent.isAlign_maxAlign hxs).pos

end Layout

namespace Shape

open Layout (Addressable)

/-- **Layouts are sound.** A type whose exact size is below 2^31 has its exact size, which is
a multiple of an alignment of 1, 2, 4 or 8, and no step on the way to it wraps around. A
structure of such types that stays below 2^31 too keeps its members apart, aligned and
inside; a variant of such payloads has room for each of them behind a discriminant
that numbers every case. -/
theorem layout_sound :
    (∀ t : Shape, Addressable t.extent.size →
      t.layout? = some t.layout ∧ t.layout.extent = t.extent ∧ IsAlign t.layout.align.toNat ∧
        t.layout.align.toNat ∣ t.layout.size.toNat) ∧
    (∀ ts : List Shape, Addressable (Extent.ofStruct (extents ts)).size →
      (∀ t ∈ ts, Addressable t.extent.size) ∧ (Layout.ofStruct (layouts ts)).extent = .ofStruct (extents ts) ∧
        Layout.SoundStruct (layouts ts)) ∧
    (∀ cases : List Shape, cases.length < 2 ^ 32 → (∀ t ∈ cases, Addressable t.extent.size) →
      Layout.SoundVariant (layouts cases)) := by
  refine ⟨fun t ht => ?_, fun ts hts => ?_, fun cases hn hcases => ?_⟩
  · have hexact := layout_eq_extent t ht
    have halign : t.layout.align.toNat = t.extent.align := congrArg Extent.align hexact
    have hsize : t.layout.size.toNat = t.extent.size := congrArg Extent.size hexact
    rw [halign, hsize]
    exact ⟨layout?_eq t ht, hexact, isAlign_extent t, align_dvd_size t⟩
  · have hmembers : ∀ m ∈ extents ts, Addressable m.size := fun m hm =>
      Nat.lt_of_le_of_lt (Extent.size_le_ofStruct hm (isAlign_extents ts)) hts
    have hexact := layouts_eq_extents ts hmembers
    have haligns := isAlign_extents ts
    rw [← hexact] at hts haligns ⊢
    have haligns : ∀ m ∈ layouts ts, IsAlign m.extent.align := fun m hm => haligns _ (List.mem_map_of_mem hm)
    exact ⟨fun t ht => hmembers _ (extents_eq_map ts ▸ List.mem_map_of_mem ht), (Layout.extent_ofStruct haligns hts).1,
      Layout.soundStruct haligns hts⟩
  · have hpayloads : ∀ m ∈ layouts cases, m.extent.size < 2 ^ 31 ∧ IsAlign m.extent.align := by
      intro m hm
      rw [layouts_eq_map] at hm
      obtain ⟨t, ht, rfl⟩ := List.mem_map.1 hm
      rw [layout_eq_extent t (hcases t ht)]
      exact ⟨hcases t ht, isAlign_extent t⟩
    refine Layout.soundVariant ?_ (fun m hm => (hpayloads m hm).2) fun m hm => (hpayloads m hm).1
    rwa [layouts_eq_map, List.length_map]

/-- A small number, a text, a set of nine flags and a number of eight octets. -/
def rowMembers : List Shape :=
  [.prim .u8, .string, .flags (utf8 "f") (List.replicate 9 (utf8 "m")), .prim .u64]

theorem layout_sound_row :
    Layout.offsets (layouts rowMembers) = [0, 4, 12, 16] ∧
      Layout.SoundStruct (layouts rowMembers) ∧ Layout.SoundVariant (layouts rowMembers) ∧
      IsAlign (Shape.option (.tuple rowMembers)).layout.align.toNat := by
  obtain ⟨htype, hstruct, hvariant⟩ := layout_sound
  obtain ⟨hmembers, -, hsound⟩ := hstruct rowMembers (by decide)
  exact ⟨by decide, hsound, hvariant rowMembers (by decide) hmembers, (htype _ (by decide)).2.2.1⟩

end Shape

end Bindery
