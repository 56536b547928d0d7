/-
Reading refuses what is beyond its limits. A canonical item is read from its octets just
when it stays within them (`parse_encode_iff`). Its texts are then in UTF-8 wherever a
text, a list of texts or the keys of a table were asked for.
-/
import Bindery.Proofs.Cbor.Records

namespace Bindery.Cbor

open Utf8 (valid)

/-! ## Nesting and length -/

/-- A list has fewer members than octets. -/
theorem length_lt_encode_ofList {is : List Item} (h : ∀ i ∈ is, Canonical i) :
    is.length < (Item.ofList is).encode.length := by
  have hpos := length_encode_pos 4 (.ofNat is.length)
  have hcount := length_le_length_flatMap fun i hi => (h i hi).length_encode_pos
  rw [encode_ofList, List.length_append]
  omega

/-- A table has fewer entries than octets. -/
theorem length_lt_encode_ofEntries {es : List (Bytes × Item)} (h : ∀ e ∈ es, Canonical e.2) :
    es.length < (Item.ofEntries es).encode.length := by
  have hpos := length_encode_pos 5 (.ofNat es.length)
  have hentry : ∀ e ∈ es.map fun e => (Item.ofText e.1, e.2), 0 < (e.1.encode ++ e.2.encode).length := by
    refine List.forall_mem_map.2 fun e he => ?_
    rw [List.length_append]
    exact Nat.lt_of_lt_of_le (h e he).length_encode_pos (Nat.le_add_left _ _)
  have hcount := length_le_length_flatMap hentry
  rw [List.length_map] at hcount
  rw [encode_ofEntries, List.length_append]
  omega

/-- Values that were read one after the other are each within the limits, when a value that
is read is within them and one within them is read back. -/
theorem forall_of_times {α : Type} {p : Parse α} {encode : α → Bytes} {Within : α → Prop} : ∀ {as : List α},
    (∀ a ∈ as, ∀ {rest r}, p (encode a ++ rest) = some r → Within a) →
    (∀ a ∈ as, Within a → ∀ rest, p (encode a ++ rest) = some (a, rest)) → ∀ {rest r},
    times p as.length (as.flatMap encode ++ rest) = some r → ∀ a ∈ as, Within a
  | [], _, _, _, _, _ => List.forall_mem_nil _
  | a :: as, hread, hback, rest, r, h => by
    rw [List.flatMap_cons, List.append_assoc, List.length_cons, times] at h
    obtain ⟨⟨a', s⟩, ha, htail⟩ := Option.bind_eq_some_iff.1 h
    have hwithin : Within a := hread a (by simp) ha
    rw [hback a (by simp) hwithin] at ha
    obtain ⟨rfl, rfl⟩ := Prod.mk.inj (Option.some.inj ha)
    obtain ⟨r', htimes, -⟩ := Option.bind_eq_some_iff.1 htail
    refine List.forall_mem_cons.2 ⟨hwithin, ?_⟩
    exact forall_of_times (fun a ha => hread a (by simp [ha])) (fun a ha => hback a (by simp [ha])) htimes

theorem value_of_pair {p : Parse Item} {k : Item} {ks vs rest : Bytes} {r : (Item × Item) × Bytes}
    (hk : ∀ rest, p (ks ++ rest) = some (k, rest)) (h : pair p (ks ++ vs ++ rest) = some r) :
    ∃ r', p (vs ++ rest) = some r' := by
  rw [List.append_assoc, pair, hk, Option.bind_eq_bind, Option.bind_some] at h
  obtain ⟨r', hr', -⟩ := Option.bind_eq_some_iff.1 h
  exact ⟨r', hr'⟩

/-- A canonical item that is read is within the limits. -/
theorem fits_of_item {i : Item} (h : Canonical i) : ∀ {fuel depth : Nat} {rest : Bytes} {r : Item × Bytes},
    i.encode.length ≤ fuel → i.encode.length < 2 ^ 64 → item fuel depth (i.encode ++ rest) = some r →
    i.fits depth = true := by
  -- as in `item_encode`, one level of nesting costs one unit of fuel
  induction h with
  | null | nat | text => exact fun _ _ _ => rfl
  | @list is hcanonical ih =>
    intro fuel depth rest r hfuel hlen hread
    have hcount := length_lt_encode_ofList hcanonical
    obtain ⟨fuel, rfl⟩ : ∃ m, fuel = m + 1 := ⟨fuel - 1, by omega⟩
    rw [encode_ofList, List.append_assoc, item, head_encode (by decide) (by omega)] at hread
    simp only [Option.bind_eq_bind, Option.bind_some, value_ofNat] at hread
    split at hread
    · simp at hread
    · rename_i hlimits
      obtain ⟨⟨is', s⟩, htimes, -⟩ := Option.bind_eq_some_iff.1 hread
      refine Item.fits_ofList.2 ⟨by omega, forall_of_times (fun i hi _ _ => ?_) (fun i hi hfits rest => ?_) htimes⟩
      all_goals have hlt := length_lt_ofList hi
      · exact ih i hi (by omega) (by omega)
      · exact item_encode (hcanonical i hi) _ _ rest hfits (by omega) (by omega)
  | @entries es hcanonical ih =>
    intro fuel depth rest r hfuel hlen hread
    have hcount := length_lt_encode_ofEntries hcanonical
    obtain ⟨fuel, rfl⟩ : ∃ m, fuel = m + 1 := ⟨fuel - 1, by omega⟩
    have hkey : ∀ e ∈ es, ∀ rest,
        item fuel (depth + 1) ((Item.ofText e.1).encode ++ rest) = some (.ofText e.1, rest) := by
      intro e he rest
      have hlt := length_lt_ofEntries he
      exact item_text (by omega) (by omega) rest
    rw [encode_ofEntries, List.append_assoc, item, head_encode (by decide) (by omega)] at hread
    simp only [Option.bind_eq_bind, Option.bind_some, value_ofNat] at hread
    split at hread
    · simp at hread
    · rename_i hlimits
      obtain ⟨⟨es', s⟩, htimes, -⟩ := Option.bind_eq_some_iff.1 hread
      have hpairs : ∀ e ∈ es.map fun e => (Item.ofText e.1, e.2), e.2.fits (depth + 1) = true := by
        rw [← List.length_map fun e : Bytes × Item => (Item.ofText e.1, e.2)] at htimes
        refine forall_of_times (List.forall_mem_map.2 fun e he rest r hpair => ?_)
          (List.forall_mem_map.2 fun e he hfits => ?_) htimes
        all_goals have hlt := length_lt_ofEntries he
        · obtain ⟨r', hvalue⟩ := value_of_pair (hkey e he) hpair
          exact ih e he (by omega) (by omega) hvalue
        · exact pair_append (hkey e he) fun rest => item_encode (hcanonical e he) _ _ rest hfits (by omega) (by omega)
      exact Item.fits_ofEntries.2 ⟨by omega, List.forall_mem_map.1 hpairs⟩

/-- **A canonical item is read from its octets just when it is within the limits of the
reader**, and then as it was. -/
theorem parse_encode_iff {i j : Item} (h : Canonical i) (hlen : i.encode.length < 2 ^ 64) :
    parse i.encode = some j ↔ j = i ∧ i.fits 0 = true := by
  constructor
  · intro hread
    have hfits : i.fits 0 = true := by
      rw [parse] at hread
      split at hread
      · rename_i hitem
        rw [← List.append_nil i.encode] at hitem
        exact fits_of_item h (by simp) hlen hitem
      · cases hread
    rw [parse_encode h hfits hlen] at hread
    exact ⟨(Option.some.inj hread).symm, hfits⟩
  · rintro ⟨rfl, hfits⟩
    exact parse_encode h hfits hlen

namespace Item

/-! ## Texts -/

variable {α β : Type}

theorem text?_ofText_iff {s t : Bytes} : (ofText s).text? = some t ↔ t = s ∧ valid s = true := by
  by_cases hs : valid s = true
  · rw [text?_ofText hs]
    simp [hs, eq_comm]
  · simp [ofText, text?, bare?, isNull, plainText?, hs]

/-- What is read as a list is so read item by item. -/
theorem isSome_of_list? {f : α → Item} {value : Item → Option β} {as : List α} {bs : List β}
    (h : (ofList (as.map f)).list? value = some bs) : ∀ a ∈ as, (value (f a)).isSome := by
  rw [list?, items?_ofList, Option.bind_eq_bind, Option.bind_some] at h
  induction as generalizing bs with
  | nil => exact List.forall_mem_nil _
  | cons a as ih =>
    rw [List.map_cons, List.mapM_cons] at h
    obtain ⟨b, hb, htail⟩ := Option.bind_eq_some_iff.1 h
    obtain ⟨bs', hbs, -⟩ := Option.bind_eq_some_iff.1 htail
    exact List.forall_mem_cons.2 ⟨by rw [hb]; rfl, ih hbs⟩

theorem valid_of_addEntries {value : Item → Option α} : ∀ {es : List (Bytes × Item)} {t t' : Table α}
    {last : Bytes}, addEntries value t last (es.map fun e => (ofText e.1, e.2)) = some t' →
    ∀ e ∈ es, valid e.1 = true
  | [], _, _, _, _ => List.forall_mem_nil _
  | (k, i) :: es, t, t', last, h => by
    rw [List.map_cons, addEntries] at h
    obtain ⟨k', hk, hvalue⟩ := Option.bind_eq_some_iff.1 h
    obtain ⟨v, -, htail⟩ := Option.bind_eq_some_iff.1 hvalue
    refine List.forall_mem_cons.2 ⟨?_, valid_of_addEntries htail⟩
    by_contra hvalid
    simp [ofText, key?, bare?, isNull, plainText?, hvalid] at hk

/-- What is read as a table has texts in UTF-8 for keys. -/
theorem valid_of_table? {value : Item → Option α} {t : Table Item} {t' : Table α}
    (h : (ofTable t).table? value = some t') : ∀ e ∈ t, valid e.1 = true := by
  rw [ofTable, table?, entries?_ofEntries, Option.bind_eq_bind, Option.bind_some] at h
  exact fun e he => valid_of_addEntries h e ((shortFirst_perm t).mem_iff.2 he)

end Item

end Bindery.Cbor
