/-
What canonical items mean. A text, a number, a list and a table are read back from their
stored form, and so are the fields of a record that are there (`fields?_ofEntries`).
-/
import Bindery.Cbor.Meaning
import Bindery.Proofs.Cbor.RoundTrip
import Bindery.Proofs.Table

namespace Bindery.Cbor.Item

variable {α : Type}

/-! ## Texts, numbers and lists -/

theorem text?_ofText {s : Bytes} (h : Utf8.valid s = true) : (ofText s).text? = some s := by
  simp [ofText, text?, bare?, isNull, plainText?, h]

theorem nat?_ofNat (n : Nat) : (ofNat n).nat? = some n := by
  rw [ofNat, nat?, value_ofNat]

@[simp] theorem items?_ofList (is : List Item) : (ofList is).items? = some is := rfl

@[simp] theorem entries?_ofEntries (es : List (Bytes × Item)) :
    (ofEntries es).entries? = some (es.map fun e => (ofText e.1, e.2)) := rfl

theorem mapM_map_eq_some {β : Type} {f : α → β} {value : β → Option α} : ∀ {as : List α},
    (∀ a ∈ as, value (f a) = some a) → (as.map f).mapM value = some as
  | [], _ => rfl
  | a :: as, h => by
    have hrest := mapM_map_eq_some fun a' ha' => h a' (List.mem_cons_of_mem a ha')
    simp [h a (by simp), hrest]

theorem list?_ofList {f : α → Item} {value : Item → Option α} {as : List α}
    (h : ∀ a ∈ as, value (f a) = some a) : (ofList (as.map f)).list? value = some as := by
  rw [list?, items?_ofList]
  exact mapM_map_eq_some h

theorem optional?_eq_some {value : Item → Option α} {i : Item} {a : α} (hnull : i.isNull = false)
    (h : value i = some a) : i.optional? value = some (some a) := by
  simp [optional?, hnull, h]

/-! ## Tables -/

theorem insertShort_perm {e : Bytes × α} : ∀ es : List (Bytes × α), (insertShort e es).Perm (e :: es)
  | [] => .refl _
  | e' :: es => by
    rw [insertShort]
    split
    · exact .refl _
    · exact ((insertShort_perm es).cons e').trans (.swap _ _ _)

theorem shortFirst_perm : ∀ es : List (Bytes × α), (shortFirst es).Perm es
  | [] => .refl _
  | e :: es => (insertShort_perm _).trans ((shortFirst_perm es).cons e)

/-- Entries with texts for keys are added as they are. -/
theorem addEntries_eq {f : Bytes × α → Item} {value : Item → Option α} : ∀ {es : List (Bytes × α)}
    (t : Table α) (last : Bytes), (∀ e ∈ es, Utf8.valid e.1 = true ∧ value (f e) = some e.2) →
    addEntries value t last (es.map fun e => (ofText e.1, f e)) = some (es.foldl (fun t e => t.insert e.1 e.2) t)
  | [], t, last, _ => rfl
  | (k, v) :: es, t, last, h => by
    obtain ⟨hk, hv⟩ := h (k, v) (by simp)
    have hkey : (ofText k).key? last = some k := by
      simp [ofText, key?, bare?, isNull, plainText?, hk]
    rw [List.map_cons, addEntries, hkey]
    simp only [Option.bind_eq_bind, Option.bind_some, hv, List.foldl_cons]
    exact addEntries_eq _ k fun e he => h e (List.mem_cons_of_mem _ he)

theorem insertShort_map {β : Type} (g : Bytes × α → β) (e : Bytes × α) (es : List (Bytes × α)) :
    insertShort (e.1, g e) (es.map fun e => (e.1, g e)) = (insertShort e es).map fun e => (e.1, g e) := by
  induction es with
  | nil => rfl
  | cons e' es ih =>
    rw [List.map_cons, insertShort, insertShort, ih]
    split <;> rfl

theorem shortFirst_map {β : Type} (g : Bytes × α → β) (es : List (Bytes × α)) :
    shortFirst (es.map fun e => (e.1, g e)) = (shortFirst es).map fun e => (e.1, g e) := by
  induction es with
  | nil => rfl
  | cons e es ih =>
    rw [List.map_cons, shortFirst, List.foldr_cons, ← shortFirst, ih, insertShort_map]
    rfl

/-- An ordered table is read back from its stored form. -/
theorem table?_ofTable {g : Bytes × α → Item} {value : Item → Option α} {t : Table α} (ht : Table.Ordered t)
    (h : ∀ e ∈ t, Utf8.valid e.1 = true ∧ value (g e) = some e.2) :
    (ofTable (t.map fun e => (e.1, g e))).table? value = some t := by
  have hperm := shortFirst_perm t
  have hadd := addEntries_eq (f := g) [] [] fun e he => h e (hperm.mem_iff.1 he)
  rw [ofTable, shortFirst_map, table?, entries?_ofEntries, List.map_map]
  refine hadd.trans ?_
  rw [← Table.ofEntries, Table.ofEntries_eq hperm ht]

/-! ## Records -/

theorem fieldOf?_of_mem {names : List Bytes} {k : Bytes} (h : k ∈ names) : fieldOf? names k = some k := by
  have hfind : names.find? (· == k) = some k := by
    cases hf : names.find? (· == k) with
    | none => simpa using List.find?_eq_none.1 hf k h
    | some n =>
      have hn := List.find?_some hf
      rw [beq_iff_eq.1 hn]
  rw [fieldOf?, hfind, Option.some_or]

theorem pick_eq : ∀ {es : List (Bytes × Item)} {names : List Bytes}, (es.map (·.1)).Nodup →
    (∀ e ∈ es, e.1 ∈ names) → (∀ n ∈ names, Utf8.valid n = true) →
    pick names (es.map fun e => (ofText e.1, e.2)) = some es
  | [], _, _, _, _ => rfl
  | (k, v) :: es, names, hnodup, hnames, hvalid => by
    obtain ⟨hk, hes⟩ := List.nodup_cons.1 hnodup
    have hmem : k ∈ names := hnames (k, v) (by simp)
    have hrest : pick (names.erase k) (es.map fun e => (ofText e.1, e.2)) = some es := by
      refine pick_eq hes (fun e he => ?_) fun n hn => hvalid n (List.mem_of_mem_erase hn)
      have hne : e.1 ≠ k := fun heq => hk (List.mem_map.2 ⟨e, he, heq⟩)
      exact (List.mem_erase_of_ne hne).2 (hnames e (List.mem_cons_of_mem _ he))
    have htext : (ofText k).plainText? = some k := by simp [ofText, plainText?, hvalid k hmem]
    rw [List.map_cons, pick]
    · simp [htext, fieldOf?_of_mem hmem, hrest]
    all_goals simp [ofText]

/-- The fields of a record are read back, when they are stored under some of the names
looked for, each once. -/
theorem fields?_ofEntries {es : List (Bytes × Item)} {names : List Bytes} (stored : List Bytes)
    (hstored : (es.map (·.1)).Sublist stored) (hnodup : stored.Nodup) (hnames : ∀ n ∈ stored, n ∈ names)
    (hascii : (names.all fun n => n.all (· < 0x80)) = true) : (ofEntries es).fields? names = some es := by
  rw [fields?, entries?_ofEntries]
  refine pick_eq (hstored.nodup hnodup) (fun e he => ?_) fun n hn => ?_
  · exact hnames _ (hstored.subset (List.mem_map_of_mem he))
  · exact Utf8.valid_of_ascii (List.all_eq_true.1 hascii n hn)

theorem fieldIf_sublist (written : Bool) (name : String) (i : Item) :
    ((fieldIf written name i).map (·.1)).Sublist [utf8 name] := by
  cases written with
  | false => exact List.nil_sublist _
  | true => exact List.Sublist.refl _

theorem forall_mem_fieldIf {P : Bytes × Item → Prop} {written : Bool} {name : String} {i : Item} :
    (∀ e ∈ fieldIf written name i, P e) ↔ (written = true → P (utf8 name, i)) := by
  cases written <;> simp [fieldIf]

theorem find?_fieldIf (k : Bytes) (written : Bool) (name : String) (i : Item) :
    Table.find? k (fieldIf written name i) = if k = utf8 name then (if written then some i else none) else none := by
  cases written <;> simp [fieldIf, Table.find?]

theorem field_stored {es : List (Bytes × Item)} {name : Bytes} {absent v : α} {value : Item → Option α} {i : Item}
    (hfind : Table.find? name es = some i) (hvalue : value i = some v) : field es name absent value = some v := by
  rw [field, hfind]
  exact hvalue

/-- A field that is written only when it is there to write is read back either way. -/
theorem field_storedIf {es : List (Bytes × Item)} {name : Bytes} {absent v : α} {value : Item → Option α}
    {i : Item} (written : Bool) (hfind : Table.find? name es = if written then some i else none)
    (habsent : written = false → absent = v) (hvalue : written = true → value i = some v) :
    field es name absent value = some v := by
  rw [field, hfind]
  cases written with
  | false => exact congrArg some (habsent rfl)
  | true => exact hvalue rfl

/-! ## Canonical parts -/

theorem canonical_list {f : α → Item} {as : List α} (h : ∀ a ∈ as, Canonical (f a)) :
    Canonical (ofList (as.map f)) := .list (List.forall_mem_map.2 h)

theorem canonical_ofTable {t : Table Item} (h : ∀ e ∈ t, Canonical e.2) : Canonical (ofTable t) :=
  .entries fun e he => h e ((shortFirst_perm t).mem_iff.1 he)

end Bindery.Cbor.Item
