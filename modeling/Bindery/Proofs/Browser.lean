/-
Browsing never leaves the selection outside the list. The list is filtered only when the
filter was given something to type, and the selection is put back into it at once, so every
message keeps a browser steady (`Steady.update`), whatever the filter makes of it. A page is
opened only over a list that is not empty, and while it is shown nothing below it changes.
-/
import Bindery.Browser
import Mathlib.Data.List.Infix

namespace Bindery

theorem Bytes.holds_iff {part : Bytes} : ∀ {s : Bytes}, s.holds part = true ↔ part <:+: s
  | [] => by simp [Bytes.holds]
  | c :: s => by
    rw [Bytes.holds, Bool.or_eq_true, List.isPrefixOf_iff_prefix, holds_iff, List.infix_cons_iff]

namespace Browser

/-- The list is what the filter lets through, the selection is on it, and a page is shown over
functions only. -/
structure Steady (b : Browser) : Prop where
  /-- those functions are on the list whose line, in lower case, holds the text looked for -/
  visible : b.visible = b.all.filter fun e => b.query <:+: e.label.toLower
  selected : b.visible ≠ [] → b.selected < b.visible.length
  unselected : b.visible = [] → b.selected = 0
  detail : b.detail = true → b.visible ≠ []

/-- What is shown of two browsers besides a page is the same. -/
structure SameList (b b' : Browser) : Prop where
  visible : b'.visible = b.visible
  selected : b'.selected = b.selected
  filter : b'.filter = b.filter

/-! ## One message -/

@[simp] theorem field_refilter (b : Browser) (field : TextField) : (b.refilter field).field = field := by
  simp only [refilter]

@[simp] theorem all_refilter (b : Browser) (field : TextField) : (b.refilter field).all = b.all := by
  simp only [refilter]

@[simp] theorem detail_refilter (b : Browser) (field : TextField) : (b.refilter field).detail = b.detail := by
  simp only [refilter]

theorem selected_refilter (b : Browser) (field : TextField) :
    (b.refilter field).selected = min b.selected ((b.refilter field).visible.length - 1) := by
  simp only [refilter]

theorem query_refilter (b : Browser) (field : TextField) :
    (b.refilter field).query = ({ b with field } : Browser).query := by
  simp only [query, filter, field_refilter]

theorem visible_refilter (b : Browser) (field : TextField) :
    (b.refilter field).visible
      = (b.refilter field).all.filter fun e => (b.refilter field).query <:+: e.label.toLower := by
  rw [query_refilter, all_refilter]
  simp only [refilter]
  split
  · -- an empty text stands in every line
    rename_i h
    rw [List.isEmpty_iff.1 h]
    simp
  · refine List.filter_congr fun e _ => ?_
    rw [Bool.eq_iff_iff, Bytes.holds_iff, decide_eq_true_iff]

theorem Steady.refilter {b : Browser} (hlist : b.detail = false) (field : TextField) :
    Steady (b.refilter field) where
  visible := visible_refilter b field
  selected h := by
    have hpos := List.length_pos_iff.2 h
    rw [selected_refilter]
    omega
  unselected h := by
    rw [selected_refilter, h, List.length_nil, Nat.zero_sub, Nat.min_zero]
  detail h := by
    rw [detail_refilter, hlist] at h
    cases h

theorem steady_start (p : Package) : Steady (start p) where
  visible := by
    have hquery : (start p).query = [] := rfl
    rw [hquery]
    simp [start]
  selected h := List.length_pos_iff.2 h
  unselected _ := rfl
  detail h := nomatch h

/-- A steady browser that moves its selection within the list. -/
theorem Steady.select {b : Browser} (h : Steady b) {n : Nat} (hn : n < b.visible.length ∨ n ≤ b.selected) :
    Steady { b with selected := n } where
  visible := h.visible
  selected hne := by
    have hlt := h.selected hne
    change n < b.visible.length
    omega
  unselected hnil := by
    have hzero := h.unselected hnil
    have hlen : b.visible.length = 0 := List.length_eq_zero_iff.2 hnil
    change n = 0
    omega
  detail := h.detail

/-- A steady browser that opens a page, over a list with functions, or closes it. -/
theorem Steady.show {b : Browser} (h : Steady b) {d : Bool} (hd : d = true → b.visible ≠ []) :
    Steady { b with detail := d } where
  visible := h.visible
  selected := h.selected
  unselected := h.unselected
  detail := hd

/-- **Every message keeps a browser steady**, whatever the filter becomes. -/
theorem Steady.update {b : Browser} (h : Steady b) (m : Message) (answer : TextField) :
    Steady (b.update m answer).1 := by
  match m with
  | .key .interrupt => exact h
  | .key .up =>
    simp only [Browser.update]
    split
    · exact h
    · exact h.select (.inr (Nat.sub_le _ _))
  | .key .down =>
    simp only [Browser.update]
    split
    · exact h
    · rename_i hroom
      exact h.select (.inl (Nat.lt_of_not_le fun hle => hroom (.inr hle)))
  | .key .enter =>
    refine h.show fun hopen => ?_
    rw [Bool.and_eq_true, Bool.not_eq_true', Bool.not_eq_true', List.isEmpty_eq_false_iff] at hopen
    exact hopen.2
  | .key .escape =>
    simp only [Browser.update]
    split
    · exact h.show nofun
    · exact h
  | .key (.edit e) =>
    simp only [Browser.update]
    split
    · exact h
    · rename_i hlist
      exact Steady.refilter (by simpa using hlist) answer
  | .other =>
    simp only [Browser.update]
    split
    · exact h
    · rename_i hlist
      exact Steady.refilter (by simpa using hlist) answer

theorem all_update (b : Browser) (m : Message) (answer : TextField) : (b.update m answer).1.all = b.all := by
  match m with
  | .key .interrupt | .key .enter => rfl
  | .key .up | .key .down | .key .escape | .key (.edit _) | .other =>
    simp only [Browser.update]
    split <;> simp only [all_refilter]

/-- While a page is shown no message changes what lies below it. -/
theorem sameList_update {b : Browser} (hd : b.detail = true) (m : Message) (answer : TextField) :
    SameList b (b.update m answer).1 := by
  match m with
  | .key .interrupt | .key .enter => exact ⟨rfl, rfl, rfl⟩
  | .key .up | .key .down | .key .escape | .key (.edit _) | .other =>
    simp only [Browser.update, hd, if_true, true_or]
    exact ⟨rfl, rfl, rfl⟩

/-- The page of a steady browser is that of a function on the list. -/
theorem Steady.view_eq {b : Browser} (h : Steady b) (hd : b.detail = true) :
    ∃ e, b.visible[b.selected]? = some e ∧ b.view = b.page e := by
  have hlt := h.selected (h.detail hd)
  have hin : b.visible[b.selected]? = some b.visible[b.selected] := List.getElem?_eq_getElem hlt
  refine ⟨b.visible[b.selected], hin, ?_⟩
  rw [view, if_pos hd, List.getD_eq_getElem?_getD, hin]
  rfl

/-! ## Many messages -/

/-- Messages one after the other, each with the filter that it leads to. -/
def run (b : Browser) (ms : List (Message × TextField)) : Browser :=
  ms.foldl (fun b m => (b.update m.1 m.2).1) b

theorem Steady.run {b : Browser} (h : Steady b) : ∀ ms : List (Message × TextField),
    Steady (b.run ms) ∧ (b.run ms).all = b.all := by
  intro ms
  induction ms generalizing b with
  | nil => exact ⟨h, rfl⟩
  | cons m ms ih =>
    obtain ⟨hsteady, hall⟩ := ih (h.update m.1 m.2)
    exact ⟨hsteady, hall.trans (all_update b m.1 m.2)⟩

/-- **Browsing never leaves the list.** After any messages, and whatever the filter became at each of
them, the list is what the filter lets through of the functions of the package, the selection is on
it, and a page that is shown is that of the selected function. While a page is shown, no message
changes the list, the selection or the filter. A pressed key is such a message, with the filter that
the text field makes of it. -/
theorem browsing_stays_on_list (p : Package) (ms : List (Message × TextField)) :
    let b := (start p).run ms
    b.all = p.libraries.flatMap entriesOf ∧ Steady b ∧
    (b.detail = true → (∃ e, b.visible[b.selected]? = some e ∧ b.view = b.page e) ∧
      ∀ m answer, SameList b (b.update m answer).1) ∧
    ∀ k, ∃ answer, b.press k = b.update (.key k) answer := by
  obtain ⟨hsteady, hall⟩ := (steady_start p).run ms
  exact ⟨hall, hsteady, fun hd => ⟨hsteady.view_eq hd, sameList_update hd⟩, fun k => ⟨_, rfl⟩⟩

end Browser

end Bindery
