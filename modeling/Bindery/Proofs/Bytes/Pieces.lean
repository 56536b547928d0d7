/-
Texts in pieces. `Bytes.split` and `Bytes.join` undo each other on pieces without the
separator, the last piece is what follows the last separator (`afterLast_eq`), and the
pieces of a text in UTF-8 are texts themselves when the separator is below 0x80.
-/
import Bindery.Proofs.Bytes.Octets
import Mathlib.Data.List.TakeWhile

namespace Bindery.Bytes

variable {sep : UInt8}

theorem split_ne_nil : ∀ s : Bytes, split sep s ≠ []
  | [] => by simp [split]
  | c :: s => by
    rw [split]
    split
    · simp
    · split <;> simp

/-- The pieces around a separator are split each for itself. -/
theorem split_append_sep : ∀ s t : Bytes, split sep (s ++ sep :: t) = split sep s ++ split sep t
  | [], t => by simp [split]
  | c :: s, t => by
    have ih := split_append_sep s t
    rw [List.cons_append, split, split]
    split
    · rw [ih, List.cons_append]
    · rw [ih]
      cases hs : split sep s with
      | nil => exact absurd hs (split_ne_nil s)
      | cons p ps => rfl

theorem split_of_not_mem : ∀ {s : Bytes}, sep ∉ s → split sep s = [s]
  | [], _ => rfl
  | c :: s, h => by
    obtain ⟨hc, hs⟩ := List.ne_and_not_mem_of_not_mem_cons h
    rw [split, if_neg (by simpa using Ne.symm hc), split_of_not_mem hs]

theorem not_mem_of_mem_split : ∀ {s p : Bytes}, p ∈ split sep s → sep ∉ p
  | [], p, h => by
    obtain rfl : p = [] := by simpa [split] using h
    simp
  | c :: s, p, h => by
    rw [split] at h
    split at h
    · rcases List.mem_cons.1 h with rfl | h
      · simp
      · exact not_mem_of_mem_split h
    · rename_i hc
      cases hs : split sep s with
      | nil => exact absurd hs (split_ne_nil s)
      | cons q qs =>
        rw [hs] at h
        have hq : sep ∉ q := not_mem_of_mem_split (s := s) (by simp [hs])
        rcases List.mem_cons.1 h with rfl | h
        · simpa [hq] using Ne.symm (by simpa using hc)
        · exact not_mem_of_mem_split (s := s) (by simp [hs, h])

/-- A text is cut at the first separator. -/
theorem cut_append_sep : ∀ {s : Bytes} (_ : sep ∉ s) (t : Bytes), cut sep (s ++ sep :: t) = some (s, t)
  | [], _, t => by simp [cut]
  | c :: s, h, t => by
    obtain ⟨hc, hs⟩ := List.ne_and_not_mem_of_not_mem_cons h
    rw [List.cons_append, cut, if_neg (by simpa using Ne.symm hc), cut_append_sep hs]
    rfl

theorem cut_of_not_mem : ∀ {s : Bytes}, sep ∉ s → cut sep s = none
  | [], _ => rfl
  | c :: s, h => by
    obtain ⟨hc, hs⟩ := List.ne_and_not_mem_of_not_mem_cons h
    rw [cut, if_neg (by simpa using Ne.symm hc), cut_of_not_mem hs]
    rfl

theorem mem_of_mem_split : ∀ {s p : Bytes} {b : UInt8}, p ∈ split sep s → b ∈ p → b ∈ s
  | [], p, b, h, hb => by
    obtain rfl : p = [] := by simpa [split] using h
    exact hb
  | c :: s, p, b, h, hb => by
    rw [split] at h
    split at h
    · rcases List.mem_cons.1 h with rfl | h
      · simp at hb
      · exact List.mem_cons_of_mem c (mem_of_mem_split h hb)
    · cases hs : split sep s with
      | nil => exact absurd hs (split_ne_nil s)
      | cons q qs =>
        have hrest : ∀ p ∈ q :: qs, b ∈ p → b ∈ s := fun p hp => mem_of_mem_split (hs ▸ hp)
        rw [hs] at h
        rcases List.mem_cons.1 h with rfl | h
        · rcases List.mem_cons.1 hb with rfl | hb
          · simp
          · exact List.mem_cons_of_mem c (hrest q (by simp) hb)
        · exact List.mem_cons_of_mem c (hrest p (by simp [h]) hb)

theorem join_cons_cons (p q : Bytes) (ps : List Bytes) :
    join [sep] (p :: q :: ps) = p ++ sep :: join [sep] (q :: ps) := by
  simp [join, List.intercalate]

theorem join_ne_nil {p : Bytes} {ps : List Bytes} (hp : p ≠ []) : join [sep] (p :: ps) ≠ [] := by
  cases ps with
  | nil => simpa [join] using hp
  | cons q ps => simp [join_cons_cons]

theorem join_append {qs : List Bytes} (hqs : qs ≠ []) : ∀ {ps : List Bytes}, ps ≠ [] →
    join [sep] (ps ++ qs) = join [sep] ps ++ sep :: join [sep] qs
  | [p], _ => by
    obtain ⟨q, qs, rfl⟩ := List.exists_cons_of_ne_nil hqs
    rw [List.singleton_append, join_cons_cons]
    simp [join]
  | p :: p' :: ps, _ => by
    have ih := join_append hqs (List.cons_ne_nil p' ps)
    rw [List.cons_append, List.cons_append, join_cons_cons, ← List.cons_append, ih, join_cons_cons,
      List.append_assoc, List.cons_append]

theorem split_join : ∀ {ps : List Bytes}, ps ≠ [] → (∀ p ∈ ps, sep ∉ p) → split sep (join [sep] ps) = ps
  | [p], _, h => by
    rw [join, List.intercalate_singleton]
    exact split_of_not_mem (h p (by simp))
  | p :: q :: ps, _, h => by
    have ih := split_join (List.cons_ne_nil q ps) fun p hp => h p (by simp [hp])
    rw [join_cons_cons, split_append_sep, ih, split_of_not_mem (h p (by simp)), List.singleton_append]

theorem join_split : ∀ s : Bytes, join [sep] (split sep s) = s
  | [] => rfl
  | c :: s => by
    have ih := join_split s
    rw [split]
    cases hs : split sep s with
    | nil => exact absurd hs (split_ne_nil s)
    | cons p ps =>
      rw [hs] at ih
      split
      · rename_i hc
        rw [join_cons_cons, ih, ← beq_iff_eq.1 hc, List.nil_append]
      · rw [← ih]
        cases ps with
        | nil => simp [join]
        | cons q ps => rw [join_cons_cons, join_cons_cons, List.cons_append]

/-! ## The last piece -/

/-- A text with a separator in it, taken apart at the last one. -/
theorem exists_last_sep {s : Bytes} (h : sep ∈ s) : ∃ d b, s = d ++ sep :: b ∧ sep ∉ b := by
  obtain ⟨b, d, heq, hb⟩ := List.eq_append_cons_of_mem (List.mem_reverse.2 h)
  refine ⟨d.reverse, b.reverse, ?_, by simpa using hb⟩
  rw [← List.reverse_reverse s, heq]
  simp

theorem bne_of_mem_reverse {s : Bytes} (h : sep ∉ s) : ∀ c ∈ s.reverse, (c != sep) = true := by
  intro c hc
  rw [bne_iff_ne]
  rintro rfl
  exact h (List.mem_reverse.1 hc)

theorem afterLast_append_sep {d b : Bytes} (h : sep ∉ b) : afterLast sep (d ++ sep :: b) = b := by
  rw [afterLast, List.reverse_append, List.reverse_cons, List.append_assoc,
    List.takeWhile_append_of_pos (bne_of_mem_reverse h)]
  simp

theorem uptoLast_append_sep {d b : Bytes} (h : sep ∉ b) : uptoLast sep (d ++ sep :: b) = d ++ [sep] := by
  rw [uptoLast, List.reverse_append, List.reverse_cons, List.append_assoc,
    List.dropWhile_append_of_pos (bne_of_mem_reverse h)]
  simp

theorem afterLast_of_not_mem {s : Bytes} (h : sep ∉ s) : afterLast sep s = s := by
  rw [afterLast, List.takeWhile_eq_self_iff.2 (bne_of_mem_reverse h), List.reverse_reverse]

theorem uptoLast_of_not_mem {s : Bytes} (h : sep ∉ s) : uptoLast sep s = [] := by
  rw [uptoLast, List.dropWhile_eq_nil_iff.2 (bne_of_mem_reverse h), List.reverse_nil]

/-- What follows the last separator is the last piece. -/
theorem afterLast_eq (s : Bytes) : afterLast sep s = (split sep s).getLast (split_ne_nil s) := by
  by_cases h : sep ∈ s
  · obtain ⟨d, b, rfl, hb⟩ := exists_last_sep h
    simp [split_append_sep, split_of_not_mem hb, afterLast_append_sep hb]
  · simp only [split_of_not_mem h, afterLast_of_not_mem h, List.getLast_singleton]

/-- The pieces before the last one that are not empty. -/
theorem filter_split_uptoLast (s : Bytes) :
    (split sep (uptoLast sep s)).filter (fun p => !p.isEmpty)
      = (split sep s).dropLast.filter fun p => !p.isEmpty := by
  by_cases h : sep ∈ s
  · obtain ⟨d, b, rfl, hb⟩ := exists_last_sep h
    rw [uptoLast_append_sep hb, split_append_sep, split_append_sep, split_of_not_mem hb,
      List.dropLast_concat, List.filter_append]
    simp [split]
  · rw [uptoLast_of_not_mem h, split_of_not_mem h]
    rfl

/-! ## Texts around another text -/

/-- A text is cut at the first place where another stands. The other cannot begin earlier and
reach into this place when its first octet comes in it once only. -/
theorem cutOn_append {rest : Bytes} (honce : sep ∉ rest) : ∀ {s : Bytes}, ¬(sep :: rest) <:+: s → ∀ t : Bytes,
    cutOn (s ++ (sep :: rest) ++ t) (sep :: rest) = some (s, t)
  | [], _, t => by
    rw [List.nil_append, List.cons_append, cutOn, if_pos (by simp)]
    simp
  | c :: s, h, t => by
    have hnot : ¬(sep :: rest) <+: c :: (s ++ (sep :: rest) ++ t) := by
      rw [List.cons_prefix_cons]
      rintro ⟨rfl, hrest⟩
      rcases Nat.lt_or_ge s.length rest.length with hlen | hlen
      · have hbefore : s ++ [sep] <+: s ++ (sep :: rest) ++ t := by simp
        have hmem := List.prefix_of_prefix_length_le hbefore hrest (by simpa using Nat.succ_le_of_lt hlen)
        exact honce (hmem.subset (by simp))
      · have hbefore : s <+: s ++ (sep :: rest) ++ t := by simp
        have hwithin := List.prefix_of_prefix_length_le hrest hbefore hlen
        exact h (List.cons_prefix_cons.2 ⟨rfl, hwithin⟩).isInfix
    have hs : ¬(sep :: rest) <:+: s := fun hs => h (hs.trans (List.suffix_cons c s).isInfix)
    rw [List.cons_append, List.cons_append, cutOn, if_neg (by simpa [List.isPrefixOf_iff_prefix] using hnot),
      cutOn_append honce hs t]
    rfl

theorem dropStart_append (head s : Bytes) : dropStart (head ++ s) head = s := by
  rw [dropStart, if_pos (by simp), List.drop_left]

/-! ## Pieces in UTF-8 -/

theorem text_of_mem_split (hsep : sep < 0x80) {s : Bytes} (h : Utf8.Text s) :
    ∀ p ∈ split sep s, Utf8.Text p := by
  induction hn : s.length using Nat.strongRecOn generalizing s with
  | _ n ih =>
    by_cases hs : sep ∈ s
    · obtain ⟨a, t, rfl, ha⟩ := List.eq_append_cons_of_mem hs
      obtain ⟨hta, htt⟩ := h.cut hsep rfl
      rw [split_append_sep, split_of_not_mem ha]
      refine List.forall_mem_cons.2 ⟨hta, ih t.length ?_ htt rfl⟩
      rw [← hn, List.length_append, List.length_cons]
      omega
    · rw [split_of_not_mem hs]
      simpa using h

end Bindery.Bytes
