/-
The texts that a reading step accepts, and numbers in groups of seven bits.
`Recognises step L` says that a step reads exactly the texts of a language `L`, each with its
meaning, and leaves what follows alone. Languages are put together as steps are
(`Recognises.bind`).

A number is a chain of octets of which all but the last have their high bit set, and stands for
the sum of its groups (`grouped`). A reader takes at most five or ten groups, but five groups
hold 35 bits and ten hold 70. So a number is read exactly when it fits (`number_exact_iff`),
and the only overflow that is ever reported is that of a chain that goes on too long
(`groups_eq_overflow_iff`).
-/
import Bindery.Proofs.Wasm.Reading
import Mathlib.Data.Nat.Digits.Lemmas

namespace Bindery.Wasm

variable {α β : Type}

/-! ## Steps and their languages -/

theorem bind_eq_ok {x : Read α} {f : α → Read β} {c c' : Cursor} {b : β} :
    (x >>= f) c = .ok b c' ↔ ∃ a c₁, x c = .ok a c₁ ∧ f a c₁ = .ok b c' := by
  show EStateM.bind x f c = _ ↔ _
  rw [EStateM.bind]
  cases x c <;> simp

/-- The step reads the texts of the language `L` with their meanings, and nothing else. -/
structure Recognises (step : Read α) (L : Bytes → α → Prop) : Prop where
  reads : ∀ {s a}, L s a → Reads step s a
  texts : ∀ {c a c'}, step c = .ok a c' →
    ∃ s p rest, L s a ∧ c = ⟨p, s ++ rest⟩ ∧ c' = ⟨p + s.length, rest⟩

namespace Recognises

variable {L : Bytes → α → Prop} {M : α → Bytes → β → Prop}

theorem congr {x : Read α} {L' : Bytes → α → Prop} (h : Recognises x L) (hL : ∀ s a, L s a ↔ L' s a) :
    Recognises x L' where
  reads hs := h.reads ((hL _ _).2 hs)
  texts hc := by
    obtain ⟨s, p, rest, hs, hcursor⟩ := h.texts hc
    exact ⟨s, p, rest, (hL _ _).1 hs, hcursor⟩

theorem pure (a : α) : Recognises (Pure.pure a) fun s b => s = [] ∧ b = a where
  reads := by
    rintro s b ⟨rfl, rfl⟩
    exact .pure b
  texts := by
    intro c b c' h
    injection h with hb hc
    exact ⟨[], c.position, c.rest, ⟨rfl, hb.symm⟩, rfl, hc.symm⟩

/-- One step after another reads a text of the first and then one of the second. -/
theorem bind {x : Read α} {f : α → Read β} (hx : Recognises x L) (hf : ∀ a, Recognises (f a) (M a)) :
    Recognises (x >>= f) fun u b => ∃ s t a, u = s ++ t ∧ L s a ∧ M a t b where
  reads := by
    rintro _ b ⟨s, t, a, rfl, hs, ht⟩
    exact (hx.reads hs).bind ((hf a).reads ht)
  texts := by
    intro c b c' h
    obtain ⟨a, c₁, hc₁, hc'⟩ := bind_eq_ok.1 h
    obtain ⟨s, p, rest, hs, rfl, rfl⟩ := hx.texts hc₁
    obtain ⟨t, p', rest', ht, hcursor, rfl⟩ := (hf a).texts hc'
    obtain ⟨rfl, rfl⟩ := Cursor.mk.inj hcursor
    refine ⟨s ++ t, p, rest', ⟨s, t, a, rfl, hs, ht⟩, by rw [List.append_assoc], ?_⟩
    rw [List.length_append, Nat.add_assoc]

theorem map {x : Read α} (hx : Recognises x L) (f : α → β) :
    Recognises (do return f (← x)) fun s b => ∃ a, L s a ∧ b = f a := by
  refine (hx.bind fun a => .pure (f a)).congr fun s b => ?_
  constructor
  · rintro ⟨s, t, a, rfl, hs, rfl, rfl⟩
    exact ⟨a, by rwa [List.append_nil], rfl⟩
  · rintro ⟨a, hs, rfl⟩
    exact ⟨s, [], a, by rw [List.append_nil], hs, rfl, rfl⟩

/-- A step that accepts is one that read some text and stopped behind it. -/
theorem eq_ok_iff {x : Read α} (h : Recognises x L) {p : Nat} {data : Bytes} {a : α} {c : Cursor} :
    x ⟨p, data⟩ = .ok a c ↔ ∃ s, L s a ∧ data = s ++ c.rest ∧ c.position = p + s.length := by
  constructor
  · intro hc
    obtain ⟨s, p', rest, hs, hcursor, rfl⟩ := h.texts hc
    obtain ⟨rfl, rfl⟩ := Cursor.mk.inj hcursor
    exact ⟨s, hs, rfl, rfl⟩
  · rintro ⟨s, hs, rfl, hp⟩
    rw [h.reads hs p c.rest, ← hp]

end Recognises

theorem recognises_byte : Recognises Read.byte fun s b => s = [b] where
  reads := by
    rintro _ b rfl
    exact reads_byte b
  texts := by
    rintro ⟨p, _ | ⟨b, rest⟩⟩ b' c' h
    · cases h
    · injection h with hb hc
      exact ⟨[b'], p, rest, rfl, by rw [← hb]; rfl, hc.symm⟩

theorem recognises_take (n : Nat) : Recognises (Read.take n) fun s a => s = a ∧ a.length = n where
  reads := by
    rintro s _ ⟨rfl, rfl⟩
    exact reads_take s
  texts := by
    rintro ⟨p, data⟩ a c' h
    rw [Read.take] at h
    split at h
    · cases h
    · rename_i henough
      have hle : n ≤ data.length := by simpa using henough
      injection h with ha hc
      rw [Int.toNat_natCast] at ha hc
      subst ha hc
      have hlen : (data.take n).length = n := by rw [List.length_take, Nat.min_eq_left hle]
      exact ⟨data.take n, p, data.drop n, ⟨rfl, hlen⟩, by rw [List.take_append_drop], by rw [hlen]⟩

/-! ## Numbers -/

/-- The number that octets stand for in groups of seven bits, the least significant first. -/
def grouped (s : Bytes) : Nat := (s.mapIdx fun i b => b.toNat % 128 * 2 ^ (7 * i)).sum

/-- The groups are the digits of the number in base 128. -/
theorem grouped_eq_ofDigits (s : Bytes) : grouped s = Nat.ofDigits 128 (s.map fun b => b.toNat % 128) := by
  have hbase (i : Nat) : 2 ^ (7 * i) = 128 ^ i := Nat.pow_mul 2 7 i
  rw [grouped, Nat.ofDigits_eq_sum_mapIdx, List.mapIdx_eq_zipIdx_map, List.mapIdx_eq_zipIdx_map, List.zipIdx_map,
    List.map_map]
  simp only [hbase]
  rfl

theorem grouped_nil : grouped [] = 0 := rfl

theorem grouped_cons (b : UInt8) (s : Bytes) : grouped (b :: s) = b.toNat % 128 + 128 * grouped s := by
  rw [grouped_eq_ofDigits, grouped_eq_ofDigits, List.map_cons, Nat.ofDigits_cons]

theorem grouped_concat (s : Bytes) (b : UInt8) :
    grouped (s ++ [b]) = grouped s + 128 ^ s.length * (b.toNat % 128) := by
  rw [grouped_eq_ofDigits, grouped_eq_ofDigits, List.map_append, Nat.ofDigits_append, List.length_map,
    List.map_singleton, Nat.ofDigits_singleton]

theorem grouped_lt (s : Bytes) : grouped s < 128 ^ s.length := by
  have hdigits : ∀ d ∈ s.map (fun b => b.toNat % 128), d < 128 :=
    List.forall_mem_map.2 fun b _ => Nat.mod_lt _ (by decide)
  have hlt := Nat.ofDigits_lt_base_pow_length (by decide) hdigits
  rwa [← grouped_eq_ofDigits, List.length_map] at hlt

/-- The octets of one number: the high bit marks all of them but the last. -/
inductive Chain : Bytes → Prop
  | last {b : UInt8} (h : b < 128) : Chain [b]
  | more {b : UInt8} {s : Bytes} (h : ¬b < 128) (hs : Chain s) : Chain (b :: s)

theorem Chain.concat {s : Bytes} (h : Chain s) : ∃ init b, s = init ++ [b] ∧ b < 128 := by
  induction h with
  | last hb => exact ⟨[], _, rfl, hb⟩
  | @more b s _ _ ih =>
    obtain ⟨init, last, rfl, hlast⟩ := ih
    exact ⟨b :: init, last, rfl, hlast⟩

/-- A number of at most `k + 1` groups takes up `7 * k + j` bits exactly when its last possible
group, if it is there at all, takes up `j` of them. -/
theorem Chain.fits_iff {k j : Nat} {s : Bytes} (h : Chain s) (hlen : s.length ≤ k + 1) :
    grouped s < 2 ^ (7 * k + j) ↔ ∀ b ∈ s[k]?, b.toNat < 2 ^ j := by
  obtain ⟨init, b, rfl, hb⟩ := h.concat
  have hbits : 2 ^ (7 * k + j) = 128 ^ k * 2 ^ j := by rw [Nat.pow_add, Nat.pow_mul]
  rw [List.length_append, List.length_singleton] at hlen
  rcases Nat.lt_or_eq_of_le (Nat.le_of_succ_le_succ hlen) with hshort | hfull
  · have hnone : (init ++ [b])[k]? = none := by
      rw [List.getElem?_eq_none_iff, List.length_append, List.length_singleton]
      exact hshort
    have hsmall : grouped (init ++ [b]) < 2 ^ (7 * k + j) := by
      calc grouped (init ++ [b]) < 128 ^ (init ++ [b]).length := grouped_lt _
        _ ≤ 128 ^ k := Nat.pow_le_pow_right (by decide) (by simpa using hshort)
        _ ≤ 2 ^ (7 * k + j) := hbits ▸ Nat.le_mul_of_pos_right _ (Nat.two_pow_pos j)
    rw [hnone]
    exact iff_of_true hsmall (by simp)
  · have hlast : (init ++ [b])[k]? = some b := by rw [← hfull, List.getElem?_concat_length]
    have hgroup : b.toNat % 128 = b.toNat := Nat.mod_eq_of_lt (UInt8.lt_iff_toNat_lt.1 hb)
    have hlow := grouped_lt init
    rw [hlast, grouped_concat, hbits, hfull, hgroup]
    rw [hfull] at hlow
    constructor
    · intro hlt b' hb'
      obtain rfl := Option.some.inj hb'
      exact Nat.lt_of_mul_lt_mul_left (Nat.lt_of_le_of_lt (Nat.le_add_left _ _) hlt)
    · intro hlt
      calc grouped init + 128 ^ k * b.toNat < 128 ^ k + 128 ^ k * b.toNat := Nat.add_lt_add_right hlow _
        _ = 128 ^ k * (b.toNat + 1) := by rw [Nat.mul_succ, Nat.add_comm]
        _ ≤ 128 ^ k * 2 ^ j := Nat.mul_le_mul_left _ (hlt b rfl)

/-- The octets `s` stand for the number `n`, in at most `k` groups. -/
structure Stands (k : Nat) (s : Bytes) (n : Nat) : Prop where
  chain : Chain s
  length : s.length ≤ k
  value : n = grouped s

/-- An octet without the mark is its own group, and one with the mark is 128 more. -/
theorem toNat_mod_group (b : UInt8) : b.toNat % 128 = if b < 128 then b.toNat else b.toNat - 128 := by
  have hb := b.toNat_lt
  split
  · rename_i h
    exact Nat.mod_eq_of_lt (UInt8.lt_iff_toNat_lt.1 h)
  · rename_i h
    have hlarge : ¬b.toNat < 128 := fun hlt => h (UInt8.lt_iff_toNat_lt.2 hlt)
    omega

/-- What the first octet decides. -/
theorem stands_cons {k n : Nat} {b : UInt8} {s : Bytes} :
    Stands (k + 1) (b :: s) n ↔
      if b < 128 then s = [] ∧ n = b.toNat else ∃ m, Stands k s m ∧ n = b.toNat - 128 + 128 * m := by
  have hgroup := toNat_mod_group b
  constructor
  · rintro ⟨hchain, hlen, rfl⟩
    rw [grouped_cons, hgroup]
    cases hchain with
    | last h =>
      rw [if_pos h, if_pos h, grouped_nil]
      exact ⟨rfl, rfl⟩
    | more h hs =>
      rw [if_neg h, if_neg h]
      exact ⟨_, ⟨hs, Nat.le_of_succ_le_succ hlen, rfl⟩, rfl⟩
  · split
    · rename_i h
      rintro ⟨rfl, rfl⟩
      refine ⟨.last h, Nat.succ_le_succ (Nat.zero_le k), ?_⟩
      rw [grouped_cons, hgroup, if_pos h, grouped_nil, Nat.mul_zero, Nat.add_zero]
    · rename_i h
      rintro ⟨m, ⟨hs, hlen, rfl⟩, rfl⟩
      refine ⟨.more h hs, Nat.succ_le_succ hlen, ?_⟩
      rw [grouped_cons, hgroup, if_neg h]

/-- Reading at most `k` groups reads exactly the numbers of at most `k` groups. -/
theorem recognises_groups : ∀ k : Nat, Recognises (Read.groups k) (Stands k)
  | 0 => by
    refine ⟨fun {s n} h => ?_, fun {c a c'} h => by cases h⟩
    obtain rfl := List.length_eq_zero_iff.1 (Nat.le_zero.1 h.length)
    cases h.chain
  | k + 1 => by
    have ih := recognises_groups k
    have hstep (b : UInt8) : Recognises
        (if b < 128 then Pure.pure b.toNat else do return (b.toNat - 128) + 128 * (← Read.groups k) : Read Nat)
        fun s n => if b < 128 then s = [] ∧ n = b.toNat else ∃ m, Stands k s m ∧ n = b.toNat - 128 + 128 * m := by
      split
      · exact .pure b.toNat
      · exact ih.map fun m => b.toNat - 128 + 128 * m
    rw [Read.groups]
    refine (recognises_byte.bind hstep).congr fun u n => ?_
    constructor
    · rintro ⟨_, t, b, rfl, rfl, h⟩
      exact stands_cons.2 h
    · intro h
      cases u with
      | nil => cases h.chain
      | cons b t => exact ⟨[b], t, b, rfl, rfl, stands_cons.1 h⟩

/-- The first `k` octets are there, and all of them say that the number goes on. -/
def GoesOn (k : Nat) (data : Bytes) : Prop := k ≤ data.length ∧ ∀ b ∈ data.take k, ¬b < 128

/-- Only a number that goes on behind its last group is reported as an overflow. -/
theorem groups_eq_overflow_iff : ∀ {k p : Nat} {data : Bytes},
    (∃ q c, Read.groups k ⟨p, data⟩ = .error (.overflow q) c) ↔ GoesOn k data
  | 0, p, data => ⟨fun _ => ⟨Nat.zero_le _, by simp⟩, fun _ => ⟨p, ⟨p, data⟩, rfl⟩⟩
  | k + 1, p, [] => by
    refine iff_of_false ?_ fun h => Nat.not_succ_le_zero k h.1
    rintro ⟨q, c, h⟩
    cases h
  | k + 1, p, b :: data => by
    have ih := @groups_eq_overflow_iff k (p + 1) data
    have hgoes : GoesOn (k + 1) (b :: data) ↔ ¬b < 128 ∧ GoesOn k data := by
      simp only [GoesOn, List.length_cons, Nat.succ_le_succ_iff, List.take_succ_cons, List.forall_mem_cons]
      exact and_left_comm
    have hrun : Read.groups (k + 1) ⟨p, b :: data⟩
        = (if b < 128 then Pure.pure b.toNat else do return (b.toNat - 128) + 128 * (← Read.groups k) : Read Nat)
            ⟨p + 1, data⟩ := by
      rw [Read.groups]
      rfl
    rw [hgoes, hrun]
    by_cases hb : b < 128
    · rw [if_pos hb]
      refine iff_of_false ?_ fun h => h.1 hb
      rintro ⟨q, c, h⟩
      cases h
    · rw [if_neg hb, ← ih]
      show (∃ q c, EStateM.bind _ _ _ = _) ↔ _
      rw [EStateM.bind]
      cases Read.groups k ⟨p + 1, data⟩ with
      | ok n c =>
        refine iff_of_false ?_ fun h => ?_
        · rintro ⟨q, c', h⟩
          cases h
        · obtain ⟨-, q, c', h⟩ := h
          cases h
      | error f c => exact ⟨fun h => ⟨hb, h⟩, fun h => h.2⟩

/-! ## Numbers of 32 and 64 bits -/

/-- Of the number that is read, the lower `bits` bits are kept. -/
theorem recognises_number {k bits : Nat} {ofNat : Nat → α} {toNat : α → Nat}
    (hmod : ∀ n, toNat (ofNat n) = n % 2 ^ bits) (hinj : ∀ {v w}, toNat v = toNat w → v = w) :
    Recognises (do return ofNat (← Read.groups k))
      fun s v => Chain s ∧ s.length ≤ k ∧ toNat v = grouped s % 2 ^ bits := by
  refine ((recognises_groups k).map ofNat).congr fun s v => ?_
  constructor
  · rintro ⟨_, ⟨hs, hlen, rfl⟩, rfl⟩
    exact ⟨hs, hlen, hmod _⟩
  · rintro ⟨hs, hlen, hv⟩
    exact ⟨_, ⟨hs, hlen, rfl⟩, hinj (hv.trans (hmod _).symm)⟩

theorem recognises_u32 :
    Recognises Read.u32 fun s v => Chain s ∧ s.length ≤ 5 ∧ v.toNat = grouped s % 2 ^ 32 :=
  recognises_number (fun _ => UInt32.toNat_ofNat') UInt32.toNat_inj.1

theorem recognises_u64 :
    Recognises Read.u64 fun s v => Chain s ∧ s.length ≤ 10 ∧ v.toNat = grouped s % 2 ^ 64 :=
  recognises_number (fun _ => UInt64.toNat_ofNat') UInt64.toNat_inj.1

/-- One number `s` of at most `k` groups stands at the front of `data`, and a reader at the
position `p` that has read it is left at `c`. -/
structure Consumed (k p : Nat) (data s : Bytes) (c : Cursor) : Prop where
  text : data = s ++ c.rest
  position : c.position = p + s.length
  chain : Chain s
  length : s.length ≤ k

/-- Of a number of at most `k + 1` groups, `7 * k + j` bits are the whole when the last group has
no more than `j` of them. -/
theorem eq_ok_iff_consumed {k j p : Nat} {data : Bytes} {step : Read α} {toNat : α → Nat} {v : α} {c : Cursor}
    (h : Recognises step fun s v => Chain s ∧ s.length ≤ k + 1 ∧ toNat v = grouped s % 2 ^ (7 * k + j)) :
    step ⟨p, data⟩ = .ok v c ↔
      ∃ s, Consumed (k + 1) p data s c ∧ toNat v = grouped s % 2 ^ (7 * k + j) ∧
        (toNat v = grouped s ↔ ∀ b ∈ s[k]?, b.toNat < 2 ^ j) := by
  rw [h.eq_ok_iff]
  constructor
  · rintro ⟨s, ⟨hs, hlen, hv⟩, htext, hpos⟩
    refine ⟨s, ⟨htext, hpos, hs, hlen⟩, hv, ?_⟩
    rw [hv, Nat.mod_eq_iff_lt (Nat.two_pow_pos _).ne']
    exact hs.fits_iff hlen
  · rintro ⟨s, hs, hv, -⟩
    exact ⟨s, ⟨hs.chain, hs.length, hv⟩, hs.text, hs.position⟩

/-- What becomes of a number does not change when reading it overflows. -/
theorem number_eq_overflow_iff {k p : Nat} {data : Bytes} {ofNat : Nat → α} :
    (∃ q c, (do return ofNat (← Read.groups k) : Read α) ⟨p, data⟩ = .error (.overflow q) c) ↔ GoesOn k data := by
  rw [← @groups_eq_overflow_iff k p data]
  show (∃ q c, EStateM.bind _ _ _ = _) ↔ _
  rw [EStateM.bind]
  cases Read.groups k ⟨p, data⟩ with
  | ok n c =>
    refine iff_of_false ?_ ?_
    · rintro ⟨q, c', h⟩
      cases h
    · rintro ⟨q, c', h⟩
      cases h
  | error f c => simp

/-- **When numbers are exact.** Wherever a reader stands, it accepts exactly the numbers of at most
five (ten) octets, and gives the sum of their groups modulo 2^32 (2^64). This is the sum itself
exactly when a fifth octet is below 16 (a tenth below 2); otherwise the bits above are lost. An
overflow is reported for a number that goes on behind five (ten) octets, and for no other. -/
theorem number_exact_iff (p : Nat) (data : Bytes) :
    (∀ v c, Read.u32 ⟨p, data⟩ = .ok v c ↔
      ∃ s, Consumed 5 p data s c ∧ v.toNat = grouped s % 2 ^ 32 ∧
        (v.toNat = grouped s ↔ ∀ b ∈ s[4]?, b.toNat < 16)) ∧
    ((∃ q c, Read.u32 ⟨p, data⟩ = .error (.overflow q) c) ↔ GoesOn 5 data) ∧
    (∀ v c, Read.u64 ⟨p, data⟩ = .ok v c ↔
      ∃ s, Consumed 10 p data s c ∧ v.toNat = grouped s % 2 ^ 64 ∧
        (v.toNat = grouped s ↔ ∀ b ∈ s[9]?, b.toNat < 2)) ∧
    ((∃ q c, Read.u64 ⟨p, data⟩ = .error (.overflow q) c) ↔ GoesOn 10 data) := by
  refine ⟨fun v c => ?_, number_eq_overflow_iff, fun v c => ?_, number_eq_overflow_iff⟩
  -- 32 bits are four groups and four bits, 64 bits are nine groups and one bit
  · exact eq_ok_iff_consumed (k := 4) (j := 4) recognises_u32
  · exact eq_ok_iff_consumed (k := 9) (j := 1) recognises_u64

/-- Numbers that do not fit are read without complaint: 2^32 as zero, and 2^70 - 1 as 2^64 - 1. -/
theorem high_bits_lost :
    (∃ v s c, Read.u32 ⟨0, [0x80, 0x80, 0x80, 0x80, 0x10]⟩ = .ok v c ∧
      Consumed 5 0 [0x80, 0x80, 0x80, 0x80, 0x10] s c ∧ v.toNat = 0 ∧ grouped s = 2 ^ 32) ∧
    ∃ v s c, Read.u64 ⟨0, List.replicate 9 0xFF ++ [0x7F]⟩ = .ok v c ∧
      Consumed 10 0 (List.replicate 9 0xFF ++ [0x7F]) s c ∧ v.toNat = 2 ^ 64 - 1 ∧ grouped s = 2 ^ 70 - 1 := by
  have hword : Chain [0x80, 0x80, 0x80, 0x80, 0x10] :=
    .more (by decide) (.more (by decide) (.more (by decide) (.more (by decide) (.last (by decide)))))
  have hlong : ∀ n, Chain (List.replicate n 0xFF ++ [0x7F]) := by
    intro n
    induction n with
    | zero => exact .last (by decide)
    | succ n ih => exact .more (by decide) ih
  refine ⟨⟨_, _, _, rfl, ⟨(List.append_nil _).symm, rfl, hword, by decide⟩, rfl, rfl⟩,
    ⟨_, _, _, rfl, ⟨(List.append_nil _).symm, rfl, hlong 9, by decide⟩, rfl, rfl⟩⟩

end Bindery.Wasm
