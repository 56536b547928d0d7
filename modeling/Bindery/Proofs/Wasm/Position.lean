/-
Where a cursor stands. A cursor in `data` has so many octets behind it and those of `data` from there on
ahead (`Cursor.Inside`). Reading steps only ever move it forward, by no more octets than there are
ahead (`Ahead`), whether they go well or not; steps that follow one another add up what they take
(`Within.bind`), so the reading of numbers and names is bounded as it is put together.

What a single operation does is its `Law`. Operations of a fixed length take all of it or nothing
(`AllOrNothing`); a number that is cut off or goes on too long is left in the middle, and so is a name
whose length is, or whose octets are not there. From one operation to the next the cursor stays inside
its data, whatever came before (`cursor_stays_inside`).
-/
import Bindery.Bytes.Endian
import Bindery.Wasm.Cursor

namespace Bindery.Wasm

open Utf8 (valid)

variable {α β : Type} {data : Bytes} {c c' : Cursor}

/-! ## Places in the octets -/

namespace Cursor

/-- The cursor at a position of `data`. -/
def seek (data : Bytes) (p : Nat) : Cursor := ⟨p, data.drop p⟩

theorem seek_append (s t : Bytes) : seek (s ++ t) s.length = ⟨s.length, t⟩ := by
  rw [seek, List.drop_left]

/-- The cursor stands in `data`, at its end at the furthest. -/
structure Inside (data : Bytes) (c : Cursor) : Prop where
  position_le : c.position ≤ data.length
  eq_seek : c = seek data c.position

theorem inside_ofBytes (data : Bytes) : Inside data (ofBytes data) := ⟨Nat.zero_le _, rfl⟩

theorem Inside.rest (h : Inside data c) : c.rest = data.drop c.position := congrArg Cursor.rest h.eq_seek

theorem Inside.remaining (h : Inside data c) : c.remaining = data.length - c.position := by
  rw [Cursor.remaining, h.rest, List.length_drop]

/-- The second cursor is the first one moved over `n` octets that are there. -/
structure Ahead (n : Nat) (c c' : Cursor) : Prop where
  enough : n ≤ c.remaining
  moved : c' = ⟨c.position + n, c.rest.drop n⟩

theorem Ahead.refl (c : Cursor) : Ahead 0 c c := ⟨Nat.zero_le _, rfl⟩

theorem Ahead.trans {n m : Nat} {c₁ : Cursor} (h : Ahead n c c₁) (h' : Ahead m c₁ c') : Ahead (n + m) c c' := by
  obtain ⟨henough, rfl⟩ := h
  obtain ⟨henough', rfl⟩ := h'
  simp only [remaining, List.length_drop] at henough henough' ⊢
  refine ⟨?_, ?_⟩
  · show n + m ≤ c.rest.length
    omega
  · rw [List.drop_drop, Nat.add_assoc]

theorem Ahead.position {n : Nat} (h : Ahead n c c') : c'.position = c.position + n := congrArg Cursor.position h.moved

/-- Moving on does not leave the data. -/
theorem Inside.ahead {n : Nat} (h : Inside data c) (hmove : Ahead n c c') : Inside data c' := by
  have henough := hmove.enough
  have hle := h.position_le
  rw [h.remaining] at henough
  refine ⟨?_, ?_⟩
  · rw [hmove.position]
    omega
  · rw [hmove.moved, h.rest, List.drop_drop, seek]

end Cursor

open Cursor (seek Inside Ahead)

/-! ## What steps take -/

namespace Read

/-- The cursor that a step leaves, whether it goes well or not. -/
def left (step : Read α) (c : Cursor) : Cursor :=
  match step c with
  | .ok _ c' | .error _ c' => c'

theorem left_of_ok {step : Read α} {a : α} (h : step c = .ok a c') : left step c = c' := by rw [left, h]

theorem left_of_error {step : Read α} {f : Fault} (h : step c = .error f c') : left step c = c' := by rw [left, h]

theorem bind_of_ok {x : Read α} {a : α} (h : x c = .ok a c') (f : α → Read β) : (x >>= f) c = f a c' := by
  show EStateM.bind x f c = _
  rw [EStateM.bind, h]

theorem bind_of_error {x : Read α} {e : Fault} (h : x c = .error e c') (f : α → Read β) :
    (x >>= f) c = .error e c' := by
  show EStateM.bind x f c = _
  rw [EStateM.bind, h]

/-- Whatever comes of it, the step moves over at most `k` octets, all of which are there. -/
def Within (k : Nat) (step : Read α) : Prop := ∀ c, ∃ n ≤ k, Ahead n c (left step c)

namespace Within

theorem still {step : Read α} (h : ∀ c, left step c = c) : Within 0 step := fun c =>
  ⟨0, Nat.le_refl 0, (h c).symm ▸ .refl c⟩

theorem pure (a : α) : Within 0 (Pure.pure a) := still fun _ => rfl

/-- The second step is only taken when the first one goes well, and starts where that ends. -/
theorem bind {j k : Nat} {x : Read α} {f : α → Read β} (hx : Within j x) (hf : ∀ a, Within k (f a)) :
    Within (j + k) (x >>= f) := by
  intro c
  obtain ⟨n, hn, hmove⟩ := hx c
  cases hrun : x c with
  | error e c₁ =>
    rw [left_of_error hrun] at hmove
    rw [left_of_error (bind_of_error hrun f)]
    exact ⟨n, by omega, hmove⟩
  | ok a c₁ =>
    obtain ⟨m, hm, hmove'⟩ := hf a c₁
    rw [left_of_ok hrun] at hmove
    have hleft : left (x >>= f) c = left (f a) c₁ := by rw [left, bind_of_ok hrun, left]
    rw [hleft]
    exact ⟨n + m, by omega, hmove.trans hmove'⟩

theorem map {k : Nat} {x : Read α} (hx : Within k x) (f : α → β) : Within k (do return f (← x)) :=
  hx.bind fun a => .pure (f a)

end Within

theorem within_byte : Within 1 byte := by
  rintro ⟨p, _ | ⟨b, s⟩⟩
  · exact ⟨0, Nat.zero_le 1, .refl _⟩
  · exact ⟨1, Nat.le_refl 1, Nat.succ_pos _, rfl⟩

theorem take_run (n : Int) (c : Cursor) : take n c = if 0 ≤ n ∧ n.toNat ≤ c.remaining
    then .ok (c.rest.take n.toNat) ⟨c.position + n.toNat, c.rest.drop n.toNat⟩ else .error .shortInput c := by
  rw [take, Cursor.remaining]
  grind

/-- Moving past octets is taking them and forgetting them. -/
theorem skip_eq (n : Int) : skip n = do return (fun _ => ()) (← take n) := by
  funext c
  show _ = EStateM.bind (take n) _ c
  rw [skip, EStateM.bind, take]
  split <;> rfl

theorem within_take (n : Int) : Within n.toNat (take n) := by
  intro c
  by_cases h : 0 ≤ n ∧ n.toNat ≤ c.remaining
  · exact ⟨n.toNat, Nat.le_refl _, h.2, left_of_ok (by rw [take_run, if_pos h])⟩
  · rw [left_of_error (by rw [take_run, if_neg h])]
    exact ⟨0, Nat.zero_le _, .refl c⟩

theorem within_skip (n : Int) : Within n.toNat (skip n) := skip_eq n ▸ (within_take n).map _

/-- A number takes no more octets than it may have groups, even when it breaks off or goes on. -/
theorem within_groups : ∀ k : Nat, Within k (groups k)
  | 0 => .still fun _ => rfl
  | k + 1 => by
    rw [groups, Nat.add_comm]
    refine within_byte.bind fun b => ?_
    split
    · exact fun c => ⟨0, Nat.zero_le k, .refl c⟩
    · exact (within_groups k).map fun n => (b.toNat - 128) + 128 * n

theorem within_u32 : Within 5 u32 := (within_groups 5).map UInt32.ofNat

theorem within_u64 : Within 10 u64 := (within_groups 10).map UInt64.ofNat

theorem within_word : Within 4 word := (within_take 4).map fun s => UInt32.ofNat (Endian.ofLittle s)

theorem within_name : Within (5 + UInt32.size) name := by
  have hcheck (s : Bytes) : Within 0 (if valid s then return s else do throw (.badName (← position)) : Read Bytes) :=
    .still fun c => by split <;> rfl
  refine within_u32.bind fun n c => ?_
  obtain ⟨m, hm, hmove⟩ := (within_take n.toNat).bind hcheck c
  rw [Int.toNat_natCast] at hm
  have hn := n.toNat_lt_size
  exact ⟨m, by omega, hmove⟩

/-- What becomes of a name is decided behind its length. -/
theorem name_run {n : UInt32} {c₁ : Cursor} (h : u32 c = .ok n c₁) :
    name c = if n.toNat ≤ c₁.remaining then
        (if valid (c₁.rest.take n.toNat)
          then .ok (c₁.rest.take n.toNat) ⟨c₁.position + n.toNat, c₁.rest.drop n.toNat⟩
          else .error (.badName (c₁.position + n.toNat)) ⟨c₁.position + n.toNat, c₁.rest.drop n.toNat⟩)
      else .error .shortInput c₁ := by
  have htake := take_run n.toNat c₁
  rw [Int.toNat_natCast] at htake
  rw [name, bind_of_ok h]
  by_cases henough : n.toNat ≤ c₁.remaining
  · rw [if_pos ⟨Int.natCast_nonneg _, henough⟩] at htake
    rw [if_pos henough, bind_of_ok htake]
    split <;> rfl
  · rw [if_neg fun hin => henough hin.2] at htake
    rw [if_neg henough, bind_of_error htake]

end Read

/-! ## Operations -/

namespace Cursor

/-- What a cursor can be asked for. -/
inductive Operation where
  | byte
  | take (n : Int)
  | skip (n : Int)
  | u32
  | u64
  | name
  | word
  deriving DecidableEq, Repr

/-- The cursor behind an operation. -/
def Operation.next : Operation → Cursor → Cursor
  | .byte => Read.left Read.byte
  | .take n => Read.left (Read.take n)
  | .skip n => Read.left (Read.skip n)
  | .u32 => Read.left Read.u32
  | .u64 => Read.left Read.u64
  | .name => Read.left Read.name
  | .word => Read.left Read.word

/-- The cursor in `data` behind a sequence of operations, some of which may have failed. -/
def after (data : Bytes) (ops : List Operation) : Cursor := ops.foldl (fun c op => op.next c) (ofBytes data)

/-- **An operation only moves the cursor forward,** over octets that are there. -/
theorem Operation.ahead (op : Operation) (c : Cursor) : ∃ n, Ahead n c (op.next c) := by
  have hmove {α : Type} {k : Nat} {step : Read α} (h : Read.Within k step) : ∃ n, Ahead n c (Read.left step c) := by
    obtain ⟨n, -, hmove⟩ := h c
    exact ⟨n, hmove⟩
  cases op with
  | byte => exact hmove Read.within_byte
  | take n => exact hmove (Read.within_take n)
  | skip n => exact hmove (Read.within_skip n)
  | u32 => exact hmove Read.within_u32
  | u64 => exact hmove Read.within_u64
  | name => exact hmove Read.within_name
  | word => exact hmove Read.within_word

/-- **However a cursor was moved, it stands in its data.** -/
theorem inside_after (data : Bytes) (ops : List Operation) : Inside data (after data ops) := by
  have hfrom : ∀ c, Inside data c → Inside data (ops.foldl (fun c op => op.next c) c) := by
    induction ops with
    | nil => exact fun c h => h
    | cons op ops ih =>
      intro c h
      obtain ⟨n, hmove⟩ := op.ahead c
      exact ih _ (h.ahead hmove)
  exact hfrom _ (inside_ofBytes data)

end Cursor

open Cursor (Operation)

/-! ## What each of them does -/

/-- **All or nothing.** When `n` octets are there, the step goes behind them and gives what `value` makes of
them; otherwise it fails and stays where it is. -/
def AllOrNothing (data : Bytes) (c : Cursor) (step : Read α) (n : Int) (value : Bytes → α) : Prop :=
  if 0 ≤ n ∧ c.position + n ≤ data.length then
    step c = .ok (value ((data.drop c.position).take n.toNat)) (seek data (c.position + n.toNat))
  else ∃ f, step c = .error f c

/-- A length is read at `c`, and behind it, at `c₁`, that many octets `s` are there. -/
structure Announced (data : Bytes) (c c₁ : Cursor) (s : Bytes) : Prop where
  length : ∃ n, Read.u32 c = .ok n c₁ ∧ n.toNat = s.length
  there : s <+: data.drop c₁.position

/-- What an operation does at a cursor in `data`. A name that fails is left behind its length, or where
reading that broke off; only when its octets are there and are not UTF-8, it is left behind these. -/
def Cursor.Operation.Law (data : Bytes) (c : Cursor) : Operation → Prop
  | .byte => AllOrNothing data c Read.byte 1 (·.headD 0)
  | .take n => AllOrNothing data c (Read.take n) n id
  | .skip n => AllOrNothing data c (Read.skip n) n fun _ => ()
  | .word => AllOrNothing data c Read.word 4 fun s => UInt32.ofNat (Endian.ofLittle s)
  | .u32 => (Read.left Read.u32 c).position ≤ c.position + 5
  | .u64 => (Read.left Read.u64 c).position ≤ c.position + 10
  | .name =>
    let c₁ := Read.left Read.u32 c
    c₁.position ≤ c.position + 5 ∧
      match Read.name c with
      | .ok s c' => Announced data c c₁ s ∧ valid s = true ∧ c'.position = c₁.position + s.length
      | .error _ c' => c' = c₁ ∨
        ∃ s, Announced data c c₁ s ∧ valid s = false ∧ c'.position = c₁.position + s.length

/-- What is asked for is there when the octets ahead are enough. -/
theorem allOrNothing {step : Read α} {n : Int} {value : Bytes → α} (h : Inside data c)
    (hstep : if 0 ≤ n ∧ n.toNat ≤ c.remaining
      then step c = .ok (value (c.rest.take n.toNat)) ⟨c.position + n.toNat, c.rest.drop n.toNat⟩
      else ∃ f, step c = .error f c) : AllOrNothing data c step n value := by
  have hle := h.position_le
  have henough : (0 ≤ n ∧ n.toNat ≤ c.remaining) ↔ 0 ≤ n ∧ c.position + n ≤ data.length := by
    rw [h.remaining]
    omega
  rw [AllOrNothing]
  simp only [henough, h.rest, List.drop_drop] at hstep
  exact hstep

theorem allOrNothing_byte (h : Inside data c) : AllOrNothing data c Read.byte 1 (·.headD 0) := by
  refine allOrNothing h ?_
  obtain ⟨p, _ | ⟨b, s⟩⟩ := c
  · exact ⟨.endOfInput, rfl⟩
  · rw [if_pos ⟨by decide, Nat.succ_pos _⟩]
    rfl

theorem allOrNothing_take (h : Inside data c) (n : Int) : AllOrNothing data c (Read.take n) n id := by
  refine allOrNothing h ?_
  rw [Read.take_run]
  split
  · rfl
  · exact ⟨_, rfl⟩

theorem AllOrNothing.map {step : Read α} {n : Int} {value : Bytes → α} (h : AllOrNothing data c step n value)
    (f : α → β) : AllOrNothing data c (do return f (← step)) n fun s => f (value s) := by
  rw [AllOrNothing] at h ⊢
  by_cases henough : 0 ≤ n ∧ c.position + n ≤ data.length
  · rw [if_pos henough] at h ⊢
    exact Read.bind_of_ok h _
  · rw [if_neg henough] at h ⊢
    obtain ⟨e, he⟩ := h
    exact ⟨e, Read.bind_of_error he _⟩

theorem position_left_le {k : Nat} {step : Read α} (h : Read.Within k step) (c : Cursor) :
    (Read.left step c).position ≤ c.position + k := by
  obtain ⟨n, hn, hmove⟩ := h c
  rw [hmove.position]
  exact Nat.add_le_add_left hn _

theorem law_name (h : Inside data c) : Operation.Law data c .name := by
  refine ⟨position_left_le Read.within_u32 c, ?_⟩
  cases hlength : Read.u32 c with
  | error e c₁ =>
    have hfail : Read.name c = .error e c₁ := Read.bind_of_error hlength _
    rw [hfail]
    exact .inl (Read.left_of_error hlength).symm
  | ok n c₁ =>
    have hleft := Read.left_of_ok hlength
    obtain ⟨m, -, hmove⟩ := Read.within_u32 c
    rw [hleft] at hmove
    have hinside := h.ahead hmove
    rw [hleft, Read.name_run hlength]
    by_cases henough : n.toNat ≤ c₁.remaining
    · have hlen : (c₁.rest.take n.toNat).length = n.toNat := List.length_take_of_le henough
      have hthere : Announced data c c₁ (c₁.rest.take n.toNat) :=
        ⟨⟨n, hlength, hlen.symm⟩, hinside.rest ▸ List.take_prefix _ _⟩
      rw [if_pos henough]
      by_cases hvalid : valid (c₁.rest.take n.toNat) = true
      · rw [if_pos hvalid]
        exact ⟨hthere, hvalid, by rw [hlen]⟩
      · rw [if_neg hvalid]
        exact .inr ⟨_, hthere, Bool.eq_false_iff.2 hvalid, by rw [hlen]⟩
    · rw [if_neg henough]
      exact .inl rfl

/-- **Every operation keeps to its law** wherever it is called. -/
theorem Cursor.Operation.law (h : Inside data c) (op : Operation) : op.Law data c := by
  cases op with
  | byte => exact allOrNothing_byte h
  | take n => exact allOrNothing_take h n
  | skip n =>
    rw [Law, Read.skip_eq]
    exact (allOrNothing_take h n).map _
  | u32 => exact position_left_le Read.within_u32 c
  | u64 => exact position_left_le Read.within_u64 c
  | name => exact law_name h
  | word => exact (allOrNothing_take h 4).map _

/-- **The cursor is always valid.** Whatever operations were called before, and however they ended, the
cursor behind the next one stands in the data, with as many octets ahead as there are from its position
to the end. It is not in front of where it was, and it is where the law of the operation says. -/
theorem cursor_stays_inside (data : Bytes) (before : List Operation) (op : Operation) :
    let c := Cursor.after data before
    let c' := op.next c
    Inside data c' ∧ c'.remaining = data.length - c'.position ∧ c.position ≤ c'.position ∧ op.Law data c := by
  intro c c'
  have hinside : Inside data c := Cursor.inside_after data before
  obtain ⟨n, hmove⟩ := op.ahead c
  have hnext : Inside data c' := hinside.ahead hmove
  refine ⟨hnext, hnext.remaining, ?_, op.law hinside⟩
  rw [hmove.position]
  exact Nat.le_add_right _ _

/-- A block that is not there leaves the cursor where it is, a name that is not UTF-8 behind its octets. -/
example : (Cursor.after [0x02, 0xFF, 0xFE, 0x07] [.take 5]).position = 0 ∧
    (Cursor.after [0x02, 0xFF, 0xFE, 0x07] [.take 5, .name]).position = 3 ∧
    (Cursor.after [0x02, 0xFF, 0xFE, 0x07] [.take 5, .name, .byte]).position = 4 := by decide

end Bindery.Wasm
