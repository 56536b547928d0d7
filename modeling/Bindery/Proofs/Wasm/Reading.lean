/-
Reading undoes writing, wherever it stands. `Reads step s a` says that a step takes exactly
the octets `s` off the front of whatever follows, and gives `a`. Steps that do so follow
one another (`Reads.bind`), so a reader of written parts is put together as the parts
are, from numbers (`reads_u32`) and names (`reads_name`).
-/
import Bindery.Proofs.Bytes.Octets
import Bindery.Wasm.Module

namespace Bindery.Wasm

open Utf8 (valid)

variable {α β : Type}

/-- From wherever it stands, the step moves over `s`, whatever follows, and gives `a`. -/
def Reads (step : Read α) (s : Bytes) (a : α) : Prop :=
  ∀ (p : Nat) (rest : Bytes), step ⟨p, s ++ rest⟩ = .ok a ⟨p + s.length, rest⟩

namespace Reads

theorem pure (a : α) : Reads (Pure.pure a) [] a := fun _ _ => rfl

/-- What follows a step that goes well starts where the step ends. -/
theorem bind_run {x : Read α} {s : Bytes} {a : α} (hx : Reads x s a) (f : α → Read β) (p : Nat) (rest : Bytes) :
    (x >>= f) ⟨p, s ++ rest⟩ = f a ⟨p + s.length, rest⟩ := by
  show EStateM.bind x f _ = _
  rw [EStateM.bind, hx p rest]

theorem bind {x : Read α} {f : α → Read β} {s t : Bytes} {a : α} {b : β} (hx : Reads x s a)
    (hf : Reads (f a) t b) : Reads (x >>= f) (s ++ t) b := by
  intro p rest
  rw [List.append_assoc, hx.bind_run, hf, List.length_append, Nat.add_assoc]

theorem map {x : Read α} {s : Bytes} {a : α} (hx : Reads x s a) (f : α → β) :
    Reads (do return f (← x)) s (f a) := by
  have h := hx.bind (f := fun a => Pure.pure (f a)) (pure (f a))
  rwa [List.append_nil] at h

/-- Naming the part that is read changes nothing where reading goes well. -/
theorem part {x : Read α} {s : Bytes} {a : α} (hx : Reads x s a) (what : Bytes) : Reads (Read.part what x) s a := by
  intro p rest
  rw [Read.part, hx p rest]

end Reads

/-! ## Octets -/

theorem reads_byte (b : UInt8) : Reads Read.byte [b] b := fun _ _ => rfl

theorem reads_take (s : Bytes) : Reads (Read.take s.length) s s := by
  intro p rest
  simp [Read.take]

theorem reads_skip (s : Bytes) : Reads (Read.skip s.length) s () := by
  intro p rest
  simp [Read.skip]

/-! ## Numbers -/

theorem toNat_group {n : Nat} (h : n < 256) : n.toUInt8.toNat = n := by
  rw [Nat.toUInt8, UInt8.toNat_ofNat', Nat.mod_eq_of_lt h]

/-- A number in at most `k` groups is read back by a reader of at least as many. -/
theorem reads_groups : ∀ {k n v : Nat}, v < 128 ^ k → 0 < k → k ≤ n → Reads (Read.groups n) (Write.groups k v) v
  | k + 1, n + 1, v, hv, _, hkn => by
    rw [Write.groups, Read.groups]
    split
    -- the writer stops at a small number, and its octet is one at which the reader stops
    · rename_i hsmall
      have hbyte : v.toUInt8.toNat = v := toNat_group (by omega)
      have hlast : v.toUInt8 < 128 := by
        rw [UInt8.lt_iff_toNat_lt, hbyte]
        exact hsmall
      have hread := (reads_byte v.toUInt8).map UInt8.toNat
      rw [hbyte] at hread
      intro p rest
      refine Eq.trans ?_ (hread p rest)
      show (if v.toUInt8 < 128 then _ else _ : Read Nat) _ = _
      rw [if_pos hlast]
      rfl
    · rename_i hlarge
      have hbyte : (v % 128 + 128).toUInt8.toNat = v % 128 + 128 := toNat_group (by omega)
      have hmore : ¬(v % 128 + 128).toUInt8 < 128 := by
        rw [UInt8.lt_iff_toNat_lt, hbyte]
        exact Nat.not_lt.2 (Nat.le_add_left 128 (v % 128))
      have hquot : v / 128 < 128 ^ k := by
        rw [Nat.div_lt_iff_lt_mul (by decide)]
        exact hv
      have hk : 0 < k := by
        rcases Nat.eq_zero_or_pos k with rfl | hk
        · omega
        · exact hk
      have hrest := (reads_groups hquot hk (Nat.le_of_succ_le_succ hkn)).map fun w =>
        (v % 128 + 128).toUInt8.toNat - 128 + 128 * w
      have hvalue : (v % 128 + 128).toUInt8.toNat - 128 + 128 * (v / 128) = v := by
        rw [hbyte]
        omega
      rw [hvalue] at hrest
      refine (reads_byte _).bind (t := Write.groups k (v / 128)) ?_
      rw [if_neg hmore]
      exact hrest

theorem length_u32_pos (v : UInt32) : 0 < (Write.u32 v).length := by
  rw [Write.u32, Write.groups]
  split <;> simp

/-- **A number is read back**, and nothing behind it is touched. -/
theorem reads_u32 (v : UInt32) : Reads Read.u32 (Write.u32 v) v := by
  have hv : v.toNat < 128 ^ 5 := Nat.lt_trans v.toNat_lt (by decide)
  have h := (reads_groups hv (by decide) (Nat.le_refl 5)).map UInt32.ofNat
  rwa [UInt32.ofNat_toNat] at h

/-- A count of 32 bits is read back, and what is read goes on from it. -/
theorem Reads.count {f : Nat → Read β} {n : Nat} {s : Bytes} {b : β} (hn : n < 2 ^ 32) (h : Reads (f n) s b) :
    Reads (do f (← Read.u32).toNat) (Write.count n ++ s) b := by
  refine (reads_u32 (UInt32.ofNat n)).bind ?_
  rwa [UInt32.toNat_ofNat_of_lt' hn]

/-! ## Names -/

/-- **A name is read back**, and nothing behind it is touched. -/
theorem reads_name {s : Bytes} (hs : valid s = true) (hlen : s.length < 2 ^ 32) :
    Reads Read.name (Write.sized s) s := by
  refine Reads.count (f := fun n => do
    let data ← Read.take n
    if valid data then return data
    throw (.badName (← Read.position))) hlen ?_
  have h := (reads_take s).bind (f := fun data => (do
    if valid data then return data
    throw (.badName (← Read.position)) : Read Bytes)) (t := []) (b := s) (by
      rw [if_pos hs]
      exact .pure s)
  rwa [List.append_nil] at h

end Bindery.Wasm
