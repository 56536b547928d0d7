/-
What the sections of a module are made of is read back by the strict grammar: indices
(`reads_index`), vectors of anything that can be read back (`reads_vector`), signatures,
imports, exports, limits, and the bodies of functions, whose code is one constant for
every result and the end mark (`reads_body`, `reads_instructions`).
-/
import Bindery.Proofs.Outcome
import Bindery.Proofs.Wasm.Encoding
import Bindery.Wasm.Sections

namespace Bindery.Wasm

open Utf8 (valid)

variable {α β : Type}

theorem Reads.require {holds : Bool} (h : holds = true) {x : Read α} {s : Bytes} {a : α} (hx : Reads x s a) :
    Reads (do Read.require holds; x) s a := by
  intro p rest
  rw [h]
  exact hx p rest

/-- A step that reads nothing more ends where the step before it does. -/
theorem Reads.andThen {x : Read α} {f : α → Read β} {s : Bytes} {a : α} {b : β} (hx : Reads x s a)
    (hf : Reads (f a) [] b) : Reads (x >>= f) s b := by
  have h := hx.bind hf
  rwa [List.append_nil] at h

/-! ## Indices and vectors -/

theorem reads_index (v : UInt32) : Reads Read.index (Write.u32 v) v.toNat := by
  have hv : v.toNat < 128 ^ 5 := Nat.lt_trans v.toNat_lt (by decide)
  refine (reads_groups hv (by decide) (Nat.le_refl 5)).andThen ?_
  exact Reads.require (decide_eq_true v.toNat_lt) (.pure v.toNat)

theorem reads_repeated {each : Read α} {write : β → Bytes} {value : β → α} :
    ∀ {xs : List β}, (∀ x ∈ xs, Reads each (write x) (value x)) →
    Reads (Read.repeated each xs.length) (xs.flatMap write) (xs.map value)
  | [], _ => .pure []
  | x :: xs, h => by
    obtain ⟨hx, hxs⟩ := List.forall_mem_cons.1 h
    rw [List.flatMap_cons]
    exact hx.bind ((reads_repeated hxs).map (value x :: ·))

/-- **A vector is read back** when its elements are, each of which takes at least one octet. -/
theorem reads_vector (value : β → α) {each : Read α} {write : β → Bytes} {xs : List β} (hcount : xs.length < 2 ^ 32)
    (hlong : ∀ x ∈ xs, 0 < (write x).length) (h : ∀ x ∈ xs, Reads each (write x) (value x)) :
    Reads (Read.vector each) (Write.vector write xs) (xs.map value) := by
  have hindex := reads_index (UInt32.ofNat xs.length)
  rw [UInt32.toNat_ofNat_of_lt' hcount] at hindex
  refine hindex.bind fun p rest => ?_
  have hroom : decide (xs.length ≤ Cursor.remaining ⟨p, xs.flatMap write ++ rest⟩) = true := by
    have hle := length_le_length_flatMap hlong
    rw [decide_eq_true_eq, Cursor.remaining, List.length_append]
    omega
  have hread := reads_repeated h
  exact (hread.require hroom) p rest

/-- A vector shorter than 2^32 octets has fewer elements than that, and each of them is shorter. -/
theorem vector_bounds {write : β → Bytes} {xs : List β} (hlong : ∀ x ∈ xs, 0 < (write x).length)
    (h : (Write.vector write xs).length < 2 ^ 32) :
    xs.length < 2 ^ 32 ∧ ∀ x ∈ xs, (write x).length < 2 ^ 32 := by
  rw [Write.vector, List.length_append] at h
  have hle := length_le_length_flatMap hlong
  refine ⟨by omega, fun x hx => ?_⟩
  have hx := length_le_flatMap write hx
  omega

theorem length_lt_sized (s : Bytes) : s.length < (Write.sized s).length := by
  have hpos := length_u32_pos (UInt32.ofNat s.length)
  rw [Write.sized, List.length_append, Write.count]
  omega

/-! ## Elements up to the end -/

/-- Elements one after the other up to the end of the octets, at most so many. -/
def Read.untilEnd (each : Read α) : Nat → Read (List α)
  | 0 => return []
  | fuel + 1 => do
    let c ← get
    if c.rest.isEmpty then return []
    let a ← each
    return a :: (← untilEnd each fuel)

theorem untilEnd_nil (each : Read α) (p : Nat) : ∀ fuel, Read.untilEnd each fuel ⟨p, []⟩ = .ok [] ⟨p, []⟩
  | 0 => rfl
  | _ + 1 => rfl

/-- One element is read off the front, and reading goes on behind it. -/
theorem untilEnd_cons {each : Read α} {s rest : Bytes} {a : α} (hs : 0 < s.length) (ha : Reads each s a)
    {p q fuel : Nat} {as : List α} (h : Read.untilEnd each fuel ⟨p + s.length, rest⟩ = .ok as ⟨q, []⟩) :
    Read.untilEnd each (fuel + 1) ⟨p, s ++ rest⟩ = .ok (a :: as) ⟨q, []⟩ := by
  have hne : (s ++ rest).isEmpty = false := by
    cases s with
    | nil => simp at hs
    | cons b s => rfl
  have hrun := ha.bind_run (fun a => do return a :: (← Read.untilEnd each fuel)) p rest
  have htail : (do return a :: (← Read.untilEnd each fuel) : Read (List α)) ⟨p + s.length, rest⟩
      = .ok (a :: as) ⟨q, []⟩ := by
    show EStateM.bind _ _ _ = _
    rw [EStateM.bind, h]
    rfl
  rw [htail] at hrun
  rw [Read.untilEnd]
  show (if (s ++ rest).isEmpty then _ else _ : Read (List α)) _ = _
  rw [hne]
  exact hrun

/-- **Elements up to the end are read back**, to the last octet. -/
theorem untilEnd_parts {each : Read α} {parts : List Bytes} {values : List α}
    (h : List.Forall₂ (Reads each) parts values) (hpos : ∀ s ∈ parts, 0 < s.length) {fuel : Nat}
    (hfuel : parts.length ≤ fuel) (p : Nat) :
    Read.untilEnd each fuel ⟨p, parts.flatten⟩ = .ok values ⟨p + parts.flatten.length, []⟩ := by
  induction h generalizing fuel p with
  | nil => exact untilEnd_nil each p fuel
  | @cons s a parts values hs _ ih =>
    obtain ⟨hpos, hrest⟩ := List.forall_mem_cons.1 hpos
    obtain ⟨fuel, rfl⟩ : ∃ n, fuel = n + 1 := ⟨fuel - 1, by simp only [List.length_cons] at hfuel; omega⟩
    have htail := ih hrest (Nat.le_of_succ_le_succ hfuel) (p + s.length)
    rw [List.flatten_cons, List.length_append, ← Nat.add_assoc]
    exact untilEnd_cons hpos hs htail

theorem length_le_length_flatten {parts : List Bytes} (hpos : ∀ s ∈ parts, 0 < s.length) :
    parts.length ≤ parts.flatten.length := by
  have hle : parts.length ≤ (parts.flatMap id).length := length_le_length_flatMap hpos
  rwa [List.flatMap_id] at hle

/-! ## Signatures -/

/-- The types of numbers. -/
def ValType.numbers : List ValType := [.i32, .i64, .f32, .f64]

theorem reads_valType {t : ValType} (h : t ∈ ValType.numbers) : Reads Read.valType [t.code] t := by
  have hknown : ValType.all.contains t = true := by
    simp only [ValType.numbers, List.mem_cons, List.not_mem_nil, or_false] at h
    rcases h with rfl | rfl | rfl | rfl <;> decide
  exact (reads_byte t.code).andThen (Reads.require hknown (.pure t))

theorem reads_valTypes {ts : List ValType} (hcount : ts.length < 2 ^ 32) (h : ∀ t ∈ ts, t ∈ ValType.numbers) :
    Reads (Read.vector Read.valType) (Write.vector (fun t => [t.code]) ts) ts := by
  have hlong : ∀ t ∈ ts, 0 < [t.code].length := fun _ _ => Nat.one_pos
  have hread := reads_vector id hcount hlong fun t ht => reads_valType (h t ht)
  rwa [List.map_id] at hread

/-- A signature takes and gives numbers only. -/
def FuncType.OfNumbers (t : FuncType) : Prop := ∀ v ∈ t.params ++ t.results, v ∈ ValType.numbers

theorem reads_funcType {t : FuncType} (hnumbers : t.OfNumbers) (hlen : (Write.funcType t).length < 2 ^ 32) :
    Reads Read.funcType (Write.funcType t) t := by
  have hone : ∀ ts : List ValType, ∀ v ∈ ts, 0 < [v.code].length := fun _ _ _ => Nat.one_pos
  simp only [Write.funcType, List.cons_append, List.length_cons, List.length_append] at hlen
  have hparams := reads_valTypes (vector_bounds (hone t.params) (by omega)).1
    fun v hv => hnumbers v (List.mem_append_left _ hv)
  have hresults := reads_valTypes (vector_bounds (hone t.results) (by omega)).1
    fun v hv => hnumbers v (List.mem_append_right _ hv)
  refine (reads_byte 0x60).bind (Reads.require rfl (hparams.bind ?_))
  exact hresults.map fun results => ({ params := t.params, results } : FuncType)

/-! ## Imports, limits and exports -/

/-- An import as the grammar reads it: a function of a signature. -/
def Import.asHostItem (i : Import) : HostItem := ⟨i.module, i.name, .func i.typeIdx.toNat⟩

/-- The function that an item of the host is. -/
def HostItem.asImport (i : HostItem) : Import :=
  { module := i.module
    name := i.name
    typeIdx := match i.desc with
      | .func n => UInt32.ofNat n
      | _ => 0 }

/-- An import is known from what the grammar reads, all but its kind. -/
theorem asImport_asHostItem (i : Import) : i.asHostItem.asImport = i.asFunc := by
  simp [HostItem.asImport, Import.asHostItem, Import.asFunc]

theorem reads_hostItem {i : Import} (h : i.Writable) : Reads Read.hostItem (Write.import1 i) i.asHostItem := by
  have htype := (reads_index i.typeIdx).map fun n => (⟨i.module, i.name, .func n⟩ : HostItem)
  rw [Write.import1, List.append_assoc]
  refine (reads_name h.module h.moduleLength).bind ((reads_name h.name h.nameLength).bind ?_)
  exact (reads_byte ExternKind.func.code).bind (t := Write.u32 i.typeIdx) htype

theorem reads_bounds (pages : UInt32) :
    Reads Read.bounds (0 :: Write.u32 pages) (pages.toNat, none) :=
  (reads_byte 0).bind (Reads.require rfl ((reads_index pages).map fun least => (least, none)))

namespace Read

/-- An export of one of the kinds that are known. -/
def exportOf (known : UInt8 → Bool) : Read Export := do
  let name ← name
  let kind ← byte
  require (known kind)
  return { name, kind, idx := UInt32.ofNat (← index) }

/-- The strict grammar knows functions, tables, memories and globals. -/
theorem export1_eq : export1 = exportOf (· ≤ 3) := rfl

end Read

theorem reads_exportOf {known : UInt8 → Bool} {e : Export} (hknown : known e.kind = true) (hname : valid e.name = true)
    (hlen : e.name.length < 2 ^ 32) : Reads (Read.exportOf known) (Write.export1 e) e := by
  have hidx := (reads_index e.idx).map fun n => ({ name := e.name, kind := e.kind, idx := UInt32.ofNat n } : Export)
  rw [UInt32.ofNat_toNat] at hidx
  refine (reads_name hname hlen).bind ((reads_byte e.kind).bind (t := Write.u32 e.idx) ?_)
  exact Reads.require hknown hidx

/-! ## Bodies of functions -/

theorem forall_numbers {P : ValType → Prop} (h : P .i32 ∧ P .i64 ∧ P .f32 ∧ P .f64) {t : ValType}
    (ht : t ∈ ValType.numbers) : P t := by
  simp only [ValType.numbers, List.mem_cons, List.not_mem_nil, or_false] at ht
  rcases ht with rfl | rfl | rfl | rfl
  · exact h.1
  · exact h.2.1
  · exact h.2.2.1
  · exact h.2.2.2

/-- A zero of a number type is a constant of that type. -/
theorem reads_constant {t : ValType} (h : t ∈ ValType.numbers) : Reads Read.constant (Write.zero t) (.value t) :=
  forall_numbers (P := fun t => Reads Read.constant (Write.zero t) (.value t))
    ⟨fun _ _ => rfl, fun _ _ => rfl, fun _ _ => rfl, fun _ _ => rfl⟩ h

/-- The instruction that pushes a constant. -/
def Instruction.constant (t : ValType) : Instruction := .operator ⟨[], [t]⟩

theorem reads_instruction_zero {t : ValType} (h : t ∈ ValType.numbers) :
    Reads Read.instruction (Write.zero t) (.constant t) :=
  forall_numbers (P := fun t => Reads Read.instruction (Write.zero t) (.constant t))
    ⟨fun _ _ => rfl, fun _ _ => rfl, fun _ _ => rfl, fun _ _ => rfl⟩ h

theorem length_zero_pos {t : ValType} (h : t ∈ ValType.numbers) : 0 < (Write.zero t).length :=
  forall_numbers (P := fun t => 0 < (Write.zero t).length) (by decide) h

/-- The code of a function that returns zeros: a constant for every result, and the end mark. -/
def zeroCode (results : List ValType) : Bytes := results.flatMap Write.zero ++ [0x0B]

theorem reads_body {results : List ValType} (hlen : (Write.zeroBody results).length < 2 ^ 32) :
    Reads Read.body (Write.sized (Write.zeroBody results)) ⟨[], zeroCode results⟩ := by
  have hlast : ((zeroCode results).getLast? == some 0x0B) = true := by simp [zeroCode]
  have hblock : Read.vector Read.localRun (Cursor.ofBytes (Write.zeroBody results))
      = .ok [] ⟨1, zeroCode results⟩ := rfl
  have hsize := reads_index (UInt32.ofNat (Write.zeroBody results).length)
  rw [UInt32.toNat_ofNat_of_lt' hlen] at hsize
  refine hsize.bind ((reads_take _).andThen ?_)
  rw [hblock]
  exact Reads.require rfl (Reads.require hlast (.pure _))

theorem instructions_eq : ∀ fuel, Read.instructions fuel = Read.untilEnd Read.instruction fuel
  | 0 => rfl
  | fuel + 1 => by rw [Read.instructions, Read.untilEnd, instructions_eq fuel]

/-- **The code of a function that returns zeros** is read as one constant for every result and
the end. -/
theorem instructions_zeroCode {results : List ValType} (h : ∀ t ∈ results, t ∈ ValType.numbers) (p : Nat) :
    Read.instructions (zeroCode results).length ⟨p, zeroCode results⟩
      = .ok (results.map .constant ++ [.finish]) ⟨p + (zeroCode results).length, []⟩ := by
  have hcode : zeroCode results = (results.map Write.zero ++ [[0x0B]]).flatten := by
    simp [zeroCode, List.flatMap_def]
  have hfinish : Reads Read.instruction [0x0B] .finish := fun _ _ => rfl
  have hread : List.Forall₂ (Reads Read.instruction) (results.map Write.zero ++ [[0x0B]])
      (results.map .constant ++ [.finish]) := by
    refine List.rel_append ?_ (.cons hfinish .nil)
    rw [List.forall₂_map_left_iff, List.forall₂_map_right_iff, List.forall₂_same]
    exact fun t ht => reads_instruction_zero (h t ht)
  have hpos : ∀ s ∈ results.map Write.zero ++ [[0x0B]], 0 < s.length := by
    simp only [List.forall_mem_append, List.forall_mem_map]
    exact ⟨fun t ht => length_zero_pos (h t ht), by simp⟩
  rw [instructions_eq, hcode]
  exact untilEnd_parts hread hpos (length_le_length_flatten hpos) p

/-! ## The code fits its signature -/

theorem takeTop_all : ∀ (ts : List ValType) (f : Frame), f.operands = ts.map some →
    f.takeTop ts = some { f with operands := [] }
  | [], f, h => by
    have hempty : f.operands = [] := h
    rw [Frame.takeTop, ← hempty]
  | t :: ts, f, h => by
    have hpop : f.pop = some (some t, { f with operands := ts.map some }) := by
      rw [Frame.pop, h]
      rfl
    rw [Frame.takeTop, hpop]
    simp only [Frame.fits, Option.all_some, beq_self_eq_true, if_true]
    exact takeTop_all ts _ rfl

/-- Constants are pushed one after the other. -/
theorem foldlM_constants (ctx : Context) (runs : List (Nat × ValType)) (outer : List Frame) :
    ∀ (ts : List ValType) (f : Frame), (ts.map Instruction.constant).foldlM (ctx.step runs) (f :: outer)
      = some (f.push ts :: outer)
  | [], f => by simp [Frame.push]
  | t :: ts, f => by
    have hstep : ctx.step runs (f :: outer) (.constant t) = some (f.push [t] :: outer) := rfl
    rw [List.map_cons, List.foldlM_cons, hstep]
    refine (foldlM_constants ctx runs outer ts (f.push [t])).trans ?_
    simp [Frame.push]

/-- **Constants of the result types, in order, are code of a function with these results.** -/
theorem accepts_constants (ctx : Context) (t : FuncType) :
    ctx.accepts t [] (t.results.map .constant ++ [.finish]) = true := by
  have hdone : (Frame.push { type := t } t.results).done = true := by
    have htake : (Frame.push { type := t } t.results).take t.results = some { type := t } := by
      rw [Frame.take]
      exact takeTop_all t.results.reverse _ (by simp [Frame.push])
    have htype : (Frame.push { type := t } t.results).type = t := rfl
    rw [Frame.done, htype, htake]
    rfl
  rw [Context.accepts, List.foldlM_append, foldlM_constants]
  show (ctx.step _ [_] .finish >>= _) == some []
  rw [Context.step]
  simp only [hdone]
  rfl

end Bindery.Wasm
