/-
The grammar of a section of imports. An import is two names, a kind and a description whose
length depends on the flags and codes in it (`Description.Spelled`); a section is a number of
imports and the imports one after the other (`ImportText`). Numbers may be written with more
octets than they need. A strict text says every number within its width, as the binary
format demands; a text that is not strict may carry bits above, which do not count.

Every step of the reader is matched with its part of the grammar (`recognises_limits`,
`recognises_description`, `recognises_importList`), so the reader takes all strict texts, and
takes nothing but texts (`importSection_reads_grammar`).
-/
import Bindery.Proofs.Wasm.Numbers

namespace Bindery.Wasm

open Utf8 (valid)

variable {α β : Type} {strict : Bool}

/-! ## The grammar -/

/-- The octets `s` write the number `n` of `bits` bits in at most `k` groups. -/
structure NumberText (strict : Bool) (bits k : Nat) (s : Bytes) (n : Nat) : Prop where
  chain : Chain s
  length : s.length ≤ k
  value : n = grouped s % 2 ^ bits
  fits : strict = true → grouped s < 2 ^ bits

/-- The bounds of a table or a memory. -/
structure Limits where
  flags : UInt8
  least : Nat
  most : Option Nat
  deriving DecidableEq, Repr

/-- A bound has 64 bits when the flag 4 is set, and 32 otherwise. -/
def BoundText (strict : Bool) (flags : UInt8) (s : Bytes) (n : Nat) : Prop :=
  if flags &&& 4 ≠ 0 then NumberText strict 64 10 s n else NumberText strict 32 5 s n

/-- Flags, a minimum and, if and only if the flag 1 is set, a maximum. -/
inductive Limits.Spelled (strict : Bool) : Limits → Bytes → Prop
  | least {flags : UInt8} {s : Bytes} {n : Nat} (hflag : flags &&& 1 = 0) (hs : BoundText strict flags s n) :
    Spelled strict ⟨flags, n, none⟩ (flags :: s)
  | both {flags : UInt8} {s t : Bytes} {n m : Nat} (hflag : flags &&& 1 ≠ 0) (hs : BoundText strict flags s n)
    (ht : BoundText strict flags t m) : Spelled strict ⟨flags, n, some m⟩ (flags :: (s ++ t))

/-- A type by its code, with the heap type that two forms of references carry. -/
structure TypeForm where
  code : UInt8
  heap : Option Nat
  deriving DecidableEq, Repr

inductive TypeForm.Spelled : TypeForm → Bytes → Prop
  | plain {code : UInt8} (h : ¬(code = 0x63 ∨ code = 0x64)) : Spelled ⟨code, none⟩ [code]
  | heap {code : UInt8} {s : Bytes} {n : Nat} (h : code = 0x63 ∨ code = 0x64) (hs : Stands 10 s n) :
    Spelled ⟨code, some n⟩ (code :: s)

/-- What an import is, with all that the binary format says of it. -/
inductive Description where
  | func (signature : Nat)
  | table (element : TypeForm) (limits : Limits)
  | memory (limits : Limits)
  | global (type : TypeForm) (mutability : UInt8)
  | tag (sort : UInt8) (signature : Nat)
  deriving DecidableEq, Repr

namespace Description

def kind : Description → ExternKind
  | .func _ => .func
  | .table _ _ => .table
  | .memory _ => .memory
  | .global _ _ => .global
  | .tag _ _ => .tag

/-- The signature of a function, zero for anything else. -/
def typeIdx : Description → UInt32
  | .func n => UInt32.ofNat n
  | _ => 0

inductive Spelled (strict : Bool) : Description → Bytes → Prop
  | func {s : Bytes} {n : Nat} (hs : NumberText strict 32 5 s n) : Spelled strict (.func n) s
  | table {s t : Bytes} {e : TypeForm} {l : Limits} (hs : e.Spelled s) (ht : l.Spelled strict t) :
    Spelled strict (.table e l) (s ++ t)
  | memory {s : Bytes} {l : Limits} (hs : l.Spelled strict s) : Spelled strict (.memory l) s
  | global {s : Bytes} {e : TypeForm} {m : UInt8} (hs : e.Spelled s) : Spelled strict (.global e m) (s ++ [m])
  | tag {s : Bytes} {a : UInt8} {n : Nat} (hs : NumberText strict 32 5 s n) : Spelled strict (.tag a n) (a :: s)

end Description

/-- A text behind its length. -/
def NameText (strict : Bool) (s name : Bytes) : Prop :=
  ∃ count, NumberText strict 32 5 count name.length ∧ valid name = true ∧ s = count ++ name

/-- An import with all that is said of it. -/
structure ImportItem where
  module : Bytes
  name : Bytes
  desc : Description
  deriving DecidableEq, Repr

namespace ImportItem

/-- What is kept of an import. -/
def import1 (i : ImportItem) : Import :=
  { module := i.module, name := i.name, kind := i.desc.kind, typeIdx := i.desc.typeIdx }

/-- Two names, the code of the kind and the description. -/
def Spelled (strict : Bool) (i : ImportItem) (u : Bytes) : Prop :=
  ∃ s t d, NameText strict s i.module ∧ NameText strict t i.name ∧ i.desc.Spelled strict d ∧
    u = s ++ (t ++ i.desc.kind.code :: d)

end ImportItem

/-- Imports one after the other. -/
def ItemTexts (strict : Bool) (items : List ImportItem) (u : Bytes) : Prop :=
  ∃ parts, List.Forall₂ (ImportItem.Spelled strict) items parts ∧ u = parts.flatten

/-- The body of a section of imports: their number and the imports. -/
def ImportText (strict : Bool) (items : List ImportItem) (u : Bytes) : Prop :=
  ∃ count s, NumberText strict 32 5 count items.length ∧ ItemTexts strict items s ∧ u = count ++ s

/-- Octets that say a number within its width write it. -/
theorem NumberText.of_fits {bits k : Nat} {s : Bytes} (hs : Chain s) (hlen : s.length ≤ k)
    (hfits : grouped s < 2 ^ bits) : NumberText strict bits k s (grouped s) :=
  ⟨hs, hlen, (Nat.mod_eq_of_lt hfits).symm, fun _ => hfits⟩

/-! ## Strict texts are texts -/

theorem NumberText.relax {bits k n : Nat} {s : Bytes} (h : NumberText strict bits k s n) :
    NumberText false bits k s n := ⟨h.chain, h.length, h.value, nofun⟩

theorem BoundText.relax {flags : UInt8} {s : Bytes} {n : Nat} (h : BoundText strict flags s n) :
    BoundText false flags s n := by
  unfold BoundText at h ⊢
  by_cases hwide : flags &&& 4 ≠ 0
  · rw [if_pos hwide] at h ⊢
    exact h.relax
  · rw [if_neg hwide] at h ⊢
    exact h.relax

theorem Limits.Spelled.relax {l : Limits} {s : Bytes} (h : l.Spelled strict s) : l.Spelled false s := by
  cases h with
  | least hflag hs => exact .least hflag hs.relax
  | both hflag hs ht => exact .both hflag hs.relax ht.relax

theorem Description.Spelled.relax {d : Description} {s : Bytes} (h : d.Spelled strict s) : d.Spelled false s := by
  cases h with
  | func hs => exact .func hs.relax
  | table hs ht => exact .table hs ht.relax
  | memory hs => exact .memory hs.relax
  | global hs => exact .global hs
  | tag hs => exact .tag hs.relax

theorem NameText.relax {s name : Bytes} (h : NameText strict s name) : NameText false s name := by
  obtain ⟨count, hcount, hname⟩ := h
  exact ⟨count, hcount.relax, hname⟩

theorem ImportItem.Spelled.relax {i : ImportItem} {u : Bytes} (h : i.Spelled strict u) : i.Spelled false u := by
  obtain ⟨s, t, d, hs, ht, hd, rfl⟩ := h
  exact ⟨s, t, d, hs.relax, ht.relax, hd.relax, rfl⟩

theorem ImportText.relax {items : List ImportItem} {u : Bytes} (h : ImportText strict items u) :
    ImportText false items u := by
  obtain ⟨count, _, hcount, ⟨parts, hparts, rfl⟩, rfl⟩ := h
  exact ⟨count, _, hcount.relax, ⟨parts, hparts.imp fun _ _ hi => hi.relax, rfl⟩, rfl⟩

/-! ## The steps of the reader -/

theorem Recognises.discard {x : Read α} {L : Bytes → α → Prop} (hx : Recognises x L) :
    Recognises (discard x) fun s _ => ∃ a, L s a := by
  have heq : (Functor.discard x : Read Unit) = do return (fun _ => ()) (← x) := by
    funext c
    show EStateM.map _ x c = EStateM.bind x _ c
    rw [EStateM.map, EStateM.bind]
    cases x c <;> rfl
  rw [heq]
  refine (hx.map fun _ => ()).congr fun s u => ?_
  simp

theorem recognises_valueType : Recognises Read.valueType fun s _ => ∃ t : TypeForm, t.Spelled s := by
  have hstep (b : UInt8) : Recognises (if b == 0x63 || b == 0x64 then discard Read.u64 else pure () : Read Unit)
      fun s _ => ∃ heap, (⟨b, heap⟩ : TypeForm).Spelled (b :: s) := by
    by_cases hb : b = 0x63 ∨ b = 0x64
    · rw [if_pos (by simpa using hb)]
      refine recognises_u64.discard.congr fun s _ => ⟨?_, ?_⟩
      · rintro ⟨_, hs, hlen, -⟩
        exact ⟨_, .heap hb ⟨hs, hlen, rfl⟩⟩
      · rintro ⟨_, h⟩
        cases h with
        | plain h => exact absurd hb h
        | heap _ hs => exact ⟨_, hs.chain, hs.length, UInt64.toNat_ofNat'⟩
    · rw [if_neg (by simpa using hb)]
      refine (Recognises.pure ()).congr fun s _ => ⟨?_, ?_⟩
      · rintro ⟨rfl, -⟩
        exact ⟨none, .plain hb⟩
      · rintro ⟨_, h⟩
        cases h with
        | plain h => exact ⟨rfl, rfl⟩
        | heap h hs => exact absurd h hb
  refine (recognises_byte.bind hstep).congr fun u _ => ⟨?_, ?_⟩
  · rintro ⟨_, s, b, rfl, rfl, heap, h⟩
    exact ⟨⟨b, heap⟩, h⟩
  · rintro ⟨⟨b, heap⟩, h⟩
    have hcode : ∃ s, u = b :: s := by
      cases h with
      | plain h => exact ⟨[], rfl⟩
      | heap h hs => exact ⟨_, rfl⟩
    obtain ⟨s, rfl⟩ := hcode
    exact ⟨[b], s, b, rfl, rfl, heap, h⟩

theorem recognises_bound (flags : UInt8) :
    Recognises (if flags &&& 4 != 0 then discard Read.u64 else discard Read.u32 : Read Unit)
      fun s _ => ∃ n, BoundText false flags s n := by
  unfold BoundText
  by_cases hwide : flags &&& 4 ≠ 0
  · simp only [if_pos hwide]
    rw [if_pos (by simpa using hwide)]
    refine recognises_u64.discard.congr fun s _ => ⟨?_, ?_⟩
    · rintro ⟨v, hs, hlen, hv⟩
      exact ⟨v.toNat, hs, hlen, hv, nofun⟩
    · rintro ⟨n, h⟩
      exact ⟨_, h.chain, h.length, UInt64.toNat_ofNat'⟩
  · simp only [if_neg hwide]
    rw [if_neg (by simpa using hwide)]
    refine recognises_u32.discard.congr fun s _ => ⟨?_, ?_⟩
    · rintro ⟨v, hs, hlen, hv⟩
      exact ⟨v.toNat, hs, hlen, hv, nofun⟩
    · rintro ⟨n, h⟩
      exact ⟨_, h.chain, h.length, UInt32.toNat_ofNat'⟩

theorem recognises_limits : Recognises Read.limits fun s _ => ∃ l : Limits, l.Spelled false s := by
  have hstep (flags : UInt8) := (recognises_bound flags).bind fun _ =>
    show Recognises (if flags &&& 1 != 0 then
        (if flags &&& 4 != 0 then discard Read.u64 else discard Read.u32) else pure () : Read Unit)
      fun s _ => if flags &&& 1 ≠ 0 then ∃ n, BoundText false flags s n else s = [] by
    by_cases hmost : flags &&& 1 ≠ 0
    · simp only [if_pos hmost]
      rw [if_pos (by simpa using hmost)]
      exact recognises_bound flags
    · simp only [if_neg hmost]
      rw [if_neg (by simpa using hmost)]
      exact (Recognises.pure ()).congr fun s _ => and_iff_left rfl
  refine (recognises_byte.bind hstep).congr fun u _ => ⟨?_, ?_⟩
  · rintro ⟨_, _, flags, rfl, rfl, s, t, -, rfl, ⟨n, hs⟩, ht⟩
    show ∃ l : Limits, l.Spelled false (flags :: (s ++ t))
    by_cases hmost : flags &&& 1 ≠ 0
    · rw [if_pos hmost] at ht
      obtain ⟨m, ht⟩ := ht
      exact ⟨_, .both hmost hs ht⟩
    · rw [if_neg hmost] at ht
      rw [ht, List.append_nil]
      exact ⟨_, .least (not_not.1 hmost) hs⟩
  · rintro ⟨l, h⟩
    cases h with
    | @least flags s n hflag hs =>
      refine ⟨[flags], s, flags, rfl, rfl, s, [], (), (List.append_nil s).symm, ⟨n, hs⟩, ?_⟩
      rw [if_neg (not_not.2 hflag)]
    | @both flags s t n m hflag hs ht =>
      refine ⟨[flags], s ++ t, flags, rfl, rfl, s, t, (), rfl, ⟨n, hs⟩, ?_⟩
      rw [if_pos hflag]
      exact ⟨m, ht⟩

theorem recognises_number32 : Recognises Read.u32 fun s v => NumberText false 32 5 s v.toNat := by
  refine recognises_u32.congr fun s v => ⟨?_, ?_⟩
  · rintro ⟨hs, hlen, hv⟩
    exact ⟨hs, hlen, hv, nofun⟩
  · intro h
    exact ⟨h.chain, h.length, h.value⟩

/-- A number of 32 bits is the number of some word. -/
theorem NumberText.toNat_ofNat {k n : Nat} {s : Bytes} (h : NumberText strict 32 k s n) :
    (UInt32.ofNat n).toNat = n := by
  rw [UInt32.toNat_ofNat', h.value, Nat.mod_mod]

theorem recognises_description (kind : ExternKind) : Recognises (Read.description kind)
    fun s v => ∃ d : Description, d.kind = kind ∧ d.typeIdx = v ∧ d.Spelled false s := by
  cases kind with
  | func =>
    refine recognises_number32.congr fun s v => ⟨fun h => ⟨.func v.toNat, rfl, UInt32.ofNat_toNat, .func h⟩, ?_⟩
    rintro ⟨d, hkind, rfl, h⟩
    cases h with
    | func hs =>
      show NumberText false 32 5 s (UInt32.ofNat _).toNat
      rwa [hs.toNat_ofNat]
    | _ => cases hkind
  | table =>
    refine (recognises_valueType.bind fun _ => recognises_limits.map fun _ => 0).congr fun u v => ⟨?_, ?_⟩
    · rintro ⟨s, t, -, rfl, ⟨e, hs⟩, -, ⟨l, ht⟩, rfl⟩
      exact ⟨.table e l, rfl, rfl, .table hs ht⟩
    · rintro ⟨d, hkind, rfl, h⟩
      cases h with
      | table hs ht => exact ⟨_, _, (), rfl, ⟨_, hs⟩, (), ⟨_, ht⟩, rfl⟩
      | _ => cases hkind
  | memory =>
    refine (recognises_limits.map fun _ => 0).congr fun u v => ⟨?_, ?_⟩
    · rintro ⟨-, ⟨l, hs⟩, rfl⟩
      exact ⟨.memory l, rfl, rfl, .memory hs⟩
    · rintro ⟨d, hkind, rfl, h⟩
      cases h with
      | memory hs => exact ⟨(), ⟨_, hs⟩, rfl⟩
      | _ => cases hkind
  | global =>
    refine (recognises_valueType.bind fun _ => recognises_byte.discard.map fun _ => 0).congr fun u v => ⟨?_, ?_⟩
    · rintro ⟨s, _, -, rfl, ⟨e, hs⟩, -, ⟨m, rfl⟩, rfl⟩
      exact ⟨.global e m, rfl, rfl, .global hs⟩
    · rintro ⟨d, hkind, rfl, h⟩
      cases h with
      | global hs => exact ⟨_, _, (), rfl, ⟨_, hs⟩, (), ⟨_, rfl⟩, rfl⟩
      | _ => cases hkind
  | tag =>
    refine (recognises_byte.discard.bind fun _ => recognises_number32.discard.map fun _ => 0).congr
      fun u v => ⟨?_, ?_⟩
    · rintro ⟨_, s, -, rfl, ⟨a, rfl⟩, -, ⟨n, hs⟩, rfl⟩
      exact ⟨.tag a n.toNat, rfl, rfl, .tag hs⟩
    · rintro ⟨d, hkind, rfl, h⟩
      cases h with
      | @tag s a n hs =>
        refine ⟨[a], s, (), rfl, ⟨a, rfl⟩, (), ⟨UInt32.ofNat n, ?_⟩, rfl⟩
        rwa [hs.toNat_ofNat]
      | _ => cases hkind

/-- A step that never goes well reads nothing. -/
theorem Recognises.never {x : Read α} (h : ∀ c a c', x c ≠ .ok a c') : Recognises x fun _ _ => False where
  reads := False.elim
  texts hc := absurd hc (h _ _ _)

theorem recognises_name : Recognises Read.name (NameText false) := by
  have hcheck (data : Bytes) : Recognises
      (if valid data then Pure.pure data else do throw (.badName (← Read.position)) : Read Bytes)
      fun s a => valid data = true ∧ s = [] ∧ a = data := by
    by_cases hvalid : valid data = true
    · rw [if_pos hvalid]
      exact (Recognises.pure data).congr fun s a => by rw [and_iff_right hvalid]
    · rw [if_neg hvalid]
      exact (Recognises.never nofun).congr fun s a => iff_of_false id fun h => hvalid h.1
  refine (recognises_number32.bind fun v => (recognises_take v.toNat).bind hcheck).congr fun u name => ⟨?_, ?_⟩
  · rintro ⟨count, _, v, rfl, hcount, s, _, _, rfl, ⟨rfl, hlen⟩, hvalid, rfl, rfl⟩
    rw [List.append_nil]
    exact ⟨count, hlen ▸ hcount, hvalid, rfl⟩
  · rintro ⟨count, hcount, hvalid, rfl⟩
    refine ⟨count, name, UInt32.ofNat name.length, rfl, ?_, name, [], name, (List.append_nil name).symm, ⟨rfl, ?_⟩,
      hvalid, rfl, rfl⟩
    · rwa [hcount.toNat_ofNat]
    · rw [hcount.toNat_ofNat]

theorem ofCode?_code (kind : ExternKind) : ExternKind.ofCode? kind.code = some kind := by
  cases kind <;> rfl

theorem code_of_ofCode? {b : UInt8} {kind : ExternKind} (h : ExternKind.ofCode? b = some kind) : kind.code = b := by
  unfold ExternKind.ofCode? at h
  grind [ExternKind.code]

/-- The octets `s` behind the kind `code` describe the import `i` of these names. -/
def DescribedBy (module name : Bytes) (code : UInt8) (s : Bytes) (i : Import) : Prop :=
  ∃ d : Description, d.kind.code = code ∧ d.Spelled false s ∧
    i = { module, name, kind := d.kind, typeIdx := d.typeIdx }

theorem recognises_import1 : Recognises Read.import1
    fun u i => ∃ item : ImportItem, item.import1 = i ∧ item.Spelled false u := by
  rw [Read.import1]
  refine Recognises.congr (recognises_name.bind fun module => recognises_name.bind fun name =>
    recognises_byte.bind (M := DescribedBy module name) fun code => ?_) fun u i => ⟨?_, ?_⟩
  · cases hcode : ExternKind.ofCode? code with
    | none =>
      refine (Recognises.never nofun).congr fun s i => iff_of_false id ?_
      rintro ⟨d, rfl, -⟩
      rw [ofCode?_code] at hcode
      cases hcode
    | some kind =>
      obtain rfl := code_of_ofCode? hcode
      refine ((recognises_description kind).map fun typeIdx => ({ module, name, kind, typeIdx } : Import)).congr
        fun s i => ⟨?_, ?_⟩
      · rintro ⟨_, ⟨d, rfl, rfl, hd⟩, rfl⟩
        exact ⟨d, rfl, hd, rfl⟩
      · rintro ⟨d, hkind, hd, rfl⟩
        obtain rfl : d.kind = kind := by
          rw [← hkind, ofCode?_code] at hcode
          exact Option.some.inj hcode
        exact ⟨_, ⟨d, rfl, rfl, hd⟩, rfl⟩
  · rintro ⟨s, _, module, rfl, hs, t, _, name, rfl, ht, _, d, _, rfl, rfl, desc, rfl, hd, rfl⟩
    exact ⟨⟨module, name, desc⟩, rfl, s, t, d, hs, ht, hd, rfl⟩
  · rintro ⟨⟨module, name, desc⟩, rfl, s, t, d, hs, ht, hd, rfl⟩
    exact ⟨s, _, module, rfl, hs, t, _, name, rfl, ht, [desc.kind.code], d, desc.kind.code, rfl, rfl, desc, rfl, hd,
      rfl⟩

theorem recognises_importList : ∀ n : Nat, Recognises (Read.importList n)
    fun u is => ∃ items : List ImportItem,
      items.length = n ∧ items.map ImportItem.import1 = is ∧ ItemTexts false items u
  | 0 => by
    refine (Recognises.pure []).congr fun u is => ⟨?_, ?_⟩
    · rintro ⟨rfl, rfl⟩
      exact ⟨[], rfl, rfl, [], .nil, rfl⟩
    · rintro ⟨items, hlen, rfl, parts, hparts, rfl⟩
      obtain rfl := List.length_eq_zero_iff.1 hlen
      cases hparts
      exact ⟨rfl, rfl⟩
  | n + 1 => by
    refine (recognises_import1.bind fun i => (recognises_importList n).map (i :: ·)).congr fun u is => ⟨?_, ?_⟩
    · rintro ⟨s, t, _, rfl, ⟨item, rfl, hs⟩, _, ⟨items, rfl, rfl, parts, hparts, rfl⟩, rfl⟩
      exact ⟨item :: items, rfl, rfl, s :: parts, .cons hs hparts, rfl⟩
    · rintro ⟨items, hlen, rfl, parts, hparts, rfl⟩
      cases hparts with
      | nil => cases hlen
      | @cons item s items parts hs hparts =>
        exact ⟨s, parts.flatten, _, rfl, ⟨item, rfl, hs⟩, _,
          ⟨items, Nat.succ.inj hlen, rfl, parts, hparts, rfl⟩, rfl⟩

theorem recognises_importSection : Recognises Read.importSection
    fun u is => ∃ items : List ImportItem, items.map ImportItem.import1 = is ∧ ImportText false items u := by
  refine (recognises_number32.bind fun n => recognises_importList n.toNat).congr fun u is => ⟨?_, ?_⟩
  · rintro ⟨count, s, n, rfl, hcount, items, hlen, rfl, hitems⟩
    exact ⟨items, rfl, count, s, hlen ▸ hcount, hitems, rfl⟩
  · rintro ⟨items, rfl, count, s, hcount, hitems, rfl⟩
    refine ⟨count, s, UInt32.ofNat items.length, rfl, ?_, items, ?_, rfl, hitems⟩
    · rwa [hcount.toNat_ofNat]
    · rw [hcount.toNat_ofNat]

/-- **Imports are read by their grammar.** A text of any imports, of whatever kinds, is read as these
imports in their order, with the signatures of functions and zero for the others, and what
follows it is left alone. And what is read is always such a text, up to bits that numbers have
above their width. -/
theorem importSection_reads_grammar (p : Nat) :
    (∀ strict items s tail, ImportText strict items s →
      Read.importSection ⟨p, s ++ tail⟩ = .ok (items.map ImportItem.import1) ⟨p + s.length, tail⟩) ∧
    ∀ data is c, Read.importSection ⟨p, data⟩ = .ok is c →
      ∃ items s, ImportText false items s ∧ is = items.map ImportItem.import1 ∧ data = s ++ c.rest ∧
        c.position = p + s.length := by
  refine ⟨fun strict items s tail h => ?_, fun data is c h => ?_⟩
  · exact recognises_importSection.reads ⟨items, rfl, h.relax⟩ p tail
  · obtain ⟨s, ⟨items, rfl, hs⟩, htext, hpos⟩ := recognises_importSection.eq_ok_iff.1 h
    exact ⟨items, s, hs, rfl, htext, hpos⟩

/-- An import of every kind. -/
def fiveItems : List ImportItem :=
  [⟨utf8 "env", utf8 "f", .func 300⟩, ⟨utf8 "env", utf8 "t", .table ⟨0x63, some 5⟩ ⟨1, 1, some 2⟩⟩,
    ⟨utf8 "env", utf8 "m", .memory ⟨4, 2 ^ 32, none⟩⟩, ⟨utf8 "env", utf8 "g", .global ⟨0x7F, none⟩ 1⟩,
    ⟨[], utf8 "e", .tag 0 7⟩]

/-- Their text; a maximum takes more octets than it needs. -/
def fiveText : Bytes :=
  [5] ++ [3] ++ utf8 "env" ++ [1] ++ utf8 "f" ++ [0, 0xAC, 2]
    ++ [3] ++ utf8 "env" ++ [1] ++ utf8 "t" ++ [1, 0x63, 5, 1, 1, 0x82, 0x80, 0]
    ++ [3] ++ utf8 "env" ++ [1] ++ utf8 "m" ++ [2, 4, 0x80, 0x80, 0x80, 0x80, 0x10]
    ++ [3] ++ utf8 "env" ++ [1] ++ utf8 "g" ++ [3, 0x7F, 1] ++ [0, 1] ++ utf8 "e" ++ [4, 0, 7]

theorem importText_five : ImportText true fiveItems fiveText := by
  have hone {b : UInt8} (hb : b < 128) : NumberText true 32 5 [b] (grouped [b]) :=
    .of_fits (.last hb) (Nat.le_add_left 1 4) (Nat.lt_trans (grouped_lt [b]) (by decide : 128 ^ 1 < 2 ^ 32))
  have henv : NameText true ([3] ++ utf8 "env") (utf8 "env") := ⟨[3], hone (by decide), Utf8.valid_of_ascii rfl, rfl⟩
  have hempty : NameText true [0] [] := ⟨[0], hone (by decide), rfl, rfl⟩
  have hname (c : UInt8) (hc : c < 128) : NameText true [1, c] [c] :=
    ⟨[1], hone (by decide), Utf8.valid_of_ascii (by simpa using hc), rfl⟩
  have hfunc : (Description.func 300).Spelled true [0xAC, 2] :=
    .func (.of_fits (.more (by decide) (.last (by decide))) (by decide) (by decide))
  have htable : (Description.table ⟨0x63, some 5⟩ ⟨1, 1, some 2⟩).Spelled true ([0x63, 5] ++ [1, 1, 0x82, 0x80, 0]) :=
    .table (.heap (.inl rfl) ⟨.last (by decide), by decide, rfl⟩) (.both (s := [1]) (by decide) (hone (by decide))
      (.of_fits (.more (by decide) (.more (by decide) (.last (by decide)))) (by decide) (by decide)))
  have hmemory : (Description.memory ⟨4, 2 ^ 32, none⟩).Spelled true [4, 0x80, 0x80, 0x80, 0x80, 0x10] :=
    .memory (.least (by decide) (.of_fits (.more (by decide) (.more (by decide) (.more (by decide) (.more (by decide)
      (.last (by decide)))))) (by decide) (by decide)))
  have hglobal : (Description.global ⟨0x7F, none⟩ 1).Spelled true ([0x7F] ++ [1]) := .global (.plain (by decide))
  have htag : (Description.tag 0 7).Spelled true [0, 7] := .tag (hone (by decide))
  have hitems : ItemTexts true fiveItems _ :=
    ⟨_, .cons ⟨_, _, _, henv, hname 102 (by decide), hfunc, rfl⟩
      (.cons ⟨_, _, _, henv, hname 116 (by decide), htable, rfl⟩
        (.cons ⟨_, _, _, henv, hname 109 (by decide), hmemory, rfl⟩
          (.cons ⟨_, _, _, henv, hname 103 (by decide), hglobal, rfl⟩
            (.cons ⟨_, _, _, hempty, hname 101 (by decide), htag, rfl⟩ .nil)))), rfl⟩
  exact ⟨[5], _, hone (by decide), hitems, rfl⟩

theorem importSection_reads_grammar_five :
    Read.importSection ⟨0, fiveText ++ [0xAA]⟩ = .ok
      [{ module := utf8 "env", name := utf8 "f", kind := .func, typeIdx := 300 },
        { module := utf8 "env", name := utf8 "t", kind := .table },
        { module := utf8 "env", name := utf8 "m", kind := .memory },
        { module := utf8 "env", name := utf8 "g", kind := .global }, { module := [], name := utf8 "e", kind := .tag }]
      ⟨fiveText.length, [0xAA]⟩ ∧
    ∃ items s, ImportText false items s ∧ fiveText ++ [0xAA] = s ++ [0xAA] := by
  have hread := (importSection_reads_grammar 0).1 true fiveItems fiveText [0xAA] importText_five
  rw [Nat.zero_add] at hread
  obtain ⟨items, s, hs, -, hdata, -⟩ := (importSection_reads_grammar 0).2 _ _ _ hread
  exact ⟨hread, items, s, hs, hdata⟩

end Bindery.Wasm
