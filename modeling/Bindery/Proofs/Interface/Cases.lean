/-
The names of the cases of variants. They are what a type takes over from its declarations as it
stands, and a name ends where the bracket of its payload opens: no case of an accepted file has an
opening bracket in its name (`Interface.caseNames_of_parse`), and a shape has the cases of its
declarations only (`Interface.caseNames_shape?`).
-/
import Bindery.Proofs.Bytes.Decimal
import Bindery.Proofs.Bytes.Pieces
import Bindery.Proofs.Bytes.Units
import Bindery.Proofs.Interface.Closed

namespace Bindery

/-! ## Names of cases -/

namespace Shape

mutual

/-- The names of the cases of all variants in a type. -/
def caseNames : Shape → List Bytes
  | .blank | .prim _ | .string | .errorContext | .enum _ _ | .flags _ _ => []
  | .alias _ t | .list t | .option t => t.caseNames
  | .record _ fs => namedCaseNames fs
  | .variant _ cs => cs.map (·.1) ++ namedCaseNames cs
  | .result ok err => ok.caseNames ++ err.caseNames
  | .tuple ts => allCaseNames ts

def namedCaseNames : List (Bytes × Shape) → List Bytes
  | [] => []
  | (_, t) :: fs => t.caseNames ++ namedCaseNames fs

def allCaseNames : List Shape → List Bytes
  | [] => []
  | t :: ts => t.caseNames ++ allCaseNames ts

end

theorem mem_allCaseNames {c : Bytes} {ts : List Shape} : c ∈ allCaseNames ts ↔ ∃ t ∈ ts, c ∈ t.caseNames := by
  induction ts with
  | nil => simp [allCaseNames]
  | cons t ts ih => simp [allCaseNames, ih]

end Shape

/-- The names of the cases that a declaration makes. -/
def DeclBody.variantNames : DeclBody → List Bytes
  | .variant cs => cs.map (·.1)
  | .union ts => (unionCases ts).map (·.1)
  | .record _ | .enum _ | .flags _ | .resource | .alias _ => []

section shapes

variable {env : Bytes → Option Shape} {P : Bytes → Prop}

mutual

/-- The cases in the shape of a type are those in the shapes of its names. -/
theorem TypeExpr.caseNames_shape? (henv : ∀ n s, env n = some s → ∀ c ∈ s.caseNames, P c) :
    ∀ {t : TypeExpr} {s : Shape}, t.shape? env = some s → ∀ c ∈ s.caseNames, P c
  | .blank, s, h | .prim _, s, h | .string, s, h | .errorContext, s, h => by
    cases h
    simp [Shape.caseNames]
  | .named n, s, h => henv n s h
  | .list t, s, h | .option t, s, h => by
    obtain ⟨a, ha, h⟩ := Option.bind_eq_some_iff.1 h
    cases h
    rw [Shape.caseNames]
    exact TypeExpr.caseNames_shape? henv ha
  | .result ok err, s, h => by
    obtain ⟨a, ha, h⟩ := Option.bind_eq_some_iff.1 h
    obtain ⟨b, hb, h⟩ := Option.bind_eq_some_iff.1 h
    cases h
    rw [Shape.caseNames, List.forall_mem_append]
    exact ⟨TypeExpr.caseNames_shape? henv ha, TypeExpr.caseNames_shape? henv hb⟩
  | .tuple ts, s, h => by
    obtain ⟨as, has, h⟩ := Option.bind_eq_some_iff.1 h
    cases h
    rw [Shape.caseNames]
    exact TypeExpr.caseNames_shapes? henv has

theorem TypeExpr.caseNames_shapes? (henv : ∀ n s, env n = some s → ∀ c ∈ s.caseNames, P c) :
    ∀ {ts : List TypeExpr} {ss : List Shape}, TypeExpr.shapes? env ts = some ss → ∀ c ∈ Shape.allCaseNames ss, P c
  | [], ss, h => by
    cases h
    simp [Shape.allCaseNames]
  | t :: ts, ss, h => by
    obtain ⟨a, ha, h⟩ := Option.bind_eq_some_iff.1 h
    obtain ⟨as, has, h⟩ := Option.bind_eq_some_iff.1 h
    cases h
    rw [Shape.allCaseNames, List.forall_mem_append]
    exact ⟨TypeExpr.caseNames_shape? henv ha, TypeExpr.caseNames_shapes? henv has⟩

end

theorem caseNames_namedShapes? (henv : ∀ n s, env n = some s → ∀ c ∈ s.caseNames, P c) :
    ∀ {fs : List (Bytes × TypeExpr)} {ss : List (Bytes × Shape)}, namedShapes? env fs = some ss →
      ss.map (·.1) = fs.map (·.1) ∧ ∀ c ∈ Shape.namedCaseNames ss, P c
  | [], ss, h => by
    cases h
    simp [Shape.namedCaseNames]
  | (n, t) :: fs, ss, h => by
    rw [namedShapes?_cons] at h
    obtain ⟨a, ha, h⟩ := Option.bind_eq_some_iff.1 h
    obtain ⟨as, has, h⟩ := Option.bind_eq_some_iff.1 h
    cases h
    obtain ⟨hnames, hcases⟩ := caseNames_namedShapes? henv has
    rw [Shape.namedCaseNames, List.forall_mem_append, List.map_cons, List.map_cons, hnames]
    exact ⟨rfl, TypeExpr.caseNames_shape? henv ha, hcases⟩

theorem Decl.caseNames_shape? (henv : ∀ n s, env n = some s → ∀ c ∈ s.caseNames, P c) {d : Decl} {s : Shape}
    (hd : ∀ c ∈ d.body.variantNames, P c) (h : d.shape? env = some s) : ∀ c ∈ s.caseNames, P c := by
  rw [Decl.shape?] at h
  cases hbody : d.body with
  | record fs =>
    rw [hbody] at h
    obtain ⟨ss, hss, h⟩ := Option.bind_eq_some_iff.1 h
    cases h
    rw [Shape.caseNames]
    exact (caseNames_namedShapes? henv hss).2
  | variant cs =>
    rw [hbody] at h hd
    obtain ⟨ss, hss, h⟩ := Option.bind_eq_some_iff.1 h
    cases h
    obtain ⟨hnames, hcases⟩ := caseNames_namedShapes? henv hss
    rw [Shape.caseNames, List.forall_mem_append, hnames]
    exact ⟨hd, hcases⟩
  | union ts =>
    rw [hbody] at h hd
    obtain ⟨ss, hss, h⟩ := Option.bind_eq_some_iff.1 h
    cases h
    obtain ⟨hnames, hcases⟩ := caseNames_namedShapes? henv hss
    rw [Shape.caseNames, List.forall_mem_append, hnames]
    exact ⟨hd, hcases⟩
  | «alias» t =>
    rw [hbody] at h
    obtain ⟨a, ha, h⟩ := Option.bind_eq_some_iff.1 h
    cases h
    rw [Shape.caseNames]
    exact TypeExpr.caseNames_shape? henv ha
  | enum cs | flags fs | resource =>
    rw [hbody] at h
    cases h
    simp [Shape.caseNames]

end shapes

namespace Interface

variable {i : Interface} {P : Bytes → Prop}

/-- **The cases in a shape** are cases that the interface declares. -/
theorem caseNames_shape? (hcases : ∀ d ∈ i.types, ∀ c ∈ d.body.variantNames, P c) {t : TypeExpr} {s : Shape}
    (h : i.shape? t = some s) : ∀ c ∈ s.caseNames, P c := by
  have hwithin : ∀ depth n s, i.shapesWithin depth n = some s → ∀ c ∈ s.caseNames, P c := by
    intro depth
    induction depth with
    | zero => exact fun n s h => by cases h
    | succ depth ih =>
      intro n s h
      obtain ⟨d, hd, h⟩ := Option.bind_eq_some_iff.1 h
      exact Decl.caseNames_shape? ih (hcases d (mem_types_of_decl? hd).1) h
  exact TypeExpr.caseNames_shape? (fun n s hn => hwithin _ n s hn) h

theorem mem_of_mem_bareName {s : Bytes} {b : UInt8} (h : b ∈ bareName s) : b ∈ s := by
  rw [bareName, Bytes.dropStart] at h
  split at h
  · exact Bytes.mem_of_mem_trim (List.mem_of_mem_drop h)
  · exact Bytes.mem_of_mem_trim h

/-- The name of a case ends at the first opening bracket. -/
theorem variantCase_name {names : Names} {item : Bytes} {c : Bytes × TypeExpr} (h : variantCase names item = .ok c) :
    40 ∉ c.1 := by
  unfold variantCase at h
  by_cases hmem : (40 : UInt8) ∈ item
  · obtain ⟨n, payload, rfl, hn⟩ := List.eq_append_cons_of_mem hmem
    simp only [Bytes.cut_append_sep hn] at h
    split at h
    · obtain ⟨t, -, h⟩ := bind_eq_ok.1 h
      cases h
      exact fun hc => hn (mem_of_mem_bareName hc)
    · cases h
  · simp only [Bytes.cut_of_not_mem hmem] at h
    cases h
    exact fun hc => hmem (mem_of_mem_bareName hc)

theorem declBody_caseNames {names : Names} {name text : Bytes} {kind : DeclKind} {b : DeclBody}
    (h : declBody names name text kind = .ok b) : ∀ c ∈ b.variantNames, 40 ∉ c := by
  cases kind with
  | variant =>
    obtain ⟨cs, hcs, h⟩ := bind_eq_ok.1 h
    cases h
    intro c hc
    obtain ⟨c', hc', rfl⟩ := List.mem_map.1 hc
    obtain ⟨_, -, hitem⟩ := exists_of_mem_mapM hcs hc'
    exact variantCase_name hitem
  | union =>
    obtain ⟨ts, -, h⟩ := bind_eq_ok.1 h
    cases h
    intro c hc hbracket
    obtain ⟨c', hc', rfl⟩ := List.mem_map.1 hc
    obtain ⟨⟨t, k⟩, -, rfl⟩ := List.mem_map.1 hc'
    rcases List.mem_append.1 hbracket with hbracket | hbracket
    · exact absurd hbracket (by decide)
    · exact absurd (Bytes.isDigit_of_mem_decimal hbracket) (by decide)
  | record =>
    obtain ⟨fs, -, h⟩ := bind_eq_ok.1 h
    cases h
    simp [DeclBody.variantNames]
  | «alias» =>
    obtain ⟨t, -, h⟩ := bind_eq_ok.1 h
    split at h
    · cases h
    · split at h
      · cases h
      · cases h
        simp [DeclBody.variantNames]
    · cases h
      simp [DeclBody.variantNames]
  | enum | flags | resource =>
    cases h
    simp [DeclBody.variantNames]

theorem caseNames_of_parse {path source : Bytes} (h : parse path source = .ok i) :
    ∀ d ∈ i.types, ∀ c ∈ d.body.variantNames, 40 ∉ c := by
  obtain ⟨-, -, ss, hread⟩ := parse_eq_ok.1 h
  intro d hd
  obtain ⟨s, -, -, hbody⟩ := exists_of_mem_forall₂ hread.types hd
  exact declBody_caseNames hbody

/-- A function of an accepted file has an identifier for a name. -/
theorem funcName_of_parse {path source : Bytes} (h : parse path source = .ok i) {f : Func} (hf : f ∈ i.functions) :
    40 ∉ f.name := by
  obtain ⟨-, -, ss, hread⟩ := parse_eq_ok.1 h
  have hident := (isIdentByte_of_isIdent (hread.signed f hf).1).2
  exact fun hbracket => absurd (hident 40 hbracket) (by decide)

end Interface

end Bindery
