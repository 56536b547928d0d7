/-
Functions that are generated as stubs. The text of a function is a stub when one line, which
says why, is all there is between its first and its last lines (`StubText`). A function that
can be carried takes more lines than that, so a stub is told from the text alone, and each
language makes one exactly for the reasons that the types give. These are the same for both
(`languages_refuse_alike`).
-/
import Bindery.Proofs.Glue.Refusals

namespace Bindery.Glue

/-- One line that says `why` is all there is between the first `k` and the last `m` lines. -/
def StubText (say : Bytes → Line) (k m : Nat) (text : List Line) (why : Bytes) : Prop :=
  ∃ before after, text = before ++ [say why] ++ after ∧ before.length = k ∧ after.length = m

theorem stubText_iff {say : Bytes → Line} {k m : Nat} {before body after : List Line} {why : Bytes}
    (hk : before.length = k) (hm : after.length = m) :
    StubText say k m (before ++ body ++ after) why ↔ body = [say why] := by
  constructor
  · rintro ⟨before', after', h, hk', hm'⟩
    have hfront := (List.append_inj' h (hm.trans hm'.symm)).1
    exact (List.append_inj hfront (hk.trans hk'.symm)).2
  · rintro rfl
    exact ⟨before, after, rfl, hk, hm⟩

/-- Three lines and more are no stub. -/
theorem indent_ne_singleton {unit : Bytes} {body : List Line} (h : 3 ≤ body.length) (l : Line) :
    indent unit body ≠ [l] := by
  intro heq
  have hlen := congrArg List.length heq
  rw [indent, List.length_map, List.length_singleton] at hlen
  omega

namespace JavaScript

/-- The line of a stub, with the quoted reason. -/
def sayLine (why : Bytes) : Line := unit ++ (utf8 "unsupported(" ++ why ++ utf8 ");")

theorem sayLine_inj {why why' : Bytes} : sayLine why = sayLine why' ↔ why = why' := by
  simp [sayLine]

theorem indent_stub (f : Func) (u : Unsupported) : indent unit [stub f u] = [sayLine (u.message f.name).quote] := by
  simp [indent, stub, sayLine, utf8]

theorem length_exportBody (f : Func) (call : ExportCall) : 3 ≤ (exportBody f call).length := by
  unfold exportBody
  cases call.result <;> cases call.indirect <;> simp [fixed]

theorem length_importBody (f : Func) (call : ImportCall) : 3 ≤ (importBody f call).length := by
  unfold importBody
  cases call.store <;> cases call.lower <;> simp [fixed]

theorem method_stub_iff (i : Interface) (f : Func) (why : Bytes) :
    StubText sayLine 2 1 (method i f) why ↔
      ∃ u, exportCallOf i f ((methodParams f).map .var) = .error u ∧ (u.message f.name).quote = why := by
  refine (stubText_iff rfl rfl).trans ?_
  cases exportCallOf i f ((methodParams f).map .var) with
  | error u => simp [indent_stub, sayLine_inj]
  | ok call => exact iff_of_false (indent_ne_singleton (length_exportBody f call) _) (by simp)

theorem wrapper_stub_iff (i : Interface) (f : Func) (why : Bytes) :
    StubText sayLine 1 1 (wrapper i f) why ↔
      ∃ u, importCallOf i f = .error u ∧ (u.message f.name).quote = why := by
  unfold wrapper
  cases importCallOf i f with
  | error u =>
    refine (stubText_iff rfl rfl).trans ?_
    simp [indent_stub, sayLine_inj]
  | ok call =>
    refine (stubText_iff rfl rfl).trans ?_
    exact iff_of_false (indent_ne_singleton (length_importBody f call) _) (by simp)

end JavaScript

namespace Python

/-- The line of a stub, with the quoted reason. -/
def sayLine (why : Bytes) : Line := unit ++ (utf8 "return _unsupported(" ++ why ++ utf8 ")")

theorem sayLine_inj {why why' : Bytes} : sayLine why = sayLine why' ↔ why = why' := by
  simp [sayLine]

theorem indent_stub (f : Func) (u : Unsupported) : indent unit [stub f u] = [sayLine (u.message f.name).quote] := by
  simp [indent, stub, sayLine, utf8]

theorem length_exportBody (f : Func) (call : ExportCall) : 3 ≤ (exportBody f call).length := by
  unfold exportBody
  cases call.result <;> cases call.indirect <;> simp [fixed]

theorem length_importBody (f : Func) (call : ImportCall) : 3 ≤ (importBody f call).length := by
  unfold importBody
  cases call.store <;> cases call.lower <;> simp [fixed]

theorem method_stub_iff (i : Interface) (f : Func) (why : Bytes) :
    StubText sayLine 2 0 (method i f) why ↔
      ∃ u, exportCallOf i f ((methodParams f).map .var) = .error u ∧ (u.message f.name).quote = why := by
  unfold method
  rw [← List.append_nil ([_, _] ++ _)]
  refine (stubText_iff rfl rfl).trans ?_
  cases exportCallOf i f ((methodParams f).map .var) with
  | error u => simp [indent_stub, sayLine_inj]
  | ok call => exact iff_of_false (indent_ne_singleton (length_exportBody f call) _) (by simp)

theorem wrapper_stub_iff (i : Interface) (f : Func) (why : Bytes) :
    StubText sayLine 2 1 (wrapper i f) why ↔
      ∃ u, importCallOf i f = .error u ∧ (u.message f.name).quote = why := by
  unfold wrapper
  cases importCallOf i f with
  | error u =>
    simp only [← List.append_assoc]
    refine (stubText_iff rfl rfl).trans ?_
    simp [indent_stub, sayLine_inj]
  | ok call =>
    simp only [← List.append_assoc]
    refine (stubText_iff rfl rfl).trans ?_
    exact iff_of_false (indent_ne_singleton (length_importBody f call) _) (by simp)

end Python

/-! ## The reasons of a type -/

/-- A reason that lies in a type. The others are about the number of parameters, about core values
that are missing and about types without an end. -/
def Unsupported.OfType : Unsupported → Prop
  | .value _ | .parameter _ | .manyFlags _ | .emptyVariant _ => True
  | .coreValues _ _ | .manyParams | .endless => False

/-- All that may be wrong lies in a type. -/
def OnlyTypes (r : Option Unsupported) : Prop := ∀ u, r = some u → u.OfType

theorem onlyTypes_none : OnlyTypes none := nofun

theorem onlyTypes_some {u : Unsupported} (h : u.OfType) : OnlyTypes (some u) := fun _ hu => Option.some.inj hu ▸ h

theorem OnlyTypes.or {r r' : Option Unsupported} (h : OnlyTypes r) (h' : OnlyTypes r') : OnlyTypes (r.or r') := by
  cases r with
  | none => exact h'
  | some u => exact h

theorem OnlyTypes.payload {r : Option Unsupported} (h : OnlyTypes r) (t : Shape) :
    OnlyTypes (if t.isBlank then none else r) := by
  split
  · exact onlyTypes_none
  · exact h

mutual

theorem onlyTypes_refusal : ∀ (t : Shape) (w : Way), OnlyTypes (t.refusal w)
  | .blank, w | .errorContext, w => by
    rw [Shape.refusal]
    exact onlyTypes_some trivial
  | .prim _, w | .string, w | .enum _ _, w => by
    rw [Shape.refusal]
    exact onlyTypes_none
  | .alias _ t, w => by
    rw [Shape.refusal]
    exact onlyTypes_refusal t w
  | .record _ fs, w => by
    rw [Shape.refusal]
    exact onlyTypes_named fs w
  | .tuple ts, w => by
    rw [Shape.refusal]
    exact onlyTypes_all ts w
  | .flags n fs, w => by
    rw [Shape.refusal]
    split
    · exact onlyTypes_some trivial
    · exact onlyTypes_none
  | .list t, w => by
    rw [Shape.refusal]
    exact onlyTypes_refusal t w.element
  | .option t, .load => by
    rw [Shape.refusal]
    exact onlyTypes_refusal t .load
  | .result ok err, .load => by
    rw [Shape.refusal]
    exact ((onlyTypes_refusal ok .load).payload ok).or ((onlyTypes_refusal err .load).payload err)
  | .variant n cs, .load => by
    rw [Shape.refusal]
    split
    · exact onlyTypes_some trivial
    · exact onlyTypes_payloads cs
  | .option _, .store | .option _, .lift | .option _, .lower | .result _ _, .store | .result _ _, .lift
  | .result _ _, .lower | .variant _ _, .store | .variant _ _, .lift | .variant _ _, .lower => by
    rw [Shape.refusal]
    · exact onlyTypes_some trivial
    all_goals simp

theorem onlyTypes_named : ∀ (fs : List (Bytes × Shape)) (w : Way), OnlyTypes (Shape.namedRefusal fs w)
  | [], w => by
    rw [Shape.namedRefusal]
    exact onlyTypes_none
  | (_, t) :: fs, w => by
    rw [Shape.namedRefusal]
    exact (onlyTypes_refusal t w).or (onlyTypes_named fs w)

theorem onlyTypes_all : ∀ (ts : List Shape) (w : Way), OnlyTypes (Shape.allRefusal ts w)
  | [], w => by
    rw [Shape.allRefusal]
    exact onlyTypes_none
  | t :: ts, w => by
    rw [Shape.allRefusal]
    exact (onlyTypes_refusal t w).or (onlyTypes_all ts w)

theorem onlyTypes_payloads : ∀ cs : List (Bytes × Shape), OnlyTypes (Shape.payloadRefusal cs)
  | [] => by
    rw [Shape.payloadRefusal]
    exact onlyTypes_none
  | (_, t) :: cs => by
    rw [Shape.payloadRefusal]
    exact ((onlyTypes_refusal t .load).payload t).or (onlyTypes_payloads cs)

end

theorem onlyTypes_result (f : ShapedFunc) (w : Way) : OnlyTypes (resultRefusal f w) := by
  unfold resultRefusal
  cases resultShape? f with
  | none => exact onlyTypes_none
  | some t => exact onlyTypes_refusal t w

theorem callRefusal_ofType {f : ShapedFunc} {dir : Direction} {u : Unsupported} (h : callRefusal f dir = some u) :
    u = .manyParams ∨ u.OfType := by
  unfold callRefusal at h
  split at h
  · exact .inl (Option.some.inj h).symm
  · exact .inr (((onlyTypes_named f.params _).or (onlyTypes_result f _)) u h)

/-! ## Both languages -/

theorem length_of_mapM_eq_some {α β : Type} {g : α → Option β} : ∀ {as : List α} {bs : List β},
    as.mapM g = some bs → bs.length = as.length
  | [], bs, h => by
    rw [← Option.some.inj h]
    rfl
  | a :: as, bs, h => by
    rw [List.mapM_cons] at h
    obtain ⟨b, -, h⟩ := Option.bind_eq_some_iff.1 h
    obtain ⟨bs', hbs', h⟩ := Option.bind_eq_some_iff.1 h
    rw [← Option.some.inj h, List.length_cons, List.length_cons, length_of_mapM_eq_some hbs']

/-- A function has its parameters when their types are written out. -/
theorem length_params_of_shapedFunc? {i : Interface} {f : Func} {sf : ShapedFunc}
    (h : i.shapedFunc? f = some sf) : sf.params.length = f.params.length := by
  obtain ⟨ps, hps, h⟩ := Option.bind_eq_some_iff.1 h
  obtain ⟨rs, -, h⟩ := Option.bind_eq_some_iff.1 h
  rw [← Option.some.inj h]
  exact length_of_mapM_eq_some hps

/-- **Both languages support the same functions.** For every function of an interface whose types are
finite: its types decide whether a call can be made, why not, and how many statements, core arguments and
lifted arguments it takes. The names that the parameters have in a language do not matter. Its text
is a stub, in either language and for the same quoted reason, exactly when the call is refused.
The reason is that there are too many parameters, or it lies in a type. -/
theorem languages_refuse_alike (i : Interface) (f : Func) (sf : ShapedFunc) (hf : i.shapedFunc? f = some sf) :
    (∀ params ∈ [JavaScript.methodParams f, Python.methodParams f],
      Outcome (exportCallOf i f (params.map .var)) (callRefusal sf .exported) (·.Counts sf)) ∧
    Outcome (importCallOf i f) (callRefusal sf .imported) (·.Counts sf) ∧
    (∀ why,
      (StubText JavaScript.sayLine 2 1 (JavaScript.method i f) why ↔
        ∃ u, callRefusal sf .exported = some u ∧ (u.message f.name).quote = why) ∧
      (StubText Python.sayLine 2 0 (Python.method i f) why ↔
        ∃ u, callRefusal sf .exported = some u ∧ (u.message f.name).quote = why)) ∧
    (∀ why,
      (StubText JavaScript.sayLine 1 1 (JavaScript.wrapper i f) why ↔
        ∃ u, callRefusal sf .imported = some u ∧ (u.message f.name).quote = why) ∧
      (StubText Python.sayLine 2 1 (Python.wrapper i f) why ↔
        ∃ u, callRefusal sf .imported = some u ∧ (u.message f.name).quote = why)) ∧
    ∀ dir u, callRefusal sf dir = some u → u = .manyParams ∨ u.OfType := by
  have hexport (params : List Expr) (hlen : params.length = f.params.length) :
      Outcome (exportCallOf i f params) (callRefusal sf .exported) (·.Counts sf) := by
    rw [exportCallOf, hf]
    exact exportCall_outcome sf (hlen.trans (length_params_of_shapedFunc? hf).symm)
  have himport : Outcome (importCallOf i f) (callRefusal sf .imported) (·.Counts sf) := by
    rw [importCallOf, hf]
    exact importCall_outcome sf
  have hjs := hexport ((JavaScript.methodParams f).map .var) (by simp [JavaScript.methodParams])
  have hpy := hexport ((Python.methodParams f).map .var) (by simp [Python.methodParams])
  refine ⟨by simp [hjs, hpy], himport, fun why => ?_, fun why => ?_, fun dir u => callRefusal_ofType⟩
  · rw [JavaScript.method_stub_iff, Python.method_stub_iff]
    simp only [hjs.eq_error_iff, hpy.eq_error_iff, and_self]
  · rw [JavaScript.wrapper_stub_iff, Python.wrapper_stub_iff]
    simp only [himport.eq_error_iff, and_self]

/-- `find: func(names: list<string>, tag: string) -> option<u32>`. -/
def findFunc : Func where
  name := utf8 "find"
  params := [{ name := utf8 "names", type := .list .string }, { name := utf8 "tag", type := .string }]
  results := [{ type := .option (.prim .u32) }]

def shelf : Interface where
  name := utf8 "shelf"
  path := utf8 "shelf.wai"
  functions := [findFunc]

/-- An option can be read from memory but not written: the host can call `find`, the module cannot. -/
theorem languages_refuse_alike_find :
    (∃ call, exportCallOf shelf findFunc ((JavaScript.methodParams findFunc).map .var) = .ok call ∧
      call.stmts.length = 2 ∧ call.args.length = 4) ∧
    (∃ call, exportCallOf shelf findFunc ((Python.methodParams findFunc).map .var) = .ok call ∧
      call.stmts.length = 2 ∧ call.args.length = 4) ∧
    ∃ why, why = (utf8 "find: option<u32> value is not supported by these bindings").quote ∧
      StubText JavaScript.sayLine 1 1 (JavaScript.wrapper shelf findFunc) why ∧
      StubText Python.sayLine 2 1 (Python.wrapper shelf findFunc) why := by
  obtain ⟨hcalls, -, -, hwrappers, -⟩ := languages_refuse_alike shelf findFunc
    { name := utf8 "find"
      params := [(utf8 "names", .list .string), (utf8 "tag", .string)]
      results := [([], .option (.prim .u32))] } rfl
  obtain ⟨js, hjs, hjsCounts⟩ := hcalls _ (List.mem_cons_self ..)
  obtain ⟨py, hpy, hpyCounts⟩ := hcalls _ (List.mem_cons_of_mem _ (List.mem_cons_self ..))
  refine ⟨⟨js, hjs, hjsCounts.stmts, hjsCounts.args⟩, ⟨py, hpy, hpyCounts.stmts, hpyCounts.args⟩, _, rfl, ?_⟩
  obtain ⟨hstub, hstub'⟩ := hwrappers (utf8 "find: option<u32> value is not supported by these bindings").quote
  exact ⟨hstub.2 ⟨.value (utf8 "option<u32>"), rfl, rfl⟩, hstub'.2 ⟨.value (utf8 "option<u32>"), rfl, rfl⟩⟩

end Bindery.Glue
