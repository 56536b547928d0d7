/-
What a JavaScript module imports. The helpers are looked for in the finished text: a helper is
imported when its name stands before an opening bracket and no octet of a name is in front of it.
The search finds exactly the calls in the text (`calls_iff`). Whatever calls a helper is written
behind a bracket, a space or the start of a line, at any depth, so no call is missed
(`called_print`), and a line's calls are those of the module around it.

Main statement: a module is its body behind an import of the helpers that are called in the body,
and among these are all that the code of its functions calls (`modules_import_helpers`).
-/
import Bindery.Proofs.Glue.Shadowing

namespace Bindery.Glue

/-! ## Finding calls -/

namespace JavaScript

/-- The search finds a name before an opening bracket behind an octet that is no part of a name, or
at the start of a text that follows on such an octet. -/
theorem calls_from_iff {n : Bytes} : ∀ (s : Bytes) (inWord : Bool), calls n inWord s = true ↔
    ∃ pre post, s = pre ++ n ++ utf8 "(" ++ post ∧ (pre = [] ∧ inWord = false ∨ Opens pre = true)
  | [], inWord => by
    simp only [calls, Bool.false_eq_true, false_iff]
    rintro ⟨pre, post, h, -⟩
    simp [utf8] at h
  | b :: s, inWord => by
    rw [calls, Bool.or_eq_true, Bool.and_eq_true, Bool.not_eq_true', List.isPrefixOf_iff_prefix, calls_from_iff s]
    constructor
    · rintro (⟨hword, post, hpost⟩ | ⟨pre, post, rfl, hpre⟩)
      · exact ⟨[], post, hpost.symm, .inl ⟨rfl, hword⟩⟩
      · refine ⟨b :: pre, post, rfl, .inr ?_⟩
        rcases hpre with ⟨rfl, hword⟩ | hpre
        · simp [Opens, hword]
        · exact opens_append [b] hpre
    · rintro ⟨pre, post, hs, hpre⟩
      cases pre with
      | nil =>
        rcases hpre with ⟨-, hword⟩ | hpre
        · exact .inl ⟨hword, post, hs.symm⟩
        · cases hpre
      | cons a pre =>
        rw [List.cons_append, List.cons_append, List.cons_append, List.cons.injEq] at hs
        obtain ⟨rfl, rfl⟩ := hs
        refine .inr ⟨pre, post, rfl, ?_⟩
        have hopens : Opens (b :: pre) = true := hpre.resolve_left fun h => List.cons_ne_nil _ _ h.1
        cases pre with
        | nil => exact .inl ⟨rfl, by simpa [Opens] using hopens⟩
        | cons c pre => exact .inr (by simpa [Opens, List.getLast?_cons_cons] using hopens)

/-- **The search finds the calls.** -/
theorem calls_iff {n s : Bytes} : calls n false s = true ↔ Called n s := by
  simp only [calls_from_iff, and_true, Called]

/-! ## Modules and their bodies -/

/-- The module around an exported interface without the import in front. -/
def exportsBody (i : Interface) : Bytes :=
  unlines <|
    flagConstants i ++ [utf8 "export class " ++ exportsClass i.name ++ utf8 " \x7b"]
      ++ indent unit (classHead ++ i.functions.flatMap (method i)) ++ [utf8 "\x7d"]

/-- The module that registers an imported interface without the import in front. -/
def importsBody (i : Interface) : Bytes :=
  unlines <|
    flagConstants i
      ++ [utf8 "export function " ++ importsFunction i.name ++ utf8 "(imports, obj, getExport) \x7b"]
      ++ indent unit ([utf8 "if (!(" ++ i.name.quote ++ utf8 " in imports)) \x7b",
          utf8 "  imports[" ++ i.name.quote ++ utf8 "] = \x7b\x7d;", utf8 "\x7d"]
        ++ i.functions.flatMap (wrapper i))
      ++ [utf8 "\x7d"]

/-- The helpers that are called in a text. -/
def usedIn (body : Bytes) : List Helper := Helper.all.filter fun h => calls h.word false body

/-- The import of helpers, with an empty line behind it; nothing when there are none. -/
def importLine (used : List Helper) : Bytes :=
  if used.isEmpty then []
  else utf8 "import \x7b " ++ Dialect.commas (used.map Helper.word) ++ utf8 " \x7d from \"./" ++ helpersFile
    ++ utf8 "\";\n\n"

theorem withImports_eq (body : Bytes) : withImports body = importLine (usedIn body) ++ body := by
  rw [withImports, importLine]
  by_cases h : (usedIn body).isEmpty = true
  · exact (if_pos h).trans (by rw [if_pos h, List.nil_append])
  · exact (if_neg h).trans (by rw [if_neg h]; rfl)

theorem exportsModule_eq (i : Interface) : exportsModule i = importLine (usedIn (exportsBody i)) ++ exportsBody i :=
  withImports_eq _

theorem importsModule_eq (i : Interface) : importsModule i = importLine (usedIn (importsBody i)) ++ importsBody i :=
  withImports_eq _

theorem mem_usedIn {h : Helper} {body : Bytes} : h ∈ usedIn body ↔ Called h.word body := by
  rw [usedIn, List.mem_filter, calls_iff]
  exact and_iff_right (show h ∈ Helper.all by cases h <;> decide)

end JavaScript

/-! ## What a method calls -/

/-- The functions of the runtime that the call of an exported function calls. -/
def ExportCall.callees (own : OwnCalls) (call : ExportCall) : List Callee :=
  call.stmts.flatMap (Stmt.callees own) ++ Expr.allCallees own (call.args ++ call.result.toList)

namespace JavaScript

/-- The functions of the runtime that the method around an exported function calls; a stub reports
that it is one. -/
def methodCallees (i : Interface) (f : Func) : List Callee :=
  match exportCallOf i f ((methodParams f).map .var) with
  | .ok call => call.callees ownCalls
  | .error _ => [.helper .unsupported]

variable {i : Interface} {f : Func} {c : Callee}

/-- Every function of the runtime that a method calls is called in a line of its body. -/
theorem called_exportBody {call : ExportCall} (h : c ∈ call.callees ownCalls) :
    ∃ l ∈ exportBody f call, Called (c.word dialect) l := by
  rw [ExportCall.callees, List.mem_append, Expr.allCallees_append, List.mem_append] at h
  unfold exportBody
  rcases h with h | h | h
  · obtain ⟨stmt, hstmt, hc⟩ := List.mem_flatMap.1 h
    refine ⟨stmt.print dialect, ?_, called_stmt dialect_shows stmt hc⟩
    simp only [List.mem_append, List.mem_map_of_mem hstmt, or_true, true_or]
  · obtain ⟨a, ha, hcalled⟩ := called_printAll dialect_shows call.args h
    rw [Expr.printAll_eq_map] at ha
    have hinvoke : Called (c.word dialect) (utf8 "this._exports[" ++ f.name.quote ++ utf8 "]("
        ++ Dialect.commas (call.args.map (Expr.print dialect)) ++ utf8 ")") :=
      (hcalled.commas ha).inside (opens_append _ (by decide)) _
    rcases hresult : call.result with _ | r
    · exact ⟨_, by simp, hinvoke.before (utf8 ";")⟩
    · exact ⟨_, by simp, hinvoke.inside (a := utf8 "const ret = ") (by decide) (utf8 ";")⟩
  · rcases hresult : call.result with _ | r
    · rw [hresult] at h
      cases h
    · rw [hresult, Option.toList_some, Expr.allCallees, Expr.allCallees, List.append_nil] at h
      have hcalled := called_print dialect_shows r h
      rcases hindirect : call.indirect with _ | _
      · exact ⟨_, by simp, hcalled.inside (a := utf8 "return ") (by decide) (utf8 ";")⟩
      · exact ⟨_, by simp, hcalled.inside (a := utf8 "const result = ") (by decide) (utf8 ";")⟩

theorem called_stub (f : Func) (why : Unsupported) : Called (utf8 "unsupported") (stub f why) :=
  ((Called.head (utf8 "unsupported") _).before _)

/-- Every function of the runtime that a method calls is called in its text. -/
theorem called_method (h : c ∈ methodCallees i f) : ∃ l ∈ method i f, Called (c.word dialect) l := by
  rw [methodCallees] at h
  have hline : ∀ {l : Line} {ls : List Line}, l ∈ ls → Called (c.word dialect) l →
      ∃ l' ∈ [[], CaseStyle.camel f.name ++ utf8 "(" ++ Dialect.commas (methodParams f) ++ utf8 ") \x7b"]
        ++ indent unit ls ++ [utf8 "\x7d"], Called (c.word dialect) l' := by
    intro l ls hl hcalled
    exact ⟨unit ++ l, by simp [mem_indent hl hcalled.ne_nil], hcalled.after (by decide)⟩
  rw [method]
  split at h
  · rename_i call hcall
    obtain ⟨l, hl, hcalled⟩ := @called_exportBody f c call h
    simp only [hcall]
    exact hline hl hcalled
  · rename_i why hcall
    obtain rfl := List.mem_singleton.1 h
    simp only [hcall]
    exact hline (List.mem_singleton_self _) (called_stub f why)

/-- Every function of the runtime that a wrapper or its stub calls is called in its text. -/
theorem called_wrapper_or_stub (h : c ∈ wrapperCallees ownCalls i f) :
    ∃ l ∈ wrapper i f, Called (c.word dialect) l := by
  cases hcall : importCallOf i f with
  | ok call =>
    rw [wrapperCallees_ok hcall] at h
    exact called_wrapper hcall h
  | error why =>
    rw [wrapperCallees, hcall] at h
    obtain rfl := List.mem_singleton.1 h
    have hcalled := called_stub f why
    rw [wrapper, hcall]
    exact ⟨unit ++ stub f why, by simp [mem_indent (List.mem_singleton_self _) hcalled.ne_nil],
      hcalled.after (by decide)⟩

end JavaScript

/-! ## Calls in a module -/

/-- A call in a line is a call in the text of all lines. -/
theorem called_unlines {n l : Bytes} {ls : List Line} (hl : l ∈ ls) (h : Called n l) : Called n (unlines ls) := by
  obtain ⟨before, after, rfl⟩ := List.append_of_mem hl
  rw [unlines, List.flatMap_append, List.flatMap_cons, ← List.append_assoc]
  refine Called.before ?_ _
  have hline : Called n (Bytes.line l) := h.before _
  rcases List.eq_nil_or_concat before with rfl | ⟨init, last, rfl⟩
  · exact hline
  · refine hline.after ?_
    rw [List.concat_eq_append, List.flatMap_append, List.flatMap_cons, List.flatMap_nil, List.append_nil, Bytes.line]
    exact opens_append _ (opens_append _ (by decide))

namespace JavaScript

variable {i : Interface}

theorem called_exportsBody {f : Func} (hf : f ∈ i.functions) {c : Callee} (h : c ∈ methodCallees i f) :
    Called (c.word dialect) (exportsBody i) := by
  obtain ⟨l, hl, hcalled⟩ := called_method h
  have hmem : l ∈ classHead ++ i.functions.flatMap (method i) :=
    List.mem_append_right _ (List.mem_flatMap.2 ⟨f, hf, hl⟩)
  refine called_unlines (l := unit ++ l) ?_ (hcalled.after (by decide))
  simp only [List.mem_append, mem_indent hmem hcalled.ne_nil, or_true, true_or]

theorem called_importsBody {f : Func} (hf : f ∈ i.functions) {c : Callee} (h : c ∈ wrapperCallees ownCalls i f) :
    Called (c.word dialect) (importsBody i) := by
  obtain ⟨l, hl, hcalled⟩ := called_wrapper_or_stub h
  have hmem : l ∈ [utf8 "if (!(" ++ i.name.quote ++ utf8 " in imports)) \x7b",
      utf8 "  imports[" ++ i.name.quote ++ utf8 "] = \x7b\x7d;", utf8 "\x7d"] ++ i.functions.flatMap (wrapper i) :=
    List.mem_append_right _ (List.mem_flatMap.2 ⟨f, hf, hl⟩)
  refine called_unlines (l := unit ++ l) ?_ (hcalled.after (by decide))
  simp only [List.mem_append, mem_indent hmem hcalled.ne_nil, or_true, true_or]

/-- A module is its body behind an import of exactly the helpers that are called in the body, and
those that its functions need are among them. -/
structure ImportsHelpers (module body : Bytes) (needs : List Callee) : Prop where
  module : module = importLine (usedIn body) ++ body
  used : ∀ h, h ∈ usedIn body ↔ Called h.word body
  needs : ∀ h, .helper h ∈ needs → h ∈ usedIn body

/-- **Modules import the helpers they call**, whatever the interface. -/
theorem modules_import_helpers (i : Interface) :
    ImportsHelpers (exportsModule i) (exportsBody i) (i.functions.flatMap (methodCallees i)) ∧
      ImportsHelpers (importsModule i) (importsBody i) (i.functions.flatMap (wrapperCallees ownCalls i)) := by
  refine ⟨⟨exportsModule_eq i, fun _ => mem_usedIn, fun h hh => ?_⟩, importsModule_eq i, fun _ => mem_usedIn, fun h hh => ?_⟩
  · obtain ⟨f, hf, hc⟩ := List.mem_flatMap.1 hh
    exact mem_usedIn.2 (called_exportsBody hf hc)
  · obtain ⟨f, hf, hc⟩ := List.mem_flatMap.1 hh
    exact mem_usedIn.2 (called_importsBody hf hc)

end JavaScript
end Bindery.Glue
