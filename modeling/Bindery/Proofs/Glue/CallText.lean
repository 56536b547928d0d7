/-
Calls in the text of code. `Called n s` says that the name `n` stands in the text `s` right
before an opening bracket and is no part of a longer name. A dialect puts the text of a part
behind a bracket, a space or nothing at all, so a call in a part is a call in the whole
(`Dialect.Shows`), and every function of the runtime that code calls is called in the text that
either dialect makes of it (`called_print`).
-/
import Bindery.Proofs.Glue.Callees

namespace Bindery.Glue

/-- A text after which a name can start: it ends in an octet that is no part of a name. -/
def Opens (s : Bytes) : Bool := s.getLast?.any fun b => !Byte.isWord b

/-- The name stands in the text before an opening bracket, and not as the end of a longer name. -/
def Called (n s : Bytes) : Prop :=
  ∃ pre post, s = pre ++ n ++ utf8 "(" ++ post ∧ (pre = [] ∨ Opens pre = true)

variable {n s : Bytes}

theorem opens_append (a : Bytes) {b : Bytes} (h : Opens b = true) : Opens (a ++ b) = true := by
  unfold Opens at *
  rw [List.getLast?_append]
  cases hb : b.getLast? with
  | none => simp [hb] at h
  | some x => simpa [hb] using h

namespace Called

theorem head (n args : Bytes) : Called n (n ++ utf8 "(" ++ args) := ⟨[], args, by simp, .inl rfl⟩

/-- More text behind. -/
theorem before (h : Called n s) (b : Bytes) : Called n (s ++ b) := by
  obtain ⟨pre, post, rfl, hpre⟩ := h
  exact ⟨pre, post ++ b, by simp, hpre⟩

/-- More text in front, which does not run into the name. -/
theorem after (h : Called n s) {a : Bytes} (ha : Opens a = true) : Called n (a ++ s) := by
  obtain ⟨pre, post, rfl, hpre⟩ := h
  refine ⟨a ++ pre, post, by simp, .inr ?_⟩
  rcases hpre with rfl | hpre
  · simpa using ha
  · exact opens_append a hpre

/-- Between two pieces of text. -/
theorem inside (h : Called n s) {a : Bytes} (ha : Opens a = true) (b : Bytes) : Called n (a ++ s ++ b) :=
  (h.after ha).before b

theorem ne_nil (h : Called n s) : s ≠ [] := by
  obtain ⟨pre, post, rfl, -⟩ := h
  simp [utf8]

theorem commas {es : List Bytes} {e : Bytes} (he : e ∈ es) (h : Called n e) : Called n (Dialect.commas es) := by
  unfold Dialect.commas
  induction es with
  | nil => cases he
  | cons e' es ih =>
    rcases List.mem_cons.1 he with rfl | he
    · cases es with
      | nil => simpa [Bytes.join] using h
      | cons e' es => simpa [Bytes.join] using h.before _
    · cases es with
      | nil => cases he
      | cons e'' es =>
        have hcomma : Opens (e' ++ utf8 ", ") = true := opens_append e' (by decide)
        simpa [Bytes.join] using (ih he).after hcomma

end Called

/-- What a dialect makes of the text of a part shows the calls of the part, and its own. -/
structure Dialect.Shows (d : Dialect) (own : OwnCalls) : Prop where
  lambda : ∀ {n e}, Called n e → ∀ ps, Called n (d.lambda ps e)
  test : ∀ {n e}, Called n e → ∀ tag yes no, Called n (d.cond (d.equal e tag) yes no)
  yes : ∀ {n e}, Called n e → ∀ test no, Called n (d.cond test e no)
  no : ∀ {n e}, Called n e → ∀ test yes, Called n (d.cond test yes e)
  record : ∀ {n f fs}, f ∈ fs → Called n f.2 → ∀ t, Called n (d.record t fs)
  tuple : ∀ {n e es}, e ∈ es → Called n e → Called n (d.tuple es)
  assign : ∀ {n e}, Called n e → ∀ ns, Called n (d.assign ns e)
  lowerPrim : ∀ {n e}, Called n e → ∀ k, Called n (d.lowerPrim k e)
  liftPrim : ∀ {n e}, Called n e → ∀ k, Called n (d.liftPrim k e)
  lowerEnum : ∀ {n e}, Called n e → ∀ t cs, Called n (d.lowerEnum t cs e)
  liftEnum : ∀ {n e}, Called n e → ∀ t cs, Called n (d.liftEnum t cs e)
  lowerFlags : ∀ {n e}, Called n e → ∀ t, Called n (d.lowerFlags t e)
  liftFlags : ∀ {n e}, Called n e → ∀ t, Called n (d.liftFlags t e)
  ok : ∀ {n e}, Called n e → Called n (d.ok e)
  err : ∀ {n e}, Called n e → Called n (d.err e)
  caseOf : ∀ {n e}, Called n e → ∀ t c, Called n (d.variantCase t c e)
  ownLiftPrim : ∀ {k c}, c ∈ own.liftPrim k → ∀ e, Called (c.word d) (d.liftPrim k e)
  ownLowerEnum : ∀ {c}, c ∈ own.lowerEnum → ∀ t cs e, Called (c.word d) (d.lowerEnum t cs e)
  ownLiftEnum : ∀ {c}, c ∈ own.liftEnum → ∀ t cs e, Called (c.word d) (d.liftEnum t cs e)

theorem JavaScript.dialect_shows : JavaScript.dialect.Shows JavaScript.ownCalls where
  lambda h ps := h.inside (opens_append _ (by decide)) _
  test h tag yes no := by
    have htest : Called _ (JavaScript.dialect.equal _ tag) := (h.before _).before _
    exact ((((htest.after (by decide)).before _).before _).before _).before _ |>.before _
  yes h test no := (((h.after (opens_append _ (by decide))).before _).before _).before _
  no h test yes := h.inside (opens_append _ (by decide)) _
  record {n f fs} hf h t := by
    have hfield : Called n (CaseStyle.camel f.1 ++ utf8 ": " ++ f.2) := h.after (opens_append _ (by decide))
    exact (hfield.commas (List.mem_map.2 ⟨f, hf, rfl⟩)).inside (by decide) _
  tuple he h := (h.commas he).inside (by decide) _
  assign h ns := h.inside (opens_append _ (by decide)) _
  lowerPrim h k := by
    cases k with
    | bool | u64 | s64 => exact h.inside (by decide) _
    | char => exact h.before _
    | _ => exact h
  liftPrim h k := by
    cases k with
    | s32 | s64 | f32 | f64 => exact h
    | _ => exact h.inside (by decide) _
  lowerEnum h t cs := h.inside (opens_append _ (by decide)) _
  liftEnum h t cs := h.inside (opens_append _ (by decide)) _
  lowerFlags h _ := h
  liftFlags h _ := h
  ok h := h.inside (opens_append _ (by decide)) _
  err h := h.inside (opens_append _ (by decide)) _
  caseOf {n e} h t c := by
    have hne : ¬e.isEmpty = true := by simpa using h.ne_nil
    simp only [JavaScript.dialect, if_neg hne]
    exact h.inside (opens_append _ (by decide)) _
  ownLiftPrim hc := by simp [ownCalls] at hc
  ownLowerEnum hc t cs e := by
    obtain rfl := List.mem_singleton.1 hc
    exact (((Called.head (utf8 "lowerEnum") _).before _).before _).before _
  ownLiftEnum hc t cs e := by
    obtain rfl := List.mem_singleton.1 hc
    exact (((Called.head (utf8 "liftEnum") _).before _).before _).before _

theorem Python.dialect_shows : Python.dialect.Shows Python.ownCalls where
  lambda h ps := h.inside (opens_append _ (by decide)) _
  test h tag yes no := by
    have htest : Called _ (Python.dialect.equal _ tag) := (h.before _).before _
    exact (((htest.after (opens_append _ (by decide))).before _).before _).before _
  yes h test no := (((((h.after (by decide)).before _).before _).before _).before _).before _
  no h test yes := h.inside (opens_append _ (by decide)) _
  record {n f fs} hf h t := by
    have hfield : Called n (snakeIdent f.1 ++ utf8 "=" ++ f.2) := h.after (opens_append _ (by decide))
    exact (hfield.commas (List.mem_map.2 ⟨f, hf, rfl⟩)).inside (opens_append _ (by decide)) _
  tuple {n e es} he h := by
    match es, he with
    | [e'], he =>
      obtain rfl := List.mem_singleton.1 he
      exact h.inside (by decide) _
    | e' :: e'' :: es, he => exact (h.commas he).inside (by decide) _
  assign h ns := h.after (opens_append _ (by decide))
  lowerPrim h k := by
    cases k with
    | bool | char => exact h.inside (by decide) _
    | _ => exact h
  liftPrim h k := by
    cases k with
    | s32 | s64 | f32 | f64 => exact h
    | _ => exact h.inside (by decide) _
  lowerEnum h t cs := h.inside (by decide) _
  liftEnum h t cs := h.inside (opens_append _ (by decide)) _
  lowerFlags h _ := h.inside (by decide) _
  liftFlags h _ := h.inside (opens_append _ (by decide)) _
  ok h := h.inside (by decide) _
  err h := h.inside (by decide) _
  caseOf h t c := h.inside (opens_append _ (by decide)) _
  ownLiftPrim {k c} hc e := by
    cases k with
    | s8 | s16 =>
      obtain rfl := List.mem_singleton.1 hc
      exact ((Called.head (utf8 "_signed") e).before _)
    | _ => cases hc
  ownLowerEnum hc := by cases hc
  ownLiftEnum hc := by cases hc

/-! ## Calls in the text of code -/

section Print

variable {d : Dialect} {own : OwnCalls}

theorem called_call (d : Dialect) (h : Helper) (args : List Bytes) : Called (d.helper h) (d.call h args) :=
  (Called.head (d.helper h) _).before _

theorem called_arg {h : Helper} {args : List Bytes} {a : Bytes} (ha : a ∈ args) (hn : Called n a) :
    Called n (d.call h args) :=
  (hn.commas ha).inside (opens_append _ (by decide)) _

theorem called_sequence {es : List Bytes} {e : Bytes} (he : e ∈ es) (h : Called n e) : Called n (d.sequence es) := by
  match es, he with
  | [e'], he =>
    obtain rfl := List.mem_singleton.1 he
    exact h
  | e' :: e'' :: es, he => exact (h.commas he).inside (by decide) _

mutual

/-- Every function of the runtime that code calls is called in its text. -/
theorem called_print (hd : d.Shows own) {c : Callee} : ∀ (e : Expr), c ∈ e.callees own → Called (c.word d) (e.print d)
  | .var _, h | .null, h | .caseOnly _ _, h => by simp [Expr.callees] at h
  | .field e _, h => by
    rw [Expr.callees] at h
    rw [Expr.print]
    exact ((called_print hd e h).before _).before _
  | .nth e _, h => by
    rw [Expr.callees] at h
    rw [Expr.print]
    exact (((called_print hd e h).before _).before _).before _
  | .lowerPrim k e, h => by
    rw [Expr.callees] at h
    exact hd.lowerPrim (called_print hd e h) k
  | .lowerFlags t e, h => by
    rw [Expr.callees] at h
    exact hd.lowerFlags (called_print hd e h) t
  | .liftFlags t e, h => by
    rw [Expr.callees] at h
    exact hd.liftFlags (called_print hd e h) t
  | .ok e, h => by
    rw [Expr.callees] at h
    exact hd.ok (called_print hd e h)
  | .err e, h => by
    rw [Expr.callees] at h
    exact hd.err (called_print hd e h)
  | .caseOf t k e, h => by
    rw [Expr.callees] at h
    exact hd.caseOf (called_print hd e h) t k
  | .liftPrim k e, h => by
    rw [Expr.callees, List.mem_append] at h
    rcases h with h | h
    · exact hd.ownLiftPrim h _
    · exact hd.liftPrim (called_print hd e h) k
  | .lowerEnum t cs e, h => by
    rw [Expr.callees, List.mem_append] at h
    rcases h with h | h
    · exact hd.ownLowerEnum h t cs _
    · exact hd.lowerEnum (called_print hd e h) t cs
  | .liftEnum t cs e, h => by
    rw [Expr.callees, List.mem_append] at h
    rcases h with h | h
    · exact hd.ownLiftEnum h t cs _
    · exact hd.liftEnum (called_print hd e h) t cs
  | .load k p, h => by
    rw [Expr.callees, List.mem_singleton] at h
    rw [h, Expr.print]
    exact called_call d _ _
  | .loadString p, h => by
    rw [Expr.callees, List.mem_singleton] at h
    rw [h, Expr.print]
    exact called_call d _ _
  | .store k p e, h => by
    rw [Expr.callees, List.mem_cons] at h
    rw [Expr.print]
    rcases h with rfl | h
    · exact called_call d _ _
    · exact called_arg (by simp) (called_print hd e h)
  | .storeString p e, h => by
    rw [Expr.callees, List.mem_cons] at h
    rw [Expr.print]
    rcases h with rfl | h
    · exact called_call d _ _
    · exact called_arg (by simp) (called_print hd e h)
  | .decodeString ptr len, h => by
    rw [Expr.callees, List.mem_cons, List.mem_append] at h
    rw [Expr.print]
    rcases h with rfl | h | h
    · exact called_call d _ _
    · exact called_arg (by simp) (called_print hd ptr h)
    · exact called_arg (by simp) (called_print hd len h)
  | .liftList ptr len stride base elem, h => by
    rw [Expr.callees, List.mem_cons, List.mem_append, List.mem_append] at h
    rw [Expr.print]
    rcases h with rfl | (h | h) | h
    · exact called_call d _ _
    · exact called_arg (by simp) (called_print hd ptr h)
    · exact called_arg (by simp) (called_print hd len h)
    · exact called_arg (by simp) (hd.lambda (called_print hd elem h) [base])
  | .loadList p stride base elem, h => by
    rw [Expr.callees, List.mem_cons] at h
    rw [Expr.print]
    rcases h with rfl | h
    · exact called_call d _ _
    · exact called_arg (by simp) (hd.lambda (called_print hd elem h) [base])
  | .storeList p e stride align item base elem, h => by
    rw [Expr.callees, List.mem_cons, List.mem_append] at h
    rw [Expr.print]
    rcases h with rfl | h | h
    · exact called_call d _ _
    · exact called_arg (by simp) (called_print hd e h)
    · exact called_arg (by simp) (hd.lambda (called_print hd elem h) [item, base])
  | .record t fs, h => by
    rw [Expr.callees] at h
    obtain ⟨f, hf, hcalled⟩ := called_printFields hd fs h
    exact hd.record hf hcalled t
  | .tuple es, h => by
    rw [Expr.callees] at h
    obtain ⟨e, he, hcalled⟩ := called_printAll hd es h
    exact hd.tuple he hcalled
  | .steps es, h => by
    rw [Expr.callees] at h
    obtain ⟨e, he, hcalled⟩ := called_printAll hd es h
    exact called_sequence he hcalled
  | .whenTag k p tag yes no, h => by
    rw [Expr.callees, List.mem_cons, List.mem_append] at h
    rw [Expr.print]
    rcases h with rfl | h | h
    · exact hd.test (called_call d _ _) _ _ _
    · exact hd.yes (called_print hd yes h) _ _
    · exact hd.no (called_print hd no h) _ _

theorem called_printAll (hd : d.Shows own) {c : Callee} : ∀ (es : List Expr), c ∈ Expr.allCallees own es →
    ∃ s ∈ Expr.printAll d es, Called (c.word d) s
  | [], h => by simp [Expr.allCallees] at h
  | e :: es, h => by
    rw [Expr.allCallees, List.mem_append] at h
    rw [Expr.printAll]
    rcases h with h | h
    · exact ⟨_, by simp, called_print hd e h⟩
    · obtain ⟨s, hs, hcalled⟩ := called_printAll hd es h
      exact ⟨s, by simp [hs], hcalled⟩

theorem called_printFields (hd : d.Shows own) {c : Callee} : ∀ (fs : List (Bytes × Expr)),
    c ∈ Expr.fieldCallees own fs → ∃ f ∈ Expr.printFields d fs, Called (c.word d) f.2
  | [], h => by simp [Expr.fieldCallees] at h
  | (k, e) :: fs, h => by
    rw [Expr.fieldCallees, List.mem_append] at h
    rw [Expr.printFields]
    rcases h with h | h
    · exact ⟨(k, e.print d), by simp, called_print hd e h⟩
    · obtain ⟨f, hf, hcalled⟩ := called_printFields hd fs h
      exact ⟨f, by simp [hf], hcalled⟩

end

theorem called_stmt (hd : d.Shows own) {c : Callee} (stmt : Stmt) (h : c ∈ stmt.callees own) :
    Called (c.word d) (stmt.print d) := by
  cases stmt with
  | encodeString ptr len v =>
    rw [Stmt.callees, List.mem_cons] at h
    rcases h with rfl | h
    · exact hd.assign (called_call d _ _) _
    · exact hd.assign (called_arg (by simp) (called_print hd v h)) _
  | lowerList ptr len v stride align item base elem =>
    rw [Stmt.callees, List.mem_cons, List.mem_append] at h
    rcases h with rfl | h | h
    · exact hd.assign (called_call d _ _) _
    · exact hd.assign (called_arg (by simp) (called_print hd v h)) _
    · exact hd.assign (called_arg (by simp) (hd.lambda (called_print hd elem h) [item, base])) _

theorem Expr.printAll_eq_map (d : Dialect) (es : List Expr) : Expr.printAll d es = es.map (Expr.print d) := by
  induction es with
  | nil => rfl
  | cons e es ih => rw [Expr.printAll, ih, List.map_cons]

/-- A call in a wrapper is in an argument, in a statement, or in what the statements are for. -/
theorem called_importCall (hd : d.Shows own) {c : Callee} {call : ImportCall} (h : c ∈ call.callees own) :
    Called (c.word d) (Dialect.commas (call.args.map (Expr.print d))) ∨
      (∃ stmt ∈ call.tail.1, Called (c.word d) (stmt.print d)) ∨ ∃ e ∈ call.tail.2, Called (c.word d) (e.print d) := by
  rw [ImportCall.callees, List.mem_append, List.mem_append] at h
  rcases h with h | h | h
  · obtain ⟨s, hs, hcalled⟩ := called_printAll hd call.args h
    rw [Expr.printAll_eq_map] at hs
    exact .inl (hcalled.commas hs)
  · obtain ⟨stmt, hstmt, hc⟩ := List.mem_flatMap.1 h
    exact .inr (.inl ⟨stmt, hstmt, called_stmt hd stmt hc⟩)
  · obtain ⟨s, hs, hcalled⟩ := called_printAll hd call.tail.2 h
    rw [Expr.printAll_eq_map] at hs
    obtain ⟨e, he, rfl⟩ := List.mem_map.1 hs
    exact .inr (.inr ⟨e, he, hcalled⟩)

/-- The lines of a wrapper behind its first ones, put together by how a dialect keeps the result
of a call, returns one and closes a line. -/
def ImportCall.lines (call : ImportCall) (d : Dialect) (invoke : Bytes) (keep give close : Bytes → Bytes) :
    List Bytes :=
  match call.store, call.lower with
  | some s, _ => [keep invoke] ++ call.stmts.map (Stmt.print d) ++ [close (s.print d)]
  | none, some e => [keep invoke] ++ call.stmts.map (Stmt.print d) ++ [give (e.print d)]
  | none, none => [close invoke]

/-- A dialect whose lines show the calls in what they are made of shows those of a wrapper. -/
theorem called_lines (hd : d.Shows own) {c : Callee} {call : ImportCall} (h : c ∈ call.callees own)
    {invoke : Bytes} {keep give close : Bytes → Bytes} {first : List Bytes}
    (hinvoke : Called (c.word d) (Dialect.commas (call.args.map (Expr.print d))) → Called (c.word d) invoke)
    (hkeep : ∀ {s}, Called (c.word d) s → Called (c.word d) (keep s))
    (hgive : ∀ {s}, Called (c.word d) s → Called (c.word d) (give s))
    (hclose : ∀ {s}, Called (c.word d) s → Called (c.word d) (close s)) :
    ∃ l ∈ first ++ call.lines d invoke keep give close, Called (c.word d) l := by
  have hparts := called_importCall hd h
  unfold ImportCall.lines
  rcases hstore : call.store with _ | e
  · rcases hlower : call.lower with _ | e
    · simp only [ImportCall.tail, hstore, hlower, List.not_mem_nil, false_and, exists_false, or_false] at hparts
      exact ⟨close invoke, by simp, hclose (hinvoke hparts)⟩
    · simp only [ImportCall.tail, hstore, hlower, List.mem_singleton, exists_eq_left] at hparts
      rcases hparts with hargs | ⟨stmt, hstmt, hc⟩ | hc
      · exact ⟨keep invoke, by simp, hkeep (hinvoke hargs)⟩
      · exact ⟨stmt.print d, by simp only [List.mem_append, List.mem_map_of_mem hstmt, true_or, or_true], hc⟩
      · exact ⟨give (e.print d), by simp, hgive hc⟩
  · simp only [ImportCall.tail, hstore, List.mem_singleton, exists_eq_left] at hparts
    rcases hparts with hargs | ⟨stmt, hstmt, hc⟩ | hc
    · exact ⟨keep invoke, by simp, hkeep (hinvoke hargs)⟩
    · exact ⟨stmt.print d, by simp only [List.mem_append, List.mem_map_of_mem hstmt, true_or, or_true], hc⟩
    · exact ⟨close (e.print d), by simp, hclose hc⟩

end Print

theorem JavaScript.importBody_eq (f : Func) (call : ImportCall) : importBody f call =
    fixed ["const memory = getExport(\"memory\");", "const realloc = getExport(\"cabi_realloc\");"]
      ++ call.lines dialect
        (utf8 "obj." ++ CaseStyle.camel f.name ++ utf8 "("
          ++ Dialect.commas (call.args.map (Expr.print dialect)) ++ utf8 ")")
        (fun s => utf8 "const result = " ++ s ++ utf8 ";") (fun s => utf8 "return " ++ s ++ utf8 ";")
        (fun s => s ++ utf8 ";") := rfl

theorem Python.importBody_eq (f : Func) (call : ImportCall) : importBody f call =
    fixed ["memory = get_export(\"memory\")", "realloc = get_export(\"cabi_realloc\")"]
      ++ call.lines dialect
        (utf8 "host." ++ snakeIdent f.name ++ utf8 "("
          ++ Dialect.commas (call.args.map (Expr.print dialect)) ++ utf8 ")")
        (fun s => utf8 "result = " ++ s) (fun s => utf8 "return " ++ s) (fun s => s) := rfl

/-- Every function of the runtime that a wrapper calls is called in a line of its body. -/
theorem JavaScript.called_importBody {f : Func} {call : ImportCall} {c : Callee} (h : c ∈ call.callees ownCalls) :
    ∃ l ∈ importBody f call, Called (c.word dialect) l := by
  rw [importBody_eq]
  exact called_lines dialect_shows h (fun hargs => hargs.inside (opens_append _ (by decide)) _)
    (fun hs => hs.inside (by decide) _) (fun hs => hs.inside (by decide) _) (fun hs => hs.before _)

theorem Python.called_importBody {f : Func} {call : ImportCall} {c : Callee} (h : c ∈ call.callees ownCalls) :
    ∃ l ∈ importBody f call, Called (c.word dialect) l := by
  rw [importBody_eq]
  exact called_lines dialect_shows h (fun hargs => hargs.inside (opens_append _ (by decide)) _)
    (fun hs => hs.after (by decide)) (fun hs => hs.after (by decide)) id

end Bindery.Glue
