/-
Which functions of the runtime a wrapper around a host function reaches. A wrapper has a name
made of that of its function, and this name, like every other one bound around its body, hides
a function of the runtime that is named the same. In JavaScript a wrapper's name is known inside
the wrapper only; in Python the names of all wrappers of an interface are known inside each of
them.

Main statement: a wrapper reaches the functions that it calls if and only if no name of an
imported function is turned into that of a function that the types around it need. Nothing else
that is bound there is ever in the way.
-/
import Bindery.Proofs.Bytes.Decimal
import Bindery.Proofs.Bytes.Trim
import Bindery.Proofs.Glue.CallText
import Bindery.Proofs.Interface.Scope

namespace Bindery.Glue

/-! ## What a wrapper needs -/

/-- What the wrapper of an imported function calls; a stub reports that it is one. -/
def wrapperCallees (own : OwnCalls) (i : Interface) (f : Func) : List Callee :=
  match importCallOf i f with
  | .ok call => call.callees own
  | .error _ => [.helper .unsupported]

/-- What the types of an imported function need of the runtime. -/
def needed (own : OwnCalls) (i : Interface) (f : Func) : List Callee :=
  match i.shapedFunc? f, importCallOf i f with
  | some sf, .ok _ => wrapperCalls own sf
  | _, _ => [.helper .unsupported]

variable {own : OwnCalls} {i : Interface} {f : Func} {call : ImportCall}

theorem wrapperCallees_ok (h : importCallOf i f = .ok call) : wrapperCallees own i f = call.callees own := by
  rw [wrapperCallees, h]

/-- The code of a wrapper, and what its types need. -/
theorem importCallOf_uses (h : importCallOf i f = .ok call) :
    Uses (call.callees own) call.binders (needed own i f) := by
  obtain ⟨sf, hsf, hcall⟩ := importCallOf_eq_ok.1 h
  rw [needed, h, hsf]
  exact importCall_uses hcall

theorem mem_wrapperCallees {c : Callee} : c ∈ wrapperCallees own i f ↔ c ∈ needed own i f := by
  cases h : importCallOf i f with
  | ok call => rw [wrapperCallees_ok h, (importCallOf_uses h).calls]
  | error u =>
    rw [wrapperCallees, needed, h]
    cases i.shapedFunc? f <;> rfl

/-! ## Names that are never in the way -/

theorem isDigit_of_numbered {n : Bytes} (h : Numbered n) : ∃ b, n.getLast? = some b ∧ Byte.isDigit b = true := by
  obtain ⟨stem, k, rfl⟩ := h
  obtain ⟨c, hc⟩ := Option.ne_none_iff_exists'.1 (mt List.getLast?_eq_none_iff.1 (Nat.toDigits_ne_nil (n := k) (b := 10)))
  have hdigit := Nat.isDigit_of_mem_toDigits (by decide) (by decide) (List.mem_of_getLast? hc)
  refine ⟨Byte.ofChar c, ?_, Byte.isDigit_ofChar hdigit⟩
  rw [List.getLast?_append, Bytes.decimal, List.getLast?_map, hc]
  rfl

/-- The functions of the runtime. -/
def Callee.all : List Callee := .signed :: Helper.all.map .helper

theorem Callee.mem_all (c : Callee) : c ∈ Callee.all := by
  cases c with
  | signed => simp [Callee.all]
  | helper h => cases h <;> simp [Callee.all, Helper.all]

/-- A name that ends in a letter, which no numbered one does. -/
def EndsInLetter (n : Bytes) : Bool := n.getLast?.any Byte.isLetter

theorem not_numbered_of_letter {n : Bytes} (h : EndsInLetter n = true) : ¬Numbered n := by
  intro hn
  obtain ⟨b, hb, hdigit⟩ := isDigit_of_numbered hn
  rw [EndsInLetter, hb] at h
  exact Byte.forall_octets (P := fun b => Byte.isDigit b = true → ¬Byte.isLetter b = true) (by decide +kernel) b hdigit h

theorem ne_underscore_of_letter {n stem : Bytes} (h : EndsInLetter n = true) : stem ++ utf8 "_" ≠ n := by
  rintro rfl
  have hlast : (stem ++ utf8 "_").getLast? = some 95 := by
    rw [List.getLast?_append]
    rfl
  rw [EndsInLetter, hlast] at h
  exact absurd h (by decide)

/-- The core parameters of a wrapper have numbered names, but for the pointer to the results. -/
theorem numbered_params (h : importCallOf i f = .ok call) {n : Bytes} (hn : n ∈ call.params) :
    Numbered n ∨ n = utf8 "retptr" :=
  (eq_of_mem_params h hn).imp_left fun ⟨k, hk⟩ => ⟨_, k, hk⟩

/-- A name that ends in a letter is none that the code of a wrapper or its parameters bind, unless it
is the pointer to the results. -/
theorem not_mem_inner (h : importCallOf i f = .ok call) {n : Bytes} (hn : EndsInLetter n = true)
    (hret : n ≠ utf8 "retptr") : n ∉ call.binders ++ call.params := by
  intro hmem
  rcases List.mem_append.1 hmem with hmem | hmem
  · exact not_numbered_of_letter hn ((@importCallOf_uses JavaScript.ownCalls _ _ _ h).binds n hmem)
  · exact (numbered_params h hmem).elim (not_numbered_of_letter hn) hret

theorem mem_indent {unit l : Bytes} {ls : List Line} (hl : l ∈ ls) (hne : l ≠ []) : unit ++ l ∈ indent unit ls :=
  List.mem_map.2 ⟨l, hl, if_neg (by simpa using hne)⟩

/-! ## JavaScript -/

namespace JavaScript

/-- The name of the wrapper around a host function. -/
def wrapperName (f : Func) : Bytes := ident (CaseStyle.camel f.name)

/-- The constants that a module declares for sets of flags. -/
def flagNames (i : Interface) : List Bytes :=
  i.types.flatMap fun d =>
    match d.body with
    | .flags fs => fs.map (flagName d.name)
    | _ => []

/-- The variables of every wrapper, and the parameters of the function around it. -/
def wrapperVars : List Bytes := fixed ["memory", "realloc", "result", "imports", "obj", "getExport"]

/-- The names bound around the code of a wrapper: by the code itself and as its parameters, as
variables, its own name, and what the module declares. -/
def namesAround (i : Interface) (f : Func) (call : ImportCall) : List Bytes :=
  (call.binders ++ call.params) ++ wrapperVars ++ [wrapperName f] ++ (importsFunction i.name :: flagNames i)

theorem wrapper_ok (h : importCallOf i f = .ok call) :
    wrapper i f =
      [utf8 "imports[" ++ i.name.quote ++ utf8 "][" ++ f.name.quote ++ utf8 "] = function " ++ wrapperName f
        ++ utf8 "(" ++ Dialect.commas call.params ++ utf8 ") \x7b"]
      ++ indent unit (importBody f call) ++ [utf8 "\x7d;"] := by
  rw [wrapper, h]
  rfl

/-- What tells a function of the runtime from the other names. -/
def IsRuntimeName (n : Bytes) : Prop :=
  EndsInLetter n = true ∧ ident n = n ∧ n ∉ utf8 "retptr" :: wrapperVars ∧ n.head? ≠ some 97 ∧
    n.any Byte.isLower = true

instance (n : Bytes) : Decidable (IsRuntimeName n) := inferInstanceAs (Decidable (_ ∧ _))

theorem isRuntimeName_word (c : Callee) : IsRuntimeName (c.word dialect) := by
  have hall : ∀ c ∈ Callee.all, IsRuntimeName (c.word dialect) := by
    unfold IsRuntimeName ident
    rw [utf8_eq_toByteArray]
    decide +kernel
  exact hall c c.mem_all

theorem ident_eq_word {n : Bytes} (c : Callee) : ident n = c.word dialect ↔ n = c.word dialect := by
  obtain ⟨hletter, hident, -⟩ := isRuntimeName_word c
  constructor
  · intro h
    unfold ident at h
    split at h
    · exact absurd h (ne_underscore_of_letter hletter)
    · exact h
  · rintro rfl
    exact hident

/-- A constant of a set of flags has no letter in lower case. -/
theorem word_not_mem_flagNames (c : Callee) : c.word dialect ∉ flagNames i := by
  intro h
  obtain ⟨d, -, hd⟩ := List.mem_flatMap.1 h
  obtain ⟨-, -, -, -, hlower⟩ := isRuntimeName_word c
  obtain ⟨b, hb, hlow⟩ := List.any_eq_true.1 hlower
  split at hd
  · obtain ⟨flag, -, hflag⟩ := List.mem_map.1 hd
    rw [← hflag, flagName, CaseStyle.screaming] at hb
    obtain ⟨b', -, rfl⟩ := List.mem_map.1 hb
    exact Byte.forall_octets (P := fun b => ¬Byte.isLower (Byte.upper b) = true) (by decide +kernel) b' hlow
  · cases hd

theorem word_ne_importsFunction (c : Callee) (iface : Bytes) : c.word dialect ≠ importsFunction iface := by
  intro h
  obtain ⟨-, -, -, hhead, -⟩ := isRuntimeName_word c
  rw [h] at hhead
  exact hhead rfl

/-- Of the names around a wrapper only its own can be that of a function of the runtime. -/
theorem word_mem_namesAround (h : importCallOf i f = .ok call) (c : Callee) :
    c.word dialect ∈ namesAround i f call ↔ CaseStyle.camel f.name = c.word dialect := by
  obtain ⟨hletter, -, hvars, -⟩ := isRuntimeName_word c
  rw [List.mem_cons, not_or] at hvars
  have hinner := not_mem_inner h hletter hvars.1
  have hmodule : c.word dialect ∉ importsFunction i.name :: flagNames i := by
    rw [List.mem_cons, not_or]
    exact ⟨word_ne_importsFunction c i.name, word_not_mem_flagNames c⟩
  rw [namesAround, List.mem_append, List.mem_append, List.mem_append, List.mem_singleton]
  simp only [hinner, hvars.2, hmodule, false_or, or_false]
  exact eq_comm.trans (ident_eq_word c)

/-- Every function of the runtime that a wrapper calls is called in its text. -/
theorem called_wrapper (h : importCallOf i f = .ok call) {c : Callee} (hc : c ∈ call.callees ownCalls) :
    ∃ l ∈ wrapper i f, Called (c.word dialect) l := by
  obtain ⟨l, hl, hcalled⟩ := @called_importBody f call c hc
  rw [wrapper_ok h]
  exact ⟨unit ++ l, by simp [mem_indent hl hcalled.ne_nil], hcalled.after (by decide)⟩

end JavaScript

/-! ## Python -/

namespace Python

/-- The name of the local function that wraps a host function. -/
def localName (f : Func) : Bytes := utf8 "_" ++ snakeIdent f.name

/-- The variables of every wrapper, and those of the function around it. -/
def wrapperVars : List Bytes :=
  fixed ["memory", "realloc", "result", "store", "imports", "host", "get_export", "functions"]

/-- The names bound around the code of a wrapper: by the code itself and as its parameters, as
variables, and for the wrappers of all functions of the interface. -/
def namesAround (i : Interface) (call : ImportCall) : List Bytes :=
  (call.binders ++ call.params) ++ wrapperVars ++ i.functions.map localName

/-- What tells a function of the runtime from the other names. -/
def IsRuntimeName (n : Bytes) : Prop :=
  EndsInLetter n = true ∧ n = utf8 "_" ++ ident n.tail ∧ n ∉ utf8 "retptr" :: wrapperVars

instance (n : Bytes) : Decidable (IsRuntimeName n) := inferInstanceAs (Decidable (_ ∧ _))

theorem isRuntimeName_word (c : Callee) : IsRuntimeName (c.word dialect) := by
  have hall : ∀ c ∈ Callee.all, IsRuntimeName (c.word dialect) := by
    unfold IsRuntimeName ident
    rw [utf8_eq_toByteArray]
    decide +kernel
  exact hall c c.mem_all

theorem localName_eq_word (f : Func) (c : Callee) :
    localName f = c.word dialect ↔ utf8 "_" ++ CaseStyle.snake f.name = c.word dialect := by
  obtain ⟨hletter, hident, -⟩ := isRuntimeName_word c
  constructor
  · intro h
    unfold localName snakeIdent ident at h
    split at h
    · exact absurd ((List.append_assoc _ _ _).trans h) (ne_underscore_of_letter hletter)
    · exact h
  · intro h
    rw [localName, snakeIdent, hident, ← h]
    rfl

/-- Of the names around a wrapper only those of wrappers can be that of a function of the runtime. -/
theorem word_mem_namesAround (h : importCallOf i f = .ok call) (c : Callee) :
    c.word dialect ∈ namesAround i call ↔ ∃ g ∈ i.functions, utf8 "_" ++ CaseStyle.snake g.name = c.word dialect := by
  obtain ⟨hletter, -, hvars⟩ := isRuntimeName_word c
  rw [List.mem_cons, not_or] at hvars
  have hinner := not_mem_inner h hletter hvars.1
  rw [namesAround, List.mem_append, List.mem_append]
  simp only [hinner, hvars.2, false_or, List.mem_map, localName_eq_word]

theorem wrapper_ok (h : importCallOf i f = .ok call) : ∃ params result registration,
    wrapper i f =
      [[], utf8 "def " ++ localName f ++ utf8 "(" ++ params ++ utf8 ") -> " ++ result ++ utf8 ":"]
        ++ indent unit (importBody f call) ++ [registration] := by
  rw [wrapper, h]
  exact ⟨_, _, _, rfl⟩

/-- Every function of the runtime that a wrapper calls is called in its text. -/
theorem called_wrapper (h : importCallOf i f = .ok call) {c : Callee} (hc : c ∈ call.callees ownCalls) :
    ∃ l ∈ wrapper i f, Called (c.word dialect) l := by
  obtain ⟨l, hl, hcalled⟩ := @called_importBody f call c hc
  obtain ⟨params, result, registration, hwrapper⟩ := wrapper_ok h
  rw [hwrapper]
  exact ⟨unit ++ l, by simp [mem_indent hl hcalled.ne_nil], hcalled.after (by decide)⟩

end Python

/-! ## What a wrapper reaches -/

/-- No name around the wrapper is that of a function of the runtime that it calls. -/
def JavaScript.Reaches (i : Interface) (f : Func) (call : ImportCall) : Prop :=
  ∀ c ∈ call.callees ownCalls, c.word dialect ∉ namesAround i f call

/-- No name around the wrapper is that of a function of the runtime that it calls. -/
def Python.Reaches (i : Interface) (call : ImportCall) : Prop :=
  ∀ c ∈ call.callees ownCalls, c.word dialect ∉ namesAround i call

/-- **When wrappers reach the runtime.** The wrapper of an imported function calls what the types of
the function need, in its text. In JavaScript its name is that of a function it calls, and then it
does not reach that function, exactly when the function's name in camel case is one that its own
types need. In Python the names of wrappers are shared by the interface: the name of a wrapper is
that of a function called around it exactly when, in snake case, some function of the interface
needs it, and a wrapper reaches the runtime exactly when no function of the interface is named for
what the wrapper needs. -/
theorem wrappers_reach_runtime_iff (h : importCallOf i f = .ok call) :
    ((∀ c ∈ call.callees JavaScript.ownCalls, JavaScript.wrapperName f ≠ c.word JavaScript.dialect) ↔
      ∀ c ∈ needed JavaScript.ownCalls i f, CaseStyle.camel f.name ≠ c.word JavaScript.dialect) ∧
    (JavaScript.Reaches i f call ↔
      ∀ c ∈ needed JavaScript.ownCalls i f, CaseStyle.camel f.name ≠ c.word JavaScript.dialect) ∧
    ((∀ g ∈ i.functions, ∀ c ∈ wrapperCallees Python.ownCalls i g, Python.localName f ≠ c.word Python.dialect) ↔
      ∀ g ∈ i.functions, ∀ c ∈ needed Python.ownCalls i g,
        utf8 "_" ++ CaseStyle.snake f.name ≠ c.word Python.dialect) ∧
    (Python.Reaches i call ↔
      ∀ g ∈ i.functions, ∀ c ∈ needed Python.ownCalls i f,
        utf8 "_" ++ CaseStyle.snake g.name ≠ c.word Python.dialect) ∧
    (∀ c ∈ call.callees JavaScript.ownCalls, ∃ l ∈ JavaScript.wrapper i f, Called (c.word JavaScript.dialect) l) ∧
    (∀ c ∈ call.callees Python.ownCalls, ∃ l ∈ Python.wrapper i f, Called (c.word Python.dialect) l) := by
  refine ⟨forall_congr' fun c => ?_, forall_congr' fun c => ?_,
    forall_congr' fun g => forall_congr' fun _ => forall_congr' fun c => ?_, ?_,
    fun c hc => JavaScript.called_wrapper h hc, fun c hc => Python.called_wrapper h hc⟩
  · rw [(importCallOf_uses h).calls, JavaScript.wrapperName, Ne, JavaScript.ident_eq_word]
  · rw [(importCallOf_uses h).calls, JavaScript.word_mem_namesAround h]
  · rw [mem_wrapperCallees, Ne, Python.localName_eq_word]
  · simp only [Python.Reaches, (importCallOf_uses h).calls, Python.word_mem_namesAround h]
    grind

/-- A function may be named for one of the runtime that it does not need. -/
theorem wrappers_reach_runtime_iff_store : ∃ i f call,
    Interface.parse (utf8 "shelf.wai") (utf8 "store: func(xs: list<string>) -> u32\nlabel: func(n: s8) -> string\n")
      = .ok i ∧
    f ∈ i.functions ∧ f.name = utf8 "store" ∧ importCallOf i f = .ok call ∧
    JavaScript.Reaches i f call ∧ Python.Reaches i call := by
  obtain ⟨i, hi, hcheck⟩ := Interface.exists_ok_of_check (r := Interface.parse (utf8 "shelf.wai")
    (utf8 "store: func(xs: list<string>) -> u32\nlabel: func(n: s8) -> string\n"))
    (fun i => i.functions.head?.any fun f =>
      f.name == utf8 "store" && (importCallOf i f).toOption.any (fun _ => true)
        && (needed JavaScript.ownCalls i f).all (CaseStyle.camel f.name != ·.word JavaScript.dialect)
        && i.functions.all fun g =>
          (needed Python.ownCalls i f).all (utf8 "_" ++ CaseStyle.snake g.name != ·.word Python.dialect))
    (by rw [utf8_eq_toByteArray]; decide +kernel)
  obtain ⟨f, hf, hcheck⟩ := (Option.any_eq_true _ _).1 hcheck
  simp only [Bool.and_eq_true, beq_iff_eq, List.all_eq_true, bne_iff_ne] at hcheck
  obtain ⟨⟨⟨hname, hok⟩, hjs⟩, hpy⟩ := hcheck
  obtain ⟨call, hcall, -⟩ := Interface.exists_ok_of_check _ hok
  obtain ⟨-, hreaches, -, hreaches', -⟩ := wrappers_reach_runtime_iff hcall
  exact ⟨i, f, call, hi, List.mem_of_mem_head? hf, hname, hcall, hreaches.2 hjs, hreaches'.2 hpy⟩

/-- The wrapper of `load` calls itself where it means the runtime, in both languages. The name of
`store`, which needs nothing itself, hides the runtime's from the wrapper of `get` in Python. -/
theorem wrappers_named_for_runtime : ∃ i load store get callLoad callGet,
    Interface.parse (utf8 "m.wai")
      (utf8 "load: func(xs: list<u32>)\nstore: func(n: u32)\nget: func() -> tuple<u32, u32>\n") = .ok i ∧
    (load ∈ i.functions ∧ store ∈ i.functions ∧ get ∈ i.functions) ∧
    importCallOf i load = .ok callLoad ∧ importCallOf i get = .ok callGet ∧
    (Callee.helper .load ∈ callLoad.callees JavaScript.ownCalls ∧
      JavaScript.wrapperName load = (Callee.helper .load).word JavaScript.dialect) ∧
    (Callee.helper .load ∈ callLoad.callees Python.ownCalls ∧
      Python.localName load = (Callee.helper .load).word Python.dialect) ∧
    Callee.helper .store ∈ callGet.callees Python.ownCalls ∧
    Python.localName store = (Callee.helper .store).word Python.dialect := by
  obtain ⟨i, hi, hcheck⟩ := Interface.exists_ok_of_check (r := Interface.parse (utf8 "m.wai")
    (utf8 "load: func(xs: list<u32>)\nstore: func(n: u32)\nget: func() -> tuple<u32, u32>\n"))
    (fun i =>
      (i.functions.any fun f =>
        (importCallOf i f).toOption.any (fun call => Callee.helper .load ∈ call.callees JavaScript.ownCalls
            ∧ Callee.helper .load ∈ call.callees Python.ownCalls)
          && JavaScript.wrapperName f == (Callee.helper .load).word JavaScript.dialect
          && Python.localName f == (Callee.helper .load).word Python.dialect)
      && (i.functions.any fun f => Python.localName f == (Callee.helper .store).word Python.dialect)
      && i.functions.any fun f =>
        (importCallOf i f).toOption.any (Callee.helper .store ∈ ·.callees Python.ownCalls))
    (by rw [utf8_eq_toByteArray]; decide +kernel)
  simp only [Bool.and_eq_true, List.any_eq_true, beq_iff_eq] at hcheck
  obtain ⟨⟨⟨load, hloadMem, hload⟩, store, hstoreMem, hstore⟩, get, hgetMem, hget⟩ := hcheck
  obtain ⟨⟨hload, hjs⟩, hpy⟩ := hload
  obtain ⟨callLoad, hcallLoad, hload⟩ := Interface.exists_ok_of_check _ hload
  obtain ⟨callGet, hcallGet, hget⟩ := Interface.exists_ok_of_check _ hget
  simp only [decide_eq_true_eq] at hload hget
  exact ⟨i, load, store, get, callLoad, callGet, hi, ⟨hloadMem, hstoreMem, hgetMem⟩, hcallLoad, hcallGet, ⟨hload.1, hjs⟩,
    ⟨hload.2, hpy⟩, hget, hstore⟩

end Bindery.Glue
