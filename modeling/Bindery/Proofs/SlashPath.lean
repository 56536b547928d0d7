/-
Paths by their segments. `parts` is what cleaning leaves of a path: some `..` that climb,
then names (`parts_eq`). A rooted path never climbs. `FileTree.normalize` writes the parts
down again (`normalize_eq`), and putting a path under a directory of one name either adds
that name or takes one `..` away (`parts_under`), so a path put under several
directories leaves them one by one.
-/
import Bindery.FileTree
import Bindery.Proofs.Bytes.Pieces

namespace Bindery.SlashPath

/-- The segment that climbs. -/
def up : Bytes := [dot, dot]

/-- A segment that names a file or a directory. -/
structure IsName (s : Bytes) : Prop where
  ne_nil : s ≠ []
  ne_dot : s ≠ [dot]
  ne_up : s ≠ up
  noSlash : slash ∉ s

instance (s : Bytes) : Decidable (IsName s) :=
  decidable_of_iff (s ≠ [] ∧ s ≠ [dot] ∧ s ≠ up ∧ slash ∉ s)
    ⟨fun ⟨h₁, h₂, h₃, h₄⟩ => ⟨h₁, h₂, h₃, h₄⟩, fun ⟨h₁, h₂, h₃, h₄⟩ => ⟨h₁, h₂, h₃, h₄⟩⟩

/-- The segments of a path once it is cleaned. -/
def parts (p : Bytes) : List Bytes := resolve (isRooted p) [] (p.split slash)

/-! ## Reading segments -/

section resolve

variable {rooted : Bool} {stack segs : List Bytes} {s : Bytes}

theorem resolve_skip (h : s = [] ∨ s = [dot]) :
    resolve rooted stack (s :: segs) = resolve rooted stack segs := by
  rw [resolve.eq_def]
  exact if_pos h

theorem resolve_name (h : IsName s) :
    resolve rooted stack (s :: segs) = resolve rooted (s :: stack) segs := by
  have hskip : ¬(s = [] ∨ s = [dot]) := not_or.2 ⟨h.ne_nil, h.ne_dot⟩
  rw [resolve.eq_def]
  exact (if_neg hskip).trans (if_neg h.ne_up)

/-- What a segment that climbs does to a stack. -/
theorem resolve_up : resolve rooted stack (up :: segs) =
    match stack with
    | [] => if rooted then resolve rooted [] segs else resolve rooted [up] segs
    | top :: below => if top = up then resolve rooted (up :: top :: below) segs else resolve rooted below segs := by
  rw [resolve.eq_def]
  exact (if_neg (by decide)).trans (if_pos rfl)

theorem resolve_up_name (h : IsName s) :
    resolve rooted (s :: stack) (up :: segs) = resolve rooted stack segs := by
  rw [resolve_up]
  exact if_neg h.ne_up

theorem resolve_up_root : resolve true [] (up :: segs) = resolve true [] segs := by
  rw [resolve_up]
  rfl

/-- A path that is not rooted climbs on from where it has climbed to. -/
theorem resolve_up_climb (k : Nat) :
    resolve false (List.replicate k up) (up :: segs) = resolve false (List.replicate (k + 1) up) segs := by
  rw [resolve_up]
  cases k with
  | zero => rfl
  | succ k => exact if_pos rfl

end resolve

/-- Names only go down. -/
theorem resolve_names (rooted : Bool) : ∀ {ns : List Bytes} (stack : List Bytes), (∀ s ∈ ns, IsName s) →
    resolve rooted stack ns = stack.reverse ++ ns
  | [], stack, _ => by simp [resolve]
  | s :: ns, stack, h => by
    obtain ⟨hs, hns⟩ := List.forall_mem_cons.1 h
    rw [resolve_name hs, resolve_names rooted (s :: stack) hns, List.reverse_cons, List.append_assoc,
      List.singleton_append]

/-- What a stack holds while segments are read: names, below them the climbs. -/
def stackOf (k : Nat) (names : List Bytes) : List Bytes := names.reverse ++ List.replicate k up

/-- **Reading segments** keeps the climbs below the names; a rooted path stays without climbs. -/
theorem resolve_eq (rooted : Bool) : ∀ (segs names : List Bytes) (k : Nat), (∀ s ∈ segs, slash ∉ s) →
    (∀ s ∈ names, IsName s) → (rooted = true → k = 0) →
    ∃ k' names', resolve rooted (stackOf k names) segs = List.replicate k' up ++ names' ∧
      (∀ s ∈ names', IsName s) ∧ (rooted = true → k' = 0)
  | [], names, k, _, hnames, hk => ⟨k, names, by simp [resolve, stackOf], hnames, hk⟩
  | s :: segs, names, k, hsegs, hnames, hk => by
    obtain ⟨hs, hrest⟩ := List.forall_mem_cons.1 hsegs
    by_cases hskip : s = [] ∨ s = [dot]
    · rw [resolve_skip hskip]
      exact resolve_eq rooted segs names k hrest hnames hk
    by_cases hup : s = up
    · subst hup
      rcases names.eq_nil_or_concat with rfl | ⟨front, top, rfl⟩
      · -- nothing to take away: the climb stays, or is lost at the root
        cases rooted with
        | true =>
          obtain rfl := hk rfl
          rw [show stackOf 0 [] = [] from rfl, resolve_up_root]
          exact resolve_eq true segs [] 0 hrest hnames hk
        | false =>
          rw [show stackOf k [] = List.replicate k up from rfl, resolve_up_climb]
          exact resolve_eq false segs [] (k + 1) hrest hnames (by simp)
      · rw [List.concat_eq_append] at hnames ⊢
        have htop : IsName top := hnames top (by simp)
        have hstack : stackOf k (front ++ [top]) = top :: stackOf k front := by simp [stackOf]
        rw [hstack, resolve_up_name htop]
        exact resolve_eq rooted segs front k hrest (fun s hs => hnames s (by simp [hs])) hk
    · have hname : IsName s := ⟨fun h => hskip (.inl h), fun h => hskip (.inr h), hup, hs⟩
      rw [resolve_name hname, show s :: stackOf k names = stackOf k (names ++ [s]) by simp [stackOf]]
      refine resolve_eq rooted segs (names ++ [s]) k hrest ?_ hk
      intro s' hs'
      rcases List.mem_append.1 hs' with hs' | hs'
      · exact hnames s' hs'
      · rwa [List.mem_singleton.1 hs']

/-- **A cleaned path** climbs, then goes down by names. -/
theorem parts_eq (p : Bytes) : ∃ k names, parts p = List.replicate k up ++ names ∧
    (∀ s ∈ names, IsName s) ∧ (isRooted p = true → k = 0) :=
  resolve_eq (isRooted p) (p.split slash) [] 0 (fun _ => Bytes.not_mem_of_mem_split) (by simp) (fun _ => rfl)

/-- How many directories a path climbs before it goes down. -/
def climb (p : Bytes) : Nat := ((parts p).takeWhile (· == up)).length

/-- The names a path goes down by. -/
def names (p : Bytes) : List Bytes := (parts p).dropWhile (· == up)

theorem takeWhile_up (k : Nat) {ns : List Bytes} (h : ∀ s ∈ ns, IsName s) :
    (List.replicate k up ++ ns).takeWhile (· == up) = List.replicate k up ∧
      (List.replicate k up ++ ns).dropWhile (· == up) = ns := by
  induction k with
  | zero =>
    cases ns with
    | nil => simp
    | cons s ns =>
      have hs : (s == up) = false := beq_false_of_ne (h s (by simp)).ne_up
      simp [hs]
  | succ k ih => simpa [List.replicate_succ] using ih

theorem climb_of_parts {p : Bytes} {k : Nat} {ns : List Bytes} (h : parts p = List.replicate k up ++ ns)
    (hns : ∀ s ∈ ns, IsName s) : climb p = k ∧ names p = ns := by
  obtain ⟨htake, hdrop⟩ := takeWhile_up k hns
  rw [climb, names, h, htake, hdrop]
  exact ⟨List.length_replicate, rfl⟩

theorem isName_of_mem_names {p s : Bytes} (h : s ∈ names p) : IsName s := by
  obtain ⟨k, ns, hparts, hns, -⟩ := parts_eq p
  rw [(climb_of_parts hparts hns).2] at h
  exact hns s h

/-- **A cleaned path** climbs, then goes down by names. -/
theorem parts_split (p : Bytes) : parts p = List.replicate (climb p) up ++ names p := by
  obtain ⟨k, ns, hparts, hns, -⟩ := parts_eq p
  obtain ⟨hclimb, hnames⟩ := climb_of_parts hparts hns
  rw [hclimb, hnames, hparts]

theorem climb_eq_zero_iff {p : Bytes} : climb p = 0 ↔ up ∉ parts p := by
  have hnames : up ∉ names p := fun h => (isName_of_mem_names h).ne_up rfl
  rw [parts_split]
  simp [hnames]

/-- Reading segments makes up none. -/
theorem mem_of_mem_resolve {rooted : Bool} {s : Bytes} {stack segs : List Bytes} :
    s ∈ resolve rooted stack segs → s ∈ stack ∨ s ∈ segs := by
  fun_induction resolve rooted stack segs <;> grind

/-- A path without a dot never climbs. -/
theorem climb_of_dotless {p : Bytes} (h : dot ∉ p) : climb p = 0 := by
  rw [climb_eq_zero_iff]
  intro hup
  rcases mem_of_mem_resolve hup with hup | hup
  · simp at hup
  · exact h (Bytes.mem_of_mem_split hup (by simp [up]))

/-! ## Writing segments down again -/

/-- A segment that cleaning can leave. -/
structure IsPart (s : Bytes) : Prop where
  ne_nil : s ≠ []
  ne_dot : s ≠ [dot]
  noSlash : slash ∉ s

theorem IsName.isPart {s : Bytes} (h : IsName s) : IsPart s := ⟨h.ne_nil, h.ne_dot, h.noSlash⟩

theorem isPart_up : IsPart up := ⟨by decide, by decide, by decide⟩

theorem isPart_of_mem_parts {p s : Bytes} (h : s ∈ parts p) : IsPart s := by
  rw [parts_split] at h
  rcases List.mem_append.1 h with h | h
  · rw [List.eq_of_mem_replicate h]
    exact isPart_up
  · exact (isName_of_mem_names h).isPart

theorem join_parts_ne_slash {ps : List Bytes} (h : ∀ s ∈ ps, IsPart s) : isRooted (Bytes.join [slash] ps) = false := by
  cases ps with
  | nil => rfl
  | cons s ps =>
    obtain ⟨b, t, rfl⟩ := List.exists_cons_of_ne_nil (h s (by simp)).ne_nil
    have hb : b ≠ slash := fun hb => (h (b :: t) (by simp)).noSlash (by simp [hb])
    cases ps with
    | nil => simpa [isRooted, Bytes.join] using hb
    | cons s' ps => simpa [isRooted, Bytes.join_cons_cons] using hb

theorem join_parts_ne_dot {ps : List Bytes} (h : ∀ s ∈ ps, IsPart s) : Bytes.join [slash] ps ≠ [dot] := by
  match ps with
  | [] => simp [Bytes.join]
  | [s] => simpa [Bytes.join] using (h s (by simp)).ne_dot
  | s :: s' :: ps =>
    obtain ⟨b, t, rfl⟩ := List.exists_cons_of_ne_nil (h s (by simp)).ne_nil
    simp [Bytes.join_cons_cons]

theorem split_join_parts {ps : List Bytes} (hne : ps ≠ []) (h : ∀ s ∈ ps, IsPart s) :
    (Bytes.join [slash] ps).split slash = ps := Bytes.split_join hne fun s hs => (h s hs).noSlash

/-- Segments written down, behind a slash when the path is rooted. -/
def spell (rooted : Bool) (ps : List Bytes) : Bytes :=
  if rooted then slash :: Bytes.join [slash] ps else if ps = [] then [dot] else Bytes.join [slash] ps

/-- **A clean path** is its segments written down. -/
theorem clean_eq (p : Bytes) : clean p = spell (isRooted p) (parts p) := by
  have hempty : (Bytes.join [slash] (parts p)).isEmpty = true ↔ parts p = [] := by
    rw [List.isEmpty_iff]
    constructor
    · intro hnil
      cases hps : parts p with
      | nil => rfl
      | cons s ps =>
        rw [hps] at hnil
        exact absurd hnil (Bytes.join_ne_nil (isPart_of_mem_parts (p := p) (by simp [hps])).ne_nil)
    · intro hnil
      rw [hnil]
      rfl
  exact if_congr Iff.rfl rfl (if_congr hempty rfl rfl)

/-- **A normalised path** is its segments written down. -/
theorem normalize_eq (p : Bytes) : FileTree.normalize p = Bytes.join [slash] (parts p) := by
  have hparts : ∀ s ∈ parts p, IsPart s := fun s => isPart_of_mem_parts
  have hdot := join_parts_ne_dot hparts
  have hslash := join_parts_ne_slash hparts
  rw [FileTree.normalize, clean_eq, spell]
  split
  · simp [Bytes.dropStart, hdot]
  · split
    · rename_i hnil
      rw [hnil]
      rfl
    · have hkept : Bytes.dropStart (Bytes.join [slash] (parts p)) [slash] = Bytes.join [slash] (parts p) := by
        refine if_neg ?_
        cases hjoin : Bytes.join [slash] (parts p) with
        | nil => simp
        | cons b t =>
          rw [hjoin] at hslash
          have hb : b ≠ slash := by simpa [isRooted] using hslash
          simpa using Ne.symm hb
      simp only [hkept, hdot, if_false]

theorem resolve_climbs (segs : List Bytes) : ∀ k m, resolve false (List.replicate m up) (List.replicate k up ++ segs)
    = resolve false (List.replicate (m + k) up) segs
  | 0, _ => rfl
  | k + 1, m => by
    rw [List.replicate_succ, List.cons_append, resolve_up_climb, resolve_climbs segs k (m + 1), Nat.add_right_comm,
      Nat.add_assoc]

/-- Cleaned segments are clean. -/
theorem resolve_parts (rooted : Bool) {k : Nat} {ns : List Bytes} (hns : ∀ s ∈ ns, IsName s)
    (hk : rooted = true → k = 0) :
    resolve rooted [] (List.replicate k up ++ ns) = List.replicate k up ++ ns := by
  have hstart : resolve rooted [] (List.replicate k up ++ ns) = resolve rooted (List.replicate k up) ns := by
    cases rooted with
    | true => rw [hk rfl, List.replicate_zero, List.nil_append]
    | false => simpa using resolve_climbs ns k 0
  rw [hstart, resolve_names rooted _ hns, List.reverse_replicate]

/-- Segments are read one after the other. -/
theorem resolve_append (rooted : Bool) : ∀ (a stack b : List Bytes),
    resolve rooted stack (a ++ b) = resolve rooted (resolve rooted stack a).reverse b
  | [], stack, b => by simp [resolve]
  | s :: a, stack, b => by
    have ih := resolve_append rooted a
    rw [List.cons_append, resolve.eq_def, resolve.eq_def rooted stack (s :: a)]
    simp only
    split
    · exact ih stack b
    · split
      · split
        · split
          · exact ih [] b
          · exact ih [s] b
        · split
          · exact ih _ b
          · exact ih _ b
      · exact ih (s :: stack) b

theorem parts_join {ps : List Bytes} (h : ps ≠ []) (hps : ∀ s ∈ ps, IsPart s) :
    parts (Bytes.join [slash] ps) = resolve false [] ps := by
  rw [parts, join_parts_ne_slash hps, split_join_parts h hps]

theorem parts_slash (q : Bytes) : parts (slash :: q) = resolve true [] (q.split slash) := by
  have hsplit : Bytes.split slash (slash :: q) = [] :: q.split slash := Bytes.split_append_sep [] q
  rw [parts, hsplit, resolve_skip (.inl rfl)]
  rfl

/-- Cleaned segments can be read back from where they are written down. -/
theorem parts_spell {rooted : Bool} {k : Nat} {ns : List Bytes} (hns : ∀ s ∈ ns, IsName s)
    (hk : rooted = true → k = 0) :
    isRooted (spell rooted (List.replicate k up ++ ns)) = rooted ∧
      parts (spell rooted (List.replicate k up ++ ns)) = List.replicate k up ++ ns := by
  have hself := resolve_parts rooted hns hk
  have hall : ∀ s ∈ List.replicate k up ++ ns, IsPart s := by
    intro s hs
    rcases List.mem_append.1 hs with hs | hs
    · rw [List.eq_of_mem_replicate hs]
      exact isPart_up
    · exact (hns s hs).isPart
  generalize hps : List.replicate k up ++ ns = ps at hself hall
  rw [spell]
  cases rooted with
  | true =>
    refine ⟨rfl, ?_⟩
    rw [if_pos rfl, parts_slash]
    by_cases hnil : ps = []
    · rw [hnil]
      rfl
    · rw [split_join_parts hnil hall]
      exact hself
  | false =>
    rw [if_neg Bool.false_ne_true]
    split
    · rename_i hnil
      rw [hnil]
      exact ⟨rfl, rfl⟩
    · rename_i hnil
      rw [parts_join hnil hall]
      exact ⟨join_parts_ne_slash hall, hself⟩

theorem parts_clean (p : Bytes) : parts (clean p) = parts p ∧ isRooted (clean p) = isRooted p := by
  obtain ⟨k, ns, hparts, hns, hk⟩ := parts_eq p
  obtain ⟨hrooted, hspelt⟩ := parts_spell hns hk
  rw [clean_eq, hparts]
  exact ⟨hspelt, hrooted⟩

theorem clean_clean (p : Bytes) : clean (clean p) = clean p := by
  obtain ⟨hparts, hrooted⟩ := parts_clean p
  rw [clean_eq (clean p), hparts, hrooted, ← clean_eq]

theorem clean_ne_nil (p : Bytes) : clean p ≠ [] := by
  rw [clean_eq, spell]
  split
  · simp
  · split
    · simp
    · rename_i hne
      obtain ⟨s, ps, hps⟩ := List.exists_cons_of_ne_nil hne
      rw [hps]
      exact Bytes.join_ne_nil (isPart_of_mem_parts (p := p) (by simp [hps])).ne_nil

/-- Paths put together are clean. -/
theorem clean_join {d : Bytes} (hd : d ≠ []) (q : Bytes) : clean (join [d, q]) = join [d, q] := by
  obtain ⟨x, hx⟩ : ∃ x, join [d, q] = clean x := ⟨_, by simp [join, hd]; rfl⟩
  rw [hx, clean_clean]

theorem parts_normalize (p : Bytes) : parts (FileTree.normalize p) = parts p := by
  rw [normalize_eq]
  by_cases hnil : parts p = []
  · rw [hnil]
    rfl
  · obtain ⟨k, ns, hparts, hns, -⟩ := parts_eq p
    rw [parts_join hnil fun s => isPart_of_mem_parts, hparts]
    exact resolve_parts false hns (by simp)

theorem split_normalize {p : Bytes} (h : parts p ≠ []) : (FileTree.normalize p).split slash = parts p := by
  rw [normalize_eq]
  exact split_join_parts h fun s => isPart_of_mem_parts

/-- A normalised path without a segment that climbs goes down by names. -/
theorem climb_of_normalize {p : Bytes} (hne : FileTree.normalize p ≠ [])
    (hup : up ∉ (FileTree.normalize p).split slash) : climb p = 0 ∧ names p ≠ [] := by
  have hparts : parts p ≠ [] := by
    intro hnil
    rw [normalize_eq, hnil] at hne
    exact hne rfl
  rw [split_normalize hparts, ← climb_eq_zero_iff] at hup
  rw [parts_split, hup] at hparts
  exact ⟨hup, hparts⟩

theorem isRooted_normalize (p : Bytes) : isRooted (FileTree.normalize p) = false := by
  rw [normalize_eq]
  exact join_parts_ne_slash fun s => isPart_of_mem_parts

/-! ## Paths under a directory -/

theorem resolve_split_normalize (rooted : Bool) (stack : List Bytes) (p : Bytes) :
    resolve rooted stack ((FileTree.normalize p).split slash) = resolve rooted stack (parts p) := by
  by_cases hnil : parts p = []
  · rw [normalize_eq, hnil]
    exact resolve_skip (.inl rfl)
  · rw [split_normalize hnil]

/-- Two paths put together, the second of them not rooted: it is read on from where the
first one leads to. -/
theorem parts_pair (d : Bytes) {q : Bytes} (hq : isRooted q = false) :
    parts (join [d, q]) = resolve (isRooted d) (parts d).reverse (q.split slash) ∧
      isRooted (join [d, q]) = isRooted d := by
  by_cases hd : d = []
  · subst hd
    by_cases hnil : q = []
    · subst hnil
      exact ⟨rfl, rfl⟩
    · have hjoin : join [[], q] = clean q := by simp [join, hnil, Bytes.join]
      obtain ⟨hparts, hrooted⟩ := parts_clean q
      rw [hjoin, hparts, hrooted, parts, hq]
      exact ⟨rfl, rfl⟩
  · by_cases hnil : q = []
    · subst hnil
      have hjoin : join [d, []] = clean d := by simp [join, hd, Bytes.join]
      obtain ⟨hparts, hrooted⟩ := parts_clean d
      rw [hjoin, hparts, hrooted, show Bytes.split slash [] = [[]] from rfl, resolve_skip (.inl rfl)]
      simp [resolve]
    · have hjoin : join [d, q] = clean (d ++ slash :: q) := by
        simp [join, hd, hnil, Bytes.join]
      obtain ⟨b, t, rfl⟩ := List.exists_cons_of_ne_nil hd
      obtain ⟨hparts, hrooted⟩ := parts_clean (b :: t ++ slash :: q)
      rw [hjoin, hparts, hrooted, parts, Bytes.split_append_sep, resolve_append]
      exact ⟨rfl, rfl⟩

/-- A path in a directory is read on from where the directory is. -/
theorem parts_under (d p : Bytes) :
    parts (join [d, FileTree.normalize p]) = resolve (isRooted d) (parts d).reverse (parts p) := by
  rw [(parts_pair d (isRooted_normalize p)).1, resolve_split_normalize]

theorem parts_name {d : Bytes} (h : IsName d) : isRooted d = false ∧ parts d = [d] := by
  have hrooted : isRooted d = false := by
    obtain ⟨b, t, rfl⟩ := List.exists_cons_of_ne_nil h.ne_nil
    have hb : b ≠ slash := fun hb => h.noSlash (by simp [hb])
    simpa [isRooted] using hb
  refine ⟨hrooted, ?_⟩
  rw [parts, Bytes.split_of_not_mem h.noSlash, resolve_name h]
  rfl

/-- **A path put under one directory** goes down from it, or has climbed it already. -/
theorem climb_under {d : Bytes} (hd : IsName d) (p : Bytes) :
    climb (join [d, FileTree.normalize p]) = climb p - 1 ∧
      names (join [d, FileTree.normalize p]) = if climb p = 0 then d :: names p else names p := by
  have hns : ∀ s ∈ names p, IsName s := fun s => isName_of_mem_names
  have hparts := parts_under d p
  obtain ⟨hrooted, hself⟩ := parts_name hd
  rw [hrooted, hself, parts_split p, List.reverse_singleton] at hparts
  cases hk : climb p with
  | zero =>
    rw [hk, List.replicate_zero, List.nil_append, resolve_names false [d] hns] at hparts
    exact climb_of_parts (k := 0) hparts (List.forall_mem_cons.2 ⟨hd, hns⟩)
  | succ k =>
    rw [hk, List.replicate_succ, List.cons_append, resolve_up_name hd, resolve_parts false hns (by simp)] at hparts
    exact climb_of_parts hparts hns

/-- A path that does not climb goes on from any directory. -/
theorem climb_under_path (d : Bytes) {p : Bytes} (hp : climb p = 0) :
    climb (join [d, FileTree.normalize p]) = climb d := by
  have hns : ∀ s ∈ names d ++ names p, IsName s := by
    intro s hs
    rcases List.mem_append.1 hs with hs | hs <;> exact isName_of_mem_names hs
  have hparts := parts_under d p
  rw [parts_split p, hp, List.replicate_zero, List.nil_append, resolve_names _ _ fun s => isName_of_mem_names,
    List.reverse_reverse, parts_split d, List.append_assoc] at hparts
  exact (climb_of_parts hparts hns).1

/-- A path put under directories, the outermost first. -/
def under : List Bytes → Bytes → Bytes
  | [], p => p
  | d :: ds, p => join [d, FileTree.normalize (under ds p)]

/-- **A path put under several directories** leaves the innermost ones it climbs, and climbs on
when it has left them all. -/
theorem climb_under_all : ∀ {ds : List Bytes}, (∀ d ∈ ds, IsName d) → ∀ p : Bytes,
    climb (under ds p) = climb p - ds.length ∧
      names (under ds p) = ds.take (ds.length - climb p) ++ names p
  | [], _, p => by simp [under]
  | d :: ds, h, p => by
    obtain ⟨hd, hds⟩ := List.forall_mem_cons.1 h
    obtain ⟨hclimb, hnames⟩ := climb_under_all hds p
    obtain ⟨hclimb', hnames'⟩ := climb_under hd (under ds p)
    rw [under, hclimb', hnames', hclimb, hnames, List.length_cons]
    refine ⟨by omega, ?_⟩
    split
    · rename_i hinside
      rw [show ds.length + 1 - climb p = (ds.length - climb p) + 1 by omega, List.take_succ_cons, List.cons_append]
    · rename_i hleft
      rw [show ds.length + 1 - climb p = 0 by omega, show ds.length - climb p = 0 by omega]
      rfl

/-! ## The last name of a path -/

/-- The path ends in the name `n`. -/
structure EndsIn (p n : Bytes) : Prop where
  isName : IsName n
  last : ∃ front, parts p = front ++ [n]

theorem EndsIn.names_ne_nil {p n : Bytes} (h : EndsIn p n) : names p ≠ [] := by
  obtain ⟨front, hlast⟩ := h.last
  intro hnil
  have hmem : n ∈ parts p := by simp [hlast]
  rw [parts_split, hnil, List.append_nil] at hmem
  exact h.isName.ne_up (List.eq_of_mem_replicate hmem)

theorem resolve_append_name {rooted : Bool} {stack segs : List Bytes} {n : Bytes} (hn : IsName n) :
    resolve rooted stack (segs ++ [n]) = resolve rooted stack segs ++ [n] := by
  rw [resolve_append, resolve_name hn]
  simp [resolve]

/-- A path keeps its last name in a directory of any name. -/
theorem EndsIn.under {p n : Bytes} (h : EndsIn p n) (d : Bytes) : EndsIn (under [d] p) n := by
  obtain ⟨front, hlast⟩ := h.last
  have hparts : parts (SlashPath.under [d] p) = _ := parts_under d p
  rw [hlast, resolve_append_name h.isName] at hparts
  exact ⟨h.isName, _, hparts⟩

/-- An ending of a file name that makes a name of every text before it. -/
structure IsEnding (e : Bytes) : Prop where
  long : 3 ≤ e.length
  noSlash : slash ∉ e

instance (e : Bytes) : Decidable (IsEnding e) :=
  decidable_of_iff (3 ≤ e.length ∧ slash ∉ e) ⟨fun h => ⟨h.1, h.2⟩, fun h => ⟨h.1, h.2⟩⟩

theorem IsEnding.isName {e : Bytes} (he : IsEnding e) {s : Bytes} (hs : slash ∉ s) : IsName (s ++ e) := by
  have hlong : 3 ≤ (s ++ e).length := by
    have := he.long
    rw [List.length_append]
    omega
  refine ⟨?_, ?_, ?_, ?_⟩
  · rintro h
    simp [h] at hlong
  · rintro h
    simp [h] at hlong
  · rintro h
    simp [h, up] at hlong
  · simp [hs, he.noSlash]

/-- The last segment of a file name with an ending. -/
theorem IsEnding.endsIn {e : Bytes} (he : IsEnding e) (s : Bytes) : EndsIn (s ++ e) (s.afterLast slash ++ e) := by
  by_cases hs : slash ∈ s
  · obtain ⟨d, b, rfl, hb⟩ := Bytes.exists_last_sep hs
    have hname : IsName (b ++ e) := he.isName hb
    rw [Bytes.afterLast_append_sep hb]
    refine ⟨hname, resolve (isRooted (d ++ slash :: b ++ e)) [] (d.split slash), ?_⟩
    rw [parts, List.append_assoc, List.cons_append, Bytes.split_append_sep, Bytes.split_of_not_mem hname.noSlash,
      resolve_append_name hname]
  · have hname : IsName (s ++ e) := he.isName hs
    rw [Bytes.afterLast_of_not_mem hs]
    exact ⟨hname, [], (parts_name hname).2⟩

theorem climb_name {n : Bytes} (h : IsName n) : climb n = 0 :=
  (climb_of_parts (k := 0) (parts_name h).2 (by simpa using h)).1

/-- One segment climbs at most one directory. -/
theorem climb_segment {s : Bytes} (h : slash ∉ s) : climb s ≤ 1 := by
  have hlength : (parts s).length ≤ 1 := by
    rw [parts, Bytes.split_of_not_mem h]
    cases isRooted s <;> simp only [resolve] <;> grind
  rw [parts_split, List.length_append, List.length_replicate] at hlength
  omega

/-! ## Paths below a directory -/

/-- The path lies in the directory `dir`, and none of its segments climbs. -/
def Within (dir path : Bytes) : Prop := dir ++ [slash] <+: path ∧ up ∉ path.split slash

instance (dir path : Bytes) : Decidable (Within dir path) :=
  inferInstanceAs (Decidable (dir ++ [slash] <+: path ∧ up ∉ path.split slash))

theorem Within.descends {dir path : Bytes} (h : Within dir path) : path ≠ [] ∧ up ∉ path.split slash := by
  obtain ⟨⟨rest, hrest⟩, hup⟩ := h
  refine ⟨?_, hup⟩
  rw [← hrest]
  simp

/-- The path stays in the directory `dir` when it is put `depth` directories below it: it climbs
at most those, or one more and comes back by the name of the directory. -/
def StaysIn (dir : Bytes) (depth : Nat) (p : Bytes) : Prop :=
  climb p ≤ depth ∨ climb p = depth + 1 ∧ ∃ rest, rest ≠ [] ∧ names p = dir :: rest

instance (dir : Bytes) (depth : Nat) (p : Bytes) : Decidable (StaysIn dir depth p) :=
  decidable_of_iff (climb p ≤ depth ∨ climb p = depth + 1 ∧ (names p).tail ≠ [] ∧ (names p).head? = some dir) <| by
    rw [StaysIn]
    cases names p <;> grind

theorem within_iff {d : Bytes} (hd : IsName d) {p : Bytes} (hp : names p ≠ []) :
    Within d (FileTree.normalize p) ↔ climb p = 0 ∧ ∃ rest, rest ≠ [] ∧ names p = d :: rest := by
  have hne : parts p ≠ [] := by
    rw [parts_split]
    simp [hp]
  have hsplit := split_normalize hne
  have hstarts : climb p = 0 → (d ++ [slash] <+: FileTree.normalize p ↔ ∃ rest, rest ≠ [] ∧ names p = d :: rest) := by
    intro hzero
    rw [parts_split, hzero, List.replicate_zero, List.nil_append] at hsplit
    constructor
    · rintro ⟨t, ht⟩
      rw [List.append_assoc, List.singleton_append] at ht
      rw [← ht, Bytes.split_append_sep, Bytes.split_of_not_mem hd.noSlash] at hsplit
      exact ⟨Bytes.split slash t, Bytes.split_ne_nil t, hsplit.symm⟩
    · rintro ⟨rest, hrest, heq⟩
      obtain ⟨s, rest, rfl⟩ := List.exists_cons_of_ne_nil hrest
      rw [normalize_eq, parts_split, hzero, heq]
      refine ⟨Bytes.join [slash] (s :: rest), ?_⟩
      rw [List.replicate_zero, List.nil_append, Bytes.join_cons_cons, List.append_assoc, List.singleton_append]
  rw [Within, hsplit, ← climb_eq_zero_iff]
  constructor
  · rintro ⟨hpre, hzero⟩
    exact ⟨hzero, (hstarts hzero).1 hpre⟩
  · rintro ⟨hzero, hrest⟩
    exact ⟨(hstarts hzero).2 hrest, hzero⟩

/-- **A path put below a directory stays in it** exactly when it does not climb further than it
was put below, or comes straight back. -/
theorem within_under_iff {d : Bytes} {ds : List Bytes} (hds : ∀ x ∈ d :: ds, IsName x) {p : Bytes}
    (hp : names p ≠ []) : Within d (FileTree.normalize (under (d :: ds) p)) ↔ StaysIn d ds.length p := by
  obtain ⟨hclimb, hnames⟩ := climb_under_all hds p
  have hd : IsName d := hds d (by simp)
  have hne : names (under (d :: ds) p) ≠ [] := by simp [hnames, hp]
  rw [within_iff hd hne, hclimb, hnames, List.length_cons, StaysIn]
  by_cases hin : climb p ≤ ds.length
  · rw [show ds.length + 1 - climb p = (ds.length - climb p) + 1 by omega, List.take_succ_cons, List.cons_append]
    refine iff_of_true ⟨by omega, _, ?_, rfl⟩ (.inl hin)
    simp [hp]
  · rw [show ds.length + 1 - climb p = 0 by omega, List.take_zero, List.nil_append]
    constructor
    · rintro ⟨hle, hrest⟩
      exact .inr ⟨by omega, hrest⟩
    · rintro (hle | ⟨heq, hrest⟩)
      · exact absurd hle hin
      · exact ⟨by omega, hrest⟩

end Bindery.SlashPath
