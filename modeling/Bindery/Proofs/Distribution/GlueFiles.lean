/-
The files of the glue of a library. They share one directory and are called after the
interfaces, so each of them has a place of its own exactly when no two interfaces have one
name and none is called like the helpers (`every_file_kept_iff`). Otherwise the file that is
written last is the one that is found.
-/
import Bindery.Proofs.Distribution.Places

namespace Bindery

open SlashPath (parts IsName IsEnding slash)
open FileTree (ofSegments Descend)

namespace Glue.JavaScript

/-! ## The glue as a list of files -/

/-- The two files of an interface. -/
def pairFiles (i : Interface) (js types : Bytes) : List (List Bytes × Bytes) :=
  [(parts (i.name ++ utf8 ".js"), js), (parts (i.name ++ utf8 ".d.ts"), types)]

/-- The files of the glue, in the order they are written. -/
def glueFiles (exports : Interface) (imports : List Interface) : List (List Bytes × Bytes) :=
  ([helpersFile], unlines helperLines)
    :: pairFiles exports (exportsModule exports) (exportsTypes exports)
    ++ imports.flatMap fun i => pairFiles i (importsModule i) (importsTypes i)

theorem insert_pairFiles (es : List (List Bytes × Bytes)) (i : Interface) (js types : Bytes) :
    ((ofSegments es).insert (i.name ++ utf8 ".js") js).insert (i.name ++ utf8 ".d.ts") types
      = ofSegments (es ++ pairFiles i js types) := by
  rw [FileTree.insert_ofSegments, FileTree.insert_ofSegments, List.append_assoc]
  rfl

theorem generate_eq (exports : Interface) (imports : List Interface) :
    generate exports imports = ofSegments (glueFiles exports imports) := by
  have hhelpers : FileTree.empty.insert helpersFile (unlines helperLines)
      = ofSegments [([helpersFile], unlines helperLines)] := by
    have hparts : parts helpersFile = [helpersFile] := by decide
    rw [show FileTree.empty = ofSegments [] from rfl, FileTree.insert_ofSegments, hparts]
    rfl
  rw [generate, hhelpers]
  dsimp only
  rw [insert_pairFiles, FileTree.foldl_ofSegments fun i _ es => insert_pairFiles es i _ _]
  rfl

/-- The names of the files of interfaces with the given names. -/
def pairNames (ns : List Bytes) : List Bytes := ns.flatMap fun n => [n ++ utf8 ".js", n ++ utf8 ".d.ts"]

theorem js_mem_pairNames {n : Bytes} {ns : List Bytes} : n ++ utf8 ".js" ∈ pairNames ns ↔ n ∈ ns := by
  have hcross : ∀ m, n ++ utf8 ".js" ≠ m ++ utf8 ".d.ts" := append_ne_append (by decide) (by decide) n
  simp [pairNames, hcross]

theorem types_mem_pairNames {n : Bytes} {ns : List Bytes} : n ++ utf8 ".d.ts" ∈ pairNames ns ↔ n ∈ ns := by
  have hcross : ∀ m, n ++ utf8 ".d.ts" ≠ m ++ utf8 ".js" := append_ne_append (by decide) (by decide) n
  simp [pairNames, hcross]

theorem nodup_pairNames : ∀ {ns : List Bytes}, (pairNames ns).Nodup ↔ ns.Nodup
  | [] => by simp [pairNames]
  | n :: ns => by
    have hcross : n ++ utf8 ".js" ≠ n ++ utf8 ".d.ts" := append_ne_append (by decide) (by decide) n n
    have hcons : pairNames (n :: ns) = (n ++ utf8 ".js") :: (n ++ utf8 ".d.ts") :: pairNames ns := rfl
    rw [hcons, List.nodup_cons, List.nodup_cons, List.mem_cons, js_mem_pairNames, types_mem_pairNames, nodup_pairNames,
      List.nodup_cons]
    tauto

/-- Where the files of the glue stand. -/
theorem map_fst_glueFiles {exports : Interface} {imports : List Interface}
    (h : ∀ i ∈ exports :: imports, IsBase i.name) :
    (glueFiles exports imports).map (·.1)
      = (helpersFile :: pairNames ((exports :: imports).map fun i => i.name.afterLast slash)).map ([·]) := by
  have hpair : ∀ i ∈ exports :: imports, ∀ js types, (pairFiles i js types).map (·.1)
      = [[i.name.afterLast slash ++ utf8 ".js"], [i.name.afterLast slash ++ utf8 ".d.ts"]] := by
    intro i hi js types
    rw [pairFiles, List.map_cons, List.map_singleton, (h i hi).parts_append (e := utf8 ".js") (by decide),
      (h i hi).parts_append (e := utf8 ".d.ts") (by decide)]
  obtain ⟨hexports, himports⟩ := List.forall_mem_cons.1 hpair
  rw [glueFiles, List.cons_append, List.map_cons, List.map_append, hexports, List.map_flatMap,
    List.flatMap_congr fun i hi => himports i hi _ _]
  simp [pairNames, List.map_flatMap, List.flatMap_map]

theorem isName_of_mem_pairNames {ns : List Bytes} (h : ∀ n ∈ ns, slash ∉ n) {s : Bytes} (hs : s ∈ pairNames ns) :
    IsName s := by
  simp only [pairNames, List.mem_flatMap, List.mem_cons, List.not_mem_nil, or_false] at hs
  obtain ⟨n, hn, rfl | rfl⟩ := hs
  · exact IsEnding.isName (by decide) (h n hn)
  · exact IsEnding.isName (by decide) (h n hn)

theorem descend_glueFiles {exports : Interface} {imports : List Interface}
    (h : ∀ i ∈ exports :: imports, IsBase i.name) : Descend (glueFiles exports imports) := by
  have hstems : ∀ n ∈ (exports :: imports).map (fun i => i.name.afterLast slash), slash ∉ n :=
    List.forall_mem_map.2 fun i hi => (h i hi).noSlash_afterLast
  intro e he
  have hplace := List.mem_map_of_mem (f := (·.1)) he
  rw [map_fst_glueFiles h] at hplace
  obtain ⟨s, hs, heq⟩ := List.mem_map.1 hplace
  have hname : IsName s := by
    rcases List.mem_cons.1 hs with rfl | hs
    · decide
    · exact isName_of_mem_pairNames hstems hs
  rw [← heq]
  simpa using hname

/-- The paths of the glue are its places. -/
theorem place_iff {exports : Interface} {imports : List Interface} (h : ∀ i ∈ exports :: imports, IsBase i.name)
    {place : List Bytes} : place ∈ (glueFiles exports imports).map (·.1) ↔
      ∃ s ∈ (generate exports imports).paths, place = [s] := by
  have hsegment : ∀ s, Bytes.join [slash] [s] = s := fun s => by simp [Bytes.join]
  have hpaths : ∀ s, s ∈ (generate exports imports).paths ↔ [s] ∈ (glueFiles exports imports).map (·.1) := by
    intro s
    rw [generate_eq, FileTree.mem_paths_ofSegments, List.mem_map]
    refine exists_congr fun e => and_congr_right fun he => ?_
    have hin := List.mem_map_of_mem (f := (·.1)) he
    rw [map_fst_glueFiles h] at hin
    obtain ⟨s', -, heq⟩ := List.mem_map.1 hin
    rw [← heq, hsegment, List.singleton_inj]
  constructor
  · intro hin
    obtain ⟨s, -, heq⟩ := List.mem_map.1 (map_fst_glueFiles h ▸ hin)
    rw [← heq] at hin
    exact ⟨s, (hpaths s).2 hin, heq.symm⟩
  · rintro ⟨s, hs, rfl⟩
    exact (hpaths s).1 hs

/-- The module of an interface is a file of the glue. -/
theorem js_mem_paths {exports i : Interface} {imports : List Interface}
    (h : ∀ i ∈ exports :: imports, IsBase i.name) (hi : i ∈ exports :: imports) (hname : slash ∉ i.name) :
    i.name ++ utf8 ".js" ∈ (generate exports imports).paths := by
  have hin : [i.name ++ utf8 ".js"] ∈ (glueFiles exports imports).map (·.1) := by
    rw [map_fst_glueFiles h]
    refine List.mem_map.2 ⟨_, List.mem_cons_of_mem _ (js_mem_pairNames.2 ?_), rfl⟩
    exact List.mem_map.2 ⟨i, hi, Bytes.afterLast_of_not_mem hname⟩
  obtain ⟨s, hs, heq⟩ := (place_iff h).1 hin
  rwa [List.singleton_inj.1 heq]

theorem isSource_of_glue {exports : Interface} {imports : List Interface}
    (h : ∀ i ∈ exports :: imports, IsBase i.name) {place : List Bytes}
    (hin : place ∈ (glueFiles exports imports).map (·.1)) : IsSource place := by
  rw [map_fst_glueFiles h] at hin
  obtain ⟨s, hs, rfl⟩ := List.mem_map.1 hin
  simp only [pairNames, List.mem_cons, List.mem_flatMap, List.not_mem_nil, or_false] at hs
  rcases hs with rfl | ⟨n, -, rfl | rfl⟩
  · exact isSource_of_name (by decide) []
  · exact isSource_of_ending (by decide) [] n
  · exact isSource_of_ending (by decide) [] n

/-! ## Names that clash -/

/-- Every file of the glue is found where it was written: the helpers, and of each interface its
module and its types; and there is no other file. -/
structure KeepsEvery (t : FileTree) (e : Interface) (is : List Interface) : Prop where
  helpers : t.get? helpersFile = some (unlines helperLines)
  exports : t.get? (e.name ++ utf8 ".js") = some (exportsModule e) ∧
    t.get? (e.name ++ utf8 ".d.ts") = some (exportsTypes e)
  imports : ∀ i ∈ is, t.get? (i.name ++ utf8 ".js") = some (importsModule i) ∧
    t.get? (i.name ++ utf8 ".d.ts") = some (importsTypes i)
  count : t.paths.length = 3 + 2 * is.length

theorem length_glueFiles (exports : Interface) (imports : List Interface) :
    (glueFiles exports imports).length = 3 + 2 * imports.length := by
  simp [glueFiles, pairFiles]
  omega

/-- The files of the glue have places of their own exactly when the interfaces have names of their
own and none is called like the helpers. -/
theorem nodup_glueFiles {exports : Interface} {imports : List Interface}
    (h : ∀ i ∈ exports :: imports, i.name ≠ [] ∧ IsBase i.name) :
    ((glueFiles exports imports).map (·.1)).Nodup ↔
      ((exports :: imports).map (·.name)).Nodup ∧ utf8 "intrinsics" ∉ (exports :: imports).map (·.name) := by
  have hnames : ∀ n ∈ utf8 "intrinsics" :: (exports :: imports).map (·.name), n ≠ [] ∧ IsBase n := by
    rw [List.forall_mem_cons, List.forall_mem_map]
    exact ⟨⟨by decide, .inl (by decide)⟩, h⟩
  have hinj : ∀ m ∈ utf8 "intrinsics" :: (exports :: imports).map (·.name),
      ∀ n ∈ utf8 "intrinsics" :: (exports :: imports).map (·.name),
      m.afterLast slash = n.afterLast slash → m = n :=
    fun m hm n hn => (hnames m hm).2.afterLast_inj (hnames n hn).2 (hnames m hm).1 (hnames n hn).1
  have hstems : (exports :: imports).map (fun i => i.name.afterLast slash)
      = ((exports :: imports).map (·.name)).map (Bytes.afterLast slash) := by
    rw [List.map_map]
    rfl
  -- the helpers' file is that of an interface called `intrinsics`
  have hhelpers : (utf8 "intrinsics" :: (exports :: imports).map (·.name)).map (Bytes.afterLast slash)
      = utf8 "intrinsics" :: ((exports :: imports).map (·.name)).map (Bytes.afterLast slash) := rfl
  have hreserved : helpersFile = utf8 "intrinsics" ++ utf8 ".js" := by decide
  rw [map_fst_glueFiles fun i hi => (h i hi).2, List.nodup_map_iff (List.singleton_injective), List.nodup_cons,
    hreserved, js_mem_pairNames, nodup_pairNames, hstems, ← List.nodup_cons, ← hhelpers, and_comm, ← List.nodup_cons]
  exact ⟨List.Nodup.of_map _, List.Nodup.map_on hinj⟩

/-- **Every file of the glue is kept** exactly when no two interfaces have one name and none is
called like the helpers. The names are those that interfaces have from their paths. -/
theorem every_file_kept_iff {exports : Interface} {imports : List Interface}
    (hnames : ∀ i ∈ exports :: imports, ∃ path, i.name = Interface.nameOfPath path) :
    KeepsEvery (generate exports imports) exports imports ↔
      ((exports :: imports).map (·.name)).Nodup ∧ utf8 "intrinsics" ∉ (exports :: imports).map (·.name) := by
  have hbase : ∀ i ∈ exports :: imports, i.name ≠ [] ∧ IsBase i.name := by
    intro i hi
    obtain ⟨path, hpath⟩ := hnames i hi
    exact hpath ▸ isBase_nameOfPath path
  have hdescend := descend_glueFiles fun i hi => (hbase i hi).2
  rw [← nodup_glueFiles hbase, generate_eq]
  constructor
  · intro h
    rw [← FileTree.length_paths_ofSegments hdescend, h.count, length_glueFiles]
  · intro hnodup
    have hfound : ∀ {p data}, (parts p, data) ∈ glueFiles exports imports →
        (ofSegments (glueFiles exports imports)).get? p = some data :=
      FileTree.get?_ofSegments_of_nodup hdescend hnodup
    have hpair : ∀ i js types, (∀ f ∈ pairFiles i js types, f ∈ glueFiles exports imports) →
        (ofSegments (glueFiles exports imports)).get? (i.name ++ utf8 ".js") = some js ∧
        (ofSegments (glueFiles exports imports)).get? (i.name ++ utf8 ".d.ts") = some types :=
      fun i js types hin => ⟨hfound (hin _ (by simp [pairFiles])), hfound (hin _ (by simp [pairFiles]))⟩
    refine ⟨hfound ?_, hpair _ _ _ ?_, fun i hi => hpair _ _ _ ?_, ?_⟩
    · rw [show parts helpersFile = [helpersFile] by decide]
      exact List.mem_cons_self
    · intro f hf
      exact List.mem_append_left _ (List.mem_cons_of_mem _ hf)
    · intro f hf
      exact List.mem_append_right _ (List.mem_flatMap.2 ⟨i, hi, hf⟩)
    · rw [(FileTree.length_paths_ofSegments hdescend).2 hnodup, length_glueFiles]

/-- An interface without functions, named after its path. -/
def bareInterface (path : String) : Interface := { name := Interface.nameOfPath (utf8 path), path := utf8 path }

theorem every_file_kept_iff_greet :
    KeepsEvery (generate (bareInterface "greet.exports.wai") [bareInterface "log.wai", bareInterface "wai/clock.wai"])
      (bareInterface "greet.exports.wai") [bareInterface "log.wai", bareInterface "wai/clock.wai"] ∧
    ¬KeepsEvery (generate (bareInterface "greet.exports.wai") [bareInterface "intrinsics.wai"])
      (bareInterface "greet.exports.wai") [bareInterface "intrinsics.wai"] := by
  have hpath : ∀ path, ∃ p, (bareInterface path).name = Interface.nameOfPath p := fun path => ⟨utf8 path, rfl⟩
  constructor
  · refine (every_file_kept_iff ?_).2 (by decide)
    simp [hpath]
  · rw [every_file_kept_iff (by simp [hpath])]
    decide

/-- The glue that is written last is found, whatever stood there before. -/
theorem get?_last_import {exports : Interface} (front : List Interface) {i : Interface}
    (h : ∀ j ∈ exports :: (front ++ [i]), IsBase j.name) :
    (generate exports (front ++ [i])).get? (i.name ++ utf8 ".js") = some (importsModule i) ∧
    (generate exports (front ++ [i])).get? (i.name ++ utf8 ".d.ts") = some (importsTypes i) := by
  have hi : IsBase i.name := h i (by simp)
  have hother : parts (i.name ++ utf8 ".js") ≠ parts (i.name ++ utf8 ".d.ts") := by
    rw [hi.parts_append (e := utf8 ".js") (by decide), hi.parts_append (e := utf8 ".d.ts") (by decide)]
    intro heq
    exact append_ne_append (by decide) (by decide) _ _ (List.singleton_inj.1 heq)
  have hlast : glueFiles exports (front ++ [i])
      = glueFiles exports front ++ pairFiles i (importsModule i) (importsTypes i) := by
    simp [glueFiles]
  have hdescend := descend_glueFiles h
  rw [generate_eq, FileTree.get?_ofSegments hdescend, FileTree.get?_ofSegments hdescend, hlast]
  constructor
  · exact Table.lastOf_of_last _ (by simpa using hother)
  · rw [pairFiles, ← List.singleton_append, ← List.append_assoc]
    exact Table.lastOf_of_last _ (by simp)

/-- An interface that is exported and one that is imported may have one name, and then nothing is
left of the glue of the exported one. -/
theorem import_replaces_export :
    let exported := bareInterface "greet.exports.wai"
    let imported := bareInterface "greet.imports.wai"
    let t := generate exported [imported]
    exported.name = imported.name ∧
    t.paths.length = 3 ∧
    t.get? (exported.name ++ utf8 ".js") = some (importsModule imported) ∧
    t.get? (exported.name ++ utf8 ".d.ts") = some (importsTypes imported) ∧
    importsTypes imported ≠ exportsTypes exported := by
  have hbase : ∀ path, IsBase (bareInterface path).name := fun path => (isBase_nameOfPath (utf8 path)).2
  have hname : (bareInterface "greet.exports.wai").name = (bareInterface "greet.imports.wai").name := by decide
  have hbases : ∀ j ∈ bareInterface "greet.exports.wai" :: ([] ++ [bareInterface "greet.imports.wai"]),
      IsBase j.name := by
    simp [hbase]
  obtain ⟨hjs, htypes⟩ := get?_last_import [] hbases
  rw [List.nil_append] at hjs htypes
  refine ⟨hname, ?_, ?_, ?_, ?_⟩
  · rw [generate_eq, (FileTree.paths_ofSegments _).length_eq]
    decide +kernel
  · rw [hname]
    exact hjs
  · rw [hname]
    exact htypes
  · decide +kernel

end Glue.JavaScript

end Bindery
