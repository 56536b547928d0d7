/-
Who a package is, across a container. The container's id is the name and the version with
an `@` between them, and loading takes it apart at its last `@`. No package name has an
`@`, so the id is taken apart where it was put together just when the version has none
(`load_bare`); otherwise what is left of the last `@` is no package name, and nothing is
loaded (`load_bare_at`).
-/
import Bindery.Proofs.Package.Faithful
import Bindery.Proofs.Package.Name

namespace Bindery

open Utf8 (valid valid_of_ascii)

theorem PackageName.valid_of_parse {raw : Bytes} {n : PackageName} (h : parse raw = .ok n) : valid raw = true :=
  Utf8.valid_of_text (Utf8.text_of_ascii fun b hb => (octets_of_parse h b hb).1)

theorem PackageName.parse_of_at {raw : Bytes} (h : 64 ∈ raw) : ∃ r, parse raw = .error r := by
  cases hparse : parse raw with
  | error r => exact ⟨r, rfl⟩
  | ok n => exact absurd rfl (octets_of_parse hparse 64 h).2

/-- An id is taken apart at its last `@`, so inside a version that has one. -/
theorem Package.Load.splitId_at (name : Bytes) {version : Bytes} (h : 64 ∈ version) :
    ∃ raw rest, 64 ∈ raw ∧ splitId (name ++ utf8 "@" ++ version) = some (raw, rest) := by
  obtain ⟨start, rest, rfl, hrest⟩ := Bytes.exists_last_sep h
  have hat : utf8 "@" = [64] := by decide
  have hsplit := splitId_append (name ++ utf8 "@" ++ start) hrest
  rw [List.append_assoc _ (utf8 "@") rest, hat, List.singleton_append, List.append_assoc _ start] at hsplit
  exact ⟨_, rest, by simp, hsplit⟩

namespace Builder

open Package

/-- A builder of nothing but a name, a version and a description. -/
def bare (name version description : Bytes) : Builder := (new name version).setDescription description

theorem sound_bare {name version description : Bytes} (hname : valid name = true) (hversion : valid version = true)
    (hdescription : valid description = true) : (bare name version description).Sound := by
  have hcall : (Call.description description).Readable := hdescription
  exact (sound_new hname hversion).apply hcall

/-- Such a builder is always within the limits of the reader. -/
theorem fits_bare (name version description : Bytes) : (bare name version description).fits = true := by
  cases description <;> rfl

section Bare

variable {read : InterfaceReader} {name version description : Bytes} {n : PackageName}

theorem build_bare (hname : PackageName.parse name = .ok n) (hversion : valid version = true)
    (hdescription : valid description = true) (hlen : (bare name version description).encode.length < 2 ^ 64) :
    (bare name version description).build = .ok (bare name version description).container :=
  build_eq (sound_bare (PackageName.valid_of_parse hname) hversion hdescription) (fits_bare _ _ _) hlen

theorem load_bare (hname : PackageName.parse name = .ok n) (hversion : valid version = true)
    (hdescription : valid description = true) (hat : 64 ∉ version) :
    load read (bare name version description).container
      = .ok { metadata := { name := n, version, description }, libraries := [], commands := [] } := by
  have hsound := sound_bare (PackageName.valid_of_parse hname) hversion hdescription
  have hmetadata : Load.metadata (bare name version description).container
      = .ok { name := n, version, description } := metadata_container hsound hname hat
  rw [load, hmetadata]
  rfl

/-- The version takes a part of itself to the name, which then is none. -/
theorem load_bare_at (hat : 64 ∈ version) : ∃ r, load read (bare name version description).container
    = .error (.load (utf8 "unable to parse the package name") (some r)) := by
  obtain ⟨raw, rest, hraw, hsplit⟩ := Load.splitId_at name hat
  obtain ⟨r, hr⟩ := PackageName.parse_of_at hraw
  have hid : Load.splitId (bare name version description).container.id = some (raw, rest) := hsplit
  refine ⟨r, ?_⟩
  rw [load, Load.metadata, hid]
  simp only [hr, Load.context]
  rfl

end Bare

/-- **Who a package is survives its container when the version has no `@`.** A builder of a
package name, a version and a description, all in UTF-8, gives a container that loads to
the package of this name, version and description and of nothing else when there is no `@`
in the version; when there is one, loading fails on the name. -/
theorem identity_survives (read : InterfaceReader) (name version description : Bytes) (n : PackageName)
    (hname : PackageName.parse name = .ok n) (hversion : valid version = true)
    (hdescription : valid description = true)
    (hlen : ((new name version).setDescription description).encode.length < 2 ^ 64) :
    (64 ∉ version → (((new name version).setDescription description).build >>= load read)
      = .ok { metadata := { name := n, version, description }, libraries := [], commands := [] }) ∧
    (64 ∈ version → ∃ r, (((new name version).setDescription description).build >>= load read)
      = .error (.load (utf8 "unable to parse the package name") (some r))) := by
  have hbuild := build_bare hname hversion hdescription hlen
  rw [bare] at hbuild
  rw [hbuild, ok_bind]
  exact ⟨load_bare hname hversion hdescription, load_bare_at⟩

theorem identity_survives_named :
    (((new (utf8 "wasmer/demo") (utf8 "1 beta")).setDescription (utf8 "a@b")).build >>= load Interface.parse)
      = .ok { metadata := { name := { space := .named (utf8 "wasmer"), name := utf8 "demo" }
                            version := utf8 "1 beta", description := utf8 "a@b" }
              libraries := [], commands := [] } ∧
    ∃ r, (((new (utf8 "demo") (utf8 "@")).setDescription []).build >>= load Interface.parse) = .error r := by
  constructor
  · exact (identity_survives Interface.parse (utf8 "wasmer/demo") (utf8 "1 beta") (utf8 "a@b")
      { space := .named (utf8 "wasmer"), name := utf8 "demo" } (by rfl) (valid_of_ascii (by decide))
      (valid_of_ascii (by decide)) (by decide +kernel)).1 (by decide)
  · obtain ⟨r, hr⟩ := (identity_survives Interface.parse (utf8 "demo") (utf8 "@") [] { name := utf8 "demo" } (by rfl)
      (valid_of_ascii (by decide)) rfl (by decide +kernel)).2 (by decide)
    exact ⟨_, hr⟩

/-- **A version with an `@` is not passed on**: its package is not loaded. -/
theorem version_with_at_not_loaded :
    PackageName.parse (utf8 "demo") = .ok { name := utf8 "demo" } ∧ valid (utf8 "1@2") = true ∧
    ∃ r, (((new (utf8 "demo") (utf8 "1@2")).setDescription []).build >>= load Interface.parse) = .error r := by
  have hversion : valid (utf8 "1@2") = true := valid_of_ascii (by decide)
  have hname : PackageName.parse (utf8 "demo") = .ok { name := utf8 "demo" } := rfl
  have hlen : (bare (utf8 "demo") (utf8 "1@2") []).encode.length < 2 ^ 64 := by decide +kernel
  have hbuild := build_bare hname hversion rfl hlen
  obtain ⟨r, hr⟩ : ∃ r, load Interface.parse (bare (utf8 "demo") (utf8 "1@2") []).container
    = .error (.load (utf8 "unable to parse the package name") (some r)) := load_bare_at (by decide)
  refine ⟨hname, hversion, .load (utf8 "unable to parse the package name") (some r), ?_⟩
  rw [bare] at hbuild hr
  rw [hbuild, ok_bind, hr]

end Builder

end Bindery
