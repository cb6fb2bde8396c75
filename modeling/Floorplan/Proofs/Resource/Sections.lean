import Mathlib.Algebra.GroupWithZero.Nat
import Floorplan.Resource.Container
import Floorplan.Proofs.Bytes
import Floorplan.Proofs.Resource.Fork

/-!
# Floorplan.Proofs.Resource.Sections

The sections of a fork while they are written. Each resource adds 12 bytes to the references, its
name to the names and its data, with the length in front, to the data (`addResource_eq`), so the
offsets that it stores are sums over the resources written before it. The types divide the
references without a gap: what is written of the resources does not depend on the types they come
under (`rest_sections`).
-/

namespace Floorplan
namespace Container

/-- All resources, in the order in which they are written. -/
def all (fork : Fork) : List Resource := fork.entries.map Entry.resource

/-- The bytes of a name in the list of names. -/
def nameSize (r : Resource) : Nat :=
  match r.name with
  | none => 0
  | some name => 1 + min 255 name.length

/-- The bytes of the data in the data section, with their length. -/
def dataSize (r : Resource) : Nat := 4 + r.data.length

def nameText (r : Resource) : List UInt8 := (r.name.map nameBytes).getD []

def dataText (r : Resource) : List UInt8 :=
  Bytes.ofLong (UInt32.ofNat r.data.length) ++ r.data

/-- The word that a reference holds for its name, which comes next in the list of names. -/
def nameWord (s : Sections) (r : Resource) : UInt16 :=
  if r.name.isSome then UInt16.ofNat s.names.length else unnamed

def referenceBytes (s : Sections) (r : Resource) : List UInt8 :=
  Bytes.ofWord r.id.toUInt16 ++ Bytes.ofWord (nameWord s r) ++ [r.attributes] ++
    (Bytes.ofLong (UInt32.ofNat s.data.length)).drop 1 ++ Bytes.ofLong 0

/-- The entry of a type with `count` resources, whose references start at `offset`. -/
def typeEntry (type : TypeCode) (count offset : Nat) : List UInt8 :=
  type.bytes ++ Bytes.ofWord (UInt16.ofNat count - 1) ++ Bytes.ofWord (UInt16.ofNat offset)

def Sections.none : Sections := ⟨[], [], [], []⟩

/-- The sections without the types. -/
def Sections.rest (s : Sections) : Sections := { s with types := [] }

/-! ### One resource -/

theorem addResource_eq (s : Sections) (r : Resource) :
    addResource s r =
      ⟨s.types, s.references ++ referenceBytes s r, s.names ++ nameText r, s.data ++ dataText r⟩ := by
  simp only [addResource, referenceBytes, nameWord, nameText, dataText, List.append_assoc]

theorem length_referenceBytes (s : Sections) (r : Resource) :
    (referenceBytes s r).length = 12 := rfl

theorem length_nameText (r : Resource) : (nameText r).length = nameSize r := by
  cases h : r.name with
  | none => simp [nameText, nameSize, h]
  | some name =>
    simp only [nameText, nameSize, h, Option.map_some, Option.getD_some, nameBytes,
      List.length_cons, List.length_take, MacRoman.encode, List.length_map, String.length_toList]
    exact Nat.add_comm ..

theorem length_dataText (r : Resource) : (dataText r).length = dataSize r := by
  simp only [dataText, dataSize, List.length_append, Bytes.length_ofLong]

theorem length_typeEntry (type : TypeCode) (count offset : Nat) :
    (typeEntry type count offset).length = 8 := rfl

/-! ### Resources in a row -/

section Resources

variable (s : Sections) (l : List Resource)

theorem length_references :
    (l.foldl addResource s).references.length = s.references.length + 12 * l.length := by
  induction l generalizing s with
  | nil => rfl
  | cons r rest ih =>
    rw [List.foldl_cons, ih, addResource_eq, List.length_append, length_referenceBytes,
      List.length_cons]
    omega

theorem length_names :
    (l.foldl addResource s).names.length = s.names.length + (l.map nameSize).sum := by
  induction l generalizing s with
  | nil => rfl
  | cons r rest ih =>
    rw [List.foldl_cons, ih, addResource_eq, List.length_append, length_nameText, List.map_cons,
      List.sum_cons, Nat.add_assoc]

theorem length_data :
    (l.foldl addResource s).data.length = s.data.length + (l.map dataSize).sum := by
  induction l generalizing s with
  | nil => rfl
  | cons r rest ih =>
    rw [List.foldl_cons, ih, addResource_eq, List.length_append, length_dataText, List.map_cons,
      List.sum_cons, Nat.add_assoc]

theorem rest_foldl_addResource :
    (l.foldl addResource s).rest = l.foldl addResource s.rest := by
  induction l generalizing s with
  | nil => rfl
  | cons r rest ih => rw [List.foldl_cons, ih, List.foldl_cons]; rfl

theorem types_foldl_addResource : (l.foldl addResource s).types = s.types := by
  induction l generalizing s with
  | nil => rfl
  | cons r rest ih => rw [List.foldl_cons, ih]; rfl

theorem prefix_foldl_addResource :
    s.references <+: (l.foldl addResource s).references ∧
      s.names <+: (l.foldl addResource s).names ∧ s.data <+: (l.foldl addResource s).data := by
  induction l generalizing s with
  | nil => exact ⟨List.prefix_rfl, List.prefix_rfl, List.prefix_rfl⟩
  | cons r rest ih =>
    obtain ⟨h₁, h₂, h₃⟩ := ih (addResource s r)
    rw [addResource_eq] at h₁ h₂ h₃
    rw [List.foldl_cons, addResource_eq]
    exact ⟨(List.prefix_append ..).trans h₁, (List.prefix_append ..).trans h₂,
      (List.prefix_append ..).trans h₃⟩

end Resources

/-! ### Types in a row -/

section Types

variable (listStart : Nat) (resources : TypeCode → List Resource)

/-- Adds a type with the resources that it is given. -/
def addGiven (s : Sections) (type : TypeCode) : Sections :=
  addType listStart s type (resources type)

theorem types_addGiven (s : Sections) (type : TypeCode) :
    (addGiven listStart resources s type).types =
      s.types ++
        typeEntry type (resources type).length (listStart + s.references.length) := by
  rw [addGiven, addType, types_foldl_addResource]
  rfl

theorem rest_foldl_addGiven (types : List TypeCode) : ∀ s : Sections,
    (types.foldl (addGiven listStart resources) s).rest =
      (types.flatMap resources).foldl addResource s.rest := by
  induction types with
  | nil => intro s; rfl
  | cons type rest ih =>
    intro s
    rw [List.foldl_cons, ih, List.flatMap_cons, List.foldl_append]
    congr 1
    rw [addGiven, addType, rest_foldl_addResource]
    rfl

theorem length_types (types : List TypeCode) : ∀ s : Sections,
    (types.foldl (addGiven listStart resources) s).types.length =
      s.types.length + 8 * types.length := by
  induction types with
  | nil => intro s; rfl
  | cons type rest ih =>
    intro s
    rw [List.foldl_cons, ih, types_addGiven, List.length_append, length_typeEntry,
      List.length_cons]
    omega

theorem prefix_foldl_addGiven (types : List TypeCode) : ∀ s : Sections,
    s.types <+: (types.foldl (addGiven listStart resources) s).types := by
  induction types with
  | nil => intro s; exact List.prefix_rfl
  | cons type rest ih =>
    intro s
    refine List.IsPrefix.trans ?_ (ih (addGiven listStart resources s type))
    rw [types_addGiven]
    exact List.prefix_append ..

end Types

/-! ### A whole fork -/

theorem sections_eq (fork : Fork) :
    sections fork =
      fork.types.foldl (addGiven (referencesStart fork) fork.resources) Sections.none := rfl

/-- The sections when the first `i` resources are written. -/
def sectionsAt (fork : Fork) (i : Nat) : Sections :=
  ((all fork).take i).foldl addResource Sections.none

theorem length_references_sectionsAt {fork : Fork} {i : Nat} (hi : i ≤ (all fork).length) :
    (sectionsAt fork i).references.length = 12 * i := by
  rw [sectionsAt, length_references, List.length_take, Nat.min_eq_left hi]
  exact Nat.zero_add _

theorem length_names_sectionsAt (fork : Fork) (i : Nat) :
    (sectionsAt fork i).names.length = (((all fork).take i).map nameSize).sum := by
  rw [sectionsAt, length_names]
  exact Nat.zero_add _

theorem length_data_sectionsAt (fork : Fork) (i : Nat) :
    (sectionsAt fork i).data.length = (((all fork).take i).map dataSize).sum := by
  rw [sectionsAt, length_data]
  exact Nat.zero_add _

theorem length_types_sections (fork : Fork) :
    (sections fork).types.length = 8 * fork.types.length := by
  rw [sections_eq, length_types]
  exact Nat.zero_add _

/-- The entry of a type stands behind those of the types in front of it, and it says how many
references come before its own. -/
theorem types_sections {fork : Fork} {before after : List TypeCode} {type : TypeCode}
    (h : fork.types = before ++ type :: after) :
    ∃ front back, (sections fork).types =
        front ++ typeEntry type (fork.resources type).length
          (referencesStart fork + 12 * (before.flatMap fork.resources).length) ++ back ∧
      front.length = 8 * before.length := by
  let s := before.foldl (addGiven (referencesStart fork) fork.resources) Sections.none
  have hlength : s.types.length = 8 * before.length := by
    rw [length_types]
    exact Nat.zero_add _
  have hreferences : s.references.length = 12 * (before.flatMap fork.resources).length := by
    show s.rest.references.length = _
    rw [rest_foldl_addGiven, length_references]
    exact Nat.zero_add _
  obtain ⟨back, hback⟩ := prefix_foldl_addGiven (referencesStart fork) fork.resources after
    (addGiven (referencesStart fork) fork.resources s type)
  refine ⟨s.types, back, ?_, hlength⟩
  rw [sections_eq, h, List.foldl_append, List.foldl_cons, ← hback, types_addGiven,
    hreferences]

section Sorted

variable {fork : Fork} (hsorted : fork.entries.Pairwise Entry.Before)

include hsorted

theorem flatMap_resources : fork.types.flatMap fork.resources = all fork := by
  conv => rhs; rw [all, ← Fork.flatMap_ofType fork.entries hsorted]
  rw [List.map_flatMap]
  rfl

theorem rest_sections :
    (sections fork).rest = (all fork).foldl addResource Sections.none := by
  rw [sections_eq, rest_foldl_addGiven, flatMap_resources hsorted]
  rfl

theorem length_references_sections :
    (sections fork).references.length = 12 * (all fork).length := by
  show (sections fork).rest.references.length = _
  rw [rest_sections hsorted, length_references]
  exact Nat.zero_add _

/-- What is written of a resource stands behind what is written of those in front of it. -/
theorem sections_at {i : Nat} (hi : i < (all fork).length) :
    ∃ references names data,
      (sections fork).references = (sectionsAt fork i).references ++
          referenceBytes (sectionsAt fork i) (all fork)[i] ++ references ∧
        (sections fork).names =
          (sectionsAt fork i).names ++ nameText (all fork)[i] ++ names ∧
        (sections fork).data = (sectionsAt fork i).data ++ dataText (all fork)[i] ++ data := by
  have hall : all fork = (all fork).take i ++ (all fork)[i] :: (all fork).drop (i + 1) := by
    rw [List.getElem_cons_drop, List.take_append_drop]
  have hrest : (sections fork).rest = ((all fork).drop (i + 1)).foldl addResource
      (addResource (sectionsAt fork i) (all fork)[i]) := by
    rw [rest_sections hsorted]
    conv => lhs; rw [hall]
    rw [List.foldl_append]
    rfl
  obtain ⟨⟨references, h₁⟩, ⟨names, h₂⟩, ⟨data, h₃⟩⟩ := prefix_foldl_addResource
    (addResource (sectionsAt fork i) (all fork)[i]) ((all fork).drop (i + 1))
  rw [← hrest, addResource_eq] at h₁ h₂ h₃
  exact ⟨references, names, data, h₁.symm, h₂.symm, h₃.symm⟩

end Sorted

end Container
end Floorplan
