import SolidityTables.Library.Options
import SolidityTables.Proofs.Scope

/-!
# Fields of a library

A field of a library is spelled by what the declared type stands for. It cannot be planned if that
type is not known or, in a key, if it is dynamic.
-/

namespace SolidityTables

open Attempt

namespace TypeSpelling

theorem ofNamed_isDynamic (name : String) (n : NamedType) :
    (ofNamed name n).isDynamic = n.base.isDynamic := by
  cases n <;> rfl

theorem ofNamed_internal (name : String) (n : NamedType) :
    (ofNamed name n).internal = n.base.name := by
  cases n <;> rfl

theorem ofNamed_byteLength (name : String) (n : NamedType) :
    (ofNamed name n).byteLength = n.base.byteLength := by
  cases n <;> rfl

end TypeSpelling

structure FieldUse where
  label : String
  name : String
  declared : String
  inKey : Bool
  deriving DecidableEq, Repr

/-- Why a field cannot be planned. -/
inductive FieldUse.Fault (scope : Scope) : FieldUse → ConfigError → Prop
  | unknown {u : FieldUse} (h : ¬scope.Knows u.declared) : Fault scope u (.unknownType u.declared)
  | dynamic {u : FieldUse} {t : SchemaType} (hkey : u.inKey = true)
    (h : scope.Resolves u.declared t) (hdynamic : t.isDynamic = true) :
    Fault scope u (.keyDynamic u.name u.label u.declared)

namespace LibraryOptions

variable {scope : Scope} {label : String} {x : String × SchemaField}

theorem keyField_eq_ok {n : NamedType} {k : Field} : keyField scope label x = .ok (n, k) ↔
    scope.find? x.2.declared = some n ∧ n.base.isDynamic = false ∧
      k = { TypeSpelling.ofNamed x.2.declared n with name := x.1, element := none } := by
  obtain ⟨name, f⟩ := x
  simp only [keyField, bind_eq_ok, Scope.find_eq_ok, TypeSpelling.ofNamed_isDynamic]
  constructor
  · intro hh
    obtain ⟨m, hm, h⟩ := hh
    split at h
    · cases h
    · next hstatic =>
      cases pure_eq_ok.mp h
      exact ⟨hm, by simpa using hstatic, rfl⟩
  · intro hh
    obtain ⟨hn, hstatic, rfl⟩ := hh
    refine ⟨n, hn, ?_⟩
    rw [if_neg (by simp [hstatic])]
    rfl

theorem keyField_eq_error (scope : Scope) (label : String) (x : String × SchemaField)
    (e : ConfigError) : keyField scope label x = .error e ↔
    FieldUse.Fault scope ⟨label, x.1, x.2.declared, true⟩ e := by
  obtain ⟨name, f⟩ := x
  simp only [keyField, bind_eq_error, Scope.find_eq_error, Scope.find_eq_ok,
    TypeSpelling.ofNamed_isDynamic]
  constructor
  · intro hh
    rcases hh with ⟨hunknown, rfl⟩ | ⟨n, hn, h⟩
    · exact .unknown hunknown
    · split at h
      · next hdynamic =>
        cases h
        exact .dynamic rfl (Scope.resolves_iff.mpr ⟨n, hn, rfl⟩) hdynamic
      · cases h
  · intro h
    cases h with
    | unknown hunknown => exact .inl ⟨hunknown, rfl⟩
    | dynamic _ hresolves hdynamic =>
      obtain ⟨n, hn, rfl⟩ := Scope.resolves_iff.mp hresolves
      exact .inr ⟨n, hn, if_pos hdynamic⟩

theorem valueField_eq_ok {n : NamedType} {k : Field} : valueField scope x = .ok (n, k) ↔
    scope.find? x.2.declared = some n ∧
      k = { TypeSpelling.ofNamed x.2.declared n with
        name := x.1
        element := n.base.element?.map fun e => TypeSpelling.ofAbi (.static e) } := by
  obtain ⟨name, f⟩ := x
  simp only [valueField, bind_eq_ok, Scope.find_eq_ok, pure_eq_ok]
  constructor
  · intro hh
    obtain ⟨m, hm, h⟩ := hh
    cases h
    exact ⟨hm, rfl⟩
  · intro hh
    obtain ⟨hn, rfl⟩ := hh
    exact ⟨n, hn, rfl⟩

theorem valueField_eq_error (scope : Scope) (label : String) (x : String × SchemaField)
    (e : ConfigError) : valueField scope x = .error e ↔
    FieldUse.Fault scope ⟨label, x.1, x.2.declared, false⟩ e := by
  obtain ⟨name, f⟩ := x
  simp only [valueField, bind_eq_error, Scope.find_eq_error, pure_eq_error, and_false, exists_false,
    or_false]
  constructor
  · intro hh
    obtain ⟨hunknown, rfl⟩ := hh
    exact .unknown hunknown
  · intro h
    cases h with
    | unknown hunknown => exact ⟨hunknown, rfl⟩
    | dynamic hkey => cases hkey

end LibraryOptions

end SolidityTables
