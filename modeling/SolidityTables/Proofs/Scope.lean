import SolidityTables.Config.Scope
import SolidityTables.Proofs.Abi
import SolidityTables.Proofs.Attempt
import SolidityTables.Proofs.Lookup

/-!
# Resolving names of types

A name stands for a type just if it is that of an ABI type, an enum or a user type, the first of
these counting; it does so by rules that do not mention how it is looked up.
-/

namespace SolidityTables

/-- The ABI type in which values of a type are stored, by its name. -/
inductive Scope.Resolves (s : Scope) : String → SchemaType → Prop
  | abi (t : SchemaType) : Resolves s t.name t
  | enum {name : String} (habi : ∀ t : SchemaType, t.name ≠ name)
      (henum : name ∈ s.enums.map (·.1)) : Resolves s name .uint8
  | user {name : String} {u : UserType} (habi : ∀ t : SchemaType, t.name ≠ name)
      (henum : name ∉ s.enums.map (·.1)) (huser : s.userTypes.lookup name = some u) :
      Resolves s name u.base

namespace Scope

variable {s : Scope} {name : String}

theorem find?_abi (t : SchemaType) : s.find? t.name = some (.abi t) := by
  rw [find?, SchemaType.ofName?_eq_some.mpr rfl]

theorem find?_enum (habi : ∀ t : SchemaType, t.name ≠ name) (henum : name ∈ s.enums.map (·.1)) :
    s.find? name = some .enum := by
  rw [find?, SchemaType.ofName?_eq_none.mpr habi]
  exact if_pos henum

theorem find?_user (habi : ∀ t : SchemaType, t.name ≠ name) (henum : name ∉ s.enums.map (·.1)) :
    s.find? name = (s.userTypes.lookup name).map .user := by
  rw [find?, SchemaType.ofName?_eq_none.mpr habi]
  exact if_neg henum

theorem mem_of_find?_user {u : UserType} (h : s.find? name = some (.user u)) :
    (name, u) ∈ s.userTypes := by
  unfold find? at h
  split at h
  next => cases h
  next =>
    split_ifs at h
    · cases h
    · obtain ⟨_, hu, huser⟩ := Option.map_eq_some_iff.mp h
      cases huser
      exact mem_of_lookup hu

theorem resolves_iff {t : SchemaType} :
    s.Resolves name t ↔ ∃ n, s.find? name = some n ∧ n.base = t := by
  constructor
  · intro h
    cases h with
    | abi t => exact ⟨_, find?_abi t, rfl⟩
    | enum habi henum => exact ⟨_, find?_enum habi henum, rfl⟩
    | user habi henum huser =>
      rw [find?_user habi henum, huser]
      exact ⟨_, rfl, rfl⟩
  · intro hh
    obtain ⟨n, hfind, rfl⟩ := hh
    by_cases habi : ∀ t : SchemaType, t.name ≠ name
    · by_cases henum : name ∈ s.enums.map (·.1)
      · rw [find?_enum habi henum] at hfind
        cases hfind
        exact .enum habi henum
      · rw [find?_user habi henum, Option.map_eq_some_iff] at hfind
        obtain ⟨u, huser, rfl⟩ := hfind
        exact .user habi henum huser
    · push Not at habi
      obtain ⟨t, rfl⟩ := habi
      rw [find?_abi] at hfind
      cases hfind
      exact .abi t

theorem resolves_unique {t u : SchemaType} (ht : s.Resolves name t) (hu : s.Resolves name u) :
    t = u := by
  obtain ⟨n, hn, rfl⟩ := resolves_iff.mp ht
  obtain ⟨m, hm, rfl⟩ := resolves_iff.mp hu
  rw [hn] at hm
  rw [Option.some.inj hm]

def Knows (s : Scope) (name : String) : Prop :=
  (∃ t : SchemaType, t.name = name) ∨ name ∈ s.enums.map (·.1) ∨ name ∈ s.userTypes.map (·.1)

theorem knows_iff : s.Knows name ↔ ∃ n, s.find? name = some n := by
  unfold Knows
  by_cases habi : ∀ t : SchemaType, t.name ≠ name
  · have hnone : ¬∃ t : SchemaType, t.name = name := fun ⟨t, ht⟩ => habi t ht
    by_cases henum : name ∈ s.enums.map (·.1)
    · simp only [find?_enum habi henum, henum, true_or, or_true, Option.some.injEq, exists_eq']
    · rw [find?_user habi henum, ← Option.isSome_iff_exists, Option.isSome_map,
        Option.isSome_iff_exists, ← mem_keys_iff]
      simp only [hnone, henum, false_or]
  · push Not at habi
    obtain ⟨t, rfl⟩ := habi
    exact iff_of_true (.inl ⟨t, rfl⟩) ⟨_, find?_abi t⟩

theorem knows_iff_resolves : s.Knows name ↔ ∃ t, s.Resolves name t := by
  rw [knows_iff]
  constructor
  · intro hh
    obtain ⟨n, hn⟩ := hh
    exact ⟨n.base, resolves_iff.mpr ⟨n, hn, rfl⟩⟩
  · intro hh
    obtain ⟨t, ht⟩ := hh
    obtain ⟨n, hn, -⟩ := resolves_iff.mp ht
    exact ⟨n, hn⟩

def isDynamic (s : Scope) (name : String) : Bool :=
  (s.find? name).any fun n => n.base.isDynamic

theorem isDynamic_of_resolves {t : SchemaType} (h : s.Resolves name t) :
    s.isDynamic name = t.isDynamic := by
  obtain ⟨n, hn, rfl⟩ := resolves_iff.mp h
  rw [isDynamic, hn, Option.any_some]

theorem find_eq_ok {n : NamedType} : s.find name = .ok n ↔ s.find? name = some n := by
  unfold find
  cases s.find? name with
  | some m => simp
  | none => simp

theorem find_eq_error {e : ConfigError} :
    s.find name = .error e ↔ ¬s.Knows name ∧ e = .unknownType name := by
  rw [knows_iff]
  unfold find
  cases s.find? name with
  | some m => simp
  | none => simp [eq_comm]

end Scope

end SolidityTables
