import SolidityTables.Proofs.Config.Acceptance
import SolidityTables.Proofs.Lookup

/-!
# What accepted configurations ensure

A store is accepted if a configuration defines it, either on its own or as a part of a world. Its
tables are resolved: their fields have distinct names and the types that the declared names stand
for, their keys are distinct static fields, and their other fields keep the limits.
-/

namespace SolidityTables

open Attempt

/-- What a table of an accepted store is like. -/
structure Table.Resolved (s : Store) (t : Table) : Prop where
  names : (t.schema.map (·.1)).Nodup
  types : ∀ f ∈ t.schema, s.scope.Resolves f.2.declared f.2.type
  key : ∀ k ∈ t.key, ∃ f, t.schema.lookup k = some f ∧ f.type.isDynamic = false
  distinct : t.key.Nodup
  values : t.valueFields.length ≤ 28
  dynamicValues : (t.valueFields.filter fun f => f.2.type.isDynamic).length ≤ 5
  space : t.space = s.space
  fits : t.resource.Fits

theorem Table.mem_keyFields {t : Table} {f : String × SchemaField} :
    f ∈ t.keyFields ↔ f.1 ∈ t.key ∧ t.schema.lookup f.1 = some f.2 := by
  simp only [Table.keyFields, List.mem_filterMap, Option.map_eq_some_iff]
  constructor
  · intro hh
    obtain ⟨k, hk, field, hfield, rfl⟩ := hh
    exact ⟨hk, hfield⟩
  · intro hh
    obtain ⟨hk, hfield⟩ := hh
    exact ⟨f.1, hk, f.2, hfield, rfl⟩

namespace Table.Resolved

variable {s : Store} {t : Table} {f : String × SchemaField}

theorem keyField_mem_schema (hf : f ∈ t.keyFields) : f ∈ t.schema :=
  mem_of_lookup (mem_keyFields.mp hf).2

theorem keyField_static (h : t.Resolved s) (hf : f ∈ t.keyFields) : f.2.type.isDynamic = false := by
  obtain ⟨hk, hlookup⟩ := mem_keyFields.mp hf
  obtain ⟨field, hfield, hstatic⟩ := h.key f.1 hk
  rw [hlookup] at hfield
  rw [Option.some.inj hfield, hstatic]

theorem keyFields_names (h : t.Resolved s) : t.keyFields.map (·.1) = t.key := by
  have hkeys (key : List String) (hkey : ∀ k ∈ key, ∃ f, t.schema.lookup k = some f) :
      (key.filterMap fun k => (t.schema.lookup k).map (k, ·)).map (·.1) = key := by
    induction key with
    | nil => rfl
    | cons k key ih =>
      obtain ⟨⟨f, hf⟩, hrest⟩ := List.forall_mem_cons.mp hkey
      rw [List.filterMap_cons_some (b := (k, f)) (by rw [hf]; rfl), List.map_cons, ih hrest]
  apply hkeys
  intro k hk
  obtain ⟨f, hf, -⟩ := h.key k hk
  exact ⟨f, hf⟩

end Table.Resolved

inductive Store.Accepted : Store → Prop
  | store {ms : Json.Members} {s : Store} (hms : (Json.obj ms).WellFormed)
    (h : Store.define ms = .ok s) : Accepted s
  | world {ms : Json.Members} {w : World} (hms : (Json.obj ms).WellFormed)
    (h : World.define ms = .ok w) : Accepted w.toStore

theorem Store.Accepted.declared {s : Store} (h : s.Accepted) :
    ∃ d : StoreDeclaration, d.Keyed ∧ d.Defines s := by
  cases h with
  | store hms h =>
    obtain ⟨d, hpresents, hdefine⟩ := Store.define_eq_ok.mp h
    have hread := (Shape.members_eq_value.mp hpresents.shape).1
    exact ⟨d, StoreDeclaration.shape_ensures.of_read hms hread,
      StoreDeclaration.defines_of_define hdefine⟩
  | world hms h =>
    obtain ⟨-, d, hpresents, hdefine⟩ := World.define_eq_ok.mp h
    have hread := (Shape.members_eq_value.mp hpresents.shape).1
    exact ⟨d.toStoreDeclaration, WorldDeclaration.shape_ensures.of_read hms hread,
      (WorldDeclaration.defines_of_define hdefine).store⟩

theorem Store.Accepted.members {s : Store} (h : s.Accepted) :
    ∀ e ∈ s.enums, e.2 ≠ [] ∧ e.2.length ≤ 256 ∧ e.2.Nodup := by
  obtain ⟨d, hkeyed, hd⟩ := h.declared
  rw [hd.enums]
  exact hkeyed.members

theorem TableDeclaration.Defines.resolved {d : TableDeclaration} {s : Store} {label : String}
    {t : Table} (hnames : (d.schema.map (·.1)).Nodup) (hspace : Utf8.size s.space ≤ 14)
    (h : d.Defines s.space s.scope label t) : t.Resolved s := by
  obtain ⟨hschema, htypes⟩ := TableDeclaration.fields_eq_ok.mp h.schema
  obtain ⟨hkey, hcounts, hname⟩ := (TableDeclaration.checks_eq_ok label h.schema).mpr h.sound
  obtain ⟨hvalues, hdynamic⟩ := FieldLayout.checkCounts_eq_ok.mp hcounts
  obtain ⟨hstatic, hdistinct⟩ := (TableDeclaration.checkKey_eq_ok label).mp hkey
  have hfields : (t.schema.map (·.1)).Nodup := by
    rw [← hschema, List.map_map] at hnames
    exact hnames
  rw [← h.key] at hvalues hdynamic hstatic hdistinct
  refine ⟨hfields, htypes, fun k hk => ?_, hdistinct, ?_, ?_, h.space, ?_, ?_⟩
  · obtain ⟨f, hf, rfl, hd⟩ := hstatic k hk
    exact ⟨f.2, lookup_of_mem hfields hf, hd⟩
  · exact Int.ofNat_le.mp hvalues
  · exact Int.ofNat_le.mp hdynamic
  · rw [Table.resource, h.space]
    exact hspace
  · rw [Table.resource, h.name]
    exact Resource.checkName_eq_ok.mp hname

theorem Store.Accepted.resolved {s : Store} (h : s.Accepted) :
    ∀ x ∈ s.tables, x.2.Resolved s := by
  obtain ⟨d, hkeyed, hd⟩ := h.declared
  intro x hx
  obtain ⟨y, hy, -, hdefines⟩ := exists_of_mem_right hd.tables hx
  have hscope : s.scope = d.scope := by
    rw [scope, hd.enums, hd.userTypes]
    rfl
  rw [← hscope, ← hd.space] at hdefines
  refine hdefines.resolved (hkeyed.fields y hy) ?_
  rw [hd.space, Utf8.size_eq]
  exact hd.names.space

end SolidityTables
