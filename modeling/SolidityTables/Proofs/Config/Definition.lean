import SolidityTables.Config.Define
import SolidityTables.Proofs.FieldLayout
import SolidityTables.Proofs.Resource
import SolidityTables.Proofs.Scope

/-!
# Which declarations define something

A declaration defines a table or a store just if it is sound, which is said without the order in
which it is checked. Of a table that is not sound the kind of the error tells what is wrong: a type
that is not known, or else a key that is not static or not distinct, or else something general.
-/

namespace SolidityTables

open Attempt

namespace TableDeclaration

variable {scope : Scope} {d : TableDeclaration} {schema : List (String × SchemaField)}
variable {space label : String}

def values (d : TableDeclaration) : List (String × String) :=
  d.schema.filter fun f => f.1 ∉ d.key

def TypesKnown (scope : Scope) (d : TableDeclaration) : Prop :=
  ∀ f ∈ d.schema, scope.Knows f.2

def KeyStatic (scope : Scope) (d : TableDeclaration) : Prop :=
  ∀ k ∈ d.key, ∃ f ∈ d.schema, f.1 = k ∧ ∃ t, scope.Resolves f.2 t ∧ t.isDynamic = false

structure Sound (scope : Scope) (d : TableDeclaration) : Prop where
  types : d.TypesKnown scope
  key : d.KeyStatic scope
  distinct : d.key.Nodup
  fields : d.values.length ≤ 28
  dynamicFields : (d.values.filter fun f => scope.isDynamic f.2).length ≤ 5
  name : ∀ n, d.name = some n → n.utf8ByteSize ≤ 16

theorem fields_eq_ok : d.fields scope = .ok schema ↔
    schema.map (fun f => (f.1, f.2.declared)) = d.schema ∧
      ∀ f ∈ schema, scope.Resolves f.2.declared f.2.type := by
  apply mapM_eq_ok_map
  intro f g
  simp only [bind_eq_ok, Scope.find_eq_ok, pure_eq_ok, Scope.resolves_iff]
  constructor
  · intro hh
    obtain ⟨n, hn, rfl⟩ := hh
    exact ⟨rfl, n, hn, rfl⟩
  · intro hh
    obtain ⟨rfl, n, hn, hbase⟩ := hh
    refine ⟨n, hn, ?_⟩
    rw [hbase]

theorem fields_isOk : (∃ schema, d.fields scope = .ok schema) ↔ d.TypesKnown scope := by
  rw [fields, mapM_isOk]
  refine forall₂_congr fun f _ => ?_
  simp only [bind_eq_ok, Scope.find_eq_ok, pure_eq_ok, Scope.knows_iff]
  exact ⟨fun ⟨_, n, hn, _⟩ => ⟨n, hn⟩, fun ⟨n, hn⟩ => ⟨_, n, hn, rfl⟩⟩

theorem fields_eq_error {e : ConfigError} (h : d.fields scope = .error e) :
    ∃ name, e = .unknownType name := by
  obtain ⟨_, f, _, _, _, hf⟩ := mapM_eq_error.mp h
  rcases bind_eq_error.mp hf with hfind | ⟨n, _, hpure⟩
  · exact ⟨f.2, (Scope.find_eq_error.mp hfind).2⟩
  · cases hpure

theorem checkKey_eq_ok (label : String) {key : List String} : checkKey label key schema = .ok () ↔
    (∀ k ∈ key, ∃ f ∈ schema, f.1 = k ∧ f.2.type.isDynamic = false) ∧ key.Nodup := by
  have hstatic : key.any (· ∉ (schema.filter fun f => !f.2.type.isDynamic).map (·.1)) = false ↔
      ∀ k ∈ key, ∃ f ∈ schema, f.1 = k ∧ f.2.type.isDynamic = false := by
    simp only [List.any_eq_false, decide_eq_true_eq, not_not, List.mem_map, List.mem_filter,
      Bool.not_eq_true']
    refine forall₂_congr fun k _ => ?_
    exact ⟨fun ⟨f, ⟨hf, hd⟩, hk⟩ => ⟨f, hf, hk, hd⟩, fun ⟨f, hf, hk, hd⟩ => ⟨f, ⟨hf, hd⟩, hk⟩⟩
  rw [← hstatic]
  simp only [checkKey]
  cases hany : key.any (· ∉ (schema.filter fun f => !f.2.type.isDynamic).map (·.1)) with
  | true => simp
  | false =>
    by_cases hnodup : key.Nodup
    · simp [hnodup]
    · simp [hnodup]

theorem checkKey_eq_error {key : List String} {e : ConfigError}
    (h : checkKey label key schema = .error e) : e.kind = .invalidKey := by
  simp only [checkKey] at h
  split at h
  · cases h
    rfl
  · split at h
    · cases h
    · cases h
      rfl

theorem keyStatic_iff (h : d.fields scope = .ok schema) :
    (∀ k ∈ d.key, ∃ f ∈ schema, f.1 = k ∧ f.2.type.isDynamic = false) ↔ d.KeyStatic scope := by
  obtain ⟨hschema, hresolves⟩ := fields_eq_ok.mp h
  unfold KeyStatic
  rw [← hschema]
  refine forall₂_congr fun k _ => ?_
  constructor
  · intro hh
    obtain ⟨f, hf, hk, hstatic⟩ := hh
    exact ⟨_, List.mem_map_of_mem hf, hk, f.2.type, hresolves f hf, hstatic⟩
  · intro hh
    obtain ⟨_, hmem, hk, t, ht, hstatic⟩ := hh
    obtain ⟨f, hf, rfl⟩ := List.mem_map.mp hmem
    refine ⟨f, hf, hk, ?_⟩
    rw [Scope.resolves_unique (hresolves f hf) ht, hstatic]

theorem values_eq (h : d.fields scope = .ok schema) :
    d.values = (schema.filter fun f => f.1 ∉ d.key).map fun f => (f.1, f.2.declared) := by
  rw [values, ← (fields_eq_ok.mp h).1, List.filter_map]
  rfl

theorem dynamicValues_length (h : d.fields scope = .ok schema) :
    (d.values.filter fun f => scope.isDynamic f.2).length =
      ((schema.filter fun f => f.1 ∉ d.key).filter fun f => f.2.type.isDynamic).length := by
  rw [values_eq h, List.filter_map, List.length_map]
  congr 1
  apply List.filter_congr
  intro f hf
  exact Scope.isDynamic_of_resolves ((fields_eq_ok.mp h).2 f (List.mem_of_mem_filter hf))

theorem checks_eq_ok (label : String) (h : d.fields scope = .ok schema) :
    (checkKey label d.key schema = .ok () ∧
      FieldLayout.checkCounts (schema.filter fun f => f.1 ∉ d.key).length
        ((schema.filter fun f => f.1 ∉ d.key).filter fun f => f.2.type.isDynamic).length = .ok () ∧
      Resource.checkName (d.name.getD (Resource.defaultName label)) = .ok ()) ↔ d.Sound scope := by
  rw [checkKey_eq_ok label, FieldLayout.checkCounts_eq_ok, keyStatic_iff h,
    ← dynamicValues_length h]
  have hvalues : (schema.filter fun f => f.1 ∉ d.key).length = d.values.length := by
    rw [values_eq h, List.length_map]
  have hname : Resource.checkName (d.name.getD (Resource.defaultName label)) = .ok () ↔
      ∀ n, d.name = some n → n.utf8ByteSize ≤ 16 := by
    rw [Resource.checkName_eq_ok]
    cases d.name with
    | none => simp [Resource.defaultName_size]
    | some n => simp [Utf8.size_eq, Resource.nameBytes]
  rw [hvalues, hname]
  constructor
  · intro hh
    obtain ⟨⟨hkey, hdistinct⟩, ⟨hfields, hdynamic⟩, hn⟩ := hh
    exact ⟨fields_isOk.mp ⟨schema, h⟩, hkey, hdistinct, by omega, by omega, hn⟩
  · intro hsound
    have := hsound.fields
    have := hsound.dynamicFields
    exact ⟨⟨hsound.key, hsound.distinct⟩, ⟨by omega, by omega⟩, hsound.name⟩

structure Defines (space : String) (scope : Scope) (label : String) (d : TableDeclaration)
    (t : Table) : Prop where
  sound : d.Sound scope
  schema : d.fields scope = .ok t.schema
  name : t.name = d.name.getD (Resource.defaultName label)
  label : t.label = label
  space : t.space = space
  kind : t.kind = d.kind
  key : t.key = d.key
  codegen : t.codegen.outputDirectory = d.codegen.outputDirectory ∧
    t.codegen.tableIdArgument = d.codegen.tableIdArgument ∧
    t.codegen.storeArgument = d.codegen.storeArgument ∧
    t.codegen.dataStruct = d.codegen.dataStruct.getD (decide (1 < d.values.length))
  deploy : t.deploy = d.deploy

theorem defines_of_define {t : Table} (h : d.define space scope label = .ok t) :
    Defines space scope label d t := by
  simp only [define, bind_eq_ok, pure_eq_ok] at h
  obtain ⟨schema, hschema, _, hkey, _, hcounts, _, hname, rfl⟩ := h
  have hvalues := congrArg List.length (values_eq hschema)
  rw [List.length_map] at hvalues
  refine ⟨(checks_eq_ok label hschema).mp ⟨hkey, hcounts, hname⟩, hschema, rfl, rfl, rfl, rfl, rfl,
    ⟨rfl, rfl, rfl, ?_⟩, rfl⟩
  rw [hvalues]

theorem define_isOk (space label : String) (scope : Scope) (d : TableDeclaration) :
    (∃ t, d.define space scope label = .ok t) ↔ d.Sound scope := by
  constructor
  · intro hh
    obtain ⟨t, ht⟩ := hh
    exact (defines_of_define ht).sound
  · intro hsound
    obtain ⟨schema, h⟩ := fields_isOk.mpr hsound.types
    obtain ⟨hkey, hcounts, hname⟩ := (checks_eq_ok label h).mpr hsound
    simp only [define, bind_eq_ok, pure_eq_ok]
    exact ⟨_, schema, h, _, hkey, _, hcounts, _, hname, rfl⟩

theorem define_eq_error {e : ConfigError} (h : d.define space scope label = .error e) :
    (e.kind = .unknownType ↔ ¬d.TypesKnown scope) ∧
      (e.kind = .invalidKey ↔ d.TypesKnown scope ∧ ¬(d.KeyStatic scope ∧ d.key.Nodup)) := by
  simp only [define, bind_eq_error, pure_eq_error, and_false, exists_const, or_false] at h
  rcases h with hfields | ⟨schema, hschema, h⟩
  · have hunknown : ¬d.TypesKnown scope := by
      rw [← fields_isOk, hfields]
      simp
    obtain ⟨name, rfl⟩ := fields_eq_error hfields
    simp [ConfigError.kind, hunknown]
  · have hknown : d.TypesKnown scope := fields_isOk.mp ⟨schema, hschema⟩
    rw [← keyStatic_iff hschema, ← checkKey_eq_ok label]
    rcases h with hkey | ⟨_, hkey, hrest⟩
    · rw [checkKey_eq_error hkey, hkey]
      simp [hknown]
    · have hgeneral : e.kind = .general := by
        rcases hrest with hcounts | ⟨_, -, hname⟩
        · exact FieldLayout.checkCounts_eq_error hcounts
        · exact Resource.checkName_eq_error hname
      rw [hgeneral, hkey]
      simp [hknown]

end TableDeclaration

structure SystemDeclaration.Defines (space label : String) (d : SystemDeclaration)
    (t : System) : Prop where
  fits : Utf8.size t.name ≤ Resource.nameBytes
  name : t.name = d.name.getD (Resource.defaultName label)
  label : t.label = label
  space : t.space = space
  openAccess : t.openAccess = d.openAccess
  accessList : t.accessList = d.accessList
  registerFunctionSelectors : t.registerFunctionSelectors = d.registerFunctionSelectors

theorem SystemDeclaration.defines_of_define {space label : String} {d : SystemDeclaration}
    {t : System} (h : d.define space label = .ok t) : d.Defines space label t := by
  simp only [define, bind_eq_ok, pure_eq_ok] at h
  obtain ⟨_, hname, rfl⟩ := h
  exact ⟨Resource.checkName_eq_ok.mp hname, rfl, rfl, rfl, rfl, rfl, rfl⟩

namespace StoreDeclaration

variable {d : StoreDeclaration} {s : Store}

structure NamesSound (d : StoreDeclaration) : Prop where
  space : d.space.utf8ByteSize ≤ 14
  disjoint : ∀ n ∈ d.enums.map (·.1), n ∉ d.userTypes.map (·.1)
  notAbi : ∀ n ∈ d.typeNames, ∀ t : SchemaType, t.name ≠ n
  identifiers : ∀ n ∈ d.typeNames, Identifier.isIdentifier n = true

structure Sound (d : StoreDeclaration) : Prop where
  names : d.NamesSound
  tables : ∀ t ∈ d.tables, t.2.Sound d.scope

theorem isTypeName_iff {name : String} : isTypeName name = true ↔
    (∀ t : SchemaType, t.name ≠ name) ∧ Identifier.isIdentifier name = true := by
  rw [isTypeName, Bool.and_eq_true, Option.isNone_iff_eq_none, SchemaType.ofName?_eq_none]

theorem checkNames_eq_ok : d.checkNames = .ok () ↔
    (∀ n ∈ d.enums.map (·.1), n ∉ d.userTypes.map (·.1)) ∧
      ∀ n ∈ d.typeNames, isTypeName n = true := by
  have hshared : d.sharedNames = [] ↔ ∀ n ∈ d.enums.map (·.1), n ∉ d.userTypes.map (·.1) := by
    simp only [sharedNames, List.filter_eq_nil_iff, decide_eq_true_eq]
  rw [← hshared]
  unfold checkNames
  by_cases hs : d.sharedNames = []
  · cases hfind : d.typeNames.find? fun n => !isTypeName n with
    | none =>
      have hall := List.find?_eq_none.mp hfind
      simpa [hs] using hall
    | some name =>
      have hbad := List.find?_some hfind
      have hmem := List.mem_of_find?_eq_some hfind
      simp only [hs, ne_eq, not_true_eq_false, if_false, reduceCtorEq, true_and, false_iff]
      intro hall
      simp [hall name hmem] at hbad
  · simp [hs]

theorem checkNames_eq_error {e : ConfigError} (h : d.checkNames = .error e) :
    e.kind = .general := by
  unfold checkNames at h
  split at h
  · cases h
    rfl
  · split at h
    · cases h
      rfl
    · cases h

theorem namesSound_iff :
    d.NamesSound ↔ Resource.checkSpace d.space = .ok () ∧ d.checkNames = .ok () := by
  rw [Resource.checkSpace_eq_ok, Utf8.size_eq, checkNames_eq_ok]
  constructor
  · intro h
    exact ⟨h.space, h.disjoint, fun n hn => isTypeName_iff.mpr ⟨h.notAbi n hn, h.identifiers n hn⟩⟩
  · intro hh
    obtain ⟨hspace, hdisjoint, hnames⟩ := hh
    exact ⟨hspace, hdisjoint, fun n hn => (isTypeName_iff.mp (hnames n hn)).1,
      fun n hn => (isTypeName_iff.mp (hnames n hn)).2⟩

theorem entry_isOk {x : String × TableDeclaration} :
    (∃ y, d.entry x = .ok y) ↔ x.2.Sound d.scope := by
  simp only [entry, bind_eq_ok, pure_eq_ok]
  rw [← TableDeclaration.define_isOk d.space x.1]
  exact ⟨fun ⟨_, t, ht, _⟩ => ⟨t, ht⟩, fun ⟨t, ht⟩ => ⟨_, t, ht, rfl⟩⟩

theorem entry_eq_error {x : String × TableDeclaration} {e : ConfigError} :
    d.entry x = .error e ↔ x.2.define d.space d.scope x.1 = .error e := by
  simp only [entry, bind_eq_error, pure_eq_error, and_false, exists_false, or_false]

structure Defines (d : StoreDeclaration) (s : Store) : Prop where
  names : d.NamesSound
  space : s.space = d.space
  enums : s.enums = d.enums
  userTypes : s.userTypes = d.userTypes
  codegen : s.codegen = d.codegen
  tables : List.Forall₂ (fun x y => y.1 = Resource.tableKey d.space x.1 ∧
    x.2.Defines d.space d.scope x.1 y.2) d.tables s.tables

theorem defines_of_define (h : d.define = .ok s) : d.Defines s := by
  simp only [define, bind_eq_ok, pure_eq_ok] at h
  obtain ⟨_, hspace, _, hnames, tables, htables, rfl⟩ := h
  refine ⟨namesSound_iff.mpr ⟨hspace, hnames⟩, rfl, rfl, rfl, rfl, ?_⟩
  apply (mapM_eq_ok.mp htables).imp
  intro x y hxy
  obtain ⟨t, ht, hy⟩ := bind_eq_ok.mp hxy
  cases pure_eq_ok.mp hy
  exact ⟨rfl, TableDeclaration.defines_of_define ht⟩

theorem define_isOk : (∃ s, d.define = .ok s) ↔ d.Sound := by
  simp only [define, bind_eq_ok, pure_eq_ok]
  constructor
  · intro hh
    obtain ⟨_, _, hspace, _, hnames, tables, htables, _⟩ := hh
    refine ⟨namesSound_iff.mpr ⟨hspace, hnames⟩, fun t ht => entry_isOk.mp ?_⟩
    exact mapM_isOk.mp ⟨tables, htables⟩ t ht
  · intro hsound
    obtain ⟨hspace, hnames⟩ := namesSound_iff.mp hsound.names
    obtain ⟨tables, htables⟩ := mapM_isOk.mpr fun t ht => entry_isOk.mpr (hsound.tables t ht)
    exact ⟨_, _, hspace, _, hnames, tables, htables, rfl⟩

/-- The first table that is not sound, with its label. -/
def FirstUnsound (d : StoreDeclaration) (x : String × TableDeclaration) : Prop :=
  ∃ before after, d.tables = before ++ x :: after ∧ (∀ y ∈ before, y.2.Sound d.scope) ∧
    ¬x.2.Sound d.scope

theorem define_eq_error {e : ConfigError} (hnames : d.NamesSound) :
    d.define = .error e ↔
      ∃ x, d.FirstUnsound x ∧ x.2.define d.space d.scope x.1 = .error e := by
  obtain ⟨hspace, hcheck⟩ := namesSound_iff.mp hnames
  have htables : d.define = .error e ↔ d.tables.mapM d.entry = .error e := by
    simp only [define, hspace, hcheck, bind_eq_error, pure_eq_error, and_false, exists_false,
      or_false, reduceCtorEq, false_or, exists_const, true_and]
  rw [htables, mapM_eq_error]
  simp only [entry_isOk, entry_eq_error]
  constructor
  · intro hh
    obtain ⟨before, x, after, hsplit, hbefore, hx⟩ := hh
    refine ⟨x, ⟨before, after, hsplit, hbefore, ?_⟩, hx⟩
    rw [← TableDeclaration.define_isOk d.space x.1, hx]
    simp
  · intro hh
    obtain ⟨x, ⟨before, after, hsplit, hbefore, -⟩, hx⟩ := hh
    exact ⟨before, x, after, hsplit, hbefore, hx⟩

theorem define_eq_error_of_first {x : String × TableDeclaration} {e : ConfigError}
    (hnames : d.NamesSound) (hx : d.FirstUnsound x) (h : d.define = .error e) :
    x.2.define d.space d.scope x.1 = .error e := by
  cases hdefine : x.2.define d.space d.scope x.1 with
  | ok t =>
    obtain ⟨before, after, -, -, hunsound⟩ := hx
    exact absurd ((TableDeclaration.define_isOk _ _ _ _).mp ⟨t, hdefine⟩) hunsound
  | error e' =>
    have h' := (define_eq_error hnames).mpr ⟨x, hx, hdefine⟩
    rw [h] at h'
    rw [Except.error.inj h']

theorem define_kind_of_names {e : ConfigError} (h : d.define = .error e) (hnames : ¬d.NamesSound) :
    e.kind = .general := by
  rw [namesSound_iff] at hnames
  simp only [define, bind_eq_error] at h
  rcases h with hspace | ⟨_, hspace, hcheck | ⟨_, hcheck, -⟩⟩
  · exact Resource.checkSpace_eq_error hspace
  · exact checkNames_eq_error hcheck
  · exact absurd ⟨hspace, hcheck⟩ hnames

end StoreDeclaration

structure WorldDeclaration.Defines (d : WorldDeclaration) (w : World) : Prop where
  store : d.toStoreDeclaration.Defines w.toStore
  worldCodegen : w.worldCodegen = d.worldCodegen
  deploy : w.deploy = d.deploy
  systems : List.Forall₂ (fun x y => y.1 = x.1 ∧ x.2.Defines d.space x.1 y.2) d.systems w.systems
  excludedSystems : w.excludedSystems = d.excludedSystems
  modules : w.modules = d.modules

theorem WorldDeclaration.defines_of_define {d : WorldDeclaration} {w : World}
    (h : d.define = .ok w) : d.Defines w := by
  simp only [define, bind_eq_ok, pure_eq_ok] at h
  obtain ⟨systems, hsystems, store, hstore, rfl⟩ := h
  refine ⟨StoreDeclaration.defines_of_define hstore, rfl, rfl, ?_, rfl, rfl⟩
  apply (mapM_eq_ok.mp hsystems).imp
  intro x y hxy
  obtain ⟨t, ht, hy⟩ := bind_eq_ok.mp hxy
  cases pure_eq_ok.mp hy
  exact ⟨rfl, SystemDeclaration.defines_of_define ht⟩

end SolidityTables
