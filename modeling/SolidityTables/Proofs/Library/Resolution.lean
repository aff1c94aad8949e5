import SolidityTables.Library.Resolution
import SolidityTables.Proofs.Config.TypeNames
import SolidityTables.Proofs.Library.Imports

/-!
# Agreement of the resolutions of a name

A declared name is looked for three times, each time in its own way. All three find the same or
nothing, and what they find is what tables are defined and libraries are planned with.
-/

namespace SolidityTables

open Attempt

/-- Two types, however they are spelled, whose values are stored alike. -/
structure TypeSpelling.StoredLike (t u : TypeSpelling) : Prop where
  member : t.member = u.member
  byteLength : t.byteLength = u.byteLength
  isDynamic : t.isDynamic = u.isDynamic
  internal : t.internal = u.internal

namespace TypeSpelling

theorem ofNamed_storedLike (name : String) (n : NamedType) :
    (ofNamed name n).StoredLike (ofAbi n.base) := by
  cases n <;> exact ⟨rfl, rfl, rfl, rfl⟩

theorem ofAbiName_name (t : SchemaType) : ofAbiName t.name = .ok (ofAbi t) := by
  rw [ofAbiName, SchemaType.ofName?_eq_some.mpr rfl]

theorem ofNamed_wrap_eq_empty {name : String} {n : NamedType} (h : n = .enum → name ≠ "") :
    (ofNamed name n).wrap = "" ↔ ∃ t, n = .abi t := by
  cases n with
  | abi t => exact iff_of_true rfl ⟨t, rfl⟩
  | enum => exact iff_of_false (h rfl) (by simp)
  | user u => exact iff_of_false (by simp [ofNamed, ofUserType]) (by simp)

theorem ofNamed_unwrap_eq_empty {name : String} {n : NamedType} :
    (ofNamed name n).unwrap = "" ↔ ∃ t, n = .abi t := by
  cases n with
  | abi t => exact iff_of_true rfl ⟨t, rfl⟩
  | enum => exact iff_of_false (show SchemaType.uint8.name ≠ "" by decide) (by simp)
  | user u => exact iff_of_false (by simp [ofNamed, ofUserType]) (by simp)

end TypeSpelling

namespace Scope

variable {s : Scope} {name : String}

theorem schemaType_eq (s : Scope) (name : String) :
    s.schemaType name = (s.find name).map NamedType.base := by
  unfold schemaType find find?
  cases SchemaType.ofName? name with
  | some t => rfl
  | none =>
    dsimp only
    split
    · rfl
    · cases s.userTypes.lookup name with
      | some u => rfl
      | none => rfl

theorem spelling_eq (s : Scope) (name : String) :
    s.spelling name = (s.find name).map fun n => (n.base, .ofNamed name n) := by
  unfold spelling find find?
  cases SchemaType.ofName? name with
  | some t => rfl
  | none =>
    dsimp only
    split
    · rfl
    · cases s.userTypes.lookup name with
      | some u => rfl
      | none => rfl

theorem imported_eq (s : Scope) (codegen : StoreCodegen) (directory name : String) :
    s.imported codegen directory name =
      (s.find name).map (Import.ofNamed? codegen directory name) := by
  unfold imported find find?
  cases SchemaType.ofName? name with
  | some t => rfl
  | none =>
    dsimp only
    split
    · contradiction
    · split
      · rfl
      · cases s.userTypes.lookup name with
        | some u => exact (apply_ite Except.ok _ _ _).symm
        | none => rfl

theorem find?_eq_abi {t : SchemaType} : s.find? name = some (.abi t) ↔ t.name = name := by
  rw [find?, ← SchemaType.ofName?_eq_some]
  cases SchemaType.ofName? name with
  | some u => simp
  | none =>
    dsimp only
    split <;> simp

theorem mem_of_find?_enum (h : s.find? name = some .enum) : name ∈ s.enums.map (·.1) := by
  unfold find? at h
  split at h
  next => cases h
  next =>
    split at h
    next henum => exact henum
    next =>
      obtain ⟨_, -, huser⟩ := Option.map_eq_some_iff.mp h
      cases huser

/-- The three resolutions of a name in a scope, for a file in a directory. -/
structure Resolution (s : Scope) (codegen : StoreCodegen) (directory name : String)
    (t : SchemaType) (r : TypeSpelling) (i : Option Import) : Prop where
  resolves : s.Resolves name t
  schemaType : s.schemaType name = .ok t
  spelling : s.spelling name = .ok (t, r)
  imported : s.imported codegen directory name = .ok i
  stored : ∃ plain, TypeSpelling.ofAbiName t.name = .ok plain ∧ r.StoredLike plain
  unwrap : r.unwrap = "" ↔ ∃ u : SchemaType, u.name = name
  abi : (∃ u : SchemaType, u.name = name) → i = none

theorem abi_iff {n : NamedType} (h : s.find? name = some n) :
    (∃ t, n = .abi t) ↔ ∃ u : SchemaType, u.name = name := by
  refine exists_congr fun u => ?_
  rw [← find?_eq_abi, h, Option.some.injEq]

theorem resolution_of_find? (codegen : StoreCodegen) (directory : String) {n : NamedType}
    (h : s.find? name = some n) : s.Resolution codegen directory name n.base
      (.ofNamed name n) (Import.ofNamed? codegen directory name n) := by
  have hfind : s.find name = .ok n := find_eq_ok.mpr h
  constructor
  case resolves => exact resolves_iff.mpr ⟨n, h, rfl⟩
  case schemaType => rw [schemaType_eq, hfind, Except.map]
  case spelling => rw [spelling_eq, hfind, Except.map]
  case imported => rw [imported_eq, hfind, Except.map]
  case stored =>
    exact ⟨_, TypeSpelling.ofAbiName_name n.base, TypeSpelling.ofNamed_storedLike name n⟩
  case unwrap => rw [TypeSpelling.ofNamed_unwrap_eq_empty, abi_iff h]
  case abi =>
    intro hh
    obtain ⟨t, rfl⟩ := (abi_iff h).mpr hh
    rfl

theorem not_resolved (codegen : StoreCodegen) (directory : String) (h : ¬s.Knows name) :
    s.schemaType name = .error (.unknownType name) ∧
      s.spelling name = .error (.unknownType name) ∧
      s.imported codegen directory name = .error (.unknownType name) := by
  have hfind : s.find name = .error (.unknownType name) := find_eq_error.mpr ⟨h, rfl⟩
  rw [schemaType_eq, spelling_eq, imported_eq, hfind]
  exact ⟨rfl, rfl, rfl⟩

end Scope

namespace LibraryOptions

variable {scope : Scope} {label : String} {x : String × SchemaField}

theorem keyField_spelling : (keyField scope label x).map (·.2) = do
    let (_, r) ← scope.spelling x.2.declared
    if r.isDynamic then .error (.keyDynamic x.1 label x.2.declared)
    else return { r with name := x.1, element := none } := by
  rw [keyField, Scope.spelling_eq]
  cases scope.find x.2.declared with
  | error e => rfl
  | ok n =>
    have hchoice := apply_ite (Except.map (fun y : NamedType × Field => y.2))
      ((TypeSpelling.ofNamed x.2.declared n).isDynamic = true)
      (Except.error (ConfigError.keyDynamic x.1 label x.2.declared))
      (.ok (n, { TypeSpelling.ofNamed x.2.declared n with name := x.1, element := none }))
    exact hchoice

theorem valueField_spelling : (valueField scope x).map (·.2) = do
    let (t, r) ← scope.spelling x.2.declared
    return { r with name := x.1, element := t.element?.map fun e => .ofAbi (.static e) } := by
  rw [valueField, Scope.spelling_eq]
  cases scope.find x.2.declared <;> rfl

theorem ofTable_imported {codegen : StoreCodegen} {t : Table} {o : LibraryOptions}
    (h : ofTable codegen scope t = .ok o) :
    o.imports = Import.called (fun name => (scope.imported codegen
      (Path.join codegen.outputDirectory t.codegen.outputDirectory) name).toOption.join)
      t.typeNames := by
  have himport : nameImport? codegen scope t = fun name => (scope.imported codegen
      (Path.join codegen.outputDirectory t.codegen.outputDirectory) name).toOption.join := by
    funext name
    rw [nameImport?, Scope.imported_eq, Scope.find]
    cases scope.find? name <;> rfl
  rw [ofTable_imports h, himport]

end LibraryOptions

theorem TableDeclaration.fields_schemaType (scope : Scope) (d : TableDeclaration) :
    d.fields scope = d.schema.mapM fun (field, declared) => do
      return (field, ⟨← scope.schemaType declared, declared⟩) := by
  refine mapM_congr fun f _ => ?_
  dsimp only
  rw [Scope.schemaType_eq]
  cases scope.find f.2 <;> rfl

theorem IsTypeName.ne_empty {name : String} (h : IsTypeName name) : name ≠ "" := by
  rintro rfl
  obtain ⟨stem, hstem, hname | hname⟩ := h.spelled
  · obtain ⟨c, rest, hcons, -⟩ := Identifier.spells_iff.mp hstem
    rw [← hname] at hcons
    cases hcons
  · have hlast := congrArg String.toList hname
    simp at hlast

/-- What a scope finds is what tables are defined with, what the fields of keys and values are
spelled with, and what the libraries import. -/
structure Scope.Pipeline (scope : Scope) (codegen : StoreCodegen) : Prop where
  fields : ∀ d : TableDeclaration, d.fields scope = d.schema.mapM fun (field, declared) => do
    return (field, ⟨← scope.schemaType declared, declared⟩)
  keyField : ∀ (label : String) (x : String × SchemaField),
    (LibraryOptions.keyField scope label x).map (·.2) = do
      let (_, r) ← scope.spelling x.2.declared
      if r.isDynamic then .error (.keyDynamic x.1 label x.2.declared)
      else return { r with name := x.1, element := none }
  valueField : ∀ x : String × SchemaField, (LibraryOptions.valueField scope x).map (·.2) = do
    let (t, r) ← scope.spelling x.2.declared
    return { r with name := x.1, element := t.element?.map fun e => .ofAbi (.static e) }
  imports : ∀ (t : Table) (o : LibraryOptions), LibraryOptions.ofTable codegen scope t = .ok o →
    o.imports = Import.called (fun name => (scope.imported codegen
      (Path.join codegen.outputDirectory t.codegen.outputDirectory) name).toOption.join)
      t.typeNames

theorem Scope.pipeline (scope : Scope) (codegen : StoreCodegen) : scope.Pipeline codegen where
  fields := TableDeclaration.fields_schemaType scope
  keyField _ _ := LibraryOptions.keyField_spelling
  valueField _ := LibraryOptions.valueField_spelling
  imports _ _ := LibraryOptions.ofTable_imported

/-- All resolutions of a name fail, or all succeed and agree, and they are those that tables are
defined and libraries are planned with. -/
theorem Store.resolutions_agree (s : Store) (hs : s.Accepted) (types : List (String × UserType))
    (name directory : String) :
    Scope.Pipeline ⟨s.enums, types⟩ s.codegen ∧
    (Scope.Knows ⟨s.enums, types⟩ name → ∃ t r i,
      Scope.Resolution ⟨s.enums, types⟩ s.codegen directory name t r i ∧
        (r.wrap = "" ↔ ∃ u : SchemaType, u.name = name)) ∧
    (¬Scope.Knows ⟨s.enums, types⟩ name →
      Scope.schemaType ⟨s.enums, types⟩ name = .error (.unknownType name) ∧
      Scope.spelling ⟨s.enums, types⟩ name = .error (.unknownType name) ∧
      Scope.imported ⟨s.enums, types⟩ s.codegen directory name = .error (.unknownType name)) := by
  refine ⟨Scope.pipeline _ _, ?_, ?_⟩
  · intro hknown
    obtain ⟨n, hn⟩ := Scope.knows_iff.mp hknown
    have hresolution := Scope.resolution_of_find? s.codegen directory hn
    have hname : n = .enum → name ≠ "" := by
      rintro rfl
      exact (hs.names.2 name (List.mem_append_left _ (Scope.mem_of_find?_enum hn))).ne_empty
    refine ⟨_, _, _, hresolution, ?_⟩
    rw [TypeSpelling.ofNamed_wrap_eq_empty hname, Scope.abi_iff hn]
  · exact Scope.not_resolved s.codegen directory

theorem resolutions_agree_shadowed : itemStore.Accepted ∧
    (∃ r i, Scope.Resolution ⟨itemStore.enums, [("Rank", ⟨.string, "src/Rank.sol"⟩)]⟩
      itemStore.codegen "codegen/tables" "Rank" .uint8 r i ∧ r.wrap ≠ "") ∧
    Scope.imported ⟨itemStore.enums, [("Rank", ⟨.string, "src/Rank.sol"⟩)]⟩
      itemStore.codegen "codegen/tables" "Id" = .error (.unknownType "Id") := by
  have habi : ∀ t : SchemaType, t.name ≠ "Rank" :=
    SchemaType.ofName?_eq_none.mp (by decide +kernel)
  have hunknown : ¬Scope.Knows ⟨itemStore.enums, [("Rank", ⟨.string, "src/Rank.sol"⟩)]⟩ "Id" := by
    rw [Scope.knows_iff, ← Option.isSome_iff_exists]
    decide +kernel
  obtain ⟨-, hrank, -⟩ := Store.resolutions_agree itemStore itemStore_accepted
    [("Rank", ⟨.string, "src/Rank.sol"⟩)] "Rank" "codegen/tables"
  obtain ⟨-, -, hid⟩ := Store.resolutions_agree itemStore itemStore_accepted
    [("Rank", ⟨.string, "src/Rank.sol"⟩)] "Id" "codegen/tables"
  obtain ⟨t, r, i, hresolution, hwrap⟩ := hrank (.inr (.inl (by decide)))
  obtain rfl : t = .uint8 :=
    Scope.resolves_unique hresolution.resolves (.enum habi (by decide))
  refine ⟨itemStore_accepted, ⟨r, i, hresolution, fun hh => ?_⟩, (hid hunknown).2.2⟩
  obtain ⟨u, hu⟩ := hwrap.mp hh
  exact habi u hu

end SolidityTables
