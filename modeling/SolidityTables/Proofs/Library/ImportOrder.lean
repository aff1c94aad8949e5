import SolidityTables.Proofs.Library.Names
import SolidityTables.Proofs.Library.Relocation

/-!
# What a library imports, and in which order

The fields of a table are gone through one after another, those of its key first, and an import is
added unless one with the same symbol and target is there. What a symbol is imported from depends
on the symbol only, so there is one import for each.
-/

namespace SolidityTables

open Attempt

theorem Scope.Knows.of_not_imported {s : Scope} {name : String} (h : s.Knows name)
    (himported : ¬s.IsImported name) : (∃ a : SchemaType, a.name = name) ∨
      name ∉ s.enums.map (·.1) ∧ ∃ u, s.userTypes.lookup name = some u ∧ u.filePath = "" := by
  by_cases habi : ∃ a : SchemaType, a.name = name
  · exact .inl habi
  · have hnone : ¬(name ∈ s.enums.map (·.1) ∨
        ∃ u, s.userTypes.lookup name = some u ∧ u.filePath ≠ "") :=
      fun hh => himported ⟨not_exists.mp habi, hh⟩
    have henum : name ∉ s.enums.map (·.1) := fun hh => hnone (.inl hh)
    obtain ⟨u, hu⟩ := mem_keys_iff.mp ((h.resolve_left habi).resolve_left henum)
    have hfile : u.filePath = "" := by_contra fun hh => hnone (.inr ⟨u, hu, hh⟩)
    exact .inr ⟨henum, u, hu, hfile⟩

namespace LibraryOptions

variable {codegen : StoreCodegen} {scope : Scope} {t : Table} {o : LibraryOptions} {i : Import}

theorem ofTable_known (h : ofTable codegen scope t = .ok o) :
    ∀ name ∈ t.typeNames, scope.Knows name := by
  have hfault := (isOk_iff_no_fault fun e => ofTable_eq_error).mp ⟨o, h⟩
  intro name hname
  obtain ⟨f, hf, rfl⟩ := List.mem_map.mp hname
  exact (Table.no_fault_iff.mp hfault).1 f hf

theorem nameImport?_user {name : String} (habi : ∀ a : SchemaType, a.name ≠ name)
    (henum : name ∉ scope.enums.map (·.1)) (h : nameImport? codegen scope t name = some i) :
    ∃ u, scope.userTypes.lookup name = some u ∧ i.target = u.filePath := by
  rw [nameImport?, Scope.find?_user habi henum] at h
  obtain ⟨n, hn, hnamed⟩ := Option.bind_eq_some_iff.mp h
  obtain ⟨u, hu, rfl⟩ := Option.map_eq_some_iff.mp hn
  rw [Import.ofNamed?] at hnamed
  split_ifs at hnamed
  cases hnamed
  exact ⟨u, hu, rfl⟩

end LibraryOptions

/-- The imports of the library of a table, with the given user types: one for each name of a type
that calls for one, in the order in which the names are first used, each from one place. -/
structure Table.Imports (s : Store) (types : List (String × UserType)) (t : Table)
    (imports : List Import) : Prop where
  keyOrder : t.keyFields.map (·.1) = t.key
  valueOrder : t.valueFields.Sublist t.schema
  partition : (t.keyFields ++ t.valueFields).Perm t.schema
  symbols : imports.map (·.symbol) =
    t.typeNames.eraseDups.filter (Scope.IsImported ⟨s.enums, types⟩)
  omitted : ∀ name ∈ t.typeNames, ¬Scope.IsImported ⟨s.enums, types⟩ name →
    (∃ a : SchemaType, a.name = name) ∨
      name ∉ s.enums.map (·.1) ∧ ∃ u, types.lookup name = some u ∧ u.filePath = ""
  distinct : (imports.map (·.symbol)).Nodup
  enumTarget : ∀ i ∈ imports, i.symbol ∈ s.enums.map (·.1) → i.target = s.typesPath
  userTarget : ∀ i ∈ imports, i.symbol ∉ s.enums.map (·.1) →
    ∃ u, types.lookup i.symbol = some u ∧ i.target = u.filePath
  directory : ∀ i ∈ imports,
    i.directory = Path.join s.codegen.outputDirectory t.codegen.outputDirectory

theorem Table.Resolved.imports {s : Store} {types : List (String × UserType)} {t : Table}
    {o : LibraryOptions} (ht : t.Resolved s)
    (h : LibraryOptions.ofTable s.codegen ⟨s.enums, types⟩ t = .ok o) :
    t.Imports s types o.imports := by
  have hsymbols := LibraryOptions.ofTable_symbols h
  have habi : ∀ i ∈ o.imports, ∀ a : SchemaType, a.name ≠ i.symbol := by
    intro i hi
    exact ((LibraryOptions.mem_symbols h ht).mp (List.mem_map_of_mem hi)).1.1
  exact {
    keyOrder := ht.keyFields_names
    valueOrder := List.filter_sublist
    partition := ht.fields_perm
    symbols := hsymbols
    omitted := fun name hname => (LibraryOptions.ofTable_known h name hname).of_not_imported
    distinct := LibraryOptions.ofTable_symbols_nodup h
    enumTarget := fun i hi henum => congrArg Import.target
      (LibraryOptions.ofTable_enumImport_unique h (habi i hi) henum i hi rfl)
    userTarget := fun i hi henum => LibraryOptions.nameImport?_user (habi i hi) henum
      (LibraryOptions.ofTable_import h hi)
    directory := fun i hi => (LibraryOptions.ofTable_import_target h hi).1 }

/-- A library imports the types of its fields once each, in the order of their first use, those of
the key first; only types of the ABI and user types without a file are left out. -/
theorem Store.imports_listed (s : Store) (hs : s.Accepted) (types : List (String × UserType))
    (files : List LibraryFile) (h : s.libraries types = .ok files) :
    List.Forall₂ (fun x file => x.2.Imports s types file.options.imports) s.tables files := by
  apply ((List.forall₂_and_left _ _).mpr ⟨hs.resolved, libraries_files h⟩).imp
  intro x file hh
  obtain ⟨hx, -, hoptions⟩ := hh
  exact hx.imports hoptions

theorem Store.imports_listed_items : ∃ file,
    itemStore.libraries [("Id", ⟨.static .address, "src/../Id.sol"⟩)] = .ok [file] ∧
      itemTable.Imports itemStore [("Id", ⟨.static .address, "src/../Id.sol"⟩)]
        file.options.imports ∧
      file.options.imports.map (·.symbol) = ["Id", "Rank"] := by
  have hplanned : (itemStore.libraries [("Id", ⟨.static .address, "src/../Id.sol"⟩)]).map
      (fun files => files.length) = .ok 1 := by decide +kernel
  obtain ⟨files, hfiles, hlength⟩ := map_eq_ok.mp hplanned
  obtain ⟨file, rfl⟩ := List.length_eq_one_iff.mp hlength
  have hlisted := Store.imports_listed itemStore itemStore_accepted _ _ hfiles
  rcases hlisted with _ | ⟨himports, -⟩
  refine ⟨file, hfiles, himports, ?_⟩
  rw [himports.symbols]
  decide +kernel

end SolidityTables
