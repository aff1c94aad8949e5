import Mathlib.Data.List.Perm.Basic
import SolidityTables.Proofs.Disk.Outputs
import SolidityTables.Proofs.Library.Functions

/-!
# Names at the top of a file

In the file of a library stand the symbols that it imports, its struct and the library itself, and
in the index all libraries and structs. Nothing compares these names. They are distinct unless a
label or the name of a type is one of the others.
-/

namespace SolidityTables

open Attempt

def storeNames : List String := [
  "IStore", "StoreSwitch", "StoreCore", "Bytes", "Memory", "SliceLib", "EncodeArray", "FieldLayout",
  "Schema", "SchemaLib", "SchemaType", "EncodedLengths", "EncodedLengthsLib", "ResourceId"]

def LibrarySource.names (s : LibrarySource) : List String :=
  (s.storeImports ++ s.typeImports).flatMap (·.symbols) ++
    ((s.struct.map (·.1)).toList ++ [s.library])

/-- The lines of a file in which a name is imported or declared. -/
def nameLines (lines : List String) : List String :=
  lines.filter fun line =>
    Line.begins "import " line || Line.begins "struct " line || Line.begins "library " line

def indexNames (files : List LibraryFile) : List String :=
  files.flatMap fun f => f.indexLine.symbols

def Scope.IsImported (s : Scope) (name : String) : Prop :=
  (∀ t : SchemaType, t.name ≠ name) ∧
    (name ∈ s.enums.map (·.1) ∨ ∃ u, s.userTypes.lookup name = some u ∧ u.filePath ≠ "")

instance (s : Scope) : DecidablePred s.IsImported := fun name =>
  decidable_of_iff (SchemaType.ofName? name = none ∧ (name ∈ s.enums.map (·.1) ∨
      (s.userTypes.lookup name).any (fun u => decide (u.filePath ≠ "")) = true)) (by
    rw [SchemaType.ofName?_eq_none, Scope.IsImported, Option.any_eq_true]
    simp only [decide_eq_true_eq])

def Table.structNames (t : Table) : List String :=
  if t.codegen.dataStruct then [t.label ++ "Data"] else []

/-- The library of a table is called like a symbol of the store, or a type of one of its fields that
is imported like such a symbol, the library or the struct. -/
inductive Table.NamesClash (scope : Scope) (t : Table) : Prop
  | library (h : t.label ∈ storeNames)
  | type {f : String × SchemaField} (hf : f ∈ t.schema) (himported : scope.IsImported f.2.declared)
    (h : f.2.declared ∈ storeNames ∨ f.2.declared = t.label ∨
      t.codegen.dataStruct = true ∧ f.2.declared = t.label ++ "Data")

theorem LibrarySource.nameLines_eq (s : LibrarySource) (h : ∀ m ∈ s.methods, m.Inner) :
    nameLines s.lines = s.importLines ++
      s.struct.toList.map (fun d => "struct " ++ d.1 ++ " \x7b") ++
        ["library " ++ s.library ++ " \x7b"] := by
  have hbegins : ∀ start ∈ " " :: declarationStarts, ∀ line, Line.begins start line = true →
      (Line.begins "import " line || Line.begins "struct " line || Line.begins "library " line) =
        (Line.begins "import " start || Line.begins "struct " start ||
          Line.begins "library " start) := by
    intro start hstart line hline
    rw [begins_declaration (by decide) start hstart line hline,
      begins_declaration (by decide) start hstart line hline,
      begins_declaration (by decide) start hstart line hline]
  rw [nameLines, s.filter_lines (by decide) (hbegins " " List.mem_cons_self) (by decide) h,
    s.filter_declarations fun start hstart => hbegins start (List.mem_cons_of_mem _ hstart),
    if_pos (by decide), if_neg (by decide), if_neg (by decide), if_pos (by decide),
    if_pos (by decide), List.append_nil, List.append_nil]

theorem ne_append_data (label : String) : label ≠ label ++ "Data" := by
  intro hh
  have hlength := congrArg (fun p => p.toList.length) hh
  simp only [String.toList_append, List.length_append] at hlength
  have hdata : ("Data" : String).toList.length = 4 := rfl
  omega

theorem storeNames_nodup : storeNames.Nodup := by decide

theorem append_data_notMem_storeNames (label : String) : label ++ "Data" ∉ storeNames := by
  have hends : ∀ n ∈ storeNames, ¬"Data".toList <:+ n.toList := by decide
  intro hmem
  apply hends _ hmem
  rw [String.toList_append]
  exact List.suffix_append _ _

namespace Table

variable {t : Table} {name : String}

theorem mem_structNames : name ∈ t.structNames ↔
    t.codegen.dataStruct = true ∧ name = t.label ++ "Data" := by
  unfold structNames
  cases t.codegen.dataStruct <;> simp

theorem structNames_nodup : (t.structNames ++ [t.label]).Nodup := by
  unfold structNames
  cases t.codegen.dataStruct with
  | true =>
    rw [if_pos rfl]
    exact List.nodup_cons.mpr ⟨mt List.mem_singleton.mp (ne_append_data t.label).symm,
      List.nodup_singleton _⟩
  | false => exact List.nodup_singleton _

end Table

namespace LibraryOptions

variable {codegen : StoreCodegen} {scope : Scope} {s : Store} {t : Table} {o : LibraryOptions}
variable {cwd : String} {source : LibrarySource}

theorem isImported_iff {name : String} :
    scope.IsImported name ↔ (nameImport? codegen scope t name).isSome = true := by
  rw [nameImport?]
  by_cases habi : ∀ t : SchemaType, t.name ≠ name
  · rw [Scope.IsImported, and_iff_right habi]
    by_cases henum : name ∈ scope.enums.map (·.1)
    · rw [Scope.find?_enum habi henum]
      exact iff_of_true (.inl henum) rfl
    · rw [Scope.find?_user habi henum, or_iff_right henum]
      cases scope.userTypes.lookup name with
      | none => simp
      | some u => simp [Import.ofNamed?]
  · rw [Scope.IsImported]
    push Not at habi
    obtain ⟨t, rfl⟩ := habi
    rw [Scope.find?_abi]
    exact iff_of_false (fun hh => hh.1 t rfl) Bool.false_ne_true

theorem ofTable_symbols (h : ofTable codegen scope t = .ok o) :
    o.imports.map (·.symbol) = t.typeNames.eraseDups.filter scope.IsImported := by
  rw [ofTable_imports h, Import.symbols_called nameImport?_symbol]
  refine List.filter_congr fun name _ => ?_
  rw [Bool.eq_iff_iff, decide_eq_true_iff]
  exact isImported_iff.symm

theorem ofTable_symbols_nodup (h : ofTable codegen scope t = .ok o) :
    (o.imports.map (·.symbol)).Nodup := by
  rw [ofTable_symbols h]
  exact (nodup_eraseDups t.typeNames).filter _

theorem mem_symbols (h : ofTable codegen scope t = .ok o) (ht : t.Resolved s) {name : String} :
    name ∈ o.imports.map (·.symbol) ↔
      scope.IsImported name ∧ ∃ f ∈ t.schema, f.2.declared = name := by
  rw [ofTable_symbols h, List.mem_filter, List.mem_eraseDups, decide_eq_true_eq, and_comm,
    Table.typeNames, List.mem_map]
  simp only [ht.fields_perm.mem_iff]

theorem ofTable_names (h : ofTable codegen scope t = .ok o) :
    o.library = t.label ∧ o.structName.toList = t.structNames := by
  simp only [ofTable, bind_eq_ok, pure_eq_ok] at h
  obtain ⟨keys, -, values, -, rfl⟩ := h
  refine ⟨rfl, ?_⟩
  have hne : t.label ++ "Data" ≠ "" := by simp
  unfold structName Table.structNames
  cases t.codegen.dataStruct with
  | true => simp [hne]
  | false => rfl

theorem source_names (h : o.source cwd = .ok source) : source.names =
    storeNames ++ (o.imports.map (·.symbol) ++ (o.structName.toList ++ [o.library])) := by
  simp only [LibraryOptions.source, bind_eq_ok, pure_eq_ok] at h
  obtain ⟨layout, -, words, -, rfl⟩ := h
  have hstore : (storeSymbols.map fun i =>
      (⟨i.symbols, o.storeImportPath ++ i.path⟩ : ImportLine)).flatMap (·.symbols) =
        storeNames := by
    rw [List.flatMap_map]
    rfl
  have htypes : (o.imports.map fun i => (⟨[i.symbol], i.path cwd⟩ : ImportLine)).flatMap
      (·.symbols) = o.imports.map (·.symbol) := by
    rw [List.flatMap_map, ← List.map_eq_flatMap]
  rw [LibrarySource.names, List.flatMap_append, hstore, htypes, Option.map_map, List.append_assoc]
  cases o.structName <;> rfl

theorem names_nodup_iff (h : ofTable codegen scope t = .ok o) (ht : t.Resolved s)
    (hsource : o.source cwd = .ok source) : source.names.Nodup ↔ ¬t.NamesClash scope := by
  obtain ⟨hlibrary, hstruct⟩ := ofTable_names h
  rw [source_names hsource, hlibrary, hstruct, List.nodup_append', List.nodup_append',
    and_iff_right storeNames_nodup, and_iff_right (ofTable_symbols_nodup h),
    and_iff_right Table.structNames_nodup]
  constructor
  · intro hh hclash
    obtain ⟨hsymbols, hstore⟩ := hh
    have hlast : t.label ∈ t.structNames ++ [t.label] :=
      List.mem_append_right _ (List.mem_singleton_self _)
    cases hclash with
    | library hname => exact hstore hname (List.mem_append_right _ hlast)
    | @type f hf himported hname =>
      have hsymbol := (mem_symbols h ht).mpr ⟨himported, f, hf, rfl⟩
      rcases hname with hname | hname | hname
      · exact hstore hname (List.mem_append_left _ hsymbol)
      · exact hsymbols hsymbol (hname ▸ hlast)
      · exact hsymbols hsymbol (List.mem_append_left _ (Table.mem_structNames.mpr hname))
  · intro hclash
    have hother {n : String} (hn : n ∈ t.structNames ++ [t.label]) :
        n = t.label ∨ t.codegen.dataStruct = true ∧ n = t.label ++ "Data" :=
      (List.mem_append.mp hn).symm.imp List.mem_singleton.mp Table.mem_structNames.mp
    constructor
    · intro n hsymbol hn
      obtain ⟨himported, f, hf, rfl⟩ := (mem_symbols h ht).mp hsymbol
      exact hclash (.type hf himported (.inr (hother hn)))
    · intro n hstore hn
      rcases List.mem_append.mp hn with hsymbol | hn
      · obtain ⟨himported, f, hf, rfl⟩ := (mem_symbols h ht).mp hsymbol
        exact hclash (.type hf himported (.inl hstore))
      · rcases hother hn with rfl | ⟨-, rfl⟩
        · exact hclash (.library hstore)
        · exact append_data_notMem_storeNames _ hstore

end LibraryOptions

section Index

variable {s : Store} {types : List (String × UserType)} {files : List LibraryFile}

theorem indexNames_eq (h : s.libraries types = .ok files) :
    indexNames files = s.tables.flatMap fun x => x.2.label :: x.2.structNames := by
  have hsymbols : files.map (fun f => f.indexLine.symbols) =
      s.tables.map fun x => x.2.label :: x.2.structNames := by
    rw [map_eq_map_iff]
    apply (Store.libraries_files h).flip.imp
    intro f x hh
    obtain ⟨hlibrary, hstruct⟩ := LibraryOptions.ofTable_names hh.2
    rw [LibraryFile.indexLine, hlibrary, hstruct]
  rw [indexNames, List.flatMap_def, hsymbols, ← List.flatMap_def]

theorem structs_nodup (hs : s.Accepted) :
    (s.tables.flatMap fun x => x.2.structNames).Nodup := by
  rw [List.nodup_flatMap]
  refine ⟨fun x _ => Table.structNames_nodup.of_append_left, ?_⟩
  refine (List.pairwise_map.mp hs.labels).imp fun {x y} hne n hx hy => hne ?_
  have hsame := (Table.mem_structNames.mp hx).2.symm.trans (Table.mem_structNames.mp hy).2
  exact (String.append_left_inj _).mp hsame

theorem indexNames_nodup_iff (hs : s.Accepted) (h : s.libraries types = .ok files) :
    (indexNames files).Nodup ↔ ∀ x ∈ s.tables, x.2.codegen.dataStruct = true →
      ∀ y ∈ s.tables, y.2.label ≠ x.2.label ++ "Data" := by
  have hperm := List.map_append_flatMap_perm s.tables (fun x => x.2.label)
    (fun x => x.2.structNames)
  rw [indexNames_eq h, ← hperm.nodup_iff, List.nodup_append', and_iff_right hs.labels,
    and_iff_right (structs_nodup hs)]
  constructor
  · intro hdisjoint x hx hstruct y hy hname
    refine hdisjoint (List.mem_map_of_mem hy) (List.mem_flatMap.mpr ⟨x, hx, ?_⟩)
    exact Table.mem_structNames.mpr ⟨hstruct, hname⟩
  · intro hnone n hlabel hstruct
    obtain ⟨y, hy, rfl⟩ := List.mem_map.mp hlabel
    obtain ⟨x, hx, hn⟩ := List.mem_flatMap.mp hstruct
    obtain ⟨hdata, hname⟩ := Table.mem_structNames.mp hn
    exact hnone x hx hdata y hy hname

end Index

/-- The names at the top of the file of a library are distinct just if the table has no clash, and
those that the index imports just if no struct is called like another table. With the user types of
the store all libraries can be written. -/
theorem Store.names_distinct (s : Store) (hs : s.Accepted) :
    (∀ types files, s.libraries types = .ok files →
      List.Forall₂ (fun x file => ∀ cwd text, file.options.render cwd = .ok text →
        ∃ source, file.options.source cwd = .ok source ∧
          text = String.intercalate "\n" (source.lines ++ [""]) ∧
          nameLines source.lines = source.importLines ++
            source.struct.toList.map (fun d => "struct " ++ d.1 ++ " \x7b") ++
            ["library " ++ source.library ++ " \x7b"] ∧
          (source.names.Nodup ↔ ¬x.2.NamesClash ⟨s.enums, types⟩)) s.tables files ∧
      indexText files = String.intercalate "\n" (fileHeader ++ "" :: files.map (fun f =>
        "import \x7b " ++ String.intercalate ", " f.indexLine.symbols ++ " \x7d from \"" ++
          ("./" ++ f.path) ++ "\";") ++ [""]) ∧
      ((indexNames files).Nodup ↔ ∀ x ∈ s.tables, x.2.codegen.dataStruct = true →
        ∀ y ∈ s.tables, y.2.label ≠ x.2.label ++ "Data")) ∧
    ∀ cwd, ∃ files, s.libraries s.userTypes = .ok files ∧
      ∀ file ∈ files, ∃ text, file.options.render cwd = .ok text := by
  refine ⟨fun types files hfiles => ⟨?_, rfl, indexNames_nodup_iff hs hfiles⟩, hs.libraries_isOk⟩
  apply ((List.forall₂_and_left _ _).mpr ⟨hs.resolved, libraries_files hfiles⟩).imp
  intro x file hh cwd text htext
  obtain ⟨hx, -, hoptions⟩ := hh
  obtain ⟨source, hsource, rfl⟩ := map_eq_ok.mp htext
  exact ⟨source, hsource, rfl, source.nameLines_eq (LibraryOptions.source_inner hsource),
    LibraryOptions.names_nodup_iff hoptions hx hsource⟩

theorem names_distinct_items : ∃ (file : LibraryFile) (source : LibrarySource),
    itemStore.libraries itemStore.userTypes = .ok [file] ∧
      file.options.render "/work" = .ok (String.intercalate "\n" (source.lines ++ [""])) ∧
      source.names.Nodup ∧ (indexNames [file]).Nodup := by
  have hclash : ¬itemTable.NamesClash ⟨itemStore.enums, itemStore.userTypes⟩ := by
    have hlibrary : itemTable.label ∉ storeNames := by decide
    have htypes : ∀ f ∈ itemTable.schema, ¬(f.2.declared ∈ storeNames ∨
        f.2.declared = itemTable.label ∨ itemTable.codegen.dataStruct = true ∧
          f.2.declared = itemTable.label ++ "Data") := by decide
    intro hh
    cases hh with
    | library hname => exact hlibrary hname
    | type hf _ hname => exact htypes _ hf hname
  obtain ⟨hdistinct, hwritten⟩ := Store.names_distinct itemStore itemStore_accepted
  obtain ⟨files, hfiles, hrender⟩ := hwritten "/work"
  obtain ⟨hlibraries, -, hindex⟩ := hdistinct _ files hfiles
  rcases hlibraries with _ | ⟨hitem, hnil⟩
  next file _ =>
    cases hnil
    obtain ⟨text, htext⟩ := hrender file (List.mem_singleton_self file)
    obtain ⟨source, -, rfl, -, hnames⟩ := hitem "/work" text htext
    exact ⟨file, source, hfiles, htext, hnames.mpr hclash, hindex.mpr (by decide)⟩

def namesakes : Json.Members :=
  [("tables", .obj [
    ("Bytes", .obj [("schema", .obj [("head", .str "uint8"), ("tail", .str "uint8")])]),
    ("BytesData", .obj [("schema", .obj [("value", .str "uint8")])])])]

/-- Names may clash in the file of a library that is written, and in the index. -/
theorem namesakes_clash : (Json.obj namesakes).WellFormed ∧
    ∃ (s : Store) (file other : LibraryFile) (source : LibrarySource),
      Store.define namesakes = .ok s ∧ s.libraries s.userTypes = .ok [file, other] ∧
        file.options.render "/work" = .ok (String.intercalate "\n" (source.lines ++ [""])) ∧
        ¬source.names.Nodup ∧ ¬(indexNames [file, other]).Nodup := by
  have hall : (do
      let s ← Store.define namesakes
      let files ← s.libraries s.userTypes
      return (files.map fun (f : LibraryFile) =>
        (f.options.source "/work").toOption.map fun src : LibrarySource => decide src.names.Nodup,
          decide (indexNames files).Nodup)) = .ok ([some false, some true], false) := by
    decide +kernel
  simp only [bind_eq_ok, pure_eq_ok] at hall
  obtain ⟨s, hs, files, hfiles, hmap⟩ := hall
  obtain ⟨hsources, hindex⟩ := Prod.mk.inj hmap
  obtain ⟨file, _, rfl, hfile, hrest⟩ := List.map_eq_cons_iff.mp hsources
  obtain ⟨other, _, rfl, -, hnil⟩ := List.map_eq_cons_iff.mp hrest
  cases List.map_eq_nil_iff.mp hnil
  obtain ⟨source, hsource, hnames⟩ := Option.map_eq_some_iff.mp hfile
  have htext : file.options.render "/work" =
      .ok (String.intercalate "\n" (source.lines ++ [""])) :=
    map_eq_ok.mpr ⟨source, toOption_eq_some.mp hsource, rfl⟩
  exact ⟨by simp [namesakes], s, file, other, source, hs, hfiles, htext,
    of_decide_eq_false hnames, of_decide_eq_false hindex⟩

end SolidityTables
