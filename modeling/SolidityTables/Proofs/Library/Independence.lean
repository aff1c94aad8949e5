import SolidityTables.Proofs.Config.Edits
import SolidityTables.Proofs.Library.Planning

/-!
# Tables do not depend on one another

A table is resolved with nothing but the namespace of the store and what the names of its own types
stand for, and its library is planned with these and the settings of the code. So a table that is
kept when a configuration is edited keeps its record and its library.
-/

namespace SolidityTables

open Attempt

section Congruence

variable {scope scope' : Scope}

theorem Scope.find_congr {n : String} (h : scope'.find? n = scope.find? n) :
    scope'.find n = scope.find n := by
  rw [find, find, h]

theorem TableDeclaration.define_congr {d : TableDeclaration} (space label : String)
    (h : ∀ f ∈ d.schema, scope'.find? f.2 = scope.find? f.2) :
    d.define space scope' label = d.define space scope label := by
  have hfields : d.fields scope' = d.fields scope := by
    refine mapM_congr fun f hf => ?_
    have hfind : scope'.find f.2 = scope.find f.2 := Scope.find_congr (h f hf)
    dsimp only
    rw [hfind]
  rw [define, define, hfields]

theorem LibraryOptions.ofTable_congr {t : Table} (codegen : StoreCodegen)
    (h : ∀ f ∈ t.schema, scope'.find? f.2.declared = scope.find? f.2.declared) :
    ofTable codegen scope' t = ofTable codegen scope t := by
  have hkeys : t.keyFields.mapM (keyField scope' t.label) =
      t.keyFields.mapM (keyField scope t.label) := by
    refine mapM_congr fun f hf => ?_
    rw [keyField, keyField, Scope.find_congr (h f (Table.Resolved.keyField_mem_schema hf))]
  have hvalues : t.valueFields.mapM (valueField scope') =
      t.valueFields.mapM (valueField scope) := by
    refine mapM_congr fun f hf => ?_
    rw [valueField, valueField, Scope.find_congr (h f (List.mem_of_mem_filter hf))]
  rw [ofTable, ofTable, hkeys, hvalues]

end Congruence

structure Store.Agrees (s s' : Store) : Prop where
  space : s'.space = s.space
  codegen : s'.codegen = s.codegen
  types : ∀ (given : Option (List (String × UserType))) (n : String), s.scope.Knows n →
    Scope.find? ⟨s'.enums, given.getD s'.userTypes⟩ n =
      Scope.find? ⟨s.enums, given.getD s.userTypes⟩ n

namespace Store.Agrees

variable {s s' s'' : Store}

theorem refl (s : Store) : s.Agrees s := ⟨rfl, rfl, fun _ _ _ => rfl⟩

theorem knows (h : s.Agrees s') {n : String} (hn : s.scope.Knows n) : s'.scope.Knows n := by
  rw [Scope.knows_iff] at hn ⊢
  obtain ⟨t, ht⟩ := hn
  exact ⟨t, (h.types none n (Scope.knows_iff.mpr ⟨t, ht⟩)).trans ht⟩

theorem trans (h : s.Agrees s') (h' : s'.Agrees s'') : s.Agrees s'' :=
  ⟨h'.space.trans h.space, h'.codegen.trans h.codegen, fun given n hn =>
    (h'.types given n (h.knows hn)).trans (h.types given n hn)⟩

end Store.Agrees

section Runs

variable {ms ms' : Json.Members} {s : Store}

theorem StoreDeclaration.Revised.define_isOk {d d' : StoreDeclaration} (h : d.Revised d')
    (hd : ∃ s, d.define = .ok s) : ∃ s', d'.define = .ok s' := by
  have hsound := StoreDeclaration.define_isOk.mp hd
  obtain ⟨hspace, hnames⟩ := StoreDeclaration.namesSound_iff.mp hsound.names
  rw [← h.space] at hspace
  refine StoreDeclaration.define_isOk.mpr
    ⟨StoreDeclaration.namesSound_iff.mpr ⟨hspace, h.names hnames⟩, fun x hx => ?_⟩
  have hold := hsound.tables x (h.tables x hx)
  -- The names of an accepted table are known, and these stand for the same in both scopes.
  have hsame : x.2.define d.space d'.scope x.1 = x.2.define d.space d.scope x.1 :=
    TableDeclaration.define_congr d.space x.1 fun f hf => h.types none f.2 (hold.types f hf)
  rw [← TableDeclaration.define_isOk d.space x.1] at hold ⊢
  rwa [hsame]

theorem StoreDeclaration.Revised.agrees {d d' : StoreDeclaration} {s' : Store} (h : d.Revised d')
    (hs : d.Defines s) (hs' : d'.Defines s') : s.Agrees s' := by
  have hscope : s.scope = d.scope := by
    rw [Store.scope, hs.enums, hs.userTypes]
    rfl
  refine ⟨?_, ?_, fun given n hn => ?_⟩
  · rw [hs'.space, hs.space, h.space]
  · rw [hs'.codegen, hs.codegen, h.codegen]
  · rw [hscope] at hn
    rw [hs'.enums, hs'.userTypes, hs.enums, hs.userTypes]
    exact h.types given n hn

theorem Edit.define (h : Edit ms ms') (hs : Store.define ms = .ok s) : ∃ s',
    Store.define ms' = .ok s' ∧ s.Agrees s' ∧
      (declaredTables ms').Subperm (declaredTables ms) := by
  obtain ⟨d, hd, hdefine⟩ := Store.define_eq_ok.mp hs
  obtain ⟨d', hd', hrevised, htables⟩ := h.presents hd
  obtain ⟨s', hs'⟩ := hrevised.define_isOk ⟨s, hdefine⟩
  exact ⟨s', Store.define_eq_ok.mpr ⟨d', hd', hs'⟩,
    hrevised.agrees (StoreDeclaration.defines_of_define hdefine)
      (StoreDeclaration.defines_of_define hs'), htables⟩

theorem edits_define (h : Relation.ReflTransGen Edit ms ms') (hs : Store.define ms = .ok s) :
    ∃ s', Store.define ms' = .ok s' ∧ s.Agrees s' ∧
      (declaredTables ms').Subperm (declaredTables ms) := by
  induction h with
  | refl => exact ⟨s, hs, .refl s, .refl _⟩
  | tail _ hedit ih =>
    obtain ⟨s₁, hs₁, hagrees, htables⟩ := ih
    obtain ⟨s', hs', hagrees', htables'⟩ := hedit.define hs₁
    exact ⟨s', hs', hagrees.trans hagrees', htables'.trans htables⟩

end Runs

namespace Store

variable {ms ms' : Json.Members} {s s' : Store}

/-- The table that is resolved from an entry of a configuration, and its key. -/
def tableOf? (s : Store) (m : String × Json) : Option (String × Table) := do
  let d ← (TableDeclaration.shape.reader "TableInput" m.2).toExcept.toOption
  let t ← (d.define s.space s.scope m.1).toOption
  return (Resource.tableKey s.space m.1, t)

def libraryOf? (s : Store) (types : List (String × UserType)) (x : String × Table) :
    Option LibraryFile := do
  let o ← (LibraryOptions.ofTable s.codegen ⟨s.enums, types⟩ x.2).toOption
  return ⟨Path.join x.2.codegen.outputDirectory (x.2.label ++ ".sol"), x.2.label, o⟩

theorem tableOf?_eq_some {m : String × Json} {x : String × Table} : s.tableOf? m = some x ↔
    ∃ d, TableDeclaration.shape.reader "TableInput" m.2 = .value d ∧
      d.define s.space s.scope m.1 = .ok x.2 ∧ x.1 = Resource.tableKey s.space m.1 := by
  simp only [tableOf?, Option.bind_eq_bind, Option.bind_eq_some_iff, toOption_eq_some,
    toExcept_eq_ok, Option.pure_def, Option.some.injEq]
  refine exists_congr fun d => and_congr_right fun _ => ?_
  constructor
  · intro hh
    obtain ⟨t, ht, rfl⟩ := hh
    exact ⟨ht, rfl⟩
  · intro hh
    obtain ⟨ht, hkey⟩ := hh
    exact ⟨x.2, ht, by rw [← hkey]⟩

theorem tables_tableOf? (h : Store.define ms = .ok s) :
    (declaredTables ms).map s.tableOf? = s.tables.map some := by
  obtain ⟨d, hd, hdefine⟩ := Store.define_eq_ok.mp h
  have hread := Shape.dictionary_read
    (StoreDeclaration.shape_read.mp (Shape.members_eq_value.mp hd.shape).1).tables
  rw [← declaredTables_eq_entries] at hread
  simp only [StoreDeclaration.define, bind_eq_ok, pure_eq_ok] at hdefine
  obtain ⟨_, -, _, -, tables, htables, rfl⟩ := hdefine
  refine map_eq_map_iff.mpr (forall₂_comp (fun m y x hm hx => ?_) hread (mapM_eq_ok.mp htables))
  obtain ⟨hlabel, hread⟩ := hm
  obtain ⟨t, ht, hx⟩ := bind_eq_ok.mp hx
  cases pure_eq_ok.mp hx
  rw [← hlabel] at ht
  exact tableOf?_eq_some.mpr ⟨y.2, hread, ht, by rw [hlabel]⟩

theorem libraries_libraryOf? {types : List (String × UserType)} {files : List LibraryFile} :
    s.libraries types = .ok files ↔ s.tables.map (s.libraryOf? types) = files.map some := by
  have hstep (x : String × Table) : s.libraryOf? types x = Except.toOption (do
      return ⟨Path.join x.2.codegen.outputDirectory (x.2.label ++ ".sol"), x.2.label,
        ← LibraryOptions.ofTable s.codegen ⟨s.enums, types⟩ x.2⟩) := by
    rw [libraryOf?]
    cases LibraryOptions.ofTable s.codegen ⟨s.enums, types⟩ x.2 <;> rfl
  rw [libraries, mapM_eq_ok, map_eq_map_iff]
  simp only [hstep, toOption_eq_some]

theorem mem_tables_iff (h : (declaredTables ms).map s.tableOf? = s'.tables.map some)
    {x : String × Table} : x ∈ s'.tables ↔ ∃ m ∈ declaredTables ms, s.tableOf? m = some x := by
  rw [← List.mem_map, h]
  simp only [List.mem_map, Option.some.injEq, exists_eq_right]

theorem exists_tableOf? (h : Store.define ms = .ok s) {m : String × Json}
    (hm : m ∈ declaredTables ms) : ∃ x, s.tableOf? m = some x := by
  obtain ⟨x, -, hx⟩ := exists_of_mem_right (map_eq_map_iff.mp (tables_tableOf? h)).flip hm
  exact ⟨x, hx⟩

theorem exists_libraryOf? {types : List (String × UserType)} {files : List LibraryFile}
    (h : s.libraries types = .ok files) {x : String × Table} (hx : x ∈ s.tables) :
    ∃ f, s.libraryOf? types x = some f := by
  obtain ⟨f, -, hf⟩ := exists_of_mem_right (map_eq_map_iff.mp (libraries_libraryOf?.mp h)).flip hx
  exact ⟨f, hf⟩

theorem tableOf?_knows {m : String × Json} {x : String × Table} (h : s.tableOf? m = some x) :
    ∀ f ∈ x.2.schema, s.scope.Knows f.2.declared := by
  obtain ⟨d, -, hdefine, -⟩ := tableOf?_eq_some.mp h
  have hdefines := TableDeclaration.defines_of_define hdefine
  have hfields := TableDeclaration.fields_eq_ok.mp hdefines.schema
  exact fun f hf => Scope.knows_iff_resolves.mpr ⟨_, hfields.2 f hf⟩

namespace Agrees

theorem tableOf? (h : s.Agrees s') {m : String × Json} {x : String × Table}
    (hx : s.tableOf? m = some x) : s'.tableOf? m = some x := by
  obtain ⟨d, hread, hdefine, hkey⟩ := tableOf?_eq_some.mp hx
  have hknown := (TableDeclaration.defines_of_define hdefine).sound.types
  refine tableOf?_eq_some.mpr ⟨d, hread, ?_, by rw [h.space, hkey]⟩
  rw [h.space, ← hdefine]
  exact TableDeclaration.define_congr s.space m.1 fun f hf => h.types none f.2 (hknown f hf)

theorem libraryOf? (h : s.Agrees s') {x : String × Table}
    (hx : ∀ f ∈ x.2.schema, s.scope.Knows f.2.declared)
    (given : Option (List (String × UserType))) :
    s'.libraryOf? (given.getD s'.userTypes) x = s.libraryOf? (given.getD s.userTypes) x := by
  have hsame := LibraryOptions.ofTable_congr s.codegen fun f hf =>
    h.types given f.2.declared (hx f hf)
  rw [Store.libraryOf?, Store.libraryOf?, h.codegen, hsame]

theorem tables (h : s.Agrees s') (hs : Store.define ms = .ok s) (hs' : Store.define ms' = .ok s')
    (hleft : declaredTables ms' ⊆ declaredTables ms) :
    (declaredTables ms').map s.tableOf? = s'.tables.map some := by
  rw [← tables_tableOf? hs']
  refine List.map_congr_left fun m hm => ?_
  obtain ⟨x, hx⟩ := exists_tableOf? hs (hleft hm)
  rw [hx, h.tableOf? hx]

theorem libraries (h : s.Agrees s') (hleft : s'.tables ⊆ s.tables)
    (hknown : ∀ x ∈ s'.tables, ∀ f ∈ x.2.schema, s.scope.Knows f.2.declared)
    {given : Option (List (String × UserType))} {files : List LibraryFile}
    (hfiles : s.libraries (given.getD s.userTypes) = .ok files) :
    ∃ files', s'.libraries (given.getD s'.userTypes) = .ok files' ∧
      s'.tables.map (s.libraryOf? (given.getD s.userTypes)) = files'.map some := by
  -- Given types may lack a name that the store has, but not one of a table planned with them.
  obtain ⟨files', hfiles'⟩ := exists_forall₂ fun x hx => exists_libraryOf? hfiles (hleft hx)
  rw [← map_eq_map_iff] at hfiles'
  have hsame : s'.tables.map (s'.libraryOf? (given.getD s'.userTypes)) =
      s'.tables.map (s.libraryOf? (given.getD s.userTypes)) :=
    List.map_congr_left fun x hx => h.libraryOf? (hknown x hx) given
  exact ⟨files', libraries_libraryOf?.mpr (hsame.trans hfiles'), hfiles'⟩

end Agrees

end Store

/-- Whatever edits are made to a configuration that defines a store, it defines a store again. What
is resolved from the entry of a table and what is planned for a table, the options of its library
and their text, are the same before and after, and stand in the order of the tables. This holds for
the store's own user types and for all given ones with which the libraries were planned before. -/
theorem Store.define_edits {ms ms' : Json.Members} (hms : (Json.obj ms).WellFormed) {s : Store}
    (hs : Store.define ms = .ok s) (h : Relation.ReflTransGen Edit ms ms') :
    ∃ s', Store.define ms' = .ok s' ∧ (declaredTables ms').Subperm (declaredTables ms) ∧
      (∃ resolve : String × Json → Option (String × Table),
        (declaredTables ms).map resolve = s.tables.map some ∧
        (declaredTables ms').map resolve = s'.tables.map some) ∧
      (∃ files, s.libraries s.userTypes = .ok files) ∧
      ∀ (given : Option (List (String × UserType))) files,
        s.libraries (given.getD s.userTypes) = .ok files →
        ∃ files', s'.libraries (given.getD s'.userTypes) = .ok files' ∧ ∀ cwd,
          ∃ plan : String × Table → Option (LibraryFile × Except SourceError String),
            s.tables.map plan = files.map (fun f => some (f, f.options.render cwd)) ∧
            s'.tables.map plan = files'.map (fun f => some (f, f.options.render cwd)) := by
  obtain ⟨s', hs', hagrees, htables⟩ := edits_define h hs
  have hbefore := tables_tableOf? hs
  have hafter := hagrees.tables hs hs' htables.subset
  have hleft : s'.tables ⊆ s.tables := by
    intro x hx
    obtain ⟨m, hm, hx⟩ := (mem_tables_iff hafter).mp hx
    exact (mem_tables_iff hbefore).mpr ⟨m, htables.subset hm, hx⟩
  have hknown : ∀ x ∈ s'.tables, ∀ f ∈ x.2.schema, s.scope.Knows f.2.declared := by
    intro x hx
    obtain ⟨m, -, hx⟩ := (mem_tables_iff hafter).mp hx
    exact tableOf?_knows hx
  obtain ⟨own, hown, -⟩ := (Store.Accepted.store hms hs).libraries_isOk ""
  refine ⟨s', hs', htables, ⟨s.tableOf?, hbefore, hafter⟩, ⟨own, hown⟩, ?_⟩
  intro given files hfiles
  obtain ⟨files', hfiles', hplanned'⟩ := hagrees.libraries hleft hknown hfiles
  have hplanned := libraries_libraryOf?.mp hfiles
  refine ⟨files', hfiles', fun cwd => ?_⟩
  have hrendered {xs : List (String × Table)} {fs : List LibraryFile}
      (hh : xs.map (s.libraryOf? (given.getD s.userTypes)) = fs.map some) :
      xs.map (fun x => (s.libraryOf? (given.getD s.userTypes) x).map fun f =>
        (f, f.options.render cwd)) = fs.map fun f => some (f, f.options.render cwd) := by
    have hmap := congrArg (List.map (Option.map fun f => (f, f.options.render cwd))) hh
    rwa [List.map_map, List.map_map] at hmap
  exact ⟨_, hrendered hplanned, hrendered hplanned'⟩

section Board

def outcomeBoard : Json.Members :=
  Json.put "enums" (.obj [("Outcome", .arr [.str "Won", .str "Drawn"]),
    ("Colour", .arr [.str "Black", .str "White"])]) board

def scoredBoard : Json.Members :=
  Json.put "userTypes" (.obj [("Score", .obj [("type", .str "uint32")])]) outcomeBoard

theorem define_edits_board : ∃ ms s' files, Relation.ReflTransGen Edit board ms ∧
    Store.define ms = .ok s' ∧ s'.tables = boardTables.reverse ∧
    boardStore.libraries [] = .ok files ∧ s'.libraries s'.userTypes = .ok files.reverse := by
  have houtcome : Edit board outcomeBoard := by
    have hfresh : IsFresh board "Outcome" :=
      isFresh_iff.mpr ⟨by decide +kernel, by decide +kernel⟩
    exact @Edit.enum board [] _ "Outcome" ["Won", "Drawn"] rfl hfresh (by decide) (by decide)
      (by decide)
  have hscored : Edit outcomeBoard scoredBoard := by
    have hkey : userTypesOption.Spelled "userTypes" outcomeBoard := ⟨by decide, by decide +kernel⟩
    have hfresh : IsFresh outcomeBoard "Score" :=
      isFresh_iff.mpr ⟨by decide +kernel, by decide +kernel⟩
    have hread : UserType.shape.reader UserType.title (.obj [("type", .str "uint32")]) =
        .value ⟨.static (.uint 3), ""⟩ :=
      toExcept_eq_ok.mp (toOption_eq_some.mp (by decide +kernel))
    exact @Edit.userType _ _ [] [] _ _ _ hkey rfl hfresh hread
  have hturned := Edit.tables (List.reverse_perm (declaredTables scoredBoard)).subperm
  have hedits := ((Relation.ReflTransGen.single houtcome).tail hscored).tail hturned
  have hms : (Json.obj board).WellFormed := by simp [board]
  have hs : Store.define board = .ok boardStore := by decide +kernel
  obtain ⟨s', hs', -, ⟨resolve, hbefore, hafter⟩, ⟨files, hfiles⟩, hplanned⟩ :=
    Store.define_edits hms hs hedits
  obtain ⟨files', hfiles', hplanned⟩ := hplanned none files hfiles
  obtain ⟨plan, hplan, hplan'⟩ := hplanned ""
  have htables : s'.tables = boardTables.reverse := by
    refine List.map_injective_iff.mpr (fun _ _ => Option.some.inj) (hafter.symm.trans ?_)
    rw [List.map_reverse, show boardTables = boardStore.tables from rfl, ← hbefore,
      ← List.map_reverse]
    rfl
  have hreverse : files' = files.reverse := by
    refine List.map_injective_iff.mpr (fun _ _ hh => ?_) (hplan'.symm.trans ?_)
    · exact congrArg Prod.fst (Option.some.inj hh)
    · rw [List.map_reverse, ← hplan, ← List.map_reverse, htables]
      rfl
  exact ⟨_, s', files, hedits, hs', htables, hfiles, hreverse ▸ hfiles'⟩

end Board

end SolidityTables
