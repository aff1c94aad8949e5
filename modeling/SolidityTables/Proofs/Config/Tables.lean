import Mathlib.Algebra.Ring.Int.Defs
import SolidityTables.Proofs.Config.Accepted

/-!
# The tables of a store

Every table that a configuration declares becomes one table of the store, in the order in which
they were declared. A table keeps its fields as they were declared and parts them into the key and
the rest.
-/

namespace SolidityTables

open Attempt

theorem Resource.tableKey_injective {space label label' : String}
    (h : tableKey space label = tableKey space label') : label = label' := by
  unfold tableKey at h
  split at h
  · exact h
  · exact (String.append_right_inj _).mp h

namespace Table.Resolved

variable {s : Store} {t : Table}

theorem mem_keyFields_iff (h : t.Resolved s) {f : String × SchemaField} :
    f ∈ t.keyFields ↔ f ∈ t.schema ∧ f.1 ∈ t.key := by
  constructor
  · exact fun hf => ⟨keyField_mem_schema hf, (mem_keyFields.mp hf).1⟩
  · intro hh
    obtain ⟨hf, hk⟩ := hh
    exact mem_keyFields.mpr ⟨hk, lookup_of_mem h.names hf⟩

theorem mem_valueFields_iff {f : String × SchemaField} :
    f ∈ t.valueFields ↔ f ∈ t.schema ∧ f.1 ∉ t.key := by
  simp [valueFields]

theorem fields_perm (h : t.Resolved s) : (t.keyFields ++ t.valueFields).Perm t.schema := by
  have hschema : t.schema.Nodup := .of_map Prod.fst h.names
  have hkey : t.keyFields.Nodup := by
    apply List.Nodup.of_map Prod.fst
    rw [h.keyFields_names]
    exact h.distinct
  have hdisjoint : t.keyFields.Disjoint t.valueFields := fun f hk hv =>
    (mem_valueFields_iff.mp hv).2 (mem_keyFields.mp hk).1
  have hall : (t.keyFields ++ t.valueFields).Nodup := hkey.append (hschema.filter _) hdisjoint
  rw [List.perm_ext_iff_of_nodup hall hschema]
  intro f
  rw [List.mem_append, h.mem_keyFields_iff, mem_valueFields_iff]
  tauto

end Table.Resolved

/-- What every table of a store is like, whatever it was declared by. -/
structure Table.Coherent (s : Store) (t : Table) : Prop where
  names : (t.schema.map (·.1)).Nodup
  types : ∀ f ∈ t.schema, s.scope.Resolves f.2.declared f.2.type
  keyDistinct : t.key.Nodup
  keyStatic : ∀ f ∈ t.keyFields, f.2.type.isDynamic = false
  keyOrder : t.keyFields.map (·.1) = t.key
  valueOrder : t.valueFields.Sublist t.schema
  disjoint : (t.keyFields.map (·.1)).Disjoint (t.valueFields.map (·.1))
  partition : (t.keyFields ++ t.valueFields).Perm t.schema
  values : t.valueFields.length ≤ 28
  dynamicValues : (t.valueFields.filter fun f => f.2.type.isDynamic).length ≤ 5
  name : t.name.utf8ByteSize ≤ 16
  space : t.space.utf8ByteSize ≤ 14

theorem Table.Resolved.coherent {s : Store} {t : Table} (h : t.Resolved s) : t.Coherent s := by
  obtain ⟨hspace, hname⟩ := h.fits
  refine ⟨h.names, h.types, h.distinct, fun f hf => h.keyField_static hf, h.keyFields_names,
    List.filter_sublist, ?_, h.fields_perm, h.values, h.dynamicValues, ?_, ?_⟩
  · rw [h.keyFields_names]
    intro k hk hv
    obtain ⟨f, hf, rfl⟩ := List.mem_map.mp hv
    exact (mem_valueFields_iff.mp hf).2 hk
  · rw [← Utf8.size_eq]
    exact hname
  · rw [← Utf8.size_eq]
    exact hspace

def declaredTables (ms : Json.Members) : Json.Members :=
  match ms.lookup "tables" with
  | some (.obj tables) => tables
  | _ => []

inductive Binary64.IsInt : Binary64 → Int → Prop
  | finite {negative : Bool} {m : Nat} {e n : Int}
    (h : (if negative then -(m : Int) else m) * 2 ^ e.toNat = n * 2 ^ (-e).toNat) :
    IsInt (.finite negative m e) n

/-- The truth value for which a value stands: a number does so if it is zero or one, and a text if
it is one of a few words, whatever the case of its letters. -/
inductive Json.StandsFor : Json → Bool → Prop
  | bool (b : Bool) : StandsFor (.bool b) b
  | int (b : Bool) : StandsFor (.int b.toInt) b
  | float {x : Binary64} {b : Bool} (h : x.IsInt b.toInt) : StandsFor (.float x) b
  | no {s : String} (h : s.toLower ∈ ["0", "off", "f", "false", "n", "no"]) :
    StandsFor (.str s) false
  | yes {s : String} (h : s.toLower ∈ ["1", "on", "t", "true", "y", "yes"]) :
    StandsFor (.str s) true

theorem Binary64.quotient_eq_some {negative : Bool} {num den : Nat} {n : Int}
    (h : (if num % den = 0 then
      some (if negative then -Int.ofNat (num / den) else Int.ofNat (num / den)) else none) =
        some n) : (if negative then -(num : Int) else num) = n * den := by
  split at h
  next hrest =>
    have hnum : (num : Int) = Int.ofNat (num / den) * den :=
      congrArg Int.ofNat (Nat.div_mul_cancel (Nat.dvd_of_mod_eq_zero hrest)).symm
    cases negative with
    | true =>
      cases h
      rw [if_pos rfl, if_pos rfl, Int.neg_mul, ← hnum]
    | false =>
      cases h
      exact hnum
  next => cases h

theorem Binary64.isInt_of_toInt? {x : Binary64} {n : Int} (h : x.toInt? = some n) :
    x.IsInt n := by
  cases x with
  | nan => cases h
  | infinite negative => cases h
  | finite negative m e =>
    constructor
    by_cases he : e < 0
    · have hpower : (-e).toNat = e.natAbs := by omega
      simp only [toInt?, if_pos he] at h
      rw [Int.toNat_of_nonpos (Int.le_of_lt he), hpower, Int.pow_zero, Int.mul_one,
        quotient_eq_some h, pow2]
      norm_cast
    · have hpower : e.toNat = e.natAbs := by omega
      simp only [toInt?, if_neg he] at h
      have hmant := quotient_eq_some h
      rw [hpower, Int.toNat_of_nonpos (by omega), Int.pow_zero, Int.mul_one]
      rw [Int.natCast_one, Int.mul_one] at hmant
      rw [← hmant, pow2]
      cases negative with
      | true =>
        rw [if_pos rfl, if_pos rfl, Int.neg_mul]
        norm_cast
      | false => norm_cast

theorem Reader.number_eq_value {n : Int} {b : Bool} {far : Prop} [Decidable far]
    {fault fault' : Complaint.Fault} (h : (if n = 0 then .value false else if n = 1 then .value true
      else if far then Reading.refuse fault else Reading.refuse fault') = Reading.value b) :
    n = b.toInt := by
  split at h
  next hzero =>
    cases h
    exact hzero
  next =>
    split at h
    next hone =>
      cases h
      exact hone
    next => split at h <;> cases h

theorem Reader.boolean_standsFor {j : Json} {b : Bool} (h : boolean j = .value b) :
    j.StandsFor b := by
  cases j with
  | bool c =>
    cases h
    exact .bool b
  | str s =>
    have hlower : String.ofList (s.toList.map Char.toLower) = s.toLower := by
      change _ = s.map Char.toLower
      rw [← String.toList_inj, String.toList_ofList, String.toList_map]
    simp only [boolean, hlower] at h
    split at h
    next hno =>
      cases h
      exact .no hno
    next =>
      split at h
      next hyes =>
        cases h
        exact .yes hyes
      next => cases h
  | int n =>
    obtain rfl : n = b.toInt := number_eq_value h
    exact .int b
  | float x =>
    cases hx : x.toInt? with
    | none => simp [boolean, hx, Reading.refuse] at h
    | some n =>
      simp only [boolean, hx] at h
      exact .float (Binary64.isInt_of_toInt? (hx.trans (congrArg some (number_eq_value h))))
  | _ => cases h
def explicitStruct (input : Json.Members) : Option Json :=
  match (input.lookup "codegen").getD (.obj []) with
  | .obj codegen =>
    match (codegen.lookup "dataStruct").or (codegen.lookup "data_struct") with
    | some .null => none
    | j => j
  | _ => none

/-- What a table keeps of the members of the object that declares it under a label. -/
structure Table.Keeps (label : String) (input : Json.Members) (t : Table) : Prop where
  label : t.label = label
  schema : (input.lookup "schema").or (input.lookup "table_schema") =
    some (.obj (t.schema.map fun f => (f.1, .str f.2.declared)))
  key : (input.lookup "key").getD (.arr []) = .arr (t.key.map .str)
  dataStruct : match explicitStruct input with
    | some j => j.StandsFor t.codegen.dataStruct
    | none => t.codegen.dataStruct = decide (1 < t.valueFields.length)

theorem OptionName.given?_plain (name : String) (ms : Json.Members) :
    (OptionName.mk name name).given? ms = ms.lookup name := Option.or_self

theorem Shape.plain_read {α : Type} {read : Reader α} {written : α → Json}
    (hread : ∀ {j x}, read j = .value x → j = written x) {name : String} {ms : Json.Members}
    {default x : α} (h : (Shape.option ⟨name, name⟩ read default).read ms = .value x) :
    (ms.lookup name).getD (written default) = written x := by
  rcases Shape.option_read.mp h with ⟨j, hj, hvalue⟩ | ⟨hnone, rfl⟩
  · rw [OptionName.given?_plain] at hj
    rw [hj]
    exact hread hvalue
  · rw [OptionName.given?_plain] at hnone
    rw [hnone]
    rfl

theorem TableCodegenDeclaration.dataStruct_read {input : Json.Members} {title : String}
    {d : TableCodegenDeclaration}
    (h : shape.reader title ((input.lookup "codegen").getD (.obj [])) = .value d) :
    (explicitStruct input = none ∧ d.dataStruct = none) ∨
      ∃ j b, explicitStruct input = some j ∧ Reader.boolean j = .value b ∧
        d.dataStruct = some b := by
  obtain ⟨ms, hms, hread, -⟩ := Shape.reader_eq_value.mp h
  simp only [shape, Shape.seq_read, Shape.map_read] at hread
  obtain ⟨_, ⟨_, ⟨_, ⟨_, -, rfl⟩, _, -, rfl⟩, _, -, rfl⟩, struct, hstruct, rfl⟩ := hread
  simp only [explicitStruct, hms]
  rcases Shape.option_read.mp hstruct with ⟨j, hj, hvalue⟩ | ⟨hnone, rfl⟩
  · rw [OptionName.given?] at hj
    rw [hj]
    rcases Reader.nullable_eq_value.mp hvalue with ⟨rfl, rfl⟩ | ⟨hnull, b, hb, rfl⟩
    · exact .inl ⟨rfl, rfl⟩
    · refine .inr ⟨j, b, ?_, hb, rfl⟩
      cases j with
      | null => exact absurd rfl hnull
      | _ => rfl
  · rw [OptionName.given?] at hnone
    rw [hnone]
    exact .inl ⟨rfl, rfl⟩

theorem TableDeclaration.shape_read {input : Json.Members} {d : TableDeclaration}
    (h : shape.read input = .value d) :
    (input.lookup "schema").or (input.lookup "table_schema") =
        some (.obj (d.schema.map fun f => (f.1, .str f.2))) ∧
      (input.lookup "key").getD (.arr []) = .arr (d.key.map .str) ∧
      ((explicitStruct input = none ∧ d.codegen.dataStruct = none) ∨
        ∃ j b, explicitStruct input = some j ∧ Reader.boolean j = .value b ∧
          d.codegen.dataStruct = some b) := by
  simp only [shape, Shape.seq_read, Shape.map_read, Shape.required_read, Shape.record_read,
    OptionName.given?_plain] at h
  obtain ⟨_, ⟨_, ⟨_, ⟨_, ⟨_, ⟨_, ⟨j, hj, hschema⟩, rfl⟩, key, hkey, rfl⟩, _, -, rfl⟩, _, -, rfl⟩,
    codegen, hcodegen, rfl⟩, _, -, rfl⟩ := h
  refine ⟨?_, ?_, TableCodegenDeclaration.dataStruct_read hcodegen⟩
  · rw [← (Reader.dictionary_eq_value fun _ _ => Reader.text_eq_value).mp hschema]
    exact hj
  · exact Shape.plain_read (Reader.list_eq_value fun _ _ => Reader.text_eq_value).mp hkey

theorem TableDeclaration.Defines.keeps {d : TableDeclaration} {space label : String} {scope : Scope}
    {t : Table} {input : Json.Members} (hread : shape.read input = .value d)
    (h : d.Defines space scope label t) : t.Keeps label input := by
  obtain ⟨hschema, hkey, hstruct⟩ := shape_read hread
  have hfields := (fields_eq_ok.mp h.schema).1
  have hvalues : d.values.length = t.valueFields.length := by
    rw [values_eq h.schema, List.length_map, Table.valueFields, h.key]
  refine ⟨h.label, ?_, ?_, ?_⟩
  · rw [hschema, ← hfields, List.map_map]
    rfl
  · rw [hkey, h.key]
  · obtain ⟨-, -, -, hcodegen⟩ := h.codegen
    rcases hstruct with ⟨hnone, hopen⟩ | ⟨j, b, hsome, hb, hgiven⟩
    · rw [hnone, hcodegen, hopen, ← hvalues]
      rfl
    · rw [hsome, hcodegen, hgiven]
      exact Reader.boolean_standsFor hb

/-- A store that the members of a configuration define, on its own or as a part of a world. -/
def Store.DefinedBy (ms : Json.Members) (s : Store) : Prop :=
  Store.define ms = .ok s ∨ ∃ w, World.define ms = .ok w ∧ w.toStore = s

structure StoreDeclaration.TakenFrom (ms : Json.Members) (d : StoreDeclaration) : Prop where
  space : (ms.lookup "namespace").getD (.str "") = .str d.space
  tables : List.Forall₂ (fun m x => m.1 = x.1 ∧
    TableDeclaration.shape.reader "TableInput" m.2 = .value x.2) (declaredTables ms) d.tables

theorem Shape.entries_read {α : Type} {read : Reader α} {name : String} {ms : Json.Members}
    {xs : List (String × α)}
    (h : (Shape.option ⟨name, name⟩ (.dictionary read) []).read ms = .value xs) :
    List.Forall₂ (fun m x => m.1 = x.1 ∧ read m.2 = .value x.2)
      (match ms.lookup name with
        | some (.obj entries) => entries
        | _ => []) xs := by
  rcases Shape.option_read.mp h with ⟨j, hj, hread⟩ | ⟨hnone, rfl⟩
  · rw [OptionName.given?_plain] at hj
    rw [hj]
    cases j with
    | obj entries => exact Reader.entries_eq_value.mp hread
    | _ => cases hread
  · rw [OptionName.given?_plain] at hnone
    rw [hnone]
    exact .nil

theorem declaredNames_read {ms : Json.Members} {names : StoreCodegen → StoreDeclaration}
    (h : declaredNames.read ms = .value names) (codegen : StoreCodegen) :
    (names codegen).TakenFrom ms := by
  simp only [declaredNames, Shape.seq_read, Shape.map_read] at h
  obtain ⟨_, ⟨_, ⟨_, ⟨space, hspace, rfl⟩, tables, htables, rfl⟩, _, -, rfl⟩, _, -, rfl⟩ := h
  exact ⟨Shape.plain_read Reader.text_eq_value.mp hspace, Shape.entries_read htables⟩

theorem WorldDeclaration.shape_read {ms : Json.Members} {d : WorldDeclaration}
    (h : shape.read ms = .value d) :
    d.toStoreDeclaration.TakenFrom ms ∧
      (Shape.option ⟨"systems", "systems"⟩
        (.dictionary (SystemDeclaration.shape.reader "SystemInput")) []).read ms =
          .value d.systems := by
  simp only [shape, Shape.seq_read, Shape.map_read] at h
  obtain ⟨_, ⟨_, ⟨_, ⟨_, ⟨_, ⟨names, hnames, rfl⟩, codegen, -, rfl⟩, _, -, rfl⟩, _, hsystems,
    rfl⟩, _, -, rfl⟩, _, -, rfl⟩ := h
  exact ⟨declaredNames_read hnames codegen.1, hsystems⟩

namespace Store.DefinedBy

variable {ms : Json.Members} {s : Store}

theorem accepted (hms : (Json.obj ms).WellFormed) (h : s.DefinedBy ms) : s.Accepted := by
  rcases h with h | ⟨w, h, rfl⟩
  · exact .store hms h
  · exact .world hms h

theorem taken (h : s.DefinedBy ms) : ∃ d : StoreDeclaration, d.TakenFrom ms ∧ d.Defines s := by
  rcases h with h | ⟨w, h, rfl⟩
  · obtain ⟨d, hpresents, hdefine⟩ := Store.define_eq_ok.mp h
    obtain ⟨names, hnames, codegen, -, rfl⟩ :=
      Shape.seq_read.mp (Shape.members_eq_value.mp hpresents.shape).1
    exact ⟨_, declaredNames_read hnames codegen, StoreDeclaration.defines_of_define hdefine⟩
  · obtain ⟨-, d, hpresents, hdefine⟩ := World.define_eq_ok.mp h
    exact ⟨_, (WorldDeclaration.shape_read (Shape.members_eq_value.mp hpresents.shape).1).1,
      (WorldDeclaration.defines_of_define hdefine).store⟩

end Store.DefinedBy

theorem declaredTables_nodup {ms : Json.Members} (hms : (Json.obj ms).WellFormed) :
    ((declaredTables ms).map (·.1)).Nodup := by
  unfold declaredTables
  split
  next tables htables =>
    obtain ⟨before, after, rfl, -⟩ := List.lookup_eq_some_iff.mp htables
    have hmembers := ((Json.wellFormed_obj _).mp hms).2
    exact ((Json.wellFormed_obj _).mp (hmembers ("tables", .obj tables) (by simp))).1
  next => exact List.nodup_nil

/-- A store has one table for each that the configuration declares, in the same order and under a
key of its own. Each of them keeps what was declared and is coherent. -/
theorem Store.tables_coherent {ms : Json.Members} (hms : (Json.obj ms).WellFormed) {s : Store}
    (h : s.DefinedBy ms) :
    (ms.lookup "namespace").getD (.str "") = .str s.space ∧
    s.tables.map (·.1) = (declaredTables ms).map (fun m =>
      if s.space = "" then m.1 else s.space ++ "__" ++ m.1) ∧
    (s.tables.map (·.1)).Nodup ∧
    List.Forall₂ (fun m x => ∃ input, m.2 = .obj input ∧ x.2.Keeps m.1 input) (declaredTables ms)
      s.tables ∧
    ∀ x ∈ s.tables, x.2.space = s.space ∧ x.2.Coherent s := by
  obtain ⟨d, htaken, hd⟩ := h.taken
  have hresolved := (h.accepted hms).resolved
  have hall : List.Forall₂ (fun m x => x.1 = Resource.tableKey s.space m.1 ∧
      ∃ input, m.2 = .obj input ∧ x.2.Keeps m.1 input) (declaredTables ms) s.tables := by
    refine forall₂_comp (fun m y x hm hx => ?_) htaken.tables hd.tables
    obtain ⟨hlabel, hread⟩ := hm
    obtain ⟨hkey, hdefines⟩ := hx
    obtain ⟨input, hinput, hread, -⟩ := Shape.reader_eq_value.mp hread
    rw [hd.space, hlabel]
    exact ⟨hkey, input, hinput, hdefines.keeps hread⟩
  have hkeys : s.tables.map (·.1) =
      (declaredTables ms).map fun m => Resource.tableKey s.space m.1 := by
    rw [← List.forall₂_eq_eq_eq, List.forall₂_map_left_iff, List.forall₂_map_right_iff]
    exact hall.flip.imp fun _ _ hx => hx.1
  refine ⟨?_, hkeys, ?_, hall.imp fun _ _ hx => hx.2, fun x hx => ?_⟩
  · rw [hd.space]
    exact htaken.space
  · have hlabels := (declaredTables_nodup hms).map
      fun a b (hab : Resource.tableKey s.space a = Resource.tableKey s.space b) =>
        Resource.tableKey_injective hab
    rw [hkeys]
    rw [List.map_map] at hlabels
    exact hlabels
  · exact ⟨(hresolved x hx).space, (hresolved x hx).coherent⟩

def board : Json.Members :=
  [("namespace", .str "game"), ("enums", .obj [("Colour", .arr [.str "Black", .str "White"])]),
   ("tables", .obj [
     ("Place", .obj [
       ("schema", .obj [("row", .str "uint8"), ("colour", .str "Colour"), ("owner", .str "address"),
         ("note", .str "string")]),
       ("key", .arr [.str "owner", .str "row"]), ("codegen", .obj [("data_struct", .str "off")])]),
     ("Turn", .obj [("table_schema",
       .obj [("number", .str "uint256"), ("next", .str "Colour")])])])]

def boardTables : List (String × Table) :=
  [("game__Place", {
      label := "Place", kind := .table, space := "game", name := "Place"
      schema := [("row", ⟨.uint8, "uint8"⟩), ("colour", ⟨.uint8, "Colour"⟩),
        ("owner", ⟨.static .address, "address"⟩), ("note", ⟨.string, "string"⟩)]
      key := ["owner", "row"], codegen := ⟨"tables", false, false, false⟩, deploy := ⟨false⟩ }),
   ("game__Turn", {
      label := "Turn", kind := .table, space := "game", name := "Turn"
      schema := [("number", ⟨.static (.uint (Fin.last 31)), "uint256"⟩),
        ("next", ⟨.uint8, "Colour"⟩)]
      key := [], codegen := ⟨"tables", false, false, true⟩, deploy := ⟨false⟩ })]

def boardStore : Store where
  space := "game"
  tables := boardTables
  userTypes := []
  enums := [("Colour", ["Black", "White"])]
  codegen := ⟨"@latticexyz/store/src/", "common.sol", "codegen", "index.sol"⟩

theorem tables_coherent_board : boardStore.DefinedBy board ∧
    boardTables.map (·.1) = (declaredTables board).map (fun m =>
      if boardStore.space = "" then m.1 else boardStore.space ++ "__" ++ m.1) ∧
    (boardTables.map (·.1)).Nodup ∧
    List.Forall₂ (fun m x => ∃ input, m.2 = .obj input ∧ x.2.Keeps m.1 input) (declaredTables board)
      boardTables ∧
    ∀ x ∈ boardTables, x.2.Coherent boardStore := by
  have hms : (Json.obj board).WellFormed := by simp [board]
  have hdefine : boardStore.DefinedBy board := .inl (by decide +kernel)
  obtain ⟨-, hkeys, hnodup, hkeeps, hcoherent⟩ := Store.tables_coherent hms hdefine
  exact ⟨hdefine, hkeys, hnodup, hkeeps, fun x hx => (hcoherent x hx).2⟩

end SolidityTables
