import SolidityTables.Proofs.Config.Spelling

/-!
# The form of a configuration

Which options a configuration has, at the top and in every record inside, each by both of its
spellings. A configuration that is spelled in another way defines the same store or world, and none
in which an option is misspelled defines one.
-/

namespace SolidityTables

namespace Form

def whole (camel snake : String) : OptionName × Form := (⟨camel, snake⟩, .plain)

def userType : List (OptionName × Form) := [whole "type" "type", whole "filePath" "file_path"]

def storeCode : List (OptionName × Form) :=
  [whole "storeImportPath" "store_import_path", whole "userTypesFilename" "user_types_filename",
    whole "outputDirectory" "output_directory", whole "indexFilename" "index_filename"]

def worldCode : List (OptionName × Form) :=
  [whole "worldInterfaceName" "world_interface_name",
    whole "worldgenDirectory" "worldgen_directory", whole "worldImportPath" "world_import_path"]

def tableCode : List (OptionName × Form) :=
  [whole "outputDirectory" "output_directory", whole "tableIdArgument" "table_id_argument",
    whole "storeArgument" "store_argument", whole "dataStruct" "data_struct"]

def tableDeploy : List (OptionName × Form) := [whole "disabled" "disabled"]

def worldDeploy : List (OptionName × Form) :=
  [whole "customWorldContract" "custom_world_contract",
    whole "postDeployScript" "post_deploy_script", whole "deploysDirectory" "deploys_directory",
    whole "worldsFile" "worlds_file",
    whole "upgradeableWorldImplementation" "upgradeable_world_implementation"]

def table : List (OptionName × Form) :=
  [whole "schema" "table_schema", whole "key" "key", whole "type" "type", whole "name" "name",
    (⟨"codegen", "codegen"⟩, .record tableCode), (⟨"deploy", "deploy"⟩, .record tableDeploy)]

def system : List (OptionName × Form) :=
  [whole "name" "name", whole "openAccess" "open_access", whole "accessList" "access_list",
    whole "registerFunctionSelectors" "register_function_selectors"]

def names : List (OptionName × Form) :=
  [whole "namespace" "namespace", (⟨"tables", "tables"⟩, .dictionary (.record table)),
    (⟨"userTypes", "user_types"⟩, .dictionary (.record userType)), whole "enums" "enums"]

def storeOptions : List (OptionName × Form) :=
  names ++ [(⟨"codegen", "codegen"⟩, .record storeCode)]

def worldOptions : List (OptionName × Form) :=
  names ++ [(⟨"codegen", "codegen"⟩, .record (storeCode ++ worldCode)),
    (⟨"deploy", "deploy"⟩, .record worldDeploy),
    (⟨"systems", "systems"⟩, .dictionary (.record system)),
    whole "excludeSystems" "exclude_systems", whole "modules" "modules"]

def config : ConfigKind → Form
  | .store => .record storeOptions
  | .world => .record worldOptions

end Form

open Attempt Shape

theorem Shape.Follows.whole {α : Type} (camel snake : String) (read : Reader α) (default : α) :
    (Shape.option ⟨camel, snake⟩ read default).Follows [Form.whole camel snake] :=
  .option default (.plain read)

theorem UserType.shape_follows : UserType.shape.Follows Form.userType :=
  (((Follows.required (.plain _)).map _).seq (.whole ..) :)

theorem StoreCodegen.shape_follows : StoreCodegen.shape.Follows Form.storeCode :=
  (((((Follows.whole ..).map _).seq (.whole ..)).seq (.whole ..)).seq (.whole ..) :)

theorem WorldCodegen.shape_follows : WorldCodegen.shape.Follows Form.worldCode :=
  ((((Follows.whole ..).map _).seq (.whole ..)).seq (.whole ..) :)

theorem WorldDeploy.shape_follows : WorldDeploy.shape.Follows Form.worldDeploy :=
  ((((((Follows.whole ..).map _).seq (.whole ..)).seq (.whole ..)).seq (.whole ..)).seq
    (.whole ..) :)

theorem TableDeploy.shape_follows : TableDeploy.shape.Follows Form.tableDeploy :=
  ((Follows.whole ..).map _ :)

theorem TableCodegenDeclaration.shape_follows :
    TableCodegenDeclaration.shape.Follows Form.tableCode :=
  (((((Follows.whole ..).map _).seq (.whole ..)).seq (.whole ..)).seq (.whole ..) :)

theorem TableDeclaration.shape_follows : TableDeclaration.shape.Follows Form.table := by
  have hcode := TableCodegenDeclaration.shape_follows.reader "TableCodegenInput" (by decide)
  have hdeploy := TableDeploy.shape_follows.reader "TableDeploy" (by decide)
  have hschema := Follows.required (o := ⟨"schema", "table_schema"⟩) (.plain (.dictionary .text))
  exact ((((((hschema.map _).seq (.whole ..)).seq (.whole ..)).seq (.whole ..)).seq
    (.record hcode)).seq (.record hdeploy) :)

theorem SystemDeclaration.shape_follows : SystemDeclaration.shape.Follows Form.system :=
  (((((Follows.whole ..).map _).seq (.whole ..)).seq (.whole ..)).seq (.whole ..) :)

theorem declaredNames_follows : declaredNames.Follows Form.names := by
  have htable := TableDeclaration.shape_follows.reader "TableInput" (by decide)
  have huserType := UserType.shape_follows.reader UserType.title (by decide)
  have hspace := (Follows.whole "namespace" "namespace" .text "").map StoreDeclaration.mk
  exact ((hspace.seq (.option [] htable.dictionary)).seq (.option [] huserType.dictionary)).seq
    (.whole "enums" "enums" enumsReader [])

theorem StoreDeclaration.shape_follows : StoreDeclaration.shape.Follows Form.storeOptions := by
  have hcode := StoreCodegen.shape_follows.reader "StoreCodegen" (by decide)
  exact declaredNames_follows.seq (.record hcode)

theorem WorldDeclaration.shape_follows : WorldDeclaration.shape.Follows Form.worldOptions := by
  have hcode := ((StoreCodegen.shape_follows.map Prod.mk).seq WorldCodegen.shape_follows).reader
    "WorldCodegen" (by decide)
  have hdeploy := WorldDeploy.shape_follows.reader "WorldDeploy" (by decide)
  have hsystem := SystemDeclaration.shape_follows.reader "SystemInput" (by decide)
  exact ((((((declaredNames_follows.map _).seq (.record hcode)).seq (.record hdeploy)).seq
    (.option [] hsystem.dictionary)).seq (.whole ..)).seq (.whole ..) :)

theorem StoreDeclaration.reader_follows :
    (StoreDeclaration.shape.reader "StoreInput").Follows (Form.config .store) :=
  StoreDeclaration.shape_follows.reader "StoreInput" (by decide)

theorem WorldDeclaration.reader_follows :
    (WorldDeclaration.shape.reader "WorldInput").Follows (Form.config .world) :=
  WorldDeclaration.shape_follows.reader "WorldInput" (by decide)

section Presents

variable {α : Type} {ms : Json.Members}

theorem presents_of_members {kind : ConfigKind} {shape : Shape α} {a : α}
    (hkeys : ∀ key ∈ shape.spellings, OptionKey.isAccepted kind key = true)
    (htaken : shape.read ms = .value a → ∃ d : StoreDeclaration, d.TakenFrom ms)
    (h : shape.members ms = .value a) : Presents kind shape ms a := by
  obtain ⟨hread, hknown⟩ := members_eq_value.mp h
  refine ⟨fun m hm => hkeys _ (mem_spellings hknown m hm), ?_, h⟩
  intro tables htables t ht fields hfields f hf
  obtain ⟨d, hd⟩ := htaken hread
  have ht' : t ∈ declaredTables ms := by
    rw [declaredTables, htables]
    exact ht
  obtain ⟨x, -, -, hx⟩ := exists_of_mem_right hd.tables.flip ht'
  obtain ⟨ms', hms', -, hknown'⟩ := reader_eq_value.mp hx
  cases hfields.symm.trans hms'
  have hoption : ∀ key ∈ TableDeclaration.shape.spellings, key ≠ "label" ∧ key ≠ "namespace" := by
    decide
  exact hoption f.1 (mem_spellings hknown' f hf)

theorem StoreDeclaration.presents_iff {d : StoreDeclaration} :
    Presents .store StoreDeclaration.shape ms d ↔ StoreDeclaration.shape.members ms = .value d := by
  refine ⟨fun h => h.shape, presents_of_members (by decide +kernel) fun hread => ?_⟩
  obtain ⟨names, hnames, codegen, -, rfl⟩ := seq_read.mp hread
  exact ⟨_, declaredNames_read hnames codegen⟩

theorem WorldDeclaration.presents_iff {d : WorldDeclaration} :
    Presents .world WorldDeclaration.shape ms d ↔ WorldDeclaration.shape.members ms = .value d := by
  refine ⟨fun h => h.shape, presents_of_members (by decide +kernel) fun hread => ?_⟩
  simp only [WorldDeclaration.shape, seq_read, map_read] at hread
  obtain ⟨_, ⟨_, ⟨_, ⟨_, ⟨_, ⟨names, hnames, -⟩, codegen, -⟩, -⟩, -⟩, -⟩, -⟩ := hread
  exact ⟨_, declaredNames_read hnames codegen.1⟩

theorem Store.define_eq_ok_iff {s : Store} : Store.define ms = .ok s ↔
    ∃ d, StoreDeclaration.shape.members ms = .value d ∧ d.define = .ok s := by
  simp only [Store.define_eq_ok, StoreDeclaration.presents_iff]

theorem World.define_eq_ok_iff {w : World} : World.define ms = .ok w ↔
    ∃ d, WorldDeclaration.shape.members ms = .value d ∧ d.define = .ok w := by
  simp only [World.define_eq_ok, WorldDeclaration.presents_iff]
  refine and_iff_right_of_imp fun hdefine m hm => ?_
  obtain ⟨d, hd, -⟩ := hdefine
  have hoption : ∀ key ∈ WorldDeclaration.shape.spellings, key ≠ "namespaces" := by decide
  exact hoption m.1 (mem_spellings (members_eq_value.mp hd).2 m hm)

end Presents

/-- A configuration is spelled in another way, in any number of places. -/
def Respelling (kind : ConfigKind) : Json.Members → Json.Members → Prop :=
  Relation.ReflTransGen fun ms ms' => Respelled (Form.config kind) (.obj ms) (.obj ms')

section Respelling

variable {ms ms' : Json.Members}

theorem Store.define_of_respelled (hms : (Json.obj ms).WellFormed)
    (h : Respelled (Form.config .store) (.obj ms) (.obj ms')) {s : Store}
    (hs : Store.define ms = .ok s) : Store.define ms' = .ok s := by
  obtain ⟨d, hd, hdefine⟩ := Store.define_eq_ok_iff.mp hs
  have hread := StoreDeclaration.reader_follows.respelled hms h hd
  exact Store.define_eq_ok_iff.mpr ⟨d, hread, hdefine⟩

theorem World.define_of_respelled (hms : (Json.obj ms).WellFormed)
    (h : Respelled (Form.config .world) (.obj ms) (.obj ms')) {w : World}
    (hw : World.define ms = .ok w) : World.define ms' = .ok w := by
  obtain ⟨d, hd, hdefine⟩ := World.define_eq_ok_iff.mp hw
  have hread := WorldDeclaration.reader_follows.respelled hms h hd
  exact World.define_eq_ok_iff.mpr ⟨d, hread, hdefine⟩

theorem Respelling.define_iff {kind : ConfigKind} {α : Type}
    {define : Json.Members → Except ConfigError α}
    (hstep : ∀ {ms ms'}, (Json.obj ms).WellFormed →
      Respelled (Form.config kind) (.obj ms) (.obj ms') →
      ∀ {a}, define ms = .ok a → define ms' = .ok a)
    (hms : (Json.obj ms).WellFormed) (h : Respelling kind ms ms') (a : α) :
    define ms = .ok a ↔ define ms' = .ok a := by
  induction h using Relation.ReflTransGen.head_induction_on with
  | refl => rfl
  | head hfirst _ ih =>
    have hmid := hfirst.wellFormed hms
    rw [← ih hmid]
    exact ⟨hstep hms hfirst, hstep hmid (hfirst.symm hms)⟩

end Respelling

/-- Two configurations that differ in how options are spelled, and in the order of the options of a
record, define the same store or world, or neither defines one. A configuration in which a record
has both spellings of an option, or a key that is no spelling of one, is refused. -/
theorem define_respelled {ms : Json.Members} (hms : (Json.obj ms).WellFormed) :
    (∀ ms', Respelling .store ms ms' → ∀ s, Store.define ms = .ok s ↔ Store.define ms' = .ok s) ∧
    (∀ ms', Respelling .world ms ms' → ∀ w, World.define ms = .ok w ↔ World.define ms' = .ok w) ∧
    (Misspelled (Form.config .store) (.obj ms) → ∃ e, Store.define ms = .error e) ∧
    (Misspelled (Form.config .world) (.obj ms) → ∃ e, World.define ms = .error e) := by
  refine ⟨fun ms' h => h.define_iff Store.define_of_respelled hms,
    fun ms' h => h.define_iff World.define_of_respelled hms, fun h => ?_, fun h => ?_⟩
  · refine isError_iff_ne_ok.mpr fun s hs => ?_
    obtain ⟨d, hd, -⟩ := Store.define_eq_ok_iff.mp hs
    exact StoreDeclaration.reader_follows.misspelled hms h hd
  · refine isError_iff_ne_ok.mpr fun w hw => ?_
    obtain ⟨d, hd, -⟩ := World.define_eq_ok_iff.mp hw
    exact WorldDeclaration.reader_follows.misspelled hms h hd

def respelledBoard : Json.Members :=
  [("tables", .obj [
     ("Place", .obj [
       ("schema", .obj [("row", .str "uint8"), ("colour", .str "Colour"), ("owner", .str "address"),
         ("note", .str "string")]),
       ("key", .arr [.str "owner", .str "row"]), ("codegen", .obj [("data_struct", .str "off")])]),
     ("Turn", .obj [("schema", .obj [("number", .str "uint256"), ("next", .str "Colour")])])]),
   ("namespace", .str "game"), ("enums", .obj [("Colour", .arr [.str "Black", .str "White"])])]

def twiceSpelled : Json.Members :=
  [("tables", .obj [("Turn", .obj [("schema", .obj [("number", .str "uint256")]),
    ("table_schema", .obj [("number", .str "uint256")])])])]

theorem board_respelled : Respelling .store board respelledBoard := by
  have htables : (⟨"tables", "tables"⟩, .dictionary (.record Form.table)) ∈ Form.storeOptions :=
    List.mem_cons_of_mem _ List.mem_cons_self
  have hschema {schema : Json} : Respelled (.record Form.table) (.obj [("table_schema", schema)])
      (.obj [("schema", schema)]) :=
    @Respelled.spell Form.table ⟨"schema", "table_schema"⟩ .plain _ _ [] [] schema
      List.mem_cons_self (by decide) (by decide) (by decide)
  have hturn {place schema : Json} := @Respelled.entry (.record Form.table) "Turn"
    [("Place", place)] [] _ _ (@hschema schema)
  refine .head (.permute (@List.perm_append_comm _ (board.take 2) _)) (.single ?_)
  exact @Respelled.option _ _ _ "tables" [] _ _ _ htables (by decide) hturn

theorem define_respelled_board : Store.define respelledBoard = .ok boardStore ∧
    ∃ e, Store.define twiceSpelled = .error e := by
  have hboard : (Json.obj board).WellFormed := by simp [board]
  have htwice : (Json.obj twiceSpelled).WellFormed := by simp [twiceSpelled]
  refine ⟨((define_respelled hboard).1 _ board_respelled _).mp (by decide +kernel),
    (define_respelled htwice).2.2.1 ?_⟩
  refine .option (List.mem_cons_of_mem _ List.mem_cons_self) List.mem_cons_self (by decide) ?_
  exact .entry List.mem_cons_self (.both List.mem_cons_self (by decide) (by decide) (by decide))

end SolidityTables
