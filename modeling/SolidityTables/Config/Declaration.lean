import SolidityTables.Abi
import SolidityTables.Config.Shape

/-!
# Declarations

What a configuration declares, before names are resolved: tables, user types, enums, systems and the
settings of the generated code and of the deployment. Each record has the shape in which it is
written, with the defaults of what is left out.
-/

namespace SolidityTables

/-- A type declared in a Solidity file, which stands for an ABI type. -/
structure UserType where
  base : SchemaType
  filePath : String
  deriving DecidableEq, Repr

inductive TableKind
  | table
  | offchainTable
  deriving DecidableEq, Repr

structure StoreCodegen where
  storeImportPath : String
  userTypesFilename : String
  outputDirectory : String
  indexFilename : String
  deriving DecidableEq, Repr

structure WorldCodegen where
  worldInterfaceName : String
  worldgenDirectory : String
  worldImportPath : String
  deriving DecidableEq, Repr

structure TableDeploy where
  disabled : Bool
  deriving DecidableEq, Repr

structure WorldDeploy where
  customWorldContract : Option String
  postDeployScript : String
  deploysDirectory : String
  worldsFile : String
  upgradeableWorldImplementation : Bool
  deriving DecidableEq, Repr

structure TableCodegenDeclaration where
  outputDirectory : String
  tableIdArgument : Bool
  storeArgument : Bool
  dataStruct : Option Bool
  deriving DecidableEq, Repr

structure TableDeclaration where
  schema : List (String × String)
  key : List String
  kind : TableKind
  name : Option String
  codegen : TableCodegenDeclaration
  deploy : TableDeploy
  deriving DecidableEq, Repr

structure SystemDeclaration where
  name : Option String
  openAccess : Bool
  accessList : List String
  registerFunctionSelectors : Bool
  deriving DecidableEq, Repr

structure StoreDeclaration where
  space : String
  tables : List (String × TableDeclaration)
  userTypes : List (String × UserType)
  enums : List (String × List String)
  codegen : StoreCodegen
  deriving DecidableEq, Repr

structure WorldDeclaration extends StoreDeclaration where
  worldCodegen : WorldCodegen
  deploy : WorldDeploy
  systems : List (String × SystemDeclaration)
  excludedSystems : List String
  modules : List Json.Members

def TableKind.name : TableKind → String
  | table => "table"
  | offchainTable => "offchainTable"

def TableKind.reader : Reader TableKind
  | .str "table" => .value .table
  | .str "offchainTable" => .value .offchainTable
  | _ => .refuse .notTableKind

def SchemaType.reader (j : Json) : Reading SchemaType :=
  match Reader.text j with
  | .refused cs => .refused cs
  | .value name => match SchemaType.ofName? name with
    | some t => .value t
    | none => .refuse (.notAbiType name)

def UserType.shape : Shape UserType :=
  UserType.mk <$> .required ⟨"type", "type"⟩ SchemaType.reader
    <*> .option ⟨"filePath", "file_path"⟩ .text ""

def UserType.title : String := "UserType"

def UserType.readAll (ms : Json.Members) : Except (List Complaint) (List (String × UserType)) :=
  ms.mapM fun (name, j) => do
    return (name, ← (UserType.shape.reader UserType.title j).toExcept)

def StoreCodegen.shape : Shape StoreCodegen :=
  StoreCodegen.mk
    <$> .option ⟨"storeImportPath", "store_import_path"⟩ .text "@latticexyz/store/src/"
    <*> .option ⟨"userTypesFilename", "user_types_filename"⟩ .text "common.sol"
    <*> .option ⟨"outputDirectory", "output_directory"⟩ .text "codegen"
    <*> .option ⟨"indexFilename", "index_filename"⟩ .text "index.sol"

def WorldCodegen.shape : Shape WorldCodegen :=
  WorldCodegen.mk <$> .option ⟨"worldInterfaceName", "world_interface_name"⟩ .text "IWorld"
    <*> .option ⟨"worldgenDirectory", "worldgen_directory"⟩ .text "world"
    <*> .option ⟨"worldImportPath", "world_import_path"⟩ .text "@latticexyz/world/src/"

def TableDeploy.shape : Shape TableDeploy :=
  TableDeploy.mk <$> .option ⟨"disabled", "disabled"⟩ .boolean false

def WorldDeploy.shape : Shape WorldDeploy :=
  WorldDeploy.mk
    <$> .option ⟨"customWorldContract", "custom_world_contract"⟩ (.nullable .text) none
    <*> .option ⟨"postDeployScript", "post_deploy_script"⟩ .text "PostDeploy"
    <*> .option ⟨"deploysDirectory", "deploys_directory"⟩ .text "./deploys"
    <*> .option ⟨"worldsFile", "worlds_file"⟩ .text "./worlds.json"
    <*> .option ⟨"upgradeableWorldImplementation", "upgradeable_world_implementation"⟩ .boolean
      false

def TableCodegenDeclaration.shape : Shape TableCodegenDeclaration :=
  TableCodegenDeclaration.mk <$> .option ⟨"outputDirectory", "output_directory"⟩ .text "tables"
    <*> .option ⟨"tableIdArgument", "table_id_argument"⟩ .boolean false
    <*> .option ⟨"storeArgument", "store_argument"⟩ .boolean false
    <*> .option ⟨"dataStruct", "data_struct"⟩ (.nullable .boolean) none

def TableDeclaration.shape : Shape TableDeclaration :=
  TableDeclaration.mk
    <$> .required ⟨"schema", "table_schema"⟩ (.dictionary .text)
    <*> .option ⟨"key", "key"⟩ (.list .text) []
    <*> .option ⟨"type", "type"⟩ TableKind.reader .table
    <*> .option ⟨"name", "name"⟩ (.nullable .text) none
    <*> .record ⟨"codegen", "codegen"⟩ (TableCodegenDeclaration.shape.reader "TableCodegenInput")
    <*> .record ⟨"deploy", "deploy"⟩ (TableDeploy.shape.reader "TableDeploy")

def SystemDeclaration.shape : Shape SystemDeclaration :=
  SystemDeclaration.mk <$> .option ⟨"name", "name"⟩ (.nullable .text) none
    <*> .option ⟨"openAccess", "open_access"⟩ .boolean true
    <*> .option ⟨"accessList", "access_list"⟩ (.list .text) []
    <*> .option ⟨"registerFunctionSelectors", "register_function_selectors"⟩ .boolean true

def repeated (names : List String) : List String :=
  ((names.filter fun n => 1 < names.count n).eraseDups).mergeSort

/-- What is wrong with the first enum that is not one: it has from one to 256 members, all
different. -/
def enumFault? : List (String × List String) → Option Complaint.Fault
  | [] => none
  | (name, members) :: rest =>
    if members = [] then some (.enumEmpty name)
    else if 256 < members.length then some (.enumTooLong name)
    else if members.Nodup then enumFault? rest
    else some (.enumRepeats name (repeated members))

def enumsReader (j : Json) : Reading (List (String × List String)) :=
  (Reader.dictionary (.list .text) j).check enumFault?

def moduleReader : Reader Json.Members
  | .obj ms => .value ms
  | _ => .refuse .notDictionary

def declaredNames : Shape (StoreCodegen → StoreDeclaration) :=
  StoreDeclaration.mk <$> .option ⟨"namespace", "namespace"⟩ .text ""
    <*> .option ⟨"tables", "tables"⟩ (.dictionary (TableDeclaration.shape.reader "TableInput")) []
    <*> .option ⟨"userTypes", "user_types"⟩ (.dictionary (UserType.shape.reader UserType.title)) []
    <*> .option ⟨"enums", "enums"⟩ enumsReader []

def StoreDeclaration.shape : Shape StoreDeclaration :=
  declaredNames
    <*> .record ⟨"codegen", "codegen"⟩ (StoreCodegen.shape.reader "StoreCodegen")

def WorldDeclaration.shape : Shape WorldDeclaration :=
  (fun names (codegen, worldCodegen) deploy systems excludedSystems modules =>
      { names codegen with worldCodegen, deploy, systems, excludedSystems, modules })
    <$> declaredNames
    <*> .record ⟨"codegen", "codegen"⟩
      ((Prod.mk <$> StoreCodegen.shape <*> WorldCodegen.shape).reader "WorldCodegen")
    <*> .record ⟨"deploy", "deploy"⟩ (WorldDeploy.shape.reader "WorldDeploy")
    <*> .option ⟨"systems", "systems"⟩
      (.dictionary (SystemDeclaration.shape.reader "SystemInput")) []
    <*> .option ⟨"excludeSystems", "exclude_systems"⟩ (.list .text) []
    <*> .option ⟨"modules", "modules"⟩ (.list moduleReader) []

end SolidityTables
