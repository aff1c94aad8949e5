import SolidityTables.Config.Scope
import SolidityTables.Resource

/-!
# Stores and worlds

A configuration with all names resolved and all defaults filled in: each table knows its label, its
namespace and name, the ABI type of every field and its key.
-/

namespace SolidityTables

structure SchemaField where
  type : SchemaType
  declared : String
  deriving DecidableEq, Repr

structure TableCodegen where
  outputDirectory : String
  tableIdArgument : Bool
  storeArgument : Bool
  dataStruct : Bool
  deriving DecidableEq, Repr

structure Table where
  label : String
  kind : TableKind
  space : String
  name : String
  schema : List (String × SchemaField)
  key : List String
  codegen : TableCodegen
  deploy : TableDeploy
  deriving DecidableEq, Repr

structure System where
  label : String
  space : String
  name : String
  openAccess : Bool
  accessList : List String
  registerFunctionSelectors : Bool
  deriving DecidableEq, Repr

/-- A resolved store. Its tables are listed under their keys. -/
structure Store where
  space : String
  tables : List (String × Table)
  userTypes : List (String × UserType)
  enums : List (String × List String)
  codegen : StoreCodegen
  deriving DecidableEq, Repr

structure World extends Store where
  worldCodegen : WorldCodegen
  deploy : WorldDeploy
  systems : List (String × System)
  excludedSystems : List String
  modules : List Json.Members

def TableKind.resource : TableKind → ResourceKind
  | table => .table
  | offchainTable => .offchainTable

namespace Table

def resource (t : Table) : Resource := ⟨t.kind.resource, t.space, t.name⟩

def keyFields (t : Table) : List (String × SchemaField) :=
  t.key.filterMap fun k => (t.schema.lookup k).map (k, ·)

def valueFields (t : Table) : List (String × SchemaField) :=
  t.schema.filter fun f => f.1 ∉ t.key

end Table

def System.resource (s : System) : Resource := ⟨.system, s.space, s.name⟩

namespace Store

def scope (s : Store) : Scope := ⟨s.enums, s.userTypes⟩

def enumValues (s : Store) : List (String × List (String × Nat)) :=
  s.enums.map fun (name, members) => (name, members.zipIdx)

end Store

end SolidityTables
