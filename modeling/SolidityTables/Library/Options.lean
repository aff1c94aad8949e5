import SolidityTables.Config.Store
import SolidityTables.Library.Import
import SolidityTables.Library.Spelling

/-!
# Options of a library

What a library for a table is to contain: its names, its fields and their types, its imports and the
families of methods that it has. The static fields come before the dynamic ones where values are
stored. A library that does not know the id of its table takes it in every method, and the accessors
of an only field may do without its name.
-/

namespace SolidityTables

structure TableId where
  space : String
  name : String
  offchain : Bool
  deriving DecidableEq, Repr

structure LibraryOptions where
  imports : List Import
  library : String
  struct : Option String
  tableId : Option TableId
  storeImportPath : String
  keys : List Field
  fields : List Field
  staticFields : List Field
  dynamicFields : List Field
  withGetters : Bool
  withRecordMethods : Bool
  withDynamicFieldMethods : Bool
  suffixless : Bool
  storeArgument : Bool
  deriving DecidableEq, Repr

/-- The library of a table: its file, as seen from the output directory, and what is in it. -/
structure LibraryFile where
  path : String
  table : String
  options : LibraryOptions
  deriving DecidableEq, Repr

def TableId.resource (t : TableId) : Resource :=
  ⟨if t.offchain then .offchainTable else .table, t.space, t.name⟩

namespace LibraryOptions

def keyField (scope : Scope) (label : String) :
    String × SchemaField → Except ConfigError (NamedType × Field)
  | (name, f) => do
    let t ← scope.find f.declared
    let spelling := TypeSpelling.ofNamed f.declared t
    if spelling.isDynamic then .error (.keyDynamic name label f.declared)
    else return (t, { spelling with name, element := none })

def valueField (scope : Scope) : String × SchemaField → Except ConfigError (NamedType × Field)
  | (name, f) => do
    let t ← scope.find f.declared
    let element := t.base.element?.map fun e => TypeSpelling.ofAbi (.static e)
    return (t, { TypeSpelling.ofNamed f.declared t with name, element })

/-- The library of a table of a store, with the user types of `scope`. -/
def ofTable (codegen : StoreCodegen) (scope : Scope) (t : Table) :
    Except ConfigError LibraryOptions := do
  let keys ← t.keyFields.mapM (keyField scope t.label)
  let values ← t.valueFields.mapM (valueField scope)
  let fields := values.map (·.2)
  let directory := Path.join codegen.outputDirectory t.codegen.outputDirectory
  let isOffchain := decide (t.kind = .offchainTable)
  let withRecordMethods := t.codegen.dataStruct || isOffchain || decide (1 < fields.length)
  return {
    imports := Import.distinct ((keys ++ values).filterMap fun (type, f) =>
      Import.ofNamed? codegen directory f.type type)
    library := t.label
    struct := if t.codegen.dataStruct then some (t.label ++ "Data") else none
    tableId := if t.codegen.tableIdArgument then none else some ⟨t.space, t.name, isOffchain⟩
    storeImportPath := codegen.storeImportPath
    keys := keys.map (·.2)
    fields
    staticFields := fields.filter (!·.isDynamic)
    dynamicFields := fields.filter (·.isDynamic)
    withGetters := !isOffchain
    withRecordMethods
    withDynamicFieldMethods := !isOffchain
    suffixless := !withRecordMethods && decide (fields.length = 1)
    storeArgument := t.codegen.storeArgument }

end LibraryOptions

def Store.libraries (s : Store) (userTypes : List (String × UserType)) :
    Except ConfigError (List LibraryFile) :=
  s.tables.mapM fun (_, t) => do
    return {
      path := Path.join t.codegen.outputDirectory (t.label ++ ".sol")
      table := t.label
      options := ← LibraryOptions.ofTable s.codegen ⟨s.enums, userTypes⟩ t }

end SolidityTables
