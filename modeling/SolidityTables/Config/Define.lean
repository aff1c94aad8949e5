import SolidityTables.Config.OptionKey
import SolidityTables.Config.Store
import SolidityTables.FieldLayout

/-!
# Resolving a configuration

From the members of a configuration to the store or world it defines. First the keys at the top are
checked, then that no table names its own label or namespace, then the shape of the whole; after
that names, and then table by table its types, its key, its fields and its name.

Names of enums and user types have to be identifiers: a letter, an underscore or a dollar sign, then
any of these and digits, all of them ASCII. A line feed at the end is let through.
-/

namespace SolidityTables.Identifier

def isStart (c : Char) : Bool :=
  c.isAlpha || c = '_' || c = '$'

def isPart (c : Char) : Bool :=
  isStart c || c.isDigit

def withoutFinalNewline (cs : List Char) : List Char :=
  if cs.getLast? = some '\n' then cs.dropLast else cs

def isIdentifier (s : String) : Bool :=
  match withoutFinalNewline s.toList with
  | [] => false
  | c :: cs => isStart c && cs.all isPart

end SolidityTables.Identifier

namespace SolidityTables

namespace TableDeclaration

def fields (scope : Scope) (d : TableDeclaration) :
    Except ConfigError (List (String × SchemaField)) :=
  d.schema.mapM fun (field, declared) => do
    return (field, ⟨(← scope.find declared).base, declared⟩)

def checkKey (label : String) (key : List String) (schema : List (String × SchemaField)) :
    Except ConfigError Unit :=
  let statics := (schema.filter fun f => !f.2.type.isDynamic).map (·.1)
  if key.any (· ∉ statics) then .error (.keyNotStatic statics key)
  else if key.Nodup then .ok ()
  else .error (.keyRepeated label key)

def define (space : String) (scope : Scope) (label : String) (d : TableDeclaration) :
    Except ConfigError Table := do
  let schema ← d.fields scope
  checkKey label d.key schema
  let values := schema.filter fun f => f.1 ∉ d.key
  FieldLayout.checkCounts values.length (values.filter fun f => f.2.type.isDynamic).length
  let name := d.name.getD (Resource.defaultName label)
  Resource.checkName name
  return {
    label, space, name, schema
    kind := d.kind
    key := d.key
    codegen := {
      outputDirectory := d.codegen.outputDirectory
      tableIdArgument := d.codegen.tableIdArgument
      storeArgument := d.codegen.storeArgument
      dataStruct := d.codegen.dataStruct.getD (decide (1 < values.length)) }
    deploy := d.deploy }

end TableDeclaration

def SystemDeclaration.define (space label : String) (d : SystemDeclaration) :
    Except ConfigError System := do
  let name := d.name.getD (Resource.defaultName label)
  Resource.checkName name
  return {
    label, space, name
    openAccess := d.openAccess
    accessList := d.accessList
    registerFunctionSelectors := d.registerFunctionSelectors }

namespace StoreDeclaration

def scope (d : StoreDeclaration) : Scope := ⟨d.enums, d.userTypes⟩

def typeNames (d : StoreDeclaration) : List String :=
  d.enums.map (·.1) ++ d.userTypes.map (·.1)

def sharedNames (d : StoreDeclaration) : List String :=
  (d.enums.map (·.1)).filter fun n => n ∈ d.userTypes.map (·.1)

def isTypeName (name : String) : Bool :=
  (SchemaType.ofName? name).isNone && Identifier.isIdentifier name

def checkNames (d : StoreDeclaration) : Except ConfigError Unit :=
  if d.sharedNames ≠ [] then .error (.sharedNames d.sharedNames.mergeSort)
  else match d.typeNames.find? fun n => !isTypeName n with
    | some name => .error (.badTypeName name)
    | none => .ok ()

def entry (d : StoreDeclaration) (x : String × TableDeclaration) :
    Except ConfigError (String × Table) := do
  return (Resource.tableKey d.space x.1, ← x.2.define d.space d.scope x.1)

def define (d : StoreDeclaration) : Except ConfigError Store := do
  Resource.checkSpace d.space
  d.checkNames
  let tables ← d.tables.mapM d.entry
  return ⟨d.space, tables, d.userTypes, d.enums, d.codegen⟩

end StoreDeclaration

/-- The world that a declaration defines. Its systems come before all else. -/
def WorldDeclaration.define (d : WorldDeclaration) : Except ConfigError World := do
  let systems ← d.systems.mapM fun (label, s) => do
    return (label, ← s.define d.space label)
  let store ← d.toStoreDeclaration.define
  return { store with
    systems
    worldCodegen := d.worldCodegen
    deploy := d.deploy
    excludedSystems := d.excludedSystems
    modules := d.modules }

def hasOverride : Json → Bool
  | .obj ms => ms.any fun m => m.1 = "label" || m.1 = "namespace"
  | _ => false

def checkOverrides (ms : Json.Members) : Except ConfigError Unit :=
  match ms.lookup "tables" with
  | some (.obj tables) =>
    if tables.any (hasOverride ·.2) then .error .tableOverride else .ok ()
  | _ => .ok ()

def readDeclaration {α : Type} (kind : ConfigKind) (shape : Shape α) (ms : Json.Members) :
    Except ConfigError α := do
  OptionKey.checkKeys kind ms
  checkOverrides ms
  (shape.members ms).toExcept.mapError (.malformed kind)

/-- The store that the members of a configuration define. -/
def Store.define (ms : Json.Members) : Except ConfigError Store := do
  (← readDeclaration .store StoreDeclaration.shape ms).define

def World.define (ms : Json.Members) : Except ConfigError World :=
  if ms.any (·.1 = "namespaces") then .error .namespacesReserved
  else do (← readDeclaration .world WorldDeclaration.shape ms).define

end SolidityTables
