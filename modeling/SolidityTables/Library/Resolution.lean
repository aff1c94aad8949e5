import SolidityTables.Library.Import
import SolidityTables.Library.Spelling

/-!
# Resolving declared names

The name by which a field is declared is resolved to the type in which values are stored, to the
spelling of the type, and to the import that it calls for. Each of these looks for the name in its
own way: among the ABI types, then among the enums, then among the user types.
-/

namespace SolidityTables.Scope

def schemaType (s : Scope) (name : String) : Except ConfigError SchemaType :=
  match SchemaType.ofName? name with
  | some t => .ok t
  | none =>
    if name ∈ s.enums.map (·.1) then .ok .uint8
    else if h : (s.userTypes.lookup name).isSome then .ok ((s.userTypes.lookup name).get h).base
    else .error (.unknownType name)

def spelling (s : Scope) (name : String) : Except ConfigError (SchemaType × TypeSpelling) :=
  match SchemaType.ofName? name with
  | some t => .ok (t, .ofAbi t)
  | none =>
    if name ∈ s.enums.map (·.1) then .ok (.uint8, .ofEnum name)
    else match s.userTypes.lookup name with
      | none => .error (.unknownType name)
      | some u => .ok (u.base, .ofUserType name u)

def imported (s : Scope) (codegen : StoreCodegen) (directory name : String) :
    Except ConfigError (Option Import) :=
  if (SchemaType.ofName? name).isSome then .ok none
  else if name ∈ s.enums.map (·.1) then
    .ok (some ⟨name, Path.join codegen.outputDirectory codegen.userTypesFilename, directory⟩)
  else match s.userTypes.lookup name with
    | none => .error (.unknownType name)
    | some u => if u.filePath = "" then .ok none else .ok (some ⟨name, u.filePath, directory⟩)

end SolidityTables.Scope
