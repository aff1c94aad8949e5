import SolidityTables.Config.Complaint
import SolidityTables.Json.Document

/-!
# Errors of a configuration

The reasons for which a configuration is refused, and for which no library can be planned from it.
Two kinds of them have names of their own: a type that is not known and a key that is not allowed.
-/

namespace SolidityTables

inductive ConfigKind
  | store
  | world
  deriving DecidableEq, Repr

def ConfigKind.name : ConfigKind → String
  | store => "Store"
  | world => "World"

def ConfigKind.title (k : ConfigKind) : String :=
  k.name ++ "Input"

inductive ConfigError
  | unknownOption (kind : ConfigKind) (key : String)
  | namespacesReserved
  | tableOverride
  | malformed (kind : ConfigKind) (complaints : List Complaint)
  | namespaceTooLong (name : String)
  | nameTooLong (name : String)
  | unknownResource (kind : String)
  | tooManyFields
  | tooManyDynamicFields
  | sharedNames (names : List String)
  | badTypeName (name : String)
  | unknownType (name : String)
  | keyNotStatic (allowed key : List String)
  | keyRepeated (label : String) (key : List String)
  | keyDynamic (field label type : String)
  | notJson (path : String) (fault : Json.Fault) (place : Newline.Place)
  | notObject (path : String)
  deriving DecidableEq, Repr

namespace ConfigError

inductive Kind
  | general
  | unknownType
  | invalidKey
  deriving DecidableEq, Repr

def kind : ConfigError → Kind
  | unknownType _ => .unknownType
  | keyNotStatic _ _ | keyRepeated _ _ | keyDynamic _ _ _ => .invalidKey
  | _ => .general

/-- Field names in double quotes, which are not escaped. -/
def fieldNames (separator : String) (names : List String) : String :=
  String.intercalate separator (names.map fun n => "\"" ++ n ++ "\"")

def message : ConfigError → String
  | unknownOption kind key =>
    "`" ++ key ++ "` is not a valid " ++ kind.name ++ " config option."
  | namespacesReserved => "Namespaces config will be enabled soon."
  | tableOverride =>
    "Overrides of `label` and `namespace` are not allowed for tables in a store config"
  | malformed kind complaints =>
    "Invalid " ++ kind.name ++ " config: " ++ Complaint.summary complaints kind.title
  | namespaceTooLong name => "Namespaces must fit into `bytes14`, received `" ++ name ++ "`"
  | nameTooLong name => "Table names must fit into `bytes16`, received `" ++ name ++ "`"
  | unknownResource kind => "Unknown resource type `" ++ kind ++ "`"
  | tooManyFields => "Tables can have at most 28 value fields"
  | tooManyDynamicFields => "Tables can have at most 5 dynamic fields"
  | sharedNames names => "Names used for both enums and user types: " ++ Quoted.list names
  | badTypeName name => "`" ++ name ++ "` cannot be used as a user type or enum name"
  | unknownType name =>
    "Invalid schema type. Expected an ABI type, user type or enum, received `" ++ name ++ "`"
  | keyNotStatic allowed key =>
    "Invalid key. Expected `(" ++ fieldNames " | " allowed ++ ")[]`, received `[" ++
      fieldNames ", " key ++ "]`"
  | keyRepeated label key =>
    "Duplicate key fields in `" ++ label ++ "`: [" ++ fieldNames ", " key ++ "]"
  | keyDynamic field label type =>
    "Key field `" ++ field ++ "` of `" ++ label ++ "` has dynamic type `" ++ type ++ "`"
  | notJson path fault place =>
    path ++ " is not valid JSON: " ++ fault.message ++ ": line " ++ toString place.line ++
      " column " ++ toString place.column ++ " (char " ++ toString place.index ++ ")"
  | notObject path => path ++ " must contain a JSON object"

end ConfigError

end SolidityTables
