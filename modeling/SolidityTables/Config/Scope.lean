import SolidityTables.Config.Declaration
import SolidityTables.Config.Error

/-!
# Names of types

A field's type is named by an ABI type, an enum or a user type, looked for in this order. An enum is
stored as `uint8` and a user type as the ABI type it stands for.
-/

namespace SolidityTables

inductive NamedType
  | abi (t : SchemaType)
  | enum
  | user (u : UserType)
  deriving DecidableEq, Repr

def NamedType.base : NamedType → SchemaType
  | abi t => t
  | enum => .uint8
  | user u => u.base

/-- The enums and user types that names are looked for in. -/
structure Scope where
  enums : List (String × List String)
  userTypes : List (String × UserType)

def Scope.find? (s : Scope) (name : String) : Option NamedType :=
  match SchemaType.ofName? name with
  | some t => some (.abi t)
  | none =>
    if name ∈ s.enums.map (·.1) then some .enum
    else (s.userTypes.lookup name).map .user

def Scope.find (s : Scope) (name : String) : Except ConfigError NamedType :=
  match s.find? name with
  | some t => .ok t
  | none => .error (.unknownType name)

end SolidityTables
