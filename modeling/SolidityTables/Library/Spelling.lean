import SolidityTables.Config.Scope

/-!
# How types are spelled

The code of a library names a type in several ways: by itself, with the place where its values are
kept, as a member of the list of schema types, and by the ABI type in which it is stored. A value of
an enum or a user type is unwrapped before it is stored and wrapped after it is read, each by a
function of its own; the type of a value that is stored as it is has empty names for these.
-/

namespace SolidityTables

structure TypeSpelling where
  type : String
  located : String
  member : String
  byteLength : Int
  isDynamic : Bool
  wrap : String
  unwrap : String
  internal : String
  deriving DecidableEq, Repr

/-- A key or value field of a table; an array has a type of elements. -/
structure Field extends TypeSpelling where
  name : String
  element : Option TypeSpelling
  deriving DecidableEq, Repr

namespace TypeSpelling

def withLocation (name : String) (base : SchemaType) : String :=
  if base.isDynamic then name ++ " memory" else name

def ofAbi (t : SchemaType) : TypeSpelling where
  type := t.name
  located := withLocation t.name t
  member := t.memberName
  byteLength := t.byteLength
  isDynamic := t.isDynamic
  wrap := ""
  unwrap := ""
  internal := t.name

/-- An enum is converted by its own name and by that of the type in which it is stored. -/
def ofEnum (name : String) : TypeSpelling :=
  { ofAbi .uint8 with type := name, located := name, wrap := name, unwrap := SchemaType.uint8.name }

def ofUserType (name : String) (u : UserType) : TypeSpelling :=
  { ofAbi u.base with
    type := name
    located := withLocation name u.base
    wrap := name ++ ".wrap"
    unwrap := name ++ ".unwrap" }

def ofNamed (name : String) : NamedType → TypeSpelling
  | .abi t => ofAbi t
  | .enum => ofEnum name
  | .user u => ofUserType name u

def ofAbiName (name : String) : Except ConfigError TypeSpelling :=
  match SchemaType.ofName? name with
  | some t => .ok (ofAbi t)
  | none => .error (.unknownType name)

end TypeSpelling

end SolidityTables
