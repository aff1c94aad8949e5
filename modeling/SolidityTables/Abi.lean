import SolidityTables.Text.Uppercase

/-!
# ABI types

The types that a table field may have. A static type takes up a fixed number of bytes, from one to
thirty-two; a dynamic one is an array of a static type, `bytes` or `string`. Types and their names
determine each other.
-/

namespace SolidityTables

/-- A number of bytes from one to thirty-two, one less than which is held. -/
abbrev Width := Fin 32

def Width.bytes (w : Width) : Nat := w.val + 1

inductive StaticType
  | uint (w : Width)
  | int (w : Width)
  | bytes (w : Width)
  | bool
  | address
  deriving DecidableEq, Repr

inductive SchemaType
  | static (t : StaticType)
  | array (element : StaticType)
  | bytes
  | string
  deriving DecidableEq, Repr

namespace StaticType

def name : StaticType → String
  | uint w => "uint" ++ toString (8 * w.bytes)
  | int w => "int" ++ toString (8 * w.bytes)
  | bytes w => "bytes" ++ toString w.bytes
  | bool => "bool"
  | address => "address"

def byteLength : StaticType → Nat
  | uint w | int w | bytes w => w.bytes
  | bool => 1
  | address => 20

def all : List StaticType :=
  let widths := List.finRange 32
  widths.map uint ++ widths.map int ++ widths.map bytes ++ [bool, address]

def ofName? (s : String) : Option StaticType :=
  all.find? (·.name = s)

end StaticType

namespace SchemaType

def name : SchemaType → String
  | static t => t.name
  | array t => t.name ++ "[]"
  | bytes => "bytes"
  | string => "string"

def isDynamic : SchemaType → Bool
  | static _ => false
  | array _ | bytes | string => true

def byteLength : SchemaType → Nat
  | static t => t.byteLength
  | array _ | bytes | string => 0

def element? : SchemaType → Option StaticType
  | array t => some t
  | static _ | bytes | string => none

def memberName : SchemaType → String
  | array t => Uppercase.ofString t.name ++ "_ARRAY"
  | t => Uppercase.ofString t.name

def dynamic : List SchemaType :=
  StaticType.all.map array ++ [bytes, string]

def all : List SchemaType :=
  StaticType.all.map static ++ dynamic

def ofName? (s : String) : Option SchemaType :=
  all.find? (·.name = s)

def memberNameOf (s : String) : String :=
  match ofName? s with
  | some t => t.memberName
  | none => Uppercase.ofString s

end SchemaType

def SchemaType.uint8 : SchemaType := .static (.uint 0)

end SolidityTables
