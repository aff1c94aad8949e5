import SolidityTables.Library.Spelling

/-!
# Expressions

Solidity expressions that convert the value of a field: to a key, to packed bytes, and back from
what the store gives. Which conversion it is depends on the ABI type in which the field is stored.
-/

namespace SolidityTables

def call (function argument : String) : String :=
  function ++ "(" ++ argument ++ ")"

namespace TypeSpelling

def unwrapped (t : TypeSpelling) (e : String) : String :=
  if t.unwrap = "" then e else call t.unwrap e

def wrapped (t : TypeSpelling) (e : String) : String :=
  if t.wrap = "" then e else call t.wrap e

def isUint (t : TypeSpelling) : Bool := "uint".toList.isPrefixOf t.internal.toList

def isInt (t : TypeSpelling) : Bool := "int".toList.isPrefixOf t.internal.toList

def isBytes (t : TypeSpelling) : Bool := "bytes".toList.isPrefixOf t.internal.toList

def isRun (t : TypeSpelling) : Bool := t.internal = "string" || t.internal = "bytes"

/-- A value as a word of a key, or nothing if the type has no place in a key. -/
def keyWord? (t : TypeSpelling) (e : String) : Option String :=
  let value := t.unwrapped e
  if t.isUint then some (call "bytes32" (call "uint256" value))
  else if t.isInt then some (call "bytes32" (call "uint256" (call "int256" value)))
  else if t.isBytes then some (call "bytes32" value)
  else if t.internal = "address" then some (call "bytes32" (call "uint256" (call "uint160" value)))
  else if t.internal = "bool" then some (call "_boolToBytes32" value)
  else none

def encoded (t : TypeSpelling) (e : String) : String :=
  let value := t.unwrapped e
  if !t.isDynamic then call "abi.encodePacked" (call "" value)
  else if t.isRun then call "bytes" (call "" value)
  else call "EncodeArray.encode" (call "" value)

def decodedStatic (t : TypeSpelling) (e : String) : String :=
  let bytes := call ("bytes" ++ toString t.byteLength) e
  t.wrapped <|
    if t.isUint then call t.internal bytes
    else if t.isInt then call t.internal (call ("u" ++ t.internal) bytes)
    else if t.internal = "address" then call "address" (call "bytes20" e)
    else if t.internal = "bool" then call "_toBool" (call "uint8" (call "bytes1" e))
    else bytes

end TypeSpelling

namespace Field

/-- The name of the type of an array's elements: that of the type of the elements, or else what
comes before the last two characters of the array's own. -/
def elementName (f : Field) : String :=
  match f.element with
  | some t => t.type
  | none => String.ofList (f.internal.toList.take (f.internal.toList.length - 2))

def decodedDynamic (f : Field) (e : String) : String :=
  f.wrapped <|
    if f.isRun then call f.internal e
    else call ("SliceLib.getSubslice(" ++ e ++ ", 0, " ++ e ++ ".length).decodeArray_" ++
      f.elementName) ""

def elementLength (f : Field) : Int :=
  match f.element with
  | some t => t.byteLength
  | none => 1

def byteSize (f : Field) (e : String) : String :=
  let value := f.unwrapped e
  match f.element with
  | none => call "bytes" value ++ ".length"
  | some t => value ++ ".length * " ++ toString t.byteLength

end Field

end SolidityTables
