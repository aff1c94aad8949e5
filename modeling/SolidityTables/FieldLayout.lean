import SolidityTables.Config.Error
import SolidityTables.Text.Bytes

/-!
# Field layouts

The layout of a table's values is a word of 32 bytes: the total length of the static fields in two
bytes, their number and the number of dynamic fields in one byte each, then the length of each
static field in one byte, and zeros.
-/

namespace SolidityTables.FieldLayout

def maxFields : Int := 28

def maxDynamicFields : Int := 5

def checkCounts (fields dynamicFields : Int) : Except ConfigError Unit :=
  if maxFields < fields then .error .tooManyFields
  else if maxDynamicFields < dynamicFields then .error .tooManyDynamicFields
  else .ok ()

inductive Error
  | counts (e : ConfigError)
  | range (e : Bytes.RangeError)
  deriving DecidableEq, Repr

def total (lengths : List Int) : Int :=
  lengths.foldr (· + ·) 0

/-- The layout of static fields of the given lengths beside a number of dynamic fields. -/
def word (lengths : List Int) (dynamicFields : Int) : Except Error (List UInt8) := do
  let count : Int := lengths.length
  (checkCounts (count + dynamicFields) dynamicFields).mapError .counts
  let size ← (Bytes.ofInt 2 (total lengths)).mapError .range
  let statics ← (Bytes.ofInt 1 count).mapError .range
  let dynamics ← (Bytes.ofInt 1 dynamicFields).mapError .range
  let each ← (Bytes.ofInts lengths).mapError .range
  let bytes := size ++ statics ++ dynamics ++ each
  return bytes ++ List.replicate (32 - bytes.length) 0

def encode (lengths : List Int) (dynamicFields : Int) : Except Error String :=
  (word lengths dynamicFields).map Bytes.hex

end SolidityTables.FieldLayout
