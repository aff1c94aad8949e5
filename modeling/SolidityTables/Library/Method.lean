import SolidityTables.Library.Expression
import SolidityTables.Library.Options
import SolidityTables.Text.Uppercase

/-!
# Methods of a library

Five methods tell the schema of the table. All others act on a store: on the one that is found by
`StoreSwitch`, and, if the options say so, once more on one that is given as the first argument.
These methods take the id of the table unless the library knows it, then the fields of the key,
then what they need themselves.

A method is made by its name, its parameters, its effect and the lines of its body; the words of the
key, one for each field of it, are worked out beforehand.
-/

namespace SolidityTables

structure Parameter where
  type : String
  name : String
  deriving DecidableEq, Repr

def Parameter.text (p : Parameter) : String := p.type ++ " " ++ p.name

/-- The fragments of a list of parameters or arguments; an empty one stands for nothing. -/
def argumentList (parts : List String) : String :=
  String.intercalate ", " (parts.filter (· ≠ ""))

inductive Effect
  | pure (returns : String)
  | view (returns : String)
  | change
  deriving DecidableEq, Repr

def Effect.text : Effect → String
  | pure returns => " pure returns (" ++ returns ++ ")"
  | view returns => " view returns (" ++ returns ++ ")"
  | change => ""

structure Method where
  notice : String
  name : String
  params : List Parameter
  effect : Effect
  body : List String
  deriving DecidableEq, Repr

def Method.lines (m : Method) : List String :=
  ["  /**", "   * @notice " ++ m.notice, "   */",
    "  function " ++ m.name ++ "(" ++ argumentList (m.params.map (·.text)) ++ ") internal" ++
      m.effect.text ++ " \x7b"] ++ m.body ++ ["  \x7d"]

inductive StoreChoice
  | found
  | given
  deriving DecidableEq, Repr

namespace StoreChoice

def expression : StoreChoice → String
  | found => "StoreSwitch"
  | given => "_store"

def params : StoreChoice → List Parameter
  | found => []
  | given => [⟨"IStore", "_store"⟩]

end StoreChoice

def Field.param (f : Field) : Parameter := ⟨f.located, f.name⟩

def elementLines (array : String) (values : List String) : List String :=
  values.zipIdx.map fun (value, i) =>
    "    " ++ array ++ "[" ++ toString i ++ "] = " ++ value ++ ";"

def keyLines (words : List String) : List String :=
  ("    bytes32[] memory _keyTuple = new bytes32[](" ++ toString words.length ++ ");") ::
    elementLines "_keyTuple" words ++ [""]

namespace LibraryOptions

def structName (o : LibraryOptions) : Option String :=
  o.struct.filter (· ≠ "")

def storedFields (o : LibraryOptions) : List Field :=
  o.staticFields ++ o.dynamicFields

def accessor (o : LibraryOptions) (verb : String) (f : Field) : String :=
  if o.suffixless then verb else verb ++ Uppercase.capitalize f.name

def stores (o : LibraryOptions) : List StoreChoice :=
  if o.storeArgument then [.found, .given] else [.found]

def idParams (o : LibraryOptions) : List Parameter :=
  if o.tableId.isSome then [] else [⟨"ResourceId", "_tableId"⟩]

def recordParams (o : LibraryOptions) (s : StoreChoice) : List Parameter :=
  s.params ++ o.idParams ++ o.keys.map (·.param)

def recordArguments (o : LibraryOptions) (s : StoreChoice) : String :=
  argumentList ((o.recordParams s).map (·.name))

def schemaMethods (o : LibraryOptions) : List Method := [
  { notice := "Get the table values' field layout."
    name := "getFieldLayout"
    params := []
    effect := .pure "FieldLayout"
    body := ["    return _fieldLayout;"] },
  { notice := "Get the table's key schema."
    name := "getKeySchema"
    params := []
    effect := .pure "Schema"
    body :=
      ("    SchemaType[] memory _keySchema = new SchemaType[](" ++ toString o.keys.length
          ++ ");") ::
        elementLines "_keySchema" (o.keys.map fun f => "SchemaType." ++ f.member) ++
        ["    return SchemaLib.encode(_keySchema);"] },
  { notice := "Get the table's value schema."
    name := "getValueSchema"
    params := []
    effect := .pure "Schema"
    body :=
      ("    SchemaType[] memory _valueSchema = new SchemaType[](" ++ toString o.fields.length
          ++ ");") ::
        elementLines "_valueSchema" (o.storedFields.map fun f => "SchemaType." ++ f.member) ++
        ["    return SchemaLib.encode(_valueSchema);"] },
  { notice := "Get the table's key field names."
    name := "getKeyNames"
    params := []
    effect := .pure "string[] memory keyNames"
    body :=
      ("    keyNames = new string[](" ++ toString o.keys.length ++ ");") ::
        elementLines "keyNames" (o.keys.map fun f => "\"" ++ f.name ++ "\"") },
  { notice := "Get the table's value field names."
    name := "getFieldNames"
    params := []
    effect := .pure "string[] memory fieldNames"
    body :=
      ("    fieldNames = new string[](" ++ toString o.fields.length ++ ");") ::
        elementLines "fieldNames" (o.storedFields.map fun f => "\"" ++ f.name ++ "\"") }]

def register (o : LibraryOptions) (s : StoreChoice) : Method where
  notice := "Register the table with its config."
  name := "register"
  params := s.params ++ o.idParams
  effect := .change
  body := ["    " ++ s.expression ++ ".registerTable(_tableId, _fieldLayout, getKeySchema(), " ++
    "getValueSchema(), getKeyNames(), getFieldNames());"]

def onRecord (s : StoreChoice) (function : String) (arguments : List String) : String :=
  s.expression ++ "." ++ function ++ "(" ++
    String.intercalate ", " ("_tableId" :: "_keyTuple" :: arguments) ++ ")"

def getField (o : LibraryOptions) (words : List String) (s : StoreChoice) (f : Field)
    (read : List String) : Method where
  notice := "Get " ++ f.name ++ "."
  name := o.accessor "get" f
  params := o.recordParams s
  effect := .view f.param.text
  body := keyLines words ++ read

def setField (o : LibraryOptions) (words : List String) (s : StoreChoice) (f : Field)
    (write : String) : Method where
  notice := "Set " ++ f.name ++ "."
  name := o.accessor "set" f
  params := o.recordParams s ++ [f.param]
  effect := .change
  body := keyLines words ++ [write]

def staticMethods (o : LibraryOptions) (words : List String) (s : StoreChoice) (f : Field)
    (i : Nat) : List Method := [
  o.getField words s f [
    "    bytes32 _blob = " ++ onRecord s "getStaticField" [toString i, "_fieldLayout"] ++ ";",
    "    return (" ++ f.decodedStatic "_blob" ++ ");"],
  o.setField words s f
    ("    " ++ onRecord s "setStaticField" [toString i, f.encoded f.name, "_fieldLayout"] ++ ";")]

def lengthMethod (o : LibraryOptions) (words : List String) (s : StoreChoice) (f : Field)
    (i : Nat) : Method where
  notice := "Get the length of " ++ f.name ++ "."
  name := o.accessor "length" f
  params := o.recordParams s
  effect := .view "uint256"
  body := keyLines words ++ [
    "    uint256 _byteLength = " ++ onRecord s "getDynamicFieldLength" [toString i] ++ ";",
    "    unchecked \x7b",
    "      return _byteLength / " ++ toString f.elementLength ++ ";",
    "    \x7d"]

/-- An array takes one more element, a run of bytes takes another run. -/
def pushMethod (o : LibraryOptions) (words : List String) (s : StoreChoice) (f : Field)
    (i : Nat) : Method :=
  let (notice, param, value) : String × Parameter × String := match f.element with
    | some t => ("Push an element to ", ⟨t.type, "_element"⟩, "abi.encodePacked((_element))")
    | none => ("Append to ", ⟨f.internal ++ " memory", "_slice"⟩, "bytes((_slice))")
  { notice := notice ++ f.name ++ "."
    name := o.accessor "push" f
    params := o.recordParams s ++ [param]
    effect := .change
    body := keyLines words ++
      ["    " ++ onRecord s "pushToDynamicField" [toString i, value] ++ ";"] }

def popMethod (o : LibraryOptions) (words : List String) (s : StoreChoice) (f : Field)
    (i : Nat) : Method where
  notice := "Pop the last element of " ++ f.name ++ "."
  name := o.accessor "pop" f
  params := o.recordParams s
  effect := .change
  body := keyLines words ++
    ["    " ++ onRecord s "popFromDynamicField" [toString i, toString f.elementLength] ++ ";"]

def dynamicMethods (o : LibraryOptions) (words : List String) (s : StoreChoice) (f : Field)
    (i : Nat) : List Method := [
  o.getField words s f [
    "    bytes memory _blob = " ++ onRecord s "getDynamicField" [toString i] ++ ";",
    "    return (" ++ f.decodedDynamic "_blob" ++ ");"],
  o.setField words s f
    ("    " ++ onRecord s "setDynamicField" [toString i, f.encoded f.name] ++ ";")] ++
  if o.withDynamicFieldMethods then
    [o.lengthMethod words s f i, o.pushMethod words s f i, o.popMethod words s f i]
  else []

def recordValue (o : LibraryOptions) (f : Field) : String :=
  if o.structName.isSome then "_table." ++ f.name else f.name

def dataParams (o : LibraryOptions) : List Parameter :=
  match o.structName with
  | some name => [⟨name ++ " memory", "_table"⟩]
  | none => o.fields.map (·.param)

def getRecord (o : LibraryOptions) (s : StoreChoice) : Method where
  notice := "Get the full data."
  name := "get"
  params := o.recordParams s
  effect := .view (argumentList (o.dataParams.map (·.text)))
  body := o.fields.map fun f =>
    "    " ++ o.recordValue f ++ " = " ++ o.accessor "get" f ++ "(" ++ o.recordArguments s ++ ");"

def dynamicDataLines (o : LibraryOptions) : List String :=
  if o.dynamicFields = [] then
    ["    EncodedLengths _encodedLengths;", "    bytes memory _dynamicData;"]
  else [
    "    EncodedLengths _encodedLengths = EncodedLengthsLib.pack(" ++
      String.intercalate ", " (o.dynamicFields.map fun f => f.byteSize (o.recordValue f)) ++ ");",
    "    bytes memory _dynamicData = abi.encodePacked(" ++
      String.intercalate ", " (o.dynamicFields.map fun f => f.encoded (o.recordValue f)) ++ ");"]

def setRecord (o : LibraryOptions) (words : List String) (s : StoreChoice) : Method where
  notice := "Set the full data."
  name := "set"
  params := o.recordParams s ++ o.dataParams
  effect := .change
  body :=
    ("    bytes memory _staticData = abi.encodePacked(" ++
      String.intercalate ", " (o.staticFields.map fun f => f.unwrapped (o.recordValue f))
        ++ ");") ::
    o.dynamicDataLines ++ [""] ++ keyLines words ++
    ["    " ++ onRecord s "setRecord" ["_staticData", "_encodedLengths", "_dynamicData"] ++ ";"]

def recordMethods (o : LibraryOptions) (words : List String) (s : StoreChoice) : List Method :=
  (if o.withGetters then [o.getRecord s] else []) ++ [o.setRecord words s]

def deleteRecord (o : LibraryOptions) (words : List String) (s : StoreChoice) : Method where
  notice := "Delete all data for given keys."
  name := "deleteRecord"
  params := o.recordParams s
  effect := .change
  body := keyLines words ++ ["    " ++ onRecord s "deleteRecord" [] ++ ";"]

/-- The methods for single fields: those of the static fields before those of the dynamic ones, and
for each field once for each store. -/
def fieldMethods (o : LibraryOptions) (words : List String) : List Method :=
  (o.staticFields.zipIdx.flatMap fun (f, i) =>
    o.stores.flatMap fun s => o.staticMethods words s f i) ++
  (o.dynamicFields.zipIdx.flatMap fun (f, i) =>
    o.stores.flatMap fun s => o.dynamicMethods words s f i)

/-- All methods of a library, with the words of the key. -/
def methods (o : LibraryOptions) (words : List String) : List Method :=
  o.schemaMethods ++ o.stores.map o.register ++
    (if o.withGetters then o.fieldMethods words else []) ++
    (if o.withRecordMethods then o.stores.flatMap (o.recordMethods words) else []) ++
    o.stores.map (o.deleteRecord words)

/-- The words of the key, or the type of the first field that has no place in one. -/
def keyWords (o : LibraryOptions) : Except String (List String) :=
  o.keys.mapM fun f => match f.keyWord? f.name with
    | some word => .ok word
    | none => .error f.type

end LibraryOptions

end SolidityTables
