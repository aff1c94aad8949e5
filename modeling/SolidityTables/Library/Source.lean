import SolidityTables.FieldLayout
import SolidityTables.Library.Method

/-!
# Source files

The three kinds of files that are written: the library of a table, the file of the store's own types
and the index of all libraries. Each is first put together as data and then printed line by line.
-/

namespace SolidityTables

/-- Lines as text, each ended by a line feed. -/
def fileText (lines : List String) : String :=
  String.intercalate "\n" (lines ++ [""])

def fileHeader : List String := [
  "// SPDX-License-Identifier: MIT",
  "pragma solidity >=0.8.24;",
  "",
  "/* Autogenerated file. Do not edit manually. */"]

structure ImportLine where
  symbols : List String
  path : String
  deriving DecidableEq, Repr

def ImportLine.text (i : ImportLine) : String :=
  "import \x7b " ++ String.intercalate ", " i.symbols ++ " \x7d from \"" ++ i.path ++ "\";"

def storeSymbols : List ImportLine := [
  ⟨["IStore"], "IStore.sol"⟩,
  ⟨["StoreSwitch"], "StoreSwitch.sol"⟩,
  ⟨["StoreCore"], "StoreCore.sol"⟩,
  ⟨["Bytes"], "Bytes.sol"⟩,
  ⟨["Memory"], "Memory.sol"⟩,
  ⟨["SliceLib"], "Slice.sol"⟩,
  ⟨["EncodeArray"], "tightcoder/EncodeArray.sol"⟩,
  ⟨["FieldLayout"], "FieldLayout.sol"⟩,
  ⟨["Schema", "SchemaLib"], "Schema.sol"⟩,
  ⟨["SchemaType"], "SchemaType.sol"⟩,
  ⟨["EncodedLengths", "EncodedLengthsLib"], "EncodedLengths.sol"⟩,
  ⟨["ResourceId"], "ResourceId.sol"⟩]

/-- The file of a library. -/
structure LibrarySource where
  storeImports : List ImportLine
  typeImports : List ImportLine
  tableId : Option String
  fieldLayout : String
  struct : Option (String × List Parameter)
  library : String
  methods : List Method
  deriving DecidableEq, Repr

/-- Why there is no source for a library: its fields have no layout, or a field of the key is of a
type that has no place in one. -/
inductive SourceError
  | layout (e : FieldLayout.Error)
  | key (type : String)
  deriving DecidableEq, Repr

def castFunctions : List String := [
  "",
  "/**",
  " * @notice Cast a value to a bool.",
  " */",
  "function _toBool(uint8 value) pure returns (bool result) \x7b",
  "  assembly \x7b",
  "    result := value",
  "  \x7d",
  "\x7d",
  "",
  "function _boolToBytes32(bool value) pure returns (bytes32 result) \x7b",
  "  assembly \x7b",
  "    result := value",
  "  \x7d",
  "\x7d"]

def separated : List (List String) → List String
  | [] => []
  | [g] => g
  | g :: h :: rest => g ++ "" :: separated (h :: rest)

namespace LibrarySource

def lines (s : LibrarySource) : List String :=
  fileHeader ++ ["", "// Import store internals"] ++ s.storeImports.map (·.text) ++
    (if s.typeImports = [] then []
      else ["", "// Import user types"] ++ s.typeImports.map (·.text)) ++
    (match s.tableId with
      | none => []
      | some id => ["", "ResourceId constant _tableId = ResourceId.wrap(" ++ id ++ ");"]) ++
    ["", "FieldLayout constant _fieldLayout = FieldLayout.wrap(" ++ s.fieldLayout ++ ");"] ++
    (match s.struct with
      | none => []
      | some (name, members) =>
        ["", "struct " ++ name ++ " \x7b"] ++ members.map (fun m => "  " ++ m.text ++ ";") ++
          ["\x7d"]) ++
    ["", "library " ++ s.library ++ " \x7b"] ++ separated (s.methods.map (·.lines)) ++ ["\x7d"] ++
    castFunctions

def text (s : LibrarySource) : String :=
  fileText s.lines

end LibrarySource

namespace LibraryOptions

def tableIdText (o : LibraryOptions) : Option String :=
  o.tableId.map fun t => t.resource.id

def fieldLayout (o : LibraryOptions) : Except FieldLayout.Error String :=
  FieldLayout.encode (o.staticFields.map (·.byteLength)) o.dynamicFields.length

/-- The source of a library whose relative imports start from `cwd`. -/
def source (cwd : String) (o : LibraryOptions) : Except SourceError LibrarySource := do
  let fieldLayout ← o.fieldLayout.mapError .layout
  let words ← o.keyWords.mapError .key
  return {
    storeImports := storeSymbols.map fun i => ⟨i.symbols, o.storeImportPath ++ i.path⟩
    typeImports := o.imports.map fun i => ⟨[i.symbol], i.path cwd⟩
    tableId := o.tableIdText
    fieldLayout
    struct := o.structName.map fun name => (name, o.fields.map fun f => ⟨f.type, f.name⟩)
    library := o.library
    methods := o.methods words }

def render (cwd : String) (o : LibraryOptions) : Except SourceError String :=
  (o.source cwd).map (·.text)

end LibraryOptions

def enumLines (name : String) (members : List String) : List String :=
  ["", "enum " ++ name ++ " \x7b"] ++
    members.zipIdx.map (fun (m, i) =>
      "  " ++ m ++ (if i + 1 < members.length then "," else "")) ++ ["\x7d"]

def Store.userTypesText (s : Store) : String :=
  fileText (fileHeader ++ s.enums.flatMap fun (name, members) => enumLines name members)

def LibraryFile.indexLine (f : LibraryFile) : ImportLine :=
  ⟨f.options.library :: f.options.structName.toList, "./" ++ f.path⟩

def indexText (files : List LibraryFile) : String :=
  fileText (fileHeader ++ "" :: files.map fun f => f.indexLine.text)

end SolidityTables
