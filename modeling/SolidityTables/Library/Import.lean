import SolidityTables.Config.Scope
import SolidityTables.Path.Lexical

/-!
# Imports

A library imports the enums and user types that its fields use. A path that begins with no dot and
holds an at sign names a package and is left as it is; any other one is told as seen from the
directory of the library. Two imports are the same if they bring the same symbol from the same path.
-/

namespace SolidityTables

/-- A symbol from the file at `target`, for a file in `directory`. -/
structure Import where
  symbol : String
  target : String
  directory : String
  deriving DecidableEq, Repr

namespace Import

def isPackage (target : String) : Bool :=
  target.toList.head? ≠ some '.' && target.toList.contains '@'

def dotted (p : String) : String :=
  if p.toList.head? = some '.' then p else "./" ++ p

/-- The path under which the file is imported, if relative paths start from `cwd`. -/
def path (cwd : String) (i : Import) : String :=
  if isPackage i.target then i.target
  else
    let base := Path.resolve [] cwd
    dotted (Path.relative
      (Path.between (Path.resolve base i.directory) (Path.resolve base i.target)))

def source (i : Import) : String × String := (i.symbol, i.target)

def add (imports : List Import) (i : Import) : List Import :=
  if imports.any (·.source = i.source) then imports else imports ++ [i]

def distinct (imports : List Import) : List Import :=
  imports.foldl add []

/-- The import that a type calls for in a file in `directory`: an enum comes from the file of the
store's own types, a user type from its file if it has one. -/
def ofNamed? (codegen : StoreCodegen) (directory name : String) : NamedType → Option Import
  | .abi _ => none
  | .enum =>
    some ⟨name, Path.join codegen.outputDirectory codegen.userTypesFilename, directory⟩
  | .user u => if u.filePath = "" then none else some ⟨name, u.filePath, directory⟩

end Import

end SolidityTables
