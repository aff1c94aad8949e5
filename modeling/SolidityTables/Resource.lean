import SolidityTables.Config.Error
import SolidityTables.Text.Bytes
import SolidityTables.Text.Utf8

/-!
# Resources

A resource is a table, a namespace or a system. Its id is a word of 32 bytes: two that tell the
kind, fourteen for the namespace and sixteen for the name, each filled up with zeros. A name that is
not given is as much of the label as fits.
-/

namespace SolidityTables

inductive ResourceKind
  | table
  | offchainTable
  | space
  | system
  deriving DecidableEq, Repr

namespace ResourceKind

def name : ResourceKind → String
  | table => "table"
  | offchainTable => "offchainTable"
  | space => "namespace"
  | system => "system"

def letters : ResourceKind → String
  | table => "tb"
  | offchainTable => "ot"
  | space => "ns"
  | system => "sy"

def ofName (s : String) : Except ConfigError ResourceKind :=
  match [table, offchainTable, space, system].find? (·.name = s) with
  | some kind => .ok kind
  | none => .error (.unknownResource s)

end ResourceKind

structure Resource where
  kind : ResourceKind
  space : String
  name : String
  deriving DecidableEq, Repr

namespace Resource

def spaceBytes : Nat := 14

def nameBytes : Nat := 16

/-- The word that identifies a resource. Parts that are too long are cut. -/
def word (r : Resource) : List UInt8 :=
  Bytes.padded 2 (Utf8.encode r.kind.letters) ++ Bytes.padded spaceBytes (Utf8.encode r.space) ++
    Bytes.padded nameBytes (Utf8.encode r.name)

def id (r : Resource) : String :=
  Bytes.hex r.word

/-- The longest beginning of a label that is a name. -/
def defaultName (label : String) : String :=
  Utf8.truncate nameBytes label

def checkSpace (s : String) : Except ConfigError Unit :=
  if spaceBytes < Utf8.size s then .error (.namespaceTooLong s) else .ok ()

def checkName (s : String) : Except ConfigError Unit :=
  if nameBytes < Utf8.size s then .error (.nameTooLong s) else .ok ()

def tableKey (space label : String) : String :=
  if space = "" then label else space ++ "__" ++ label

end Resource

end SolidityTables
