import SolidityTables.Text.Quoted

/-!
# Complaints about the shape of a configuration

A complaint says where in the value something is wrong, as the keys and indices on the way to it,
and what is wrong there. All complaints about a value are told together.
-/

namespace SolidityTables

inductive Step
  | key (k : String)
  | index (i : Nat)
  deriving DecidableEq, Repr

namespace Complaint

inductive Fault
  | unknownOption
  | missing
  | notString
  | notList
  | notDictionary
  | notRecord (title : String)
  | notTableKind
  | notBoolean
  | unclearBoolean
  | enumEmpty (name : String)
  | enumTooLong (name : String)
  | enumRepeats (name : String) (members : List String)
  | notAbiType (name : String)
  deriving DecidableEq, Repr

def Fault.code : Fault → String
  | unknownOption => "extra_forbidden"
  | missing => "missing"
  | notString => "string_type"
  | notList => "list_type"
  | notDictionary => "dict_type"
  | notRecord _ => "model_type"
  | notTableKind => "literal_error"
  | notBoolean => "bool_type"
  | unclearBoolean => "bool_parsing"
  | enumEmpty _ | enumTooLong _ | enumRepeats _ _ | notAbiType _ => "value_error"

def Fault.message : Fault → String
  | unknownOption => "Extra inputs are not permitted"
  | missing => "Field required"
  | notString => "Input should be a valid string"
  | notList => "Input should be a valid list"
  | notDictionary => "Input should be a valid dictionary"
  | notRecord title => "Input should be a valid dictionary or instance of " ++ title
  | notTableKind => "Input should be 'table' or 'offchainTable'"
  | notBoolean => "Input should be a valid boolean"
  | unclearBoolean => "Input should be a valid boolean, unable to interpret input"
  | enumEmpty name => "Value error, Enum `" ++ name ++ "` must have at least one member"
  | enumTooLong name => "Value error, Enum `" ++ name ++ "` has more than 256 members"
  | enumRepeats name members =>
    "Value error, Enum `" ++ name ++ "` has duplicate members: " ++ Quoted.list members
  | notAbiType name => "Value error, User types must alias an ABI type, received `" ++ name ++ "`"

end Complaint

structure Complaint where
  location : List Step
  fault : Complaint.Fault
  deriving DecidableEq, Repr

namespace Complaint

def within (s : Step) (c : Complaint) : Complaint :=
  { c with location := s :: c.location }

def summary (complaints : List Complaint) (title : String) : String :=
  toString complaints.length ++ " validation error" ++
    (if complaints.length = 1 then "" else "s") ++ " for " ++ title

end Complaint

end SolidityTables
