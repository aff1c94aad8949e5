import SolidityTables.Disk
import SolidityTables.Library.Source
import SolidityTables.Text.Utf8

/-!
# Failures

All the ways in which a run can fail, from the arguments to the last file, and their texts.
-/

namespace SolidityTables

def Utf8.Defect.message : Utf8.Defect → String
  | .invalidStart => "invalid start byte"
  | .invalidContinuation => "invalid continuation byte"
  | .unexpectedEnd => "unexpected end of data"

def Utf8.Fault.message (f : Utf8.Fault) : String :=
  let what := match f.bytes with
    | [b] => "byte 0x" ++ String.ofList (Bytes.hexDigits [b]) ++ " in position " ++ toString f.start
    | bytes => "bytes in position " ++ toString f.start ++ "-" ++
      toString (f.start + bytes.length - 1)
  "'utf-8' codec can't decode " ++ what ++ ": " ++ f.defect.message

inductive Failure
  | config (e : ConfigError)
  | range (e : Bytes.RangeError)
  | key (type : String)
  | userType (complaints : List Complaint)
  | disk (e : Disk.Error)
  | noRoot
  | undecodable (f : Utf8.Fault)
  | longNumber (digits : Nat)
  | deepNesting (object : Bool)
  deriving DecidableEq, Repr

namespace Failure

def message : Failure → String
  | config e => e.message
  | range e => e.message
  | key type => "Cannot use `" ++ type ++ "` as a key"
  | userType complaints => Complaint.summary complaints UserType.title
  | disk e => e.message
  | noRoot => "expected str, bytes or os.PathLike object, not list"
  | undecodable f => f.message
  | longNumber digits =>
    "Exceeds the limit (" ++ toString Json.maxDigits ++
      " digits) for integer string conversion: value has " ++ toString digits ++
      " digits; use sys.set_int_max_str_digits() to increase the limit"
  | deepNesting object =>
    "maximum recursion depth exceeded while decoding a JSON " ++
      (if object then "object" else "array") ++ " from a unicode string"

def ofLayout : FieldLayout.Error → Failure
  | .counts e => config e
  | .range e => range e

def ofSource : SourceError → Failure
  | .layout e => ofLayout e
  | .key type => key type

end Failure

end SolidityTables
