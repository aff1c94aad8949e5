import SolidityTables.Number.Binary64

/-!
# JSON values

Values whose objects keep their members in the order in which they were written. A whole number is
kept apart from one with a fraction or an exponent. Objects that come from a text have distinct
keys: of members with one key the last value counts, at the place of the first.
-/

namespace SolidityTables

inductive Json
  | null
  | bool (b : Bool)
  | int (n : Int)
  | float (x : Binary64)
  | str (s : String)
  | arr (items : List Json)
  | obj (members : List (String × Json))
  deriving Repr

namespace Json

abbrev Members := List (String × Json)

/-- Add a member. A key that is there already keeps its place and takes the new value. -/
def put (key : String) (value : Json) : Members → Members
  | [] => [(key, value)]
  | (k, v) :: rest => if k = key then (k, value) :: rest else (k, v) :: put key value rest

def collect (written : Members) : Members :=
  written.foldl (fun ms (k, v) => put k v ms) []

end Json

end SolidityTables
