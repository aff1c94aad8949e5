import SolidityTables.Path.Lexical

/-!
# Locations

A location is a path as it is handed to the disk: empty components and dots are left out, two dots
are kept, since what they lead to is for the disk to say.
-/

namespace SolidityTables

/-- The components of a path, and the slashes at its beginning: none, one, or exactly two. -/
structure Location where
  slashes : Nat
  parts : List String
  deriving DecidableEq, Repr

namespace Location

def leadingSlashes : List Char → Nat
  | '/' :: '/' :: '/' :: _ => 1
  | '/' :: '/' :: _ => 2
  | '/' :: _ => 1
  | _ => 0

def ofString (p : String) : Location :=
  ⟨leadingSlashes p.toList, (Path.pieces p).filter fun c => c ≠ "" ∧ c ≠ "."⟩

def child (a : Location) (p : String) : Location :=
  let b := ofString p
  if b.slashes = 0 then ⟨a.slashes, a.parts ++ b.parts⟩ else b

def parent (a : Location) : Location :=
  ⟨a.slashes, a.parts.dropLast⟩

def text (a : Location) : String :=
  let s := String.ofList (List.replicate a.slashes '/') ++ String.intercalate "/" a.parts
  if s = "" then "." else s

end Location

end SolidityTables
