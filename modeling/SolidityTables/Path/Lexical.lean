/-!
# Paths as text

A path is resolved without looking at a disk: a dot stands for nothing and two dots cancel the
component before them, but never lead above the root. The way from one directory to another climbs
to the last directory that they share and goes down from there.
-/

namespace SolidityTables.Path

def pieces (p : String) : List String :=
  (p.toList.splitOn '/').map String.ofList

def isAbsolute (p : String) : Bool :=
  p.toList.head? = some '/'

def join (a b : String) : String :=
  if isAbsolute b then b
  else if a = "" ∨ a.toList.getLast? = some '/' then a ++ b
  else a ++ "/" ++ b

def step (dir : List String) (c : String) : List String :=
  if c = "" ∨ c = "." then dir
  else if c = ".." then dir.dropLast
  else dir ++ [c]

/-- The directory or file that a path names as seen from a directory. -/
def resolve (base : List String) (p : String) : List String :=
  (pieces p).foldl step (if isAbsolute p then [] else base)

/-- The components that lead from one place to another. -/
def between : List String → List String → List String
  | s :: start, t :: target =>
    if s = t then between start target
    else List.replicate (start.length + 1) ".." ++ t :: target
  | start, target => List.replicate start.length ".." ++ target

def relative (parts : List String) : String :=
  if parts = [] then "." else String.intercalate "/" parts

end SolidityTables.Path
