import SolidityTables.Path.Location
import SolidityTables.Text.Quoted
import SolidityTables.Text.Utf8

/-!
# Disks

A disk without links: directories and files by their components below the root, and a current
directory. A location is followed component by component, and every component on the way has to be a
directory that exists. Names and whole paths have a greatest length. What an operation has done
before it fails stays done.
-/

namespace SolidityTables

inductive Entry
  | directory
  | file (bytes : List UInt8)
  deriving DecidableEq, Repr

/-- The root and the current directory are always there. -/
structure Disk where
  current : List String
  entries : List (List String × Entry)
  deriving Repr

namespace Disk

inductive Fault
  | missing
  | present
  | notDirectory
  | isDirectory
  | nameTooLong
  deriving DecidableEq, Repr

structure Error where
  fault : Fault
  path : String
  deriving DecidableEq, Repr

def Fault.number : Fault → Nat
  | missing => 2
  | present => 17
  | notDirectory => 20
  | isDirectory => 21
  | nameTooLong => 36

def Fault.message : Fault → String
  | missing => "No such file or directory"
  | present => "File exists"
  | notDirectory => "Not a directory"
  | isDirectory => "Is a directory"
  | nameTooLong => "File name too long"

def Error.message (e : Error) : String :=
  "[Errno " ++ toString e.fault.number ++ "] " ++ e.fault.message ++ ": " ++ Quoted.text e.path

def get? (d : Disk) (place : List String) : Option Entry :=
  if place = [] then some .directory else d.entries.lookup place

def putEntry (place : List String) (e : Entry) :
    List (List String × Entry) → List (List String × Entry)
  | [] => [(place, e)]
  | (p, old) :: rest => if p = place then (p, e) :: rest else (p, old) :: putEntry place e rest

def put (d : Disk) (place : List String) (e : Entry) : Disk :=
  { d with entries := putEntry place e d.entries }

def maxName : Nat := 255

def maxPath : Nat := 4095

def checkName (name : String) : Except Fault Unit :=
  if maxName < Utf8.size name then .error .nameTooLong else .ok ()

def enter (d : Disk) (dir : List String) : List String → Except Fault (List String)
  | [] => match d.get? dir with
    | some .directory => .ok dir
    | some (.file _) => .error .notDirectory
    | none => .error .missing
  | c :: cs => match d.get? dir with
    | some .directory => do
      checkName c
      d.enter (Path.step dir c) cs
    | some (.file _) => .error .notDirectory
    | none => .error .missing

def follow (d : Disk) (l : Location) (parts : List String) : Except Fault (List String) :=
  if maxPath < Utf8.size l.text then .error .nameTooLong
  else d.enter (if l.slashes = 0 then d.current else []) parts

/-- The place that a location names in a directory that exists. There is none if the location ends
where it starts or in two dots: it then names a directory by the way to it. -/
def place? (d : Disk) (l : Location) : Except Fault (Option (List String)) := do
  let dir ← d.follow l l.parts.dropLast
  match l.parts.getLast?.filter (· ≠ "..") with
  | none => return none
  | some name =>
    checkName name
    return some (dir ++ [name])

def isDirectory (d : Disk) (l : Location) : Bool :=
  (d.follow l l.parts).toBool

def makeDirectory (d : Disk) (l : Location) : Except Fault Disk := do
  match ← d.place? l with
  | none => .error .present
  | some place => match d.get? place with
    | some _ => .error .present
    | none => return d.put place .directory

def writeFile (d : Disk) (l : Location) (bytes : List UInt8) : Except Fault Disk := do
  match ← d.place? l with
  | none => .error .isDirectory
  | some place => match d.get? place with
    | some .directory => .error .isDirectory
    | _ => return d.put place (.file bytes)

def readFile (d : Disk) (l : Location) : Except Fault (List UInt8) := do
  match ← d.place? l with
  | none => .error .isDirectory
  | some place => match d.get? place with
    | none => .error .missing
    | some .directory => .error .isDirectory
    | some (.file bytes) => return bytes

abbrev Outcome := Disk × Except Error Unit

def settle (l : Location) (d : Disk) : Except Fault Disk → Outcome
  | .ok d => (d, .ok ())
  | .error fault =>
    if fault ≠ .missing ∧ d.isDirectory l then (d, .ok ()) else (d, .error ⟨fault, l.text⟩)

/-- Make the directory named by the first `n` components of a location, and those above it that are
missing. -/
def ensureFirst (l : Location) : Nat → Disk → Outcome
  | 0, d => (d, .ok ())
  | n + 1, d =>
    let here : Location := ⟨l.slashes, l.parts.take (n + 1)⟩
    match d.makeDirectory here with
    | .error .missing => match ensureFirst l n d with
      | (d, .ok ()) => settle here d (d.makeDirectory here)
      | failed => failed
    | made => settle here d made

/-- Make a directory and those above it that are missing. -/
def ensureDirectory (d : Disk) (l : Location) : Outcome :=
  ensureFirst l l.parts.length d

end Disk

end SolidityTables
