import SolidityTables.Failure

/-!
# Generating files

A run is planned before it touches the disk: for every library its directory and its file, then the
file of enums if there are any, then the index if there are tables. What is written does not depend
on what is on the disk. A library that has no source ends the plan where it would be written.
-/

namespace SolidityTables

inductive Action
  | directory (l : Location)
  | file (l : Location) (text : String)
  deriving DecidableEq, Repr

structure Report where
  written : List Location
  notice : String
  deriving DecidableEq, Repr

/-- Actions, and what a run amounts to if all of them succeed. -/
structure Plan where
  actions : List Action
  result : Except Failure Report

namespace Plan

def write (l : Location) (text : String) (p : Plan) : Plan where
  actions := .directory l.parent :: .file l text :: p.actions
  result := p.result.map fun r => { r with written := l :: r.written }

def writeLibraries (cwd : String) (output : Location) (p : Plan) : List LibraryFile → Plan
  | [] => p
  | f :: fs =>
    let l := output.child f.path
    match f.options.render cwd with
    | .ok text => (writeLibraries cwd output p fs).write l text
    | .error e => ⟨[.directory l.parent], .error (.ofSource e)⟩

/-- The plan for the libraries of a store below a root. Relative imports start from `cwd`. -/
def ofLibraries (cwd : String) (root : Location) (s : Store) (files : List LibraryFile) : Plan :=
  let output := root.child s.codegen.outputDirectory
  let done : Plan := ⟨[], .ok ⟨[], "Generated " ++ toString files.length ++ " tables in " ++
    output.text⟩⟩
  let index := if files = [] then done
    else done.write (output.child s.codegen.indexFilename) (indexText files)
  let types := if s.enums = [] then index
    else index.write (output.child s.codegen.userTypesFilename) s.userTypesText
  types.writeLibraries cwd output files

end Plan

def Store.plan (cwd : String) (root : Location) (s : Store)
    (userTypes : List (String × UserType)) : Except ConfigError Plan := do
  return .ofLibraries cwd root s (← s.libraries userTypes)

def Action.perform (d : Disk) : Action → Disk.Outcome
  | directory l => d.ensureDirectory l
  | file l text => match d.writeFile l (Utf8.encode text) with
    | .ok d => (d, .ok ())
    | .error fault => (d, .error ⟨fault, l.text⟩)

def Action.performAll (d : Disk) : List Action → Disk.Outcome
  | [] => (d, .ok ())
  | a :: rest => match a.perform d with
    | (d, .ok ()) => performAll d rest
    | failed => failed

def Plan.run (d : Disk) (p : Plan) : Disk × Except Failure Report :=
  match Action.performAll d p.actions with
  | (d, .ok ()) => (d, p.result)
  | (d, .error e) => (d, .error (.disk e))

/-- Write all files of a store below a root. -/
def Store.generate (cwd : String) (d : Disk) (root : Location) (s : Store)
    (userTypes : List (String × UserType)) : Disk × Except Failure Report :=
  match s.plan cwd root userTypes with
  | .ok p => p.run d
  | .error e => (d, .error (.config e))

end SolidityTables
