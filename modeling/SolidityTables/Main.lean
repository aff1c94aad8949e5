import SolidityTables.CommandLine

/-!
# The program

The command line on a real disk: it reads the configuration file, carries out the plan for it and
tells what was written. A call of the program on a disk that is a value comes to the same.
-/

namespace SolidityTables

def Action.carryOut : Action → IO Unit
  | .directory l => IO.FS.createDirAll l.text
  | .file l text => IO.FS.writeFile l.text text

def complain (code : UInt32) (message : String) : IO UInt32 := do
  IO.eprintln message
  return code

def CommandLine.Arguments.plan (cwd : String) (a : CommandLine.Arguments) (content : List UInt8) :
    Except Failure Plan := do
  let s ← (a.define (← membersOfBytes a.config content)).mapError .config
  match a.root with
  | none => .error .noRoot
  | some root => (s.plan cwd root s.userTypes).mapError .config

def usage : String :=
  "usage: tablegen [-h] [--root ROOT] [--world] [-v] [config]"

namespace CommandLine

inductive Ending
  | done
  | stopped (s : Stop)
  | failed (e : Failure)
  deriving DecidableEq, Repr

/-- What is left by a call of the program: the disk, the text on standard output, and how the call
ended. -/
structure Call where
  disk : Disk
  printed : String
  ending : Ending

def call (cwd : String) (d : Disk) (argv : List String) : Call :=
  match parse argv with
  | .error .help => ⟨d, usage ++ "\n", .stopped .help⟩
  | .error .usage => ⟨d, "", .stopped .usage⟩
  | .ok a => match a.run cwd d with
    | (d, .ok r) => ⟨d, r.notice ++ "\n", .done⟩
    | (d, .error e) => ⟨d, "", .failed e⟩

end CommandLine

end SolidityTables

open SolidityTables in
def main (argv : List String) : IO UInt32 := do
  match CommandLine.parse argv with
  | .error .help => IO.println usage; return 0
  | .error .usage => complain 2 usage
  | .ok a =>
    let content ← IO.FS.readBinFile a.config.text
    let cwd := (← IO.currentDir).toString
    match a.plan cwd content.toList with
    | .error e => complain 1 e.message
    | .ok p =>
      p.actions.forM (·.carryOut)
      match p.result with
      | .error e => complain 1 e.message
      | .ok r => IO.println r.notice; return 0
