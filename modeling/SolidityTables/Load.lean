import SolidityTables.Config.Define
import SolidityTables.Failure

/-!
# Loading a configuration

A configuration file is UTF-8 text with any of the common line ends that holds a JSON object.
-/

namespace SolidityTables

def defaultConfig : Location := .ofString "mud.config.json"

def configLocation (path : Option String) : Location :=
  match path with
  | none | some "" => defaultConfig
  | some p => .ofString p

def membersOfText (l : Location) (text : List Char) : Except Failure Json.Members :=
  match Json.parse text with
  | .ok (.obj ms) => .ok ms
  | .ok _ => .error (.config (.notObject l.text))
  | .error (.fault fault index) =>
    .error (.config (.notJson l.text fault (Newline.place text index)))
  | .error (.long digits) => .error (.longNumber digits)
  | .error (.deep object) => .error (.deepNesting object)

def membersOfBytes (l : Location) (bytes : List UInt8) : Except Failure Json.Members := do
  let text ← (Utf8.decode bytes).mapError .undecodable
  membersOfText l (Newline.normalize text)

/-- Read the configuration file at a location. -/
def Disk.loadConfig (d : Disk) (l : Location) : Except Failure Json.Members := do
  let bytes ← (d.readFile l).mapError fun fault => .disk ⟨fault, l.text⟩
  membersOfBytes l bytes

def Disk.loadStore (d : Disk) (l : Location) : Except Failure Store := do
  (Store.define (← d.loadConfig l)).mapError .config

def Disk.loadWorld (d : Disk) (l : Location) : Except Failure World := do
  (World.define (← d.loadConfig l)).mapError .config

end SolidityTables
