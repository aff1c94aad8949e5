import SolidityTables.Generate
import SolidityTables.Load

/-!
# The command line

Arguments are options and at most one path of a configuration file. A long option may be cut short
as long as it is told apart, and takes its value after an equals sign or as the next argument;
options of one letter may be run together. After two dashes everything is a path; two dashes as a
value stand for nothing.

What each argument is gets decided before any of them takes effect. A negative number may stand as a
path; its digits are those of Unicode 14, which come in runs of ten.
-/

namespace SolidityTables.Digit

def zeros : List Nat := [
  0x30, 0x660, 0x6F0, 0x7C0, 0x966, 0x9E6, 0xA66, 0xAE6, 0xB66, 0xBE6, 0xC66, 0xCE6, 0xD66, 0xDE6,
  0xE50, 0xED0, 0xF20, 0x1040, 0x1090, 0x17E0, 0x1810, 0x1946, 0x19D0, 0x1A80, 0x1A90, 0x1B50,
  0x1BB0, 0x1C40, 0x1C50, 0xA620, 0xA8D0, 0xA900, 0xA9D0, 0xA9F0, 0xAA50, 0xABF0, 0xFF10, 0x104A0,
  0x10D30, 0x11066, 0x110F0, 0x11136, 0x111D0, 0x112F0, 0x11450, 0x114D0, 0x11650, 0x116C0, 0x11730,
  0x118E0, 0x11950, 0x11C50, 0x11D50, 0x11DA0, 0x16A60, 0x16AC0, 0x16B50, 0x1D7CE, 0x1D7D8, 0x1D7E2,
  0x1D7EC, 0x1D7F6, 0x1E140, 0x1E2F0, 0x1E950, 0x1FBF0]

def isDigit (c : Char) : Bool :=
  zeros.any fun first => first ≤ c.toNat && c.toNat ≤ first + 9

end SolidityTables.Digit

namespace SolidityTables.CommandLine

inductive Flag
  | help
  | root
  | world
  | verbose
  deriving DecidableEq, Repr

inductive Word
  | path (s : String)
  | dashes
  | long (flag : Flag) (value : Option String)
  | letters (cs : List Char)
  | unknown
  deriving DecidableEq, Repr

def longNames : List (String × Flag) :=
  [("--help", .help), ("--root", .root), ("--world", .world), ("--verbose", .verbose)]

def cutValue (cs : List Char) : List Char × Option String :=
  match cs.dropWhile (· ≠ '=') with
  | [] => (cs, none)
  | _ :: value => (cs.takeWhile (· ≠ '='), some (String.ofList value))

/-- Whether a text is a minus and digits, of which the last ones may follow a point. A line feed at
the end is let through. -/
def isNegative (cs : List Char) : Bool :=
  let cs := if cs.getLast? = some '\n' then cs.dropLast else cs
  match cs with
  | '-' :: number =>
    match number.dropWhile Digit.isDigit with
    | [] => number ≠ []
    | '.' :: part => part ≠ [] && part.all Digit.isDigit
    | _ => false
  | _ => false

/-- What an argument is that begins with a minus and is not an option: a number or anything with a
space in it is a path. -/
def stranger (s : String) : Word :=
  if isNegative s.toList || s.toList.contains ' ' then .path s else .unknown

/-- What an argument before two dashes is, unless it may be several options. -/
def classify (s : String) : Option Word :=
  match s.toList with
  | '-' :: '-' :: [] => some .dashes
  | '-' :: '-' :: rest =>
    let (name, value) := cutValue ('-' :: '-' :: rest)
    match longNames.filter (name.isPrefixOf ·.1.toList) with
    | [] => some (stranger s)
    | [(_, flag)] => some (.long flag value)
    | _ => none
  | '-' :: c :: rest =>
    if c = 'h' ∨ c = 'v' then some (.letters (c :: rest)) else some (stranger s)
  | _ => some (.path s)

def words : List String → Option (List Word)
  | [] => some []
  | s :: rest => do
    let w ← classify s
    if w = .dashes then return w :: rest.map .path
    else return w :: (← words rest)

structure Arguments where
  config : Location
  root : Option Location
  world : Bool
  deriving DecidableEq, Repr

inductive Stop
  | usage
  | help
  deriving DecidableEq, Repr

structure State where
  path : Option Location
  pathSeen : Bool
  root : Option Location
  world : Bool
  surplus : Bool

/-- Options of one letter that are run together. An equals sign after the first is left out if more
letters follow it. -/
def cluster : List Char → List Char
  | c :: '=' :: d :: cs => c :: d :: cs
  | cs => cs

def checkLetters (cs : List Char) : Except Stop Unit :=
  if cs.any fun c => c ≠ 'h' && c ≠ 'v' then .error .usage
  else if cs.contains 'h' then .error .help
  else .ok ()

def namedRoot (value : String) : Option Location :=
  if value = "--" then none else some (.ofString value)

def State.run (s : State) : List Word → Except Stop State
  | [] => .ok s
  | .path p :: .dashes :: rest =>
    if s.pathSeen then State.run { s with surplus := true } rest
    else State.run { s with path := some (.ofString p), pathSeen := true } rest
  | .path p :: rest =>
    if s.pathSeen then State.run { s with surplus := true } rest
    else State.run { s with path := some (.ofString p), pathSeen := true } rest
  | .dashes :: rest =>
    if s.pathSeen then State.run { s with surplus := true } rest
    else match rest with
      | .path p :: rest => State.run { s with path := some (.ofString p), pathSeen := true } rest
      | rest => State.run { s with pathSeen := true } rest
  | .unknown :: rest => State.run { s with surplus := true } rest
  | .letters cs :: rest =>
    match checkLetters (cluster cs) with
    | .error stop => .error stop
    | .ok () => State.run s rest
  | .long .root (some value) :: rest => State.run { s with root := namedRoot value } rest
  | .long .root none :: .path p :: rest => State.run { s with root := some (.ofString p) } rest
  | .long .root none :: _ => .error .usage
  | .long _ (some _) :: _ => .error .usage
  | .long .help none :: _ => .error .help
  | .long .world none :: rest => State.run { s with world := true } rest
  | .long .verbose none :: rest => State.run s rest

def defaultRoot : Location := .ofString "src"

def parse (argv : List String) : Except Stop Arguments := do
  match words argv with
  | none => .error .usage
  | some ws =>
    let s ← State.run ⟨none, false, some defaultRoot, false, false⟩ ws
    if s.surplus then .error .usage
    else return ⟨s.path.getD defaultConfig, s.root, s.world⟩

def Arguments.define (a : Arguments) (ms : Json.Members) : Except ConfigError Store :=
  if a.world then (World.define ms).map (·.toStore) else Store.define ms

def Arguments.load (d : Disk) (a : Arguments) : Except Failure Store := do
  (a.define (← d.loadConfig a.config)).mapError .config

/-- Load a configuration and write its files. -/
def Arguments.run (cwd : String) (d : Disk) (a : Arguments) : Disk × Except Failure Report :=
  match a.load d, a.root with
  | .error e, _ => (d, .error e)
  | .ok _, none => (d, .error .noRoot)
  | .ok s, some root => s.generate cwd d root s.userTypes

end SolidityTables.CommandLine
