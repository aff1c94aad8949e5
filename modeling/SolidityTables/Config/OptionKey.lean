import SolidityTables.Config.Error
import SolidityTables.Json.Value

/-!
# Option keys

The keys at the top of a configuration are checked before anything else. A key is let through if it
is an option or if its camel-case form is one.
-/

namespace SolidityTables.OptionKey

def isLower (c : Char) : Bool := 'a' ≤ c && c ≤ 'z'

def isUpper (c : Char) : Bool := 'A' ≤ c && c ≤ 'Z'

def isAlphanumeric (c : Char) : Bool := isLower c || isUpper c || c.isDigit

/-- The long s, the one letter beyond ASCII whose capital is an ASCII letter of an option. -/
def longS : Char := 'ſ'

def isLetter (c : Char) : Bool := isLower c || isUpper c || c = longS

def capital (c : Char) : Char := if c = longS then 'S' else c.toUpper

def hasDigitBeforeLower : List Char → Bool
  | c :: d :: cs => (c.isDigit && isLower d) || hasDigitBeforeLower (d :: cs)
  | _ => false

/-- Whether a key is in camel case already: letters and digits that begin with a small letter, and
no small letter after a digit. -/
def isCamel (cs : List Char) : Bool :=
  cs.head?.any isLower && cs.all isAlphanumeric && !hasDigitBeforeLower cs

def titled (inWord : Bool) : List Char → List Char
  | [] => []
  | c :: cs =>
    if isLetter c then (if inWord then c.toLower else capital c) :: titled true cs
    else c :: titled false cs

def joined : List Char → List Char
  | a :: '_' :: b :: cs =>
    if isAlphanumeric a && (isUpper b || b.isDigit) then a :: joined (b :: cs)
    else a :: joined ('_' :: b :: cs)
  | c :: cs => c :: joined cs
  | [] => []

def lowered : List Char → List Char
  | '_' :: cs => '_' :: lowered cs
  | c :: cs => (if isUpper c then c.toLower else c) :: cs
  | [] => []

/-- The camel-case form of a key. -/
def camel (key : String) : String :=
  let cs := key.toList
  if isCamel cs then key else String.ofList (lowered (joined (titled false cs)))

def storeOptions : List String :=
  ["namespace", "tables", "userTypes", "enums", "codegen"]

def options : ConfigKind → List String
  | .store => storeOptions
  | .world => storeOptions ++ ["systems", "excludeSystems", "modules", "deploy"]

def isAccepted (kind : ConfigKind) (key : String) : Bool :=
  key ∈ options kind || camel key ∈ options kind

def checkKeys (kind : ConfigKind) (ms : Json.Members) : Except ConfigError Unit :=
  match ms.find? fun m => !isAccepted kind m.1 with
  | some (key, _) => .error (.unknownOption kind key)
  | none => .ok ()

end SolidityTables.OptionKey
