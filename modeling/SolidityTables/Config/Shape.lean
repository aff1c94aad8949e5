import SolidityTables.Config.Complaint
import SolidityTables.Json.Value

/-!
# Shapes of values

A reader takes a JSON value to a value of the domain, or to all complaints about it. The shape of a
record names its options and reads them; shapes are put together option by option, so complaints
come in the order of the options, and keys that are no option follow in the order of the record.

An option has two spellings. If a record holds both, the camel-case one counts and the other is a
key like any that is not known.
-/

namespace SolidityTables

/-- A value, or all that is wrong with what should have been one. -/
inductive Reading (α : Type)
  | value (a : α)
  | refused (complaints : List Complaint)

namespace Reading

def map {α β : Type} (f : α → β) : Reading α → Reading β
  | value a => value (f a)
  | refused cs => refused cs

def seq {α β : Type} : Reading (α → β) → Reading α → Reading β
  | value f, value a => value (f a)
  | value _, refused cs => refused cs
  | refused cs, value _ => refused cs
  | refused cs, refused ds => refused (cs ++ ds)

instance : Applicative Reading where
  pure := value
  map := map
  seq f x := seq f (x ())

def refuse {α : Type} (fault : Complaint.Fault) : Reading α :=
  refused [⟨[], fault⟩]

def within {α : Type} (s : Step) : Reading α → Reading α
  | value a => value a
  | refused cs => refused (cs.map (·.within s))

def check {α : Type} (fault? : α → Option Complaint.Fault) : Reading α → Reading α
  | value a => match fault? a with
    | none => value a
    | some fault => refuse fault
  | refused cs => refused cs

def toExcept {α : Type} : Reading α → Except (List Complaint) α
  | value a => .ok a
  | refused cs => .error cs

end Reading

abbrev Reader (α : Type) := Json → Reading α

namespace Reader

def text : Reader String
  | .str s => .value s
  | _ => .refuse .notString

def falseWords : List String := ["0", "off", "f", "false", "n", "no"]

def trueWords : List String := ["1", "on", "t", "true", "y", "yes"]

def wordBound : Int := Int.ofNat (Nat.pow 2 63)

/-- A truth value, or a number or word that stands for one. What is no such number or word is
unclear; a number that has no place in 64 bits or has a fraction is not considered. -/
def boolean : Reader Bool
  | .bool b => .value b
  | .str s =>
    let word := String.ofList (s.toList.map Char.toLower)
    if word ∈ falseWords then .value false
    else if word ∈ trueWords then .value true
    else .refuse .unclearBoolean
  | .int n =>
    if n = 0 then .value false
    else if n = 1 then .value true
    else if -wordBound ≤ n ∧ n < wordBound then .refuse .unclearBoolean
    else .refuse .notBoolean
  | .float x => match x.toInt? with
    | none => .refuse .notBoolean
    | some n =>
      if n = 0 then .value false
      else if n = 1 then .value true
      else if -wordBound < n ∧ n < wordBound then .refuse .unclearBoolean
      else .refuse .notBoolean
  | _ => .refuse .notBoolean

def nullable {α : Type} (read : Reader α) : Reader (Option α)
  | .null => .value none
  | j => some <$> read j

def items {α : Type} (read : Reader α) (i : Nat) : List Json → Reading (List α)
  | [] => .value []
  | j :: js => List.cons <$> (read j).within (.index i) <*> items read (i + 1) js

def list {α : Type} (read : Reader α) : Reader (List α)
  | .arr js => items read 0 js
  | _ => .refuse .notList

def entries {α : Type} (read : Reader α) : Json.Members → Reading (List (String × α))
  | [] => .value []
  | (k, j) :: ms => List.cons <$> (Prod.mk k <$> (read j).within (.key k)) <*> entries read ms

def dictionary {α : Type} (read : Reader α) : Reader (List (String × α))
  | .obj ms => entries read ms
  | _ => .refuse .notDictionary

end Reader

structure OptionName where
  camel : String
  snake : String
  deriving DecidableEq, Repr

def OptionName.find? (o : OptionName) (ms : Json.Members) : Option (String × Json) :=
  match ms.lookup o.camel with
  | some j => some (o.camel, j)
  | none => (ms.lookup o.snake).map (o.snake, ·)

/-- How a record is read: the options it may have, and their values. -/
structure Shape (α : Type) where
  options : List OptionName
  read : Json.Members → Reading α

namespace Shape

instance : Applicative Shape where
  pure a := ⟨[], fun _ => .value a⟩
  seq f x := ⟨f.options ++ (x ()).options, fun ms => f.read ms <*> (x ()).read ms⟩

def option {α : Type} (o : OptionName) (read : Reader α) (default : α) : Shape α where
  options := [o]
  read ms := match o.find? ms with
    | some (key, j) => (read j).within (.key key)
    | none => .value default

def required {α : Type} (o : OptionName) (read : Reader α) : Shape α where
  options := [o]
  read ms := match o.find? ms with
    | some (key, j) => (read j).within (.key key)
    | none => .refused [⟨[.key o.camel], .missing⟩]

def record {α : Type} (o : OptionName) (read : Reader α) : Shape α where
  options := [o]
  read ms := match o.find? ms with
    | some (key, j) => (read j).within (.key key)
    | none => read (.obj [])

/-- The keys of a record that are not the spelling of an option that counts. -/
def strangers {α : Type} (s : Shape α) (ms : Json.Members) : List String :=
  (ms.map (·.1)).filter fun k => !s.options.any fun o => (o.find? ms).any (·.1 = k)

def noStrangers : List String → Reading Unit
  | [] => .value ()
  | keys => .refused (keys.map fun k => ⟨[.key k], .unknownOption⟩)

def members {α : Type} (s : Shape α) (ms : Json.Members) : Reading α :=
  (fun a _ => a) <$> s.read ms <*> noStrangers (s.strangers ms)

def reader {α : Type} (title : String) (s : Shape α) : Reader α
  | .obj ms => s.members ms
  | _ => .refuse (.notRecord title)

end Shape

end SolidityTables
