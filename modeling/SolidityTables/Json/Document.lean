import SolidityTables.Json.Token
import SolidityTables.Json.Value

/-!
# Reading a JSON document

A document is read token by token with a stack of the arrays and objects that are open. A fault is
told at the place of the first token that cannot stand where it does, or at the end of the text.
How many arrays and objects may be open is limited.

Text files end their lines in a line feed, a carriage return, or both; once read, every line ends
in a line feed alone. Places in a text are told by line and column.
-/

namespace SolidityTables.Newline

def normalize : List Char → List Char
  | '\r' :: '\n' :: cs => '\n' :: normalize cs
  | '\r' :: cs => '\n' :: normalize cs
  | c :: cs => c :: normalize cs
  | [] => []

structure Place where
  index : Nat
  line : Nat
  column : Nat
  deriving DecidableEq, Repr

def place (text : List Char) (index : Nat) : Place :=
  let before := text.take index
  ⟨index, before.count '\n' + 1, (before.reverse.takeWhile (· ≠ '\n')).length + 1⟩

end SolidityTables.Newline

namespace SolidityTables.Json

inductive Fault
  | expectedValue
  | expectedName
  | expectedColon
  | expectedComma
  | extraData
  | byteOrderMark
  | string (fault : StringFault)
  deriving DecidableEq, Repr

def Fault.message : Fault → String
  | .expectedValue => "Expecting value"
  | .expectedName => "Expecting property name enclosed in double quotes"
  | .expectedColon => "Expecting ':' delimiter"
  | .expectedComma => "Expecting ',' delimiter"
  | .extraData => "Extra data"
  | .byteOrderMark => "Unexpected UTF-8 BOM (decode using utf-8-sig)"
  | .string .unterminated => "Unterminated string starting at"
  | .string .control => "Invalid control character at"
  | .string .escape => "Invalid \\escape"
  | .string .unicodeEscape => "Invalid \\uXXXX escape"

/-- Why a text is not read: a fault and its index, a whole number that is too long, or an array or
object inside too many others. -/
inductive Refusal
  | fault (fault : Fault) (index : Nat)
  | long (digits : Nat)
  | deep (object : Bool)
  deriving DecidableEq, Repr

inductive Frame
  | array (items : List Json)
  | object (members : Members) (key : String)

/-- What may come next. -/
inductive Expected
  | value
  | element
  | continuation
  | name (members : Members) (atStart : Bool)
  | colon (members : Members) (key : String)
  | nothing (result : Json)

structure State where
  frames : List Frame
  expected : Expected

def State.close (v : Json) : List Frame → State
  | [] => ⟨[], .nothing v⟩
  | .array items :: stack => ⟨.array (v :: items) :: stack, .continuation⟩
  | .object members key :: stack => ⟨.object ((key, v) :: members) key :: stack, .continuation⟩

/-- The most arrays and objects that may be open at once. What bounds them is the room that is left
on the call stack of the reader, so the number fits one depth of calls only: a reader that is called
from deeper down stops sooner. -/
def maxOpen : Nat := 988

def State.enter (object : Bool) (stack : List Frame) : Except Refusal State :=
  if maxOpen ≤ stack.length then .error (.deep object)
  else if object then .ok ⟨stack, .name [] true⟩
  else .ok ⟨.array [] :: stack, .element⟩

def State.value (pos : Nat) (stack : List Frame) : Token → Except Refusal State
  | .str s => .ok (State.close (.str s) stack)
  | .int n => .ok (State.close (.int n) stack)
  | .float x => .ok (State.close (.float x) stack)
  | .null => .ok (State.close .null stack)
  | .bool b => .ok (State.close (.bool b) stack)
  | .mark '[' => State.enter false stack
  | .mark '\x7b' => State.enter true stack
  | .broken fault index => .error (.fault (.string fault) index)
  | .long digits => .error (.long digits)
  | _ => .error (.fault .expectedValue pos)

def State.step (pos : Nat) (s : State) (token : Token) : Except Refusal State :=
  match s.expected, s.frames, token with
  | .value, stack, t => State.value pos stack t
  | .element, .array _ :: stack, .mark ']' => .ok (State.close (.arr []) stack)
  | .element, stack, t => State.value pos stack t
  | .continuation, .array items :: stack, .mark ']' =>
    .ok (State.close (.arr items.reverse) stack)
  | .continuation, .array items :: stack, .mark ',' => .ok ⟨.array items :: stack, .value⟩
  | .continuation, .object members _ :: stack, .mark '\x7d' =>
    .ok (State.close (.obj (collect members.reverse)) stack)
  | .continuation, .object members _ :: stack, .mark ',' => .ok ⟨stack, .name members false⟩
  | .continuation, _, _ => .error (.fault .expectedComma pos)
  | .name members _, stack, .str key => .ok ⟨stack, .colon members key⟩
  | .name _ true, stack, .mark '\x7d' => .ok (State.close (.obj []) stack)
  | .name _ _, _, .broken fault index => .error (.fault (.string fault) index)
  | .name _ _, _, _ => .error (.fault .expectedName pos)
  | .colon members key, stack, .mark ':' => .ok ⟨.object members key :: stack, .value⟩
  | .colon _ _, _, _ => .error (.fault .expectedColon pos)
  | .nothing _, _, _ => .error (.fault .extraData pos)

def State.finish (s : State) : Except Fault Json :=
  match s.expected with
  | .value | .element => .error .expectedValue
  | .continuation => .error .expectedComma
  | .name _ _ => .error .expectedName
  | .colon _ _ => .error .expectedColon
  | .nothing result => .ok result

def State.run (size : Nat) (s : State) : List (Nat × Token) → Except Refusal Json
  | [] => s.finish.mapError (.fault · size)
  | (pos, t) :: rest => do (← s.step pos t).run size rest

/-- The value that a text denotes. -/
def parse (text : List Char) : Except Refusal Json :=
  if text.head? = some '\uFEFF' then .error (.fault .byteOrderMark 0)
  else State.run text.length ⟨[], .value⟩ (tokens text)

end SolidityTables.Json
