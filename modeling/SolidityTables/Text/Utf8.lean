/-!
# UTF-8

Encoding to bytes, the longest beginning of a text that fits into a number of bytes, and a reader
that goes over the bytes one at a time. The reader either gives the characters or says where the
first fault is, which bytes take part in it and what is wrong with them.
-/

namespace SolidityTables.Utf8

def encode (s : String) : List UInt8 :=
  s.toList.flatMap String.utf8EncodeChar

def size (s : String) : Nat :=
  (encode s).length

def fitting : Nat → List Char → List Char
  | _, [] => []
  | room, c :: cs =>
    if c.utf8Size ≤ room then c :: fitting (room - c.utf8Size) cs else []

/-- The longest beginning of a text, cut between characters, of at most `room` bytes. -/
def truncate (room : Nat) (s : String) : String :=
  String.ofList (fitting room s.toList)

inductive Defect
  | invalidStart
  | invalidContinuation
  | unexpectedEnd
  deriving DecidableEq, Repr

structure Fault where
  start : Nat
  bytes : List UInt8
  defect : Defect
  deriving DecidableEq, Repr

abbrev Range := UInt8 × UInt8

def continuation : Range := (0x80, 0xBF)

/-- A character of which some bytes have been read: these bytes, the bits they hold, and the ranges
of the next byte and of those after it. -/
structure Pending where
  read : List UInt8
  bits : Nat
  next : Range
  later : List Range
  deriving Repr

/-- What a leading byte calls for. The second byte is confined where a longer form than necessary,
a surrogate or a value above U+10FFFF would begin. -/
def lead (b : UInt8) : Option Pending :=
  if 0xC2 ≤ b ∧ b ≤ 0xDF then some ⟨[b], b.toNat - 0xC0, continuation, []⟩
  else if b = 0xE0 then some ⟨[b], 0, (0xA0, 0xBF), [continuation]⟩
  else if b = 0xED then some ⟨[b], 0xD, (0x80, 0x9F), [continuation]⟩
  else if 0xE1 ≤ b ∧ b ≤ 0xEF then some ⟨[b], b.toNat - 0xE0, continuation, [continuation]⟩
  else if b = 0xF0 then some ⟨[b], 0, (0x90, 0xBF), [continuation, continuation]⟩
  else if b = 0xF4 then some ⟨[b], 4, (0x80, 0x8F), [continuation, continuation]⟩
  else if 0xF1 ≤ b ∧ b ≤ 0xF3 then
    some ⟨[b], b.toNat - 0xF0, continuation, [continuation, continuation]⟩
  else none

def decodeFrom : Nat → Option Pending → List UInt8 → Except Fault (List Char)
  | _, none, [] => .ok []
  | pos, some p, [] => .error ⟨pos - p.read.length, p.read, .unexpectedEnd⟩
  | pos, none, b :: bs =>
    if b ≤ 0x7F then do
      let rest ← decodeFrom (pos + 1) none bs
      return Char.ofNat b.toNat :: rest
    else match lead b with
      | none => .error ⟨pos, [b], .invalidStart⟩
      | some p => decodeFrom (pos + 1) (some p) bs
  | pos, some p, b :: bs =>
    if p.next.1 ≤ b ∧ b ≤ p.next.2 then
      let bits := p.bits * 64 + (b.toNat - 0x80)
      match p.later with
      | [] => do
        let rest ← decodeFrom (pos + 1) none bs
        return Char.ofNat bits :: rest
      | next :: later => decodeFrom (pos + 1) (some ⟨p.read ++ [b], bits, next, later⟩) bs
    else .error ⟨pos - p.read.length, p.read, .invalidContinuation⟩

def decode (bytes : List UInt8) : Except Fault (List Char) :=
  decodeFrom 0 none bytes

end SolidityTables.Utf8
