import SolidityTables.Number.Binary64

/-!
# JSON tokens

A text is cut into tokens from left to right, blanks left out. Each token knows its place and its
width is at least one character, so the cutting ends. What is no token is kept too: whether it is a
fault, and which one, depends on what was expected at its place.

Texts of strings are made of whole characters. One that escapes half of a pair and not the other has
no such text and is outside the model: here U+FFFD stands for the half, so that two such strings
that differ may become one.
-/

namespace SolidityTables.Json

inductive StringFault
  | unterminated
  | control
  | escape
  | unicodeEscape
  deriving DecidableEq, Repr

inductive Token
  | mark (c : Char)
  | str (s : String)
  | int (n : Int)
  | float (x : Binary64)
  | null
  | bool (b : Bool)
  | broken (fault : StringFault) (index : Nat)
  | long (digits : Nat)
  | junk
  deriving Repr

def isBlank (c : Char) : Bool :=
  c = ' ' || c = '\t' || c = '\n' || c = '\r'

def hexValue? (c : Char) : Option Nat :=
  if '0' ≤ c ∧ c ≤ '9' then some (c.toNat - 48)
  else if 'a' ≤ c ∧ c ≤ 'f' then some (c.toNat - 87)
  else if 'A' ≤ c ∧ c ≤ 'F' then some (c.toNat - 55)
  else none

def hex4? (a b c d : Char) : Option Nat := do
  return (((← hexValue? a) * 16 + (← hexValue? b)) * 16 + (← hexValue? c)) * 16 + (← hexValue? d)

def escaped? : Char → Option Char
  | '"' => some '"'
  | '\\' => some '\\'
  | '/' => some '/'
  | 'b' => some '\x08'
  | 'f' => some '\x0c'
  | 'n' => some '\n'
  | 'r' => some '\r'
  | 't' => some '\t'
  | _ => none

def isHigh (n : Nat) : Bool := 0xD800 ≤ n && n ≤ 0xDBFF

def isLow (n : Nat) : Bool := 0xDC00 ≤ n && n ≤ 0xDFFF

/-- The character of a code unit; a half of a pair that stands alone is replaced. -/
def unitChar (n : Nat) : Char :=
  if isHigh n || isLow n then '\uFFFD' else Char.ofNat n

abbrev Scanned := Except (StringFault × Nat) (List Char × Nat)

def Scanned.after (c : Char) (width : Nat) (s : Scanned) : Scanned :=
  s.map fun (cs, w) => (c :: cs, w + width)

/-- Read a string that was opened at `start`, from its character at `pos` on. Four hexadecimal
digits must follow a `u`, and a character after them; two escapes that are the halves of a pair are
one character if something follows them. -/
def scanString (start : Nat) : Nat → List Char → Scanned
  | _, [] => .error (.unterminated, start)
  | _, '"' :: _ => .ok ([], 1)
  | _, ['\\'] => .error (.unterminated, start)
  | pos, '\\' :: 'u' :: a :: b :: c :: d :: '\\' :: 'u' :: e :: f :: g :: h :: next :: cs =>
    match hex4? a b c d with
    | none => .error (.unicodeEscape, pos + 1)
    | some high =>
      if isHigh high then
        match hex4? e f g h with
        | none => .error (.unicodeEscape, pos + 7)
        | some low =>
          if isLow low then
            Scanned.after (Char.ofNat (0x10000 + (high - 0xD800) * 1024 + (low - 0xDC00))) 12
              (scanString start (pos + 12) (next :: cs))
          else
            Scanned.after (unitChar high) 6
              (scanString start (pos + 6) ('\\' :: 'u' :: e :: f :: g :: h :: next :: cs))
      else
        Scanned.after (unitChar high) 6
          (scanString start (pos + 6) ('\\' :: 'u' :: e :: f :: g :: h :: next :: cs))
  | pos, '\\' :: 'u' :: a :: b :: c :: d :: next :: cs =>
    match hex4? a b c d with
    | none => .error (.unicodeEscape, pos + 1)
    | some unit => Scanned.after (unitChar unit) 6 (scanString start (pos + 6) (next :: cs))
  | pos, '\\' :: 'u' :: _ => .error (.unicodeEscape, pos + 1)
  | pos, '\\' :: c :: cs =>
    match escaped? c with
    | none => .error (.escape, pos)
    | some e => Scanned.after e 2 (scanString start (pos + 2) cs)
  | pos, c :: cs =>
    if c.toNat ≤ 0x1F then .error (.control, pos)
    else Scanned.after c 1 (scanString start (pos + 1) cs)
  termination_by _ cs => cs.length

def natOfDigits (ds : List Char) : Nat :=
  ds.foldl (fun n d => n * 10 + (d.toNat - 48)) 0

def maxDigits : Nat := 4300

def fraction : List Char → List Char
  | '.' :: d :: cs => if d.isDigit then d :: cs.takeWhile Char.isDigit else []
  | _ => []

def exponent (cs : List Char) : Option (Bool × List Char × Nat) :=
  match cs with
  | e :: rest =>
    if e = 'e' ∨ e = 'E' then
      let (negative, signed, rest) := match rest with
        | '-' :: r => (true, 1, r)
        | '+' :: r => (false, 1, r)
        | r => (false, 0, r)
      let digits := rest.takeWhile Char.isDigit
      if digits = [] then none else some (negative, digits, 1 + signed + digits.length)
    else none
  | [] => none

/-- A number read from its first digit on, with its width: one zero or digits that begin with
another digit, then a fraction and an exponent as far as they are complete. -/
def number (negative : Bool) (cs : List Char) : Option (Token × Nat) :=
  let whole := match cs with
    | '0' :: _ => ['0']
    | _ => cs.takeWhile Char.isDigit
  if whole = [] then none
  else
    let rest := cs.drop whole.length
    let part := fraction rest
    let partWidth := if part = [] then 0 else part.length + 1
    match exponent (rest.drop partWidth) with
    | some (below, digits, width) =>
      let power := natOfDigits digits
      let power : Int := (if below then Int.negOfNat power else Int.ofNat power) - part.length
      some (.float (.ofDecimal negative (natOfDigits (whole ++ part)) power),
        whole.length + partWidth + width)
    | none =>
      if part = [] then
        if maxDigits < whole.length then some (.long whole.length, whole.length)
        else
          let n := natOfDigits whole
          some (.int (if negative then Int.negOfNat n else Int.ofNat n), whole.length)
      else
        some (.float (.ofDecimal negative (natOfDigits (whole ++ part)) (-part.length)),
          whole.length + partWidth)

def words : List (String × Token) := [
  ("null", .null), ("true", .bool true), ("false", .bool false), ("NaN", .float .nan),
  ("Infinity", .float (.infinite false)), ("-Infinity", .float (.infinite true))]

/-- The token that begins with `c` at `pos`, and how many characters of `cs` belong to it. -/
def Token.first (pos : Nat) (c : Char) (cs : List Char) : Token × Nat :=
  if c ∈ ['\x7b', '\x7d', '[', ']', ',', ':'] then (.mark c, 0)
  else if c = '"' then
    match scanString pos (pos + 1) cs with
    | .ok (s, width) => (.str (String.ofList s), width)
    | .error (fault, index) => (.broken fault index, cs.length)
  else match words.find? (·.1.toList.isPrefixOf (c :: cs)) with
    | some (word, token) => (token, word.length - 1)
    | none =>
      let (negative, digits, signed) := if c = '-' then (true, cs, 0) else (false, c :: cs, 1)
      match number negative digits with
      | some (token, width) => (token, width - signed)
      | none => (.junk, 0)

def tokensFrom (pos : Nat) : List Char → List (Nat × Token)
  | [] => []
  | c :: cs =>
    if isBlank c then tokensFrom (pos + 1) cs
    else
      let (token, width) := Token.first pos c cs
      (pos, token) :: tokensFrom (pos + 1 + width) (cs.drop width)
  termination_by cs => cs.length
  decreasing_by
    · simp
    · simp only [List.length_drop, List.length_cons]; omega

def tokens (text : List Char) : List (Nat × Token) :=
  tokensFrom 0 text

end SolidityTables.Json
