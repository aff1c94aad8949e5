import SolidityTables.Text.Printable

/-!
# Quoted text

A name in a message stands between quotes so that every character of it can be read: the quote, the
backslash and all that has no shape are escaped. A list of names stands in brackets.
-/

namespace SolidityTables.Quoted

/-- The single quote, unless the text holds one and no double quote. -/
def quote (s : String) : Char :=
  if s.toList.contains '\'' && !s.toList.contains '"' then '"' else '\''

def hex (width n : Nat) : List Char :=
  let digits := Nat.toDigits 16 n
  List.replicate (width - digits.length) '0' ++ digits

def escape (q c : Char) : List Char :=
  if c = q ∨ c = '\\' then ['\\', c]
  else if c = '\t' then ['\\', 't']
  else if c = '\n' then ['\\', 'n']
  else if c = '\r' then ['\\', 'r']
  else if Printable.isPrintable c then [c]
  else if c.toNat ≤ 0xFF then '\\' :: 'x' :: hex 2 c.toNat
  else if c.toNat ≤ 0xFFFF then '\\' :: 'u' :: hex 4 c.toNat
  else '\\' :: 'U' :: hex 8 c.toNat

def text (s : String) : String :=
  let q := quote s
  String.ofList (q :: s.toList.flatMap (escape q) ++ [q])

def list (names : List String) : String :=
  "[" ++ String.intercalate ", " (names.map text) ++ "]"

end SolidityTables.Quoted
