/-!
# Bytes

Runs of bytes of a given width: cut and filled up with zeros, the big-endian form of an integer,
and the hexadecimal text of a run. An integer that does not fit is an error, never cut.
-/

namespace SolidityTables.Bytes

def padded (width : Nat) (bytes : List UInt8) : List UInt8 :=
  bytes.take width ++ List.replicate (width - bytes.length) 0

inductive RangeError
  | negative
  | tooBig
  | notByte
  deriving DecidableEq, Repr

def RangeError.message : RangeError → String
  | .negative => "can't convert negative int to unsigned"
  | .tooBig => "int too big to convert"
  | .notByte => "bytes must be in range(0, 256)"

def ofNat : (width : Nat) → Nat → List UInt8
  | 0, _ => []
  | width + 1, n => ofNat width (n / 256) ++ [UInt8.ofNat n]

/-- The big-endian form of an integer in `width` bytes. -/
def ofInt (width : Nat) (n : Int) : Except RangeError (List UInt8) :=
  if n < 0 then .error .negative
  else if Nat.pow 256 width ≤ n.toNat then .error .tooBig
  else .ok (ofNat width n.toNat)

def ofInts : List Int → Except RangeError (List UInt8)
  | [] => .ok []
  | n :: ns =>
    if n < 0 ∨ 256 ≤ n then .error .notByte
    else do return UInt8.ofNat n.toNat :: (← ofInts ns)

def digit (n : Nat) : Char :=
  Char.ofNat (if n < 10 then 48 + n else 87 + n)

def hexDigits (bytes : List UInt8) : List Char :=
  bytes.flatMap fun b => [digit (b.toNat / 16), digit (b.toNat % 16)]

def hex (bytes : List UInt8) : String :=
  "0x" ++ String.ofList (hexDigits bytes)

end SolidityTables.Bytes
