/-!
# Binary floating-point numbers

Numbers with a fraction or an exponent are held in the 64-bit binary format: a sign, an integer of
at most 53 bits and a power of two. A decimal is read to the nearest such number, a tie going to the
even integer; a number is written with the fewest digits that read back.
-/

namespace SolidityTables

/-- A 64-bit binary floating-point number; a finite one is `mantissa * 2 ^ exponent`. -/
inductive Binary64
  | nan
  | infinite (negative : Bool)
  | finite (negative : Bool) (mantissa : Nat) (exponent : Int)
  deriving DecidableEq, Repr

namespace Binary64

def pow2 (n : Nat) : Nat := Nat.pow 2 n

def pow10 (n : Nat) : Nat := Nat.pow 10 n

def roundDiv (num den : Nat) : Nat :=
  let q := num / den
  let r := 2 * (num % den)
  if r < den ∨ (r = den ∧ q % 2 = 0) then q else q + 1

def scaled (num den : Nat) (exponent : Int) : Nat × Nat :=
  if exponent < 0 then (num * pow2 exponent.natAbs, den)
  else (num, den * pow2 exponent.natAbs)

def ofFraction (negative : Bool) (num den : Nat) : Binary64 :=
  if num = 0 then finite negative 0 (-1074)
  else
    let guess : Int := max (-1074) (Int.ofNat num.log2 - Int.ofNat den.log2 - 52)
    let (n, d) := scaled num den guess
    let exponent := if n / d < pow2 52 then max (-1074) (guess - 1) else guess
    let (n, d) := scaled num den exponent
    let m := roundDiv n d
    let (m, exponent) := if m = pow2 53 then (pow2 52, exponent + 1) else (m, exponent)
    if 971 < exponent then infinite negative else finite negative m exponent

/-- The number nearest to `digits * 10 ^ exponent`. Far outside the range of the format the powers
of ten are not worked out. -/
def ofDecimal (negative : Bool) (digits : Nat) (exponent : Int) : Binary64 :=
  let size : Int := exponent + Int.ofNat (Nat.toDigits 10 digits).length
  if digits = 0 ∨ size < -330 then finite negative 0 (-1074)
  else if 310 < size then infinite negative
  else if exponent < 0 then ofFraction negative digits (pow10 exponent.natAbs)
  else ofFraction negative (digits * pow10 exponent.natAbs) 1

def toInt? : Binary64 → Option Int
  | finite negative m e =>
    let (n, d) := if e < 0 then (m, pow2 e.natAbs) else (m * pow2 e.natAbs, 1)
    if n % d = 0 then some (if negative then -Int.ofNat (n / d) else Int.ofNat (n / d)) else none
  | _ => none

/-- The digits of the nearest point of the grid of step `10 ^ grid` that reads back as
`m * 2 ^ e`: it lies between the middles to the two neighbouring numbers, which count as inside if
`m` is even. All is measured in quarters of `2 ^ e`. -/
def onGrid? (m : Nat) (e grid : Int) : Option Nat :=
  let twos : Nat × Nat := if e < 0 then (1, pow2 e.natAbs) else (pow2 e.natAbs, 1)
  let tens : Nat × Nat := if grid < 0 then (1, pow10 grid.natAbs) else (pow10 grid.natAbs, 1)
  let unit := twos.1 * tens.2
  let step := 4 * twos.2 * tens.1
  let value := 4 * m * unit
  let low := (4 * m - (if m = pow2 52 ∧ -1074 < e then 1 else 2)) * unit
  let high := (4 * m + 2) * unit
  let inside (c : Nat) : Bool :=
    if m % 2 = 0 then low ≤ c * step && c * step ≤ high else low < c * step && c * step < high
  let below := value / step
  let rest := value % step
  let near := if 2 * rest < step ∨ (2 * rest = step ∧ below % 2 = 0) then below else below + 1
  let far := if near = below then below + 1 else below
  if inside near then some near else if inside far then some far else none

def leadingPower (m : Nat) (e : Int) : Int :=
  if e < 0 then
    let whole := m / pow2 e.natAbs
    if whole = 0 then
      let k := (List.range 400).find? fun k => pow2 e.natAbs ≤ m * pow10 k
      Int.negOfNat (k.getD 0)
    else Int.ofNat (Nat.toDigits 10 whole).length - 1
  else Int.ofNat (Nat.toDigits 10 (m * pow2 e.natAbs)).length - 1

def shortest (m : Nat) (e : Int) : Nat × Int :=
  let top := leadingPower m e
  let hit := (List.range 17).findSome? fun k =>
    (onGrid? m e (top - Int.ofNat k)).map fun digits => (digits, top - Int.ofNat k)
  hit.getD (m, e)

def text : Binary64 → String
  | nan => "nan"
  | infinite negative => if negative then "-inf" else "inf"
  | finite negative m e =>
    let sign := if negative then "-" else ""
    if m = 0 then sign ++ "0.0" else
      let (value, power) := shortest m e
      let all := Nat.toDigits 10 value
      let point : Int := power + Int.ofNat all.length
      let digits := (all.reverse.dropWhile (· = '0')).reverse
      if -3 ≤ point ∧ point ≤ 16 then
        let (whole, fraction) :=
          if point ≤ 0 then (['0'], List.replicate point.natAbs '0' ++ digits)
          else (digits.take point.natAbs ++ List.replicate (point.natAbs - digits.length) '0',
            digits.drop point.natAbs)
        let fraction := if fraction = [] then ['0'] else fraction
        sign ++ String.ofList (whole ++ '.' :: fraction)
      else
        let fraction := if digits.length = 1 then [] else '.' :: digits.drop 1
        let exponent := Nat.toDigits 10 (point - 1).natAbs
        let filled := List.replicate (2 - exponent.length) '0' ++ exponent
        sign ++ String.ofList (digits.take 1 ++ fraction ++
          'e' :: (if point - 1 < 0 then '-' else '+') :: filled)

end Binary64

end SolidityTables
