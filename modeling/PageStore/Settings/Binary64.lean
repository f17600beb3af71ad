/-!
# Binary numbers of 64 bits

Numbers with a point are read from decimals and kept as the nearest binary number with 53
significant bits, an exact tie going to the even neighbour.  `shortest` finds the fewest decimal
digits that are read back as the same number, and among those the nearest; `render` writes these
digits positionally, with no point in a whole number.

All arithmetic is on natural numbers and exact.
-/

namespace PageStore

/-- A number that 64 bits can hold: `mantissa * 2 ^ exponent` with a sign, an infinity, or the value
that is no number. -/
inductive Binary64 where
  | finite (negative : Bool) (mantissa : Nat) (exponent : Int)
  | infinite (negative : Bool)
  | notANumber
deriving DecidableEq, Repr, Inhabited

namespace Binary64

/-- The nearest whole number to a quotient, an exact tie going to the even one. -/
def divideEven (num den : Nat) : Nat :=
  let q := num / den
  let twice := 2 * (num % den)
  if twice > den || (twice == den && q % 2 == 1) then q + 1 else q

/-- A quotient scaled by a power of two, as a quotient. -/
def scale (num den : Nat) (power : Int) : Nat × Nat :=
  if 0 ≤ power then (num <<< power.toNat, den) else (num, den <<< (-power).toNat)

/-- The first of the 53 significant bits of a mantissa. -/
def leadingOne : Nat := 1 <<< 52

/-- The least exponent of a mantissa. -/
def minExponent : Int := -1074

/-- The largest exponent of a mantissa. -/
def maxExponent : Int := 971

/-- The nearest number to a positive quotient. -/
def ofQuotient (negative : Bool) (num den : Nat) : Binary64 :=
  let guess : Int := (num.log2 : Int) - den.log2 - 52
  let (n, d) := scale num den (-guess)
  let exponent := max minExponent (if n < d * leadingOne then guess - 1 else guess)
  let (n, d) := scale num den (-exponent)
  let mantissa := divideEven n d
  let (mantissa, exponent) :=
    if mantissa = 2 * leadingOne then (leadingOne, exponent + 1) else (mantissa, exponent)
  if maxExponent < exponent then .infinite negative else .finite negative mantissa exponent

/-- The nearest number to `digits * 10 ^ power`.  Powers far outside the range of the type are
settled by the number of digits. -/
def ofDecimal (negative : Bool) (digits : Nat) (power : Int) : Binary64 :=
  let place := ((Nat.toDigits 10 digits).length : Int) + power
  if digits = 0 || place < -330 then .finite negative 0 minExponent
  else if 310 < place then .infinite negative
  else if 0 ≤ power then ofQuotient negative (digits * Nat.pow 10 power.toNat) 1
  else ofQuotient negative digits (Nat.pow 10 (-power).toNat)

/-! ## Products with powers of ten -/

/-- The nearest number to `num / den * 2 ^ power`. -/
def ofScaled (negative : Bool) (num den : Nat) (power : Int) : Binary64 :=
  if num = 0 then .finite negative 0 minExponent
  else
    let (num, den) := scale num den power
    ofQuotient negative num den

/-- A number times the nearest number to a power of ten. -/
def timesTen (power : Nat) (x : Binary64) : Binary64 :=
  match x, ofDecimal false 1 power with
  | finite negative m e, finite _ n f => ofScaled negative (m * n) 1 (e + f)
  | finite negative _ _, _ => infinite negative
  | x, _ => x

/-- A number over the nearest number to a power of ten. -/
def overTen (power : Nat) (x : Binary64) : Binary64 :=
  match x, ofDecimal false 1 power with
  | finite negative m e, finite _ n f => ofScaled negative m n (e - f)
  | finite negative _ _, _ => finite negative 0 minExponent
  | x, _ => x

/-- Whether a number equals zero. -/
def isZero : Binary64 → Bool
  | finite _ mantissa _ => mantissa == 0
  | _ => false

/-- The nearest whole number to a magnitude, a half going up. -/
def roundMagnitude (mantissa : Nat) (exponent : Int) : Nat :=
  if 0 ≤ exponent then mantissa <<< exponent.toNat
  else
    let unit := 1 <<< (-exponent).toNat
    (2 * mantissa + unit) / (2 * unit)

/-- The nearest natural number below a limit, a half going up.  Numbers outside go to the nearest
end, and what is no number goes to zero. -/
def toNatUpTo (limit : Nat) : Binary64 → Nat
  | finite true _ _ => 0
  | finite false mantissa exponent => min limit (roundMagnitude mantissa exponent)
  | infinite negative => if negative then 0 else limit
  | notANumber => 0

/-! ## Decimal text -/

/-- A magnitude in quarters of its last binary place, and the ends of the interval of magnitudes
that are read back as it. -/
def interval (mantissa : Nat) (exponent : Int) : Nat × Nat × Nat :=
  let below := if mantissa = leadingOne && minExponent < exponent then 1 else 2
  (4 * mantissa - below, 4 * mantissa, 4 * mantissa + 2)

/-- The number of decimal places before the point that a quotient takes, negative for zeros after
the point: the least `p` with `num / den < 10 ^ p`, looked for near a guess. -/
def decimalPlace (num den : Nat) : (tries : Nat) → Int → Int
  | 0, p => p
  | tries + 1, p =>
    let (n, d) :=
      if 0 ≤ p then (num, den * Nat.pow 10 p.toNat) else (num * Nat.pow 10 (-p).toNat, den)
    if n < d then p else decimalPlace num den tries (p + 1)

/-- The decimal number with so many digits that lies in the interval of a magnitude and is nearest
to it, if there is one: its digits as a number. -/
def nearestDecimal (mantissa : Nat) (exponent place : Int) (count : Nat) : Option Nat :=
  let (low, mid, high) := interval mantissa exponent
  let power := place - count
  let (unit, den) : Nat × Nat :=
    if 0 ≤ power then (Nat.pow 10 power.toNat, 1) else (1, Nat.pow 10 (-power).toNat)
  let (factor, unit) :=
    if 0 ≤ exponent - 2 then (den <<< (exponent - 2).toNat, unit)
    else (den, unit <<< (2 - exponent).toNat)
  let (low, mid, high) := (low * factor, mid * factor, high * factor)
  let inside (n : Nat) : Bool :=
    if mantissa % 2 = 0 then low ≤ n * unit && n * unit ≤ high
    else low < n * unit && n * unit < high
  let down := mid / unit
  let up := down + 1
  let downFirst := mid - down * unit < up * unit - mid
  if inside down && (downFirst || !inside up) then some down
  else if inside up then some up
  else none

/-- The fewest digits that are read back as a magnitude, with the place of the point before them:
`digits * 10 ^ (place - count)`. -/
def shortest (mantissa : Nat) (exponent : Int) : Nat × Int × Nat :=
  let (num, den) := scale mantissa 1 exponent
  let guess : Int := ((num.log2 : Int) - den.log2) * 30103 / 100000 - 1
  let place := decimalPlace num den 4 guess
  let found := (List.range 17).findSome? fun i =>
    (nearestDecimal mantissa exponent place (i + 1)).map fun digits => (digits, place, i + 1)
  found.getD (0, place, 1)

/-- Digits with the point after so many places, and zeros where digits lack. -/
def positional (digits : List Char) (place : Int) : List Char :=
  if place ≤ 0 then '0' :: '.' :: (List.replicate (-place).toNat '0' ++ digits)
  else if digits.length ≤ place.toNat then
    digits ++ List.replicate (place.toNat - digits.length) '0'
  else digits.take place.toNat ++ '.' :: digits.drop place.toNat

/-- The text of a magnitude. -/
def renderMagnitude (mantissa : Nat) (exponent : Int) : String :=
  if mantissa = 0 then "0"
  else
    let (digits, place, count) := shortest mantissa exponent
    let text := Nat.toDigits 10 digits
    let place := if text.length = count then place else place + 1
    let text := (text.reverse.dropWhile (· == '0')).reverse
    String.ofList (positional text place)

/-- The text of a number. -/
def render : Binary64 → String
  | finite negative mantissa exponent =>
    (if negative then "-" else "") ++ renderMagnitude mantissa exponent
  | infinite negative => if negative then "-inf" else "inf"
  | notANumber => "NaN"

end Binary64

end PageStore
