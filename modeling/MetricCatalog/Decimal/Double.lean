/-!
# Decimal text as a double

A decimal number names a rational, which is rounded to the nearest IEEE 754
double with ties to even.  All arithmetic is exact on natural numbers, and the
result is the 64 bits of the double.
-/

namespace MetricCatalog

/-- An IEEE 754 double, as its bits. -/
structure Double where
  bits : UInt64
deriving DecidableEq

namespace Double

/-- The all-ones exponent, shifted into place. -/
def infinityBits : Nat := 0x7FF <<< 52

def zero : Double := ⟨0⟩

def signed (negative : Bool) (magnitude : Nat) : Double :=
  ⟨UInt64.ofNat (if negative then magnitude + (1 <<< 63) else magnitude)⟩

def infinity (negative : Bool) : Double := signed negative infinityBits

def nan (negative : Bool) : Double := signed negative (infinityBits + (1 <<< 51))

def isNaN (x : Double) : Bool :=
  infinityBits < x.bits.toNat % (1 <<< 63)

/-- `num / den` to the nearest natural number, ties to even. -/
def roundDiv (num den : Nat) : Nat :=
  let q := num / den
  let r := num % den
  if den < 2 * r || (2 * r == den && q % 2 == 1) then q + 1 else q

/-- `num / den * 2 ^ -e` as one quotient, for a signed power. -/
def scale (num den : Nat) (e : Int) : Nat × Nat :=
  if 0 ≤ e then (num, den <<< e.toNat) else (num <<< (-e).toNat, den)

/-- The magnitude bits nearest to `num / den`.  The exponent is the largest
`e ≥ -1074` that keeps the significand `num / den / 2 ^ e` at 53 bits; a carry
out of the significand moves into the exponent field by itself. -/
def magnitudeBits (num den : Nat) : Nat :=
  if num = 0 then 0
  else
    let guess : Int := (num.log2 : Int) - den.log2 - 53
    let guess := if (scale num den guess).1 < (scale num den guess).2 <<< 53 then guess else guess + 1
    let e : Int := max guess (-1074)
    let (n, d) := scale num den e
    let significand := roundDiv n d
    if significand < 1 <<< 52 then significand
    else
      let bits := ((e + 1074).toNat <<< 52) + significand
      min bits infinityBits

/-- `digits * 10 ^ power`.  Far outside the range of doubles the power is not
raised at all. -/
def ofDecimal (negative : Bool) (digits : Nat) (power : Int) : Double :=
  if digits = 0 then signed negative 0
  else
    let magnitude := power + ((Nat.toDigits 10 digits).length : Int)
    if 310 < magnitude then infinity negative
    else if magnitude < -330 then signed negative 0
    else if 0 ≤ power then signed negative (magnitudeBits (digits * Nat.pow 10 power.toNat) 1)
    else signed negative (magnitudeBits digits (Nat.pow 10 (-power).toNat))

/-! ## Reading a number -/

def digitValue (c : Char) : Nat := c.toNat - '0'.toNat

def natOfDigits (cs : List Char) : Nat :=
  cs.foldl (fun n c => 10 * n + digitValue c) 0

/-- The number that digits spell, of which those past 65535 are left out: a
power that large makes every number of fewer digits infinite or zero. -/
def powerOfDigits (cs : List Char) : Nat :=
  cs.foldl (fun n c => if n < 1 <<< 16 then 10 * n + digitValue c else n) 0

def splitSign : List Char → Bool × List Char
  | '-' :: cs => (true, cs)
  | '+' :: cs => (false, cs)
  | cs => (false, cs)

/-- The power after the mantissa: nothing, or a letter e with a whole number. -/
def exponent? : List Char → Option Int
  | [] => some 0
  | c :: cs =>
    if c = 'e' || c = 'E' then
      let (negative, digits) := splitSign cs
      if digits.isEmpty || !digits.all Char.isDigit then none
      else
        let n : Int := powerOfDigits digits
        some (if negative then -n else n)
    else none

/-- A decimal number: digits with at most one point and at least one digit,
then an optional power of ten. -/
def decimal? (negative : Bool) (cs : List Char) : Option Double :=
  let whole := cs.takeWhile Char.isDigit
  let rest := cs.dropWhile Char.isDigit
  let (fraction, rest) :=
    match rest with
    | '.' :: rest => (rest.takeWhile Char.isDigit, rest.dropWhile Char.isDigit)
    | rest => ([], rest)
  if whole.isEmpty && fraction.isEmpty then none
  else
    (exponent? rest).map fun power =>
      ofDecimal negative (natOfDigits (whole ++ fraction)) (power - fraction.length)

/-- Reads a signed decimal number, or in any ASCII case a signed infinity
(short or spelled out) or NaN. -/
def parse? (text : String) : Option Double :=
  let (negative, cs) := splitSign text.toList
  match String.ofList (cs.map Char.toLower) with
  | "inf" => some (infinity negative)
  | "infinity" => some (infinity negative)
  | "nan" => some (nan negative)
  | _ => decimal? negative cs

def isFinite (x : Double) : Bool :=
  x.bits.toNat % (1 <<< 63) < infinityBits

end Double

end MetricCatalog
