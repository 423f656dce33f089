set_option autoImplicit false

/-!
# Binary floating point numbers of 64 bits

A finite float is a sign, a mantissa and a power of two, read off its bits. The other way round,
`ofRatio` takes the float nearest to a quotient of natural numbers: of two equally near the one
with the even mantissa, and an infinity where the mantissa no longer fits. Integers of more than 64
bits are first cut to their leading bits.
-/
namespace Calculator.Binary64

def fractionWidth : Nat := 52

/-- The bit above the fraction, which the mantissa of a normal float has. -/
def hiddenBit : Nat := 4503599627370496

def signWeight : Nat := 9223372036854775808

def leastExponent : Int := -1074

def signBit (x : Float) : Bool :=
  x.toBits.toNat / signWeight % 2 = 1

def exponentField (x : Float) : Nat :=
  x.toBits.toNat / hiddenBit % 2048

def fractionField (x : Float) : Nat :=
  x.toBits.toNat % hiddenBit

def isFinite (x : Float) : Bool :=
  exponentField x ≠ 2047

def isNaN (x : Float) : Bool :=
  exponentField x = 2047 ∧ fractionField x ≠ 0

/-- The natural number that a power of two multiplies. -/
def mantissa (x : Float) : Nat :=
  if exponentField x = 0 then fractionField x else hiddenBit + fractionField x

def exponent (x : Float) : Int :=
  if exponentField x = 0 then leastExponent else exponentField x + leastExponent - 1

def toRat? (x : Float) : Option Rat :=
  if isFinite x then
    let m : Int := if signBit x then -(mantissa x : Int) else mantissa x
    let e := exponent x
    some <|
      if 0 ≤ e then ((m * Nat.pow 2 e.toNat : Int) : Rat)
      else mkRat m (Nat.pow 2 (-e).toNat)
  else none

def ofMagnitude (negative : Bool) (bits : Nat) : Float :=
  let magnitude := min bits (2047 * hiddenBit)
  Float.ofBits (UInt64.ofNat (if negative then signWeight + magnitude else magnitude))

def infinity (negative : Bool) : Float :=
  ofMagnitude negative (2047 * hiddenBit)

/-- `n / (d * 2 ^ e)` as a quotient of natural numbers. -/
def scaled (n d : Nat) (e : Int) : Nat × Nat :=
  if 0 ≤ e then (n, d * Nat.pow 2 e.toNat) else (n * Nat.pow 2 (-e).toNat, d)

/-- The natural number nearest to a quotient, the even one of two. -/
def roundEven (n d : Nat) : Nat :=
  let q := n / d
  let r := n % d
  if 2 * r < d then q
  else if d < 2 * r then q + 1
  else if q % 2 = 0 then q else q + 1

/-- The exponent that leaves the quotient a mantissa of full width, not below the least one. -/
def targetExponent (n d : Nat) : Int :=
  let e : Int := max ((n.log2 : Int) - d.log2 - fractionWidth) leastExponent
  let (n', d') := scaled n d e
  if n' / d' < hiddenBit then max (e - 1) leastExponent else e

def ofRatio (negative : Bool) (n d : Nat) : Float :=
  if n = 0 then ofMagnitude negative 0
  else
    let e := targetExponent n d
    let (n', d') := scaled n d e
    ofMagnitude negative ((e - leastExponent).toNat * hiddenBit + roundEven n' d')

/-- Whether one of the lowest words of 64 bits has a bit among its `width` lowest ones. -/
def anyLowBit (n words width : Nat) : Bool :=
  (List.range words).any fun i => n / Nat.pow 2 (64 * i) % Nat.pow 2 width ≠ 0

/-- The first 64 bits of a number, with zeros for the others. The last of the 64 is set if a bit
behind them is seen, so that a tie is told from what lies above it. Not all bits are seen: of every
word below the first one only as many, from the lowest, as the first word has. -/
def leading (n : Nat) : Nat :=
  let hidden := n.log2 + 1 - 64
  let bits := n / Nat.pow 2 hidden
  let seen := anyLowBit n (n.log2 / 64) (n.log2 % 64 + 1)
  (if seen && bits % 2 = 0 then bits + 1 else bits) * Nat.pow 2 hidden

/-- The float of an integer: the one nearest to its leading bits, and so nearest to the integer
itself unless that lies just above a tie by bits that are not seen. -/
def ofInt (n : Int) : Float :=
  if 1024 ≤ n.natAbs.log2 then infinity (n < 0)
  else ofRatio (n < 0) (leading n.natAbs) 1

def ofRat (q : Rat) : Float :=
  ofRatio (q.num < 0) q.num.natAbs q.den

/-- The float nearest to `digits * 10 ^ e`; far outside the range of floats no power is computed. -/
def ofDecimal (digits : Nat) (e : Int) : Float :=
  if digits = 0 then ofMagnitude false 0
  else if 400 < e then infinity false
  else if e + digits.log2 < -1400 then ofMagnitude false 0
  else if 0 ≤ e then ofRatio false (digits * Nat.pow 10 e.toNat) 1
  else ofRatio false digits (Nat.pow 10 (-e).toNat)

end Calculator.Binary64
