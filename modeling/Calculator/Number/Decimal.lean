import Calculator.Number.Binary64
import Calculator.Number.Integer
import Calculator.Number.Numeral

set_option autoImplicit false

namespace Calculator.Shortest

/-- The decimal `digits * 10 ^ exponent`. -/
structure Decimal where
  digits : Nat
  exponent : Int
  deriving DecidableEq

/-- A float in quarters of the unit of its mantissa, the midpoints below and above, and the
exponent of two of such a quarter. -/
structure Interval where
  low : Nat
  middle : Nat
  high : Nat
  exponent : Int
  closed : Bool

/-- The interval around a positive finite float. Under a power of two the neighbour is half as far,
unless both have the least exponent. -/
def interval (x : Float) : Interval :=
  let m := Binary64.mantissa x
  let e := Binary64.exponent x
  let narrow := m = Binary64.hiddenBit ∧ e ≠ Binary64.leastExponent
  ⟨if narrow then 4 * m - 1 else 4 * m - 2, 4 * m, 4 * m + 2, e - 2, m % 2 = 0⟩

/-- Factors that bring `digits * 10 ^ p` and `quarters * 2 ^ e` to a common unit. -/
def commonUnit (p e : Int) : Nat × Nat :=
  (Nat.pow 10 p.toNat * Nat.pow 2 (-e).toNat, Nat.pow 2 e.toNat * Nat.pow 10 (-p).toNat)

/-- Whether `digits * 10 ^ p` lies in the interval. -/
def Interval.contains (i : Interval) (digits : Nat) (p : Int) : Bool :=
  let (tens, twos) := commonUnit p i.exponent
  let point := digits * tens
  if i.closed then i.low * twos ≤ point && point ≤ i.high * twos
  else i.low * twos < point && point < i.high * twos

/-- The decimal of the grid of `10 ^ p` nearest to the middle, if a neighbour of the middle on the
grid lies in the interval; of two equally near the upper one. -/
def Interval.onGrid (i : Interval) (p : Int) : Option Decimal :=
  let (tens, twos) := commonUnit p i.exponent
  let point := i.middle * twos
  let below := point / tens
  let above := below + 1
  match i.contains below p, i.contains above p with
  | true, true =>
    some ⟨if point - below * tens < above * tens - point then below else above, p⟩
  | true, false => some ⟨below, p⟩
  | false, true => some ⟨above, p⟩
  | false, false => none

/-- The first grid with a decimal in the interval, from `10 ^ p` to finer ones. -/
def Interval.search (i : Interval) : Nat → Int → Decimal
  | 0, p => (i.onGrid p).getD ⟨0, 0⟩
  | fuel + 1, p =>
    match i.onGrid p with
    | some d => d
    | none => i.search fuel (p - 1)

/-- A power of ten above the interval: `30103 / 100000` is just above the logarithm of two. -/
def Interval.ceiling (i : Interval) : Int :=
  let bits := (i.high.log2 : Int) + 1 + i.exponent
  (bits * 30103).fdiv 100000 + 2

def shortest (x : Float) : Decimal :=
  if Binary64.mantissa x = 0 then ⟨0, 0⟩
  else
    let i := interval x
    i.search 30 i.ceiling

end Calculator.Shortest

namespace Calculator.FloatText

open Shortest (Decimal)

def positional (d : Decimal) : List Char :=
  let digits := Numeral.decimal d.digits
  if 0 ≤ d.exponent then
    if d.digits = 0 then digits else digits ++ List.replicate d.exponent.toNat '0'
  else
    let places := (-d.exponent).toNat
    let padded := Numeral.padZeros (places + 1) digits
    padded.take (padded.length - places) ++ '.' :: padded.drop (padded.length - places)

/-- One digit, the others behind a point, and the power of ten of the first. -/
def scientific (d : Decimal) : List Char :=
  let digits := Numeral.decimal d.digits
  let power := Numeral.integer (d.exponent + (digits.length - 1 : Nat))
  digits.take 1 ++ (if digits.length ≤ 1 then [] else '.' :: digits.drop 1) ++ 'e' :: power

/-- A float by a notation for its magnitude; what is no number or infinite has a name. -/
def write (layout : Decimal → List Char) (x : Float) : List Char :=
  if Binary64.isNaN x then "NaN".toList
  else
    let magnitude :=
      if Binary64.isFinite x then layout (Shortest.shortest x) else "inf".toList
    if Binary64.signBit x then '-' :: magnitude else magnitude

def display (x : Float) : List Char :=
  write positional x

def displayScientific (x : Float) : List Char :=
  write scientific x

end Calculator.FloatText

namespace Calculator

structure RealLiteral where
  digits : Nat
  places : Nat
  exponent : Option Int
  deriving DecidableEq

namespace RealLiteral

def isMark (c : Char) : Bool :=
  c == 'e' || c == 'E'

def readExponent (text : List Char) : Option Int :=
  match text with
  | '-' :: digits => (Numeral.read 10 digits).map fun n => -(n : Int)
  | '+' :: digits => (Numeral.read 10 digits).map Int.ofNat
  | digits => (Numeral.read 10 digits).map Int.ofNat

/-- The digits of a mantissa as one number, and how many of them are behind the point. -/
def readMantissa (text : List Char) : Option (Nat × Nat) :=
  let integral := text.takeWhile (· != '.')
  let fraction := (text.dropWhile (· != '.')).drop 1
  (Numeral.read 10 (integral ++ fraction)).map fun n => (n, fraction.length)

def read (text : List Char) : Option RealLiteral := do
  let mantissa := text.takeWhile fun c => !isMark c
  let (digits, places) ← readMantissa mantissa
  match text.dropWhile fun c => !isMark c with
  | [] => some ⟨digits, places, none⟩
  | _ :: exponent => (readExponent exponent).map fun e => ⟨digits, places, some e⟩

/-- The largest power of ten, up or down, that an exact literal may have. -/
def maximalScale : Nat := 100000

def scale (l : RealLiteral) : Int :=
  l.places - l.exponent.getD 0

def toRat? (l : RealLiteral) : Option Rat :=
  if Word.fits64 (l.exponent.getD 0) && l.scale.natAbs ≤ maximalScale then
    some <|
      if 0 ≤ l.scale then mkRat l.digits (Nat.pow 10 l.scale.toNat)
      else ((l.digits * Nat.pow 10 (-l.scale).toNat : Nat) : Rat)
  else none

def toFloat (l : RealLiteral) : Float :=
  Binary64.ofDecimal l.digits (-l.scale)

end RealLiteral

end Calculator
