set_option autoImplicit false

namespace Calculator.Word

def least64 : Int := -9223372036854775808

def fits64 (n : Int) : Bool :=
  least64 ≤ n && n ≤ 9223372036854775807

def fits32 (n : Int) : Bool :=
  -2147483648 ≤ n && n ≤ 2147483647

def fitsUnsigned32 (n : Int) : Bool :=
  0 ≤ n && n ≤ 4294967295

end Calculator.Word

namespace Calculator.Bitwise

/-- The bits of `m` that `n` has not. -/
def without (m n : Nat) : Nat :=
  m ^^^ (m &&& n)

def and : Int → Int → Int
  | .ofNat m, .ofNat n => .ofNat (m &&& n)
  | .ofNat m, .negSucc n => .ofNat (without m n)
  | .negSucc m, .ofNat n => .ofNat (without n m)
  | .negSucc m, .negSucc n => .negSucc (m ||| n)

def or : Int → Int → Int
  | .ofNat m, .ofNat n => .ofNat (m ||| n)
  | .ofNat m, .negSucc n => .negSucc (without n m)
  | .negSucc m, .ofNat n => .negSucc (without m n)
  | .negSucc m, .negSucc n => .negSucc (m &&& n)

end Calculator.Bitwise

namespace Calculator.Power

/-- `acc * base ^ n`, halving the exponent at most `fuel` times. -/
def squareFrom : Nat → Int → Int → Nat → Int
  | 0, acc, _, _ => acc
  | fuel + 1, acc, base, n =>
    if n = 0 then acc
    else
      let acc' := if n % 2 = 1 then acc * base else acc
      squareFrom fuel acc' (if n < 2 then base else base * base) (n / 2)

def int (base : Int) (n : Nat) : Int :=
  squareFrom (n.log2 + 1) 1 base n

/-- The power of a rational; zero has no negative powers, and the caller sees to that. -/
def rat (base : Rat) (n : Int) : Rat :=
  let numerator := int base.num n.natAbs
  let denominator := int base.den n.natAbs
  if 0 ≤ n then Rat.divInt numerator denominator else Rat.divInt denominator numerator

end Calculator.Power
