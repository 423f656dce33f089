set_option autoImplicit false

namespace Calculator.Numeral

def digitValue (c : Char) : Option Nat :=
  if '0' ≤ c ∧ c ≤ '9' then some (c.toNat - '0'.toNat)
  else if 'a' ≤ c ∧ c ≤ 'f' then some (c.toNat - 'a'.toNat + 10)
  else if 'A' ≤ c ∧ c ≤ 'F' then some (c.toNat - 'A'.toNat + 10)
  else none

def digitBelow (base : Nat) (c : Char) : Option Nat :=
  (digitValue c).filter (· < base)

def readFrom (base : Nat) : Nat → List Char → Option Nat
  | acc, [] => some acc
  | acc, c :: rest =>
    match digitBelow base c with
    | none => none
    | some d => readFrom base (acc * base + d) rest

def read (base : Nat) (text : List Char) : Option Nat :=
  if text.isEmpty then none else readFrom base 0 text

/-- The last `2 ^ k` digits of a number in front of other text; halving their number at every step
keeps the divisions of large numbers few. -/
def lastDigits (base : Nat) : Nat → Nat → List Char → List Char
  | 0, n, rest => Nat.digitChar (n % base) :: rest
  | k + 1, n, rest =>
    let power := Nat.pow base (Nat.pow 2 k)
    lastDigits base k (n / power) (lastDigits base k (n % power) rest)

/-- The digits of a number that has at most `2 ^ k` of them, in front of other text. -/
def allDigits (base : Nat) : Nat → Nat → List Char → List Char
  | 0, n, rest => Nat.digitChar n :: rest
  | k + 1, n, rest =>
    let power := Nat.pow base (Nat.pow 2 k)
    if n < power then allDigits base k n rest
    else allDigits base k (n / power) (lastDigits base k (n % power) rest)

/-- The digits of a number without leading zeros, letters in lower case. A number has no more
digits than bits. -/
def digits (base n : Nat) : List Char :=
  allDigits base ((n.log2 + 1).log2 + 1) n []

def decimal (n : Nat) : List Char :=
  digits 10 n

def hexadecimal (n : Nat) : List Char :=
  digits 16 n

def octal (n : Nat) : List Char :=
  digits 8 n

def padZeros (width : Nat) (text : List Char) : List Char :=
  List.replicate (width - text.length) '0' ++ text

def integer (n : Int) : List Char :=
  if n < 0 then '-' :: decimal n.natAbs else decimal n.natAbs

def isDecimalDigit (c : Char) : Bool :=
  '0' ≤ c && c ≤ '9'

def isOctalDigit (c : Char) : Bool :=
  '0' ≤ c && c ≤ '7'

def isHexadecimalDigit (c : Char) : Bool :=
  (digitValue c).isSome

end Calculator.Numeral
