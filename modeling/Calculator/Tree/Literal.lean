import Calculator.Number.Decimal
import Calculator.Token.Basic
import Calculator.Tree.Error
import Calculator.Value.Basic

set_option autoImplicit false

namespace Calculator.Literal

def integer (text : String) (base : Nat) (digits : List Char) (flavor : Flavor) :
    Except SyntaxCause Value :=
  match Numeral.read base digits with
  | some n => .ok (.int n flavor)
  | none => .error (.badNumber text)

/-- An exact literal is shown with the digits behind its point less its exponent, with one at
least and 64 at most. -/
def exactPrecision (l : RealLiteral) : Nat :=
  min 64 (max 1 l.scale.toNat)

def real (mode : NumericMode) (text : String) : Except SyntaxCause Value :=
  match mode with
  | .undefined => .error .realInUndefinedMode
  | .float =>
    match RealLiteral.read text.toList with
    | some l => .ok (.float l.toFloat (if l.exponent.isSome then .exp else .dec))
    | none => .error (.badNumber text)
  | .rational =>
    match RealLiteral.read text.toList with
    | some l =>
      match l.toRat? with
      | some q => .ok (.rational q .dec (exactPrecision l))
      | none => .error (.badNumber text)
    | none => .error (.badNumber text)

def readDate (digits : List Char) : Option Date := do
  if digits.length ≠ 8 then none
  let year ← Numeral.read 10 (digits.take 4)
  let month ← Numeral.read 10 ((digits.drop 4).take 2)
  let day ← Numeral.read 10 (digits.drop 6)
  Date.ofCivil? ⟨year, month, day⟩

def date (text : String) : Except SyntaxCause Value :=
  match readDate text.toList with
  | some d => .ok (.date d)
  | none => .error (.badDate text)

def fields : List Char → List (List Char)
  | [] => [[]]
  | ':' :: rest => [] :: fields rest
  | c :: rest =>
    match fields rest with
    | [] => [[c]]
    | part :: parts => (c :: part) :: parts

/-- The number of seconds of parts in base sixty. -/
def readSeconds : Nat → List (List Char) → Option Nat
  | seconds, [] => some seconds
  | seconds, part :: parts => do
    let n ← Numeral.read 10 part
    readSeconds (seconds * 60 + n) parts

def readTime (text : List Char) : Option Nat :=
  let parts := fields text
  if parts.length = 2 ∨ parts.length = 3 then readSeconds 0 parts else none

def time (text : String) : Except SyntaxCause Value :=
  match readTime text.toList with
  | some n => .ok (.int n .time)
  | none => .error (.badTime text)

def value (mode : NumericMode) (token : Token) : Except SyntaxCause Value :=
  let text := token.text
  match token.kind with
  | .hex => integer text 16 (text.toList.drop 2) .hex
  | .oct => integer text 8 (text.toList.drop 1) .oct
  | .real => real mode text
  | .date => date text
  | .time => time text
  | _ => integer text 10 text.toList .dec

end Calculator.Literal
