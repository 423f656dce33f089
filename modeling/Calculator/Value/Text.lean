import Calculator.Number.Decimal
import Calculator.Text.Grouping
import Calculator.Value.Basic

set_option autoImplicit false

namespace Calculator.Value

def hexText (n : Int) : List Char :=
  (if n < 0 then ['-'] else []) ++ '0' :: 'x' :: Numeral.hexadecimal n.natAbs

/-- Octal digits behind a zero; zero itself is a single digit. -/
def octText (n : Int) : List Char :=
  if n = 0 then ['0']
  else (if n < 0 then ['-'] else []) ++ '0' :: Numeral.octal n.natAbs

def twoDigits (n : Nat) : List Char :=
  Numeral.padZeros 2 (Numeral.decimal n)

/-- Minutes and seconds, behind hours if there are any. -/
def timeText (n : Int) : List Char :=
  let seconds := n.natAbs
  let hours := seconds / 3600
  (if n < 0 then ['-'] else []) ++ (if hours = 0 then [] else twoDigits hours ++ [':']) ++
    twoDigits (seconds / 60 % 60) ++ ':' :: twoDigits (seconds % 60)

/-- A decimal presentation and the hexadecimal one behind a tabulator. -/
def withHex (text : List Char) (n : Int) : List Char :=
  text ++ '\t' :: hexText n

def intText (n : Int) (flavor : Flavor) (programmer : Bool) : List Char :=
  let grouped := Grouping.groupChars (Numeral.integer n)
  match flavor with
  | .hex => if programmer then withHex (Numeral.integer n) n else hexText n
  | .oct => octText n
  | .time => timeText n
  | .dec | .exp => if programmer then withHex grouped n else grouped

def floatText (x : Float) (flavor : Flavor) : List Char :=
  if !Binary64.isFinite x then FloatText.display x
  else if flavor = .exp then FloatText.displayScientific x
  else Grouping.groupChars (FloatText.display x)

/-- The decimal expansion, cut after so many digits; there is no sign where only zeros are left. -/
def truncatedDecimal (q : Rat) (precision : Nat) : List Char :=
  let cut := q.num.natAbs * Nat.pow 10 precision / q.den
  let digits := Numeral.decimal cut
  let sign := if q.num < 0 ∧ cut ≠ 0 then ['-'] else []
  if precision = 0 then sign ++ digits
  else
    let padded := Numeral.padZeros (precision + 1) digits
    sign ++ padded.take (padded.length - precision) ++
      '.' :: padded.drop (padded.length - precision)

/-- The text of a value, with the programmer flag or without. -/
def render (v : Value) (programmer : Bool) : String :=
  match v with
  | .int n flavor => String.ofList (intText n flavor programmer)
  | .float x flavor => String.ofList (floatText x flavor)
  | .rational q _ precision =>
    String.ofList (Grouping.groupChars (truncatedDecimal q precision))
  | .date d => String.ofList d.text
  | .function name params _ => name ++ "(" ++ ", ".intercalate params ++ ")"
  | .builtin b => b.name ++ "/" ++ String.ofList (Numeral.decimal b.arity)

def ratioText (q : Rat) : String :=
  String.ofList (Numeral.integer q.num ++ '/' :: Numeral.decimal q.den)

/-- The text of a value behind its kind, a rational also as a quotient. -/
def describe (v : Value) (programmer : Bool) : String :=
  match v with
  | .rational q _ _ => "rational " ++ ratioText q ++ " = " ++ v.render programmer
  | _ => v.kind.name ++ " " ++ v.render programmer

end Calculator.Value
