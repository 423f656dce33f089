import Calculator.Number.Binary64
import Calculator.Number.Integer
import Calculator.Value.Error

set_option autoImplicit false

namespace Calculator.Value

def mismatch (v : Value) (op : String) (line : Position) : EvalError :=
  .typeMismatch op v.kind line

def toInt (v : Value) (op : String) (line : Position) : Except EvalError Int :=
  match v with
  | .int n _ => .ok n
  | _ => .error (v.mismatch op line)

def toRational (v : Value) (op : String) (line : Position) : Except EvalError Rat :=
  match v with
  | .int n _ => .ok n
  | .rational q _ _ => .ok q
  | _ => .error (v.mismatch op line)

def toFloat (v : Value) (op : String) (line : Position) : Except EvalError Float :=
  match v with
  | .int n _ => .ok (Binary64.ofInt n)
  | .rational q _ _ => .ok (Binary64.ofRat q)
  | .float x _ => .ok x
  | _ => .error (v.mismatch op line)

/-- An integer is true unless it is zero. -/
def toBool (v : Value) (line : Position) : Except EvalError Bool :=
  match v with
  | .int n _ => .ok (n ≠ 0)
  | _ => .error (.notABoolean v.kind line)

end Calculator.Value

namespace Calculator.Builtin

def single (b : Builtin) (args : List Value) (line : Position) : Except EvalError Value :=
  match args with
  | [v] => .ok v
  | _ => .error (.arityMismatch b.name args.length b.arity line)

def onFloat (b : Builtin) (f : Float → Float) (v : Value) (line : Position) :
    Except EvalError Value :=
  do return .float (f (← v.toFloat b.name line)) .dec

def absolute (v : Value) (line : Position) : Except EvalError Value :=
  match v with
  | .int n flavor => .ok (.int n.natAbs flavor)
  | .float x flavor => .ok (.float x.abs flavor)
  | .rational q flavor precision =>
    .ok (.rational (if q < 0 then -q else q) flavor precision)
  | _ => .error (v.mismatch Builtin.abs.name line)

def rounded (b : Builtin) (f : Rat → Int) (v : Value) (line : Position) : Except EvalError Value :=
  match v with
  | .int n flavor => .ok (.int n flavor)
  | .rational q _ _ => .ok (.int (f q) .dec)
  | .float x _ =>
    match Binary64.toRat? x with
    | some q => .ok (.int (f q) .dec)
    | none => .error (.domain (.notAnInteger b x) line)
  | _ => .error (v.mismatch b.name line)

def applyTo (b : Builtin) (v : Value) (line : Position) : Except EvalError Value :=
  match b with
  | .abs => absolute v line
  | .floor => rounded .floor Rat.floor v line
  | .ceil => rounded .ceil Rat.ceil v line
  | .acos => onFloat .acos Float.acos v line
  | .asin => onFloat .asin Float.asin v line
  | .atan => onFloat .atan Float.atan v line
  | .cos => onFloat .cos Float.cos v line
  | .cosh => onFloat .cosh Float.cosh v line
  | .ln => onFloat .ln Float.log v line
  | .log10 => onFloat .log10 Float.log10 v line
  | .log2 => onFloat .log2 Float.log2 v line
  | .sin => onFloat .sin Float.sin v line
  | .sinh => onFloat .sinh Float.sinh v line
  | .sqrt => onFloat .sqrt Float.sqrt v line
  | .tan => onFloat .tan Float.tan v line
  | .tanh => onFloat .tanh Float.tanh v line

/-- What a builtin function does to a list of arguments. -/
def apply (b : Builtin) (args : List Value) (line : Position) : Except EvalError Value := do
  b.applyTo (← b.single args line) line

end Calculator.Builtin

namespace Calculator.Value

/-- The digits that the result of a division has more than its operands. -/
def divisionHeadroom : Nat := 8

/-- The most digits that a result is shown with. -/
def maxPrecision : Nat := 64

def capped (precision : Nat) : Nat :=
  min precision maxPrecision

/-- The error of an operation that its widest kind does not have. It names the widest kind, or the
first function among the operands. -/
def unsupported (op : Operation) (a b : Value) (line : Position) : EvalError :=
  let kind :=
    match a.widest b with
    | .callable => if a.isCallable then a.kind else b.kind
    | breadth => breadth.kind
  .typeMismatch op.symbol kind line

def dayCount (offset : Value) (op : Operation) (line : Position) : Except EvalError Int := do
  let n ← offset.toInt op.symbol line
  if Word.fits64 n then .ok n
  else .error (.domain .dayOffsetOutOfRange line)

def shiftDate (d : Date) (days : Int) (line : Position) : Except EvalError Value :=
  match d.shift? days with
  | some e => .ok (.date e)
  | none => .error (.domain .dateOutOfRange line)

def add (a b : Value) (line : Position) : Except EvalError Value :=
  let op := Operation.add
  let flavor := a.flavor.merge b.flavor
  match a.widest b with
  | .integer => do
    return .int ((← a.toInt op.symbol line) + (← b.toInt op.symbol line)) flavor
  | .rational => do
    return .rational ((← a.toRational op.symbol line) + (← b.toRational op.symbol line)) flavor
      (max a.precision b.precision)
  | .float => do
    return .float ((← a.toFloat op.symbol line) + (← b.toFloat op.symbol line)) flavor
  | .date =>
    match a, b with
    | .date d, offset => do shiftDate d (← offset.dayCount op line) line
    | offset, .date d => do shiftDate d (← offset.dayCount op line) line
    | _, _ => .error (unsupported op a b line)
  | .callable => .error (unsupported op a b line)

def subtract (a b : Value) (line : Position) : Except EvalError Value :=
  let op := Operation.subtract
  let flavor := a.flavor.merge b.flavor
  match a.widest b with
  | .integer => do
    return .int ((← a.toInt op.symbol line) - (← b.toInt op.symbol line)) flavor
  | .rational => do
    return .rational ((← a.toRational op.symbol line) - (← b.toRational op.symbol line)) flavor
      (max a.precision b.precision)
  | .float => do
    return .float ((← a.toFloat op.symbol line) - (← b.toFloat op.symbol line)) flavor
  | .date =>
    match a, b with
    | .date d, .date e => .ok (.int (d.daysSince e) .dec)
    | .date d, offset => do
      let days ← offset.dayCount op line
      if days = Word.least64 then .error (.domain .dayOffsetOutOfRange line)
      else shiftDate d (-days) line
    | _, _ => .error (unsupported op a b line)
  | .callable => .error (unsupported op a b line)

def multiply (a b : Value) (line : Position) : Except EvalError Value :=
  let op := Operation.multiply
  let flavor := a.flavor.merge b.flavor
  match a.widest b with
  | .integer => do
    return .int ((← a.toInt op.symbol line) * (← b.toInt op.symbol line)) flavor
  | .rational => do
    return .rational ((← a.toRational op.symbol line) * (← b.toRational op.symbol line)) flavor
      (capped (a.precision + b.precision))
  | .float => do
    return .float ((← a.toFloat op.symbol line) * (← b.toFloat op.symbol line)) flavor
  | .date | .callable => .error (unsupported op a b line)

def divideExactly (a b : Value) (line : Position) : Except EvalError Value := do
  let divisor ← b.toRational Operation.divide.symbol line
  if divisor = 0 then .error (.divisionByZero line)
  else
    return .rational ((← a.toRational Operation.divide.symbol line) / divisor) .dec
      (capped (max a.precision b.precision + divisionHeadroom))

def divideFloats (a b : Value) (line : Position) : Except EvalError Value := do
  let symbol := Operation.divide.symbol
  return .float ((← a.toFloat symbol line) / (← b.toFloat symbol line)) .dec

def divide (mode : NumericMode) (a b : Value) (line : Position) : Except EvalError Value :=
  match a.widest b, mode with
  | .date, _ | .callable, _ => .error (unsupported .divide a b line)
  | _, .undefined => .error (.modeUndefined Operation.divide.symbol line)
  | .float, .rational => divideFloats a b line
  | _, .rational => divideExactly a b line
  | _, .float => divideFloats a b line

/-- The remainder of integers, never negative. -/
def remainder (a b : Value) (line : Position) : Except EvalError Value :=
  let op := Operation.remainder
  match a.widest b with
  | .integer => do
    let divisor ← b.toInt op.symbol line
    if divisor = 0 then .error (.divisionByZero line)
    else return .int ((← a.toInt op.symbol line) % divisor) (a.flavor.merge b.flavor)
  | _ => .error (unsupported op a b line)

/-- The power of a rational; the exponent fits into a signed word of 32 bits. -/
def rationalPower (base : Rat) (exponent : Int) (precision : Nat) (line : Position) :
    Except EvalError Value :=
  if !Word.fits32 exponent then .error (.domain .exponentTooLarge line)
  else if exponent < 0 ∧ base = 0 then .error (.divisionByZero line)
  else .ok (.rational (Power.rat base exponent) .dec precision)

def floatPower (a b : Value) (line : Position) : Except EvalError Float := do
  let symbol := Operation.power.symbol
  return Float.pow (← a.toFloat symbol line) (← b.toFloat symbol line)

/-- The power of rationals whose exponent is no integer, computed with floats. -/
def fractionalPower (mode : NumericMode) (a b : Value) (line : Position) :
    Except EvalError Value := do
  let x ← floatPower a b line
  match mode with
  | .undefined => .error (.modeUndefined Operation.power.symbol line)
  | .float => .ok (.float x .dec)
  | .rational =>
    match Binary64.toRat? x with
    | none => .error (.domain (.notRational x) line)
    | some q =>
      .ok (.rational q .dec (capped (max (max a.precision b.precision) divisionHeadroom)))

def integerPower (mode : NumericMode) (a b : Value) (line : Position) : Except EvalError Value := do
  let symbol := Operation.power.symbol
  let base ← a.toInt symbol line
  let exponent ← b.toInt symbol line
  if 0 ≤ exponent then
    if Word.fitsUnsigned32 exponent then return .int (Power.int base exponent.toNat) a.flavor
    else .error (.domain .exponentTooLarge line)
  else
    match mode with
    | .undefined => .error (.modeUndefined symbol line)
    | .float => return .float (← floatPower a b line) .dec
    | .rational => rationalPower (← a.toRational symbol line) exponent divisionHeadroom line

def power (mode : NumericMode) (a b : Value) (line : Position) : Except EvalError Value :=
  let symbol := Operation.power.symbol
  match a.widest b with
  | .integer => integerPower mode a b line
  | .rational => do
    let base ← a.toRational symbol line
    let exponent ← b.toRational symbol line
    if exponent.den = 1 then
      rationalPower base exponent.num (capped (max a.precision 1 * exponent.num.natAbs)) line
    else fractionalPower mode a b line
  | .float => do return .float (← floatPower a b line) .dec
  | .date | .callable => .error (unsupported .power a b line)

def bitwise (op : Operation) (f : Int → Int → Int) (a b : Value) (line : Position) :
    Except EvalError Value :=
  match a.widest b with
  | .integer => do
    return .int (f (← a.toInt op.symbol line) (← b.toInt op.symbol line))
      (a.flavor.merge b.flavor)
  | _ => .error (unsupported op a b line)

def logical (f : Bool → Bool → Bool) (a b : Value) (line : Position) : Except EvalError Value := do
  let x ← a.toBool line
  let y ← b.toBool line
  return boolean (f x y)

def orderingOf (less equal : Bool) : Ordering :=
  if less then .lt else if equal then .eq else .gt

def compareFloats (x y : Float) : Option Ordering :=
  if x < y then some .lt
  else if x == y then some .eq
  else if y < x then some .gt
  else none

/-- The ordering of two numbers or two dates; floats may have none. -/
def compare? (op : Operation) (a b : Value) (line : Position) :
    Except EvalError (Option Ordering) :=
  match a.widest b with
  | .integer => do
    let x ← a.toInt op.symbol line
    let y ← b.toInt op.symbol line
    return some (orderingOf (x < y) (x = y))
  | .rational => do
    let x ← a.toRational op.symbol line
    let y ← b.toRational op.symbol line
    return some (orderingOf (x < y) (x = y))
  | .float => do
    return compareFloats (← a.toFloat op.symbol line) (← b.toFloat op.symbol line)
  | .date =>
    match a, b with
    | .date d, .date e => .ok (some (orderingOf (d.day < e.day) (d.day = e.day)))
    | _, _ => .error (unsupported op a b line)
  | .callable => .error (unsupported op a b line)

def comparison (op : Operation) (test : Option Ordering → Bool) (a b : Value) (line : Position) :
    Except EvalError Value := do
  return boolean (test (← compare? op a b line))

/-- What an operation does to two values in a numeric mode. -/
def apply (op : Operation) (mode : NumericMode) (a b : Value) (line : Position) :
    Except EvalError Value :=
  match op with
  | .add => add a b line
  | .subtract => subtract a b line
  | .multiply => multiply a b line
  | .divide => divide mode a b line
  | .remainder => remainder a b line
  | .power => power mode a b line
  | .logicalOr => logical or a b line
  | .bitOr => bitwise .bitOr Bitwise.or a b line
  | .logicalAnd => logical and a b line
  | .bitAnd => bitwise .bitAnd Bitwise.and a b line
  | .equal => comparison .equal (· == some .eq) a b line
  | .notEqual => comparison .notEqual (· != some .eq) a b line
  | .greater => comparison .greater (· == some .gt) a b line
  | .greaterEqual => comparison .greaterEqual (fun o => o == some .gt || o == some .eq) a b line
  | .less => comparison .less (· == some .lt) a b line
  | .lessEqual => comparison .lessEqual (fun o => o == some .lt || o == some .eq) a b line

def negate (v : Value) (line : Position) : Except EvalError Value :=
  match v with
  | .int n flavor => .ok (.int (-n) flavor)
  | .float x flavor => .ok (.float (-x) flavor)
  | .rational q flavor precision => .ok (.rational (-q) flavor precision)
  | _ => .error (v.mismatch Transformation.negate.symbol line)

def not (v : Value) (line : Position) : Except EvalError Value :=
  match v with
  | .int n _ => .ok (boolean (n = 0))
  | _ => .error (v.mismatch Transformation.not.symbol line)

def transform (t : Transformation) (v : Value) (line : Position) : Except EvalError Value :=
  match t with
  | .negate => v.negate line
  | .not => v.not line

def step (s : Step) (v : Value) (line : Position) : Except EvalError Value :=
  match v with
  | .int n flavor => .ok (.int (n + s.delta) flavor)
  | .float x flavor => .ok (.float (x + Float.ofInt s.delta) flavor)
  | .rational q flavor precision => .ok (.rational (q + s.delta) flavor precision)
  | _ => .error (v.mismatch s.symbol line)

end Calculator.Value
